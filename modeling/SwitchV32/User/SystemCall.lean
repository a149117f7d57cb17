import SwitchV32.Effect
import SwitchV32.Overlay
import SwitchV32.User
import SwitchV32.User.Files

/-!
# The system calls of the user build

`emu_system_call` of `user/emu.c`: which host function each call reaches, with
which arguments, what becomes of `a0`, and what is copied to guest memory from
where. What the host answers is given, and so is what the locals hold that it
is to fill in.
-/

namespace SwitchV32

namespace Emu

open Effect
open User (elfFdsBaseline hostFd)

-- ---------------------------------------------------------------------------
-- Structures of the host and of the guest
-- ---------------------------------------------------------------------------

/-- `struct timespec` and `struct timeval` of the host: seconds, and nanoseconds or microseconds. -/
structure HostTime where
  sec : BitVec 64
  frac : BitVec 64

structure HostStat where
  stDev : BitVec 64
  stIno : BitVec 64
  stMode : U32
  stNlink : BitVec 64
  stUid : U32
  stGid : U32
  stRdev : BitVec 64
  stSize : BitVec 64
  stAtim : HostTime
  stMtim : HostTime
  stCtim : HostTime
  stBlksize : BitVec 64
  stBlocks : BitVec 64

structure EmuTime where
  sec : BitVec 64
  frac : U32
  deriving DecidableEq

/-- `struct EMU_stat` without `st_spare4`, which nothing is copied to. -/
structure EmuStat where
  stDev : U16
  stIno : U16
  stMode : U32
  stNlink : U16
  stUid : U16
  stGid : U16
  stRdev : U16
  stSize : U32
  stAtim : EmuTime
  stMtim : EmuTime
  stCtim : EmuTime
  stBlksize : U32
  stBlocks : U32

/-- `sizeof(struct EMU_timespec)` and `sizeof(struct EMU_timeval)`, with the padding at the end. -/
def EmuTime.bytes : Nat := 16

def EmuStat.bytes : Nat := 88

def int32Max : Int := 2 ^ 31 - 1
def int32Min : Int := -2 ^ 31

/-- The common part of the two copies, `unit` being what is a second. -/
def emuCopyTime (unit : BitVec 64) (t : HostTime) : EmuTime :=
  -- beyond 32 bits
  let t : HostTime :=
    if t.frac.toInt > int32Max ∨ t.frac.toInt < int32Min then
      let extraSec := t.frac.sdiv unit
      ⟨t.sec + extraSec, t.frac - extraSec * unit⟩
    else t
  -- negative, but within 32 bits
  let t : HostTime := if t.frac.toInt < 0 then ⟨t.sec - 1, t.frac + unit⟩ else t
  ⟨t.sec, t.frac.setWidth 32⟩

def emuCopyTimespec (ts : HostTime) : EmuTime := emuCopyTime 1000000000 ts
def emuCopyTimeval (tv : HostTime) : EmuTime := emuCopyTime 1000000 tv

def emuCopyStat (fs : HostStat) : EmuStat where
  stDev := fs.stDev.setWidth 16
  stIno := fs.stIno.setWidth 16
  stMode := fs.stMode
  stNlink := fs.stNlink.setWidth 16
  stUid := fs.stUid.setWidth 16
  stGid := fs.stGid.setWidth 16
  stRdev := fs.stRdev.setWidth 16
  stSize :=
    if fs.stSize.toInt > int32Max ∨ fs.stSize.toInt < int32Min then BitVec.ofInt 32 int32Max
    else fs.stSize.setWidth 32
  stAtim := emuCopyTimespec fs.stAtim
  stMtim := emuCopyTimespec fs.stMtim
  stCtim := emuCopyTimespec fs.stCtim
  stBlksize := fs.stBlksize.setWidth 32
  stBlocks := fs.stBlocks.setWidth 32

/-- A member of a structure: where it is, and its bytes with the first one least significant. -/
def member (off : Nat) {w : Nat} (v : BitVec w) : Overlay U8 :=
  ⟨off, (List.range (w / 8)).map fun i => (v >>> (8 * i)).setWidth 8⟩

/-- The members that are assigned, in their order, of a structure at distance `off`. -/
def EmuTime.members (off : Nat) (t : EmuTime) : List (Overlay U8) :=
  [member off t.sec, member (off + 8) t.frac]

def EmuStat.members (s : EmuStat) : List (Overlay U8) :=
  [member 0 s.stDev, member 2 s.stIno, member 4 s.stMode, member 8 s.stNlink, member 10 s.stUid,
    member 12 s.stGid, member 14 s.stRdev, member 16 s.stSize] ++
    s.stAtim.members 24 ++ s.stMtim.members 40 ++ s.stCtim.members 56 ++
    [member 72 s.stBlksize, member 76 s.stBlocks]

-- ---------------------------------------------------------------------------
-- The machine and the host
-- ---------------------------------------------------------------------------

structure EmuState (σ : Type) where
  machine : Machine σ
  /-- a local that the host has not filled in was copied to the guest -/
  leaked : Bool

abbrev EmuM (σ : Type) := Effect (EmuState σ) Stop

inductive SdlCall
  | sdlInit | sdlWritePalette | sdlWriteFb | sdlShutdown | sdlPullEvents
  deriving DecidableEq, Repr

/-- What the process has besides the core and guest memory. A host function that fails gives
`none`, or the `-1` that it returns. -/
structure Host (σ : Type) where
  close : Int → U32
  lseek : Int → BitVec 64 → U32 → BitVec 64
  /-- the bytes that are read from a file, of so many that are asked for -/
  read : Int → Nat → Option (List U8)
  /-- `read` moves at most `0x7ffff000` bytes at a time. -/
  read_le : ∀ fd n bytes, read fd n = some bytes → bytes.length ≤ n ∧ bytes.length ≤ 0x7ffff000
  /-- `write` of so many bytes of guest memory from an address on -/
  write : Int → Mem → U32 → U32 → BitVec 64
  fstat : Int → Option HostStat
  /-- the time, and what is filled in as the time zone where that is done -/
  gettimeofday : Option (HostTime × Option (BitVec 64))
  clockGettime : U32 → Option HostTime
  /-- `open` of the path at an address, with flags; then the file goes to the guest's side -/
  openFile : Mem → U32 → U32 → U32
  /-- `ctx.brk_limit` -/
  brkLimit : U32
  sdl : SdlCall → EmuM σ Unit

/-- What the stack holds at the locals of `emu_system_call`. -/
structure Locals where
  fs : HostStat
  ts : HostTime
  tv : HostTime

inductive Call
  | close | lseek | read | write | fstat | exit | gettimeofday | brk | clockGettime | openFile
  | sdl (call : SdlCall)
  deriving DecidableEq, Repr

def callOf (a7 : U32) : Option Call :=
  if a7 = 57 then some .close
  else if a7 = 62 then some .lseek
  else if a7 = 63 then some .read
  else if a7 = 64 then some .write
  else if a7 = 80 then some .fstat
  else if a7 = 93 then some .exit
  else if a7 = 169 then some .gettimeofday
  else if a7 = 214 then some .brk
  else if a7 = 403 then some .clockGettime
  else if a7 = 1024 then some .openFile
  else if a7 = 2100 then some (.sdl .sdlInit)
  else if a7 = 2101 then some (.sdl .sdlWritePalette)
  else if a7 = 2102 then some (.sdl .sdlWriteFb)
  else if a7 = 2103 then some (.sdl .sdlPullEvents)
  else if a7 = 2104 then some (.sdl .sdlShutdown)
  else none

section
variable {σ α : Type}

def EmuState.start (m : Machine σ) : EmuState σ := ⟨m, false⟩

def EmuState.reg (s : EmuState σ) (r : Reg) : U32 := s.machine.reg r

def EmuState.setReg (s : EmuState σ) (r : Reg) (v : U32) : EmuState σ :=
  { s with machine := s.machine.setReg r v }

def EmuState.setBrk (s : EmuState σ) (v : U32) : EmuState σ :=
  { s with machine := { s.machine with core := { s.machine.core with elfBrk := v } } }

def EmuState.put (s : EmuState σ) (o : Overlay U8) : EmuState σ :=
  { s with machine := { s.machine with
      vmem := { s.machine.vmem with byte := o.put s.machine.vmem.byte } } }

def behind (addr : U32) (o : Overlay U8) : Overlay U8 := ⟨addr.toNat + o.start, o.values⟩

def putAt (addr : U32) (o : Overlay U8) : EmuM σ Unit := do
  let s ← get
  if o.values = [] ∨ addr.toNat + o.start + o.values.length ≤ s.machine.vmem.size then
    set (s.put (behind addr o))
  else throw .fault

def putMembers (addr : U32) (os : List (Overlay U8)) : EmuM σ Unit := os.forM (putAt addr)

/-- A local that the host was to fill in goes to the guest: `filled` if it was. -/
def copyLocal (addr : U32) (filled : Option α) (uninit : α) (members : α → List (Overlay U8)) :
    EmuM σ Unit := do
  modify fun s => { s with leaked := s.leaked || filled.isNone }
  putMembers addr (members (filled.getD uninit))

def setA0 (v : U32) : EmuM σ Unit := modify fun s => s.setReg Reg.a0 v

def answer (filled : Option α) : U32 := if filled.isSome then 0 else -1

/-- A negative descriptor is refused, another one is passed on. -/
def onFd (a0 : U32) (call : Int → EmuM σ Unit) : EmuM σ Unit :=
  if a0.toInt < 0 then setA0 (-1) else call (hostFd a0)

variable (host : Host σ) (locals : Locals)

def emuRead (m : Machine σ) (fd : Int) : EmuM σ Unit :=
  match host.read fd (m.reg Reg.a2).toNat with
  | none => setA0 (-1)
  | some bytes => do
    putAt (m.reg Reg.a1) ⟨0, bytes⟩
    setA0 (BitVec.ofNat 32 bytes.length)

def emuFstat (m : Machine σ) (fd : Int) : EmuM σ Unit := do
  setA0 (answer (host.fstat fd))
  copyLocal (m.reg Reg.a1) (host.fstat fd) locals.fs fun fs => (emuCopyStat fs).members

/-- The second argument of `gettimeofday` is for the time zone. -/
def putTimezone (addr : U32) : Option (BitVec 64) → EmuM σ Unit
  | none => return
  | some tz => putAt addr (member 0 tz)

/-- The time goes behind `a0`, which is the answer by then. -/
def emuGettimeofday (m : Machine σ) : EmuM σ Unit := do
  putTimezone (m.reg Reg.a1) (host.gettimeofday.bind Prod.snd)
  setA0 (answer host.gettimeofday)
  let s ← get
  copyLocal (s.reg Reg.a0) (host.gettimeofday.map Prod.fst) locals.tv fun tv =>
    (emuCopyTimeval tv).members 0

def emuClockGettime (m : Machine σ) : EmuM σ Unit := do
  setA0 (answer (host.clockGettime (m.reg Reg.a0)))
  copyLocal (m.reg Reg.a1) (host.clockGettime (m.reg Reg.a0)) locals.ts fun ts =>
    (emuCopyTimespec ts).members 0

def emuOpen (m : Machine σ) : EmuM σ Unit := do
  let fd := host.openFile m.vmem (m.reg Reg.a0) (m.reg Reg.a1)
  setA0 fd
  if fd.toInt < 0 then return
  else if elfFdsBaseline ≤ fd.toInt then throw (.exit exitFailure)
  else return

def emuBrk (m : Machine σ) : EmuM σ Unit :=
  if host.brkLimit ≤ m.reg Reg.a0 then setA0 (-1)
  else do
    modify fun s => if 0 < m.reg Reg.a0 then s.setBrk (m.reg Reg.a0) else s
    let s ← get
    setA0 s.machine.core.elfBrk

def emuCall (m : Machine σ) : Call → EmuM σ Unit
  | .close => onFd (m.reg Reg.a0) fun fd => setA0 (host.close fd)
  | .lseek => onFd (m.reg Reg.a0) fun fd =>
    setA0 ((host.lseek fd ((m.reg Reg.a1).setWidth 64) (m.reg Reg.a2)).setWidth 32)
  | .read => onFd (m.reg Reg.a0) (emuRead host m)
  | .write => onFd (m.reg Reg.a0) fun fd =>
    setA0 ((host.write fd m.vmem (m.reg Reg.a1) (m.reg Reg.a2)).setWidth 32)
  | .fstat => onFd (m.reg Reg.a0) (emuFstat host locals m)
  | .exit => throw (.exit (m.reg Reg.a0).toNat)
  | .gettimeofday => emuGettimeofday host locals m
  | .brk => emuBrk host m
  | .clockGettime => emuClockGettime host locals m
  | .openFile => emuOpen host m
  | .sdl call => host.sdl call

def emuSystemCall : EmuM σ Unit := do
  let s ← get
  match callOf (s.reg Reg.a7) with
  | some call => emuCall host locals s.machine call
  | none => do
    setA0 0
    throw (.exit exitFailure)

end

-- ---------------------------------------------------------------------------
-- What the parts of a call leave alone
-- ---------------------------------------------------------------------------

section
variable {σ α : Type} {P : EmuState σ → Prop} {s : EmuState σ} {m : Machine σ} {call : Call}
variable {host : Host σ} {locals : Locals} {addr v : U32} {o : Overlay U8} {os : List (Overlay U8)}

@[simp] theorem EmuState.reg_setReg_self (s : EmuState σ) (r : Reg) (v : U32) :
    (s.setReg r v).reg r = v := Machine.reg_setReg_self _ _ _

@[simp] theorem EmuState.vmem_start (m : Machine σ) :
    (EmuState.start m).machine.vmem = m.vmem := rfl

@[simp] theorem EmuState.vmem_setReg (s : EmuState σ) (r : Reg) (v : U32) :
    (s.setReg r v).machine.vmem = s.machine.vmem := rfl

theorem out_emuSystemCall (hcall : callOf (m.reg Reg.a7) = some call) :
    out (emuSystemCall host locals) (.start m) = out (emuCall host locals m call) (.start m) := by
  have hreg : callOf ((EmuState.start m).reg Reg.a7) = some call := hcall
  rw [emuSystemCall, out_bind_ok _ (out_get _), hreg]
  rfl

theorem out_setA0_bind (v : U32) (f : Unit → EmuM σ Unit) (s : EmuState σ) :
    out (setA0 v >>= f) s = out (f ()) (s.setReg Reg.a0 v) := out_bind_ok f (out_modify _ s)

theorem putAt_keeps (hP : ∀ s o, P s → P (s.put o)) (addr : U32) (o : Overlay U8) :
    Keeps P (putAt addr o) :=
  Keeps.get_bind fun s hs => Keeps.ite (fun _ _ _ => hP s _ hs) fun _ => Keeps.throw _

theorem putMembers_keeps (hP : ∀ s o, P s → P (s.put o)) (addr : U32) (os : List (Overlay U8)) :
    Keeps P (putMembers addr os) :=
  Keeps.forM (fun o => putAt_keeps hP addr o) os

theorem copyLocal_a0 (addr : U32) (filled : Option α) (uninit : α)
    (members : α → List (Overlay U8)) (h : s.reg Reg.a0 = v) :
    (out (copyLocal addr filled uninit members) s).2.reg Reg.a0 = v ∧
      (filled = none → (out (copyLocal addr filled uninit members) s).2.leaked = true) := by
  have hcopy := putMembers_keeps (P := fun s : EmuState σ => s.reg Reg.a0 = v ∧
    (filled = none → s.leaked = true)) (fun _ _ h => h) addr (members (filled.getD uninit))
  rw [copyLocal, out_bind_ok _ (out_modify _ s)]
  exact hcopy _ ⟨h, fun hnone => by simp [hnone]⟩

-- ---------------------------------------------------------------------------
-- Calls that fail
-- ---------------------------------------------------------------------------

def answering : List Call :=
  [.close, .lseek, .read, .write, .fstat, .gettimeofday, .clockGettime]

def Untouched (m : Machine σ) (s : EmuState σ) : Prop :=
  s.machine.vmem = m.vmem ∧ s.leaked = false

/-- Where the call reports failure, guest memory is as it was. -/
def FailsClean (m : Machine σ) (s : EmuState σ) : Prop := s.reg Reg.a0 = -1 → Untouched m s

def Unfilled (host : Host σ) (m : Machine σ) : Call → Prop
  | .fstat => 0 ≤ (m.reg Reg.a0).toInt ∧ host.fstat (hostFd (m.reg Reg.a0)) = none
  | .gettimeofday => host.gettimeofday = none
  | .clockGettime => host.clockGettime (m.reg Reg.a0) = none
  | _ => False

theorem Untouched.start (m : Machine σ) : Untouched m (.start m) := ⟨rfl, rfl⟩

theorem setA0_failsClean (m : Machine σ) (v : U32) :
    FailsClean m (out (setA0 v) (.start m)).2 := fun _ => .start m

theorem failsClean_of_a0 (h : s.reg Reg.a0 = 0) : FailsClean m s := by
  intro hfailed
  rw [h] at hfailed
  cases hfailed

theorem onFd_failsClean {a0 : U32} {call : Int → EmuM σ Unit}
    (h : 0 ≤ a0.toInt → FailsClean m (out (call (hostFd a0)) (.start m)).2) :
    FailsClean m (out (onFd a0 call) (.start m)).2 := by
  unfold onFd
  split
  · exact setA0_failsClean m _
  · rename_i hneg
    exact h (by omega)

/-- A read that is not all inside memory has no answer yet, one that is has a count. -/
theorem emuRead_failsClean (host : Host σ) (m : Machine σ) (fd : Int) :
    FailsClean m (out (emuRead host m fd) (.start m)).2 := by
  unfold emuRead
  cases hread : host.read fd (m.reg Reg.a2).toNat with
  | none => exact setA0_failsClean m _
  | some bytes =>
    obtain ⟨-, hmax⟩ := host.read_le _ _ _ hread
    dsimp only
    rw [putAt, bind_assoc, out_bind_ok _ (out_get _)]
    split
    · rw [out_bind_ok _ (out_set _ _)]
      intro hfailed
      have hcount : BitVec.ofNat 32 bytes.length = -1 := hfailed
      have hlength := congrArg BitVec.toNat hcount
      have hones : (-1 : U32).toNat = 2 ^ 32 - 1 := rfl
      rw [BitVec.toNat_ofNat, hones] at hlength
      omega
    · exact fun _ => .start m

theorem copyLocal_failsClean_iff (filled : Option α) (uninit : α)
    (members : α → List (Overlay U8)) (h : s.reg Reg.a0 = answer filled) :
    FailsClean m (out (copyLocal addr filled uninit members) s).2 ↔ filled ≠ none := by
  obtain ⟨ha0, hleaked⟩ := copyLocal_a0 addr filled uninit members h
  cases filled with
  | none =>
    refine iff_of_false (fun hclean => ?_) fun hne => hne rfl
    obtain ⟨-, hnot⟩ := hclean ha0
    cases (hleaked rfl).symm.trans hnot
  | some filled => exact iff_of_true (failsClean_of_a0 ha0) (Option.some_ne_none _)

theorem emuFstat_failsClean_iff (host : Host σ) (locals : Locals) (m : Machine σ) (fd : Int) :
    FailsClean m (out (emuFstat host locals m fd) (.start m)).2 ↔ host.fstat fd ≠ none := by
  rw [emuFstat, out_setA0_bind]
  exact copyLocal_failsClean_iff _ _ _ (EmuState.reg_setReg_self _ _ _)

theorem emuClockGettime_failsClean_iff (host : Host σ) (locals : Locals) (m : Machine σ) :
    FailsClean m (out (emuClockGettime host locals m) (.start m)).2 ↔
      host.clockGettime (m.reg Reg.a0) ≠ none := by
  rw [emuClockGettime, out_setA0_bind]
  exact copyLocal_failsClean_iff _ _ _ (EmuState.reg_setReg_self _ _ _)

/-- The time zone is filled in before there is an answer, or not at all. -/
theorem emuGettimeofday_failsClean_iff (host : Host σ) (locals : Locals) (m : Machine σ) :
    FailsClean m (out (emuGettimeofday host locals m) (.start m)).2 ↔
      host.gettimeofday ≠ none := by
  have hcopy (s : EmuState σ) : FailsClean m (out (setA0 (answer host.gettimeofday) >>= fun _ =>
      get >>= fun s => copyLocal (s.reg Reg.a0) (host.gettimeofday.map Prod.fst) locals.tv
        fun tv => (emuCopyTimeval tv).members 0) s).2 ↔ host.gettimeofday ≠ none := by
    rw [out_setA0_bind, out_bind_ok _ (out_get _)]
    have hanswer : answer (host.gettimeofday.map Prod.fst) = answer host.gettimeofday := by
      simp [answer]
    refine (copyLocal_failsClean_iff _ _ _ ?_).trans (by simp)
    rw [hanswer, EmuState.reg_setReg_self]
  unfold emuGettimeofday
  cases htz : host.gettimeofday.bind Prod.snd with
  | none =>
    rw [putTimezone, pure_bind]
    exact hcopy _
  | some tz =>
    rw [putTimezone, putAt, bind_assoc, out_bind_ok _ (out_get _)]
    split
    · rw [out_bind_ok _ (out_set _ _)]
      exact hcopy _
    · refine iff_of_true (fun _ => .start m) ?_
      rintro hnone
      rw [hnone] at htz
      cases htz

/-- For every memory, all registers and whatever the host answers, a call that reports failure has
left memory alone exactly if it does not copy a structure that the host could not fill in. -/
theorem failed_call_clean_iff (host : Host σ) (locals : Locals) (m : Machine σ)
    (hcall : callOf (m.reg Reg.a7) = some call) (hmem : call ∈ answering) :
    FailsClean m (out (emuSystemCall host locals) (.start m)).2 ↔ ¬ Unfilled host m call := by
  rw [out_emuSystemCall hcall]
  cases call with
  | close | lseek | write =>
    rw [emuCall]
    exact iff_of_true (onFd_failsClean fun _ => setA0_failsClean m _) id
  | read => exact iff_of_true (onFd_failsClean fun _ => emuRead_failsClean host m _) id
  | fstat =>
    simp only [emuCall, onFd, Unfilled]
    by_cases hneg : (m.reg Reg.a0).toInt < 0
    · rw [if_pos hneg]
      refine iff_of_true (setA0_failsClean m _) ?_
      rintro ⟨hpos, -⟩
      omega
    · have hpos : 0 ≤ (m.reg Reg.a0).toInt := by omega
      rw [if_neg hneg, emuFstat_failsClean_iff]
      simp [hpos]
  | gettimeofday => exact emuGettimeofday_failsClean_iff host locals m
  | clockGettime => exact emuClockGettime_failsClean_iff host locals m
  | exit | brk | openFile | sdl call => simp [answering] at hmem

end

/-- A process that makes a system call, with the register values given by `regs`. -/
def calling (regs : List (Reg × U32)) : Machine Unit where
  core := regs.foldl (fun core r => core.setReg r.1 r.2) (vcoreInit none)
  vmem := .ofWords []
  host := ()

def Host.failing (σ : Type) : Host σ where
  close _ := -1
  lseek _ _ _ := -1
  read _ _ := none
  read_le _ _ _ := by rintro ⟨⟩
  write _ _ _ _ := -1
  fstat _ := none
  gettimeofday := none
  clockGettime _ := none
  openFile _ _ _ := -1
  brkLimit := 0
  sdl _ := pure ()

def Host.telling (tv : HostTime) : Host Unit :=
  { Host.failing Unit with gettimeofday := some (tv, none) }

def Locals.filledWith (b : BitVec 8) : Locals :=
  let w : BitVec 64 := BitVec.ofNat 64 (b.toNat * 0x0101010101010101)
  let t : HostTime := ⟨w, w⟩
  ⟨⟨w, w, w.setWidth 32, w, w.setWidth 32, w.setWidth 32, w, w, t, t, t, w, w⟩, t, t⟩

def fstatOf (fd : U32) : Machine Unit := calling [(Reg.a7, 80), (Reg.a0, fd), (Reg.a1, 256)]

theorem failed_call_clean_negative :
    FailsClean (fstatOf (-1))
      (out (emuSystemCall (.failing Unit) (.filledWith 0x5a)) (.start (fstatOf (-1)))).2 := by
  have hcall : callOf ((fstatOf (-1)).reg Reg.a7) = some .fstat := by decide
  refine (failed_call_clean_iff _ _ _ hcall (by decide)).mpr ?_
  rintro ⟨hpos, -⟩
  exact absurd hpos (by decide)

/-- Where the descriptor is not open, what the stack held is in guest memory. -/
theorem failed_call_clean_fails : ∃ s,
    s = (out (emuSystemCall (.failing Unit) (.filledWith 0x5a)) (.start (fstatOf 5))).2 ∧
      s.reg Reg.a0 = -1 ∧ (fstatOf 5).vmem.byte 256 = 0 ∧ s.machine.vmem.byte 256 = 0x5a ∧
      ¬ FailsClean (fstatOf 5) s := by
  refine ⟨_, rfl, ?_⟩
  have ha0 : (out (emuSystemCall (.failing Unit) (.filledWith 0x5a))
      (.start (fstatOf 5))).2.reg Reg.a0 = -1 := by decide
  have hbyte : (out (emuSystemCall (.failing Unit) (.filledWith 0x5a))
      (.start (fstatOf 5))).2.machine.vmem.byte 256 = 0x5a := by decide
  refine ⟨ha0, by decide, hbyte, fun hclean => ?_⟩
  obtain ⟨hvmem, -⟩ := hclean ha0
  rw [hvmem] at hbyte
  exact absurd hbyte (by decide)

-- ---------------------------------------------------------------------------
-- What a call changes
-- ---------------------------------------------------------------------------

def returning : List Call := [.read, .fstat, .gettimeofday, .clockGettime]

section
variable {σ : Type}

/-- Where the guest wants it, and how many bytes it has there. -/
def Call.ptr (m : Machine σ) : Call → U32
  | .gettimeofday => m.reg Reg.a0
  | _ => m.reg Reg.a1

def Call.room (m : Machine σ) : Call → Nat
  | .read => (m.reg Reg.a2).toNat
  | .fstat => EmuStat.bytes
  | _ => EmuTime.bytes

/-- The bytes that the call may change there, after this answer. -/
def Call.returned (call : Call) (a0 : U32) : Nat :=
  match call with
  | .read => if a0 = -1 then 0 else a0.toNat
  | .fstat => EmuStat.bytes
  | _ => EmuTime.bytes

/-- Only `a0` and `n` bytes from `a` on may be different. -/
structure ChangesOnly (a n : Nat) (m m' : Machine σ) : Prop where
  size : m'.vmem.size = m.vmem.size
  byte : ∀ k, ¬ (a ≤ k ∧ k < a + n) → m'.vmem.byte k = m.vmem.byte k
  core : m'.core = m.core.setReg Reg.a0 (m'.reg Reg.a0)
  host : m'.host = m.host

/-- Whatever the host answers, the call comes back, and only `a0` and what the guest wants are
different. -/
def StaysInBuffer (m : Machine σ) (call : Call) : Prop :=
  ∀ (host : Host σ) (locals : Locals), ∃ s,
    Runs (emuSystemCall host locals) (.start m) () s ∧
      ChangesOnly (call.ptr m).toNat (call.returned (s.reg Reg.a0)) m s.machine

def EmuState.putAll (s : EmuState σ) (os : List (Overlay U8)) : EmuState σ := os.foldl .put s

end

section
variable {σ α : Type} {s : EmuState σ} {m m' : Machine σ} {call : Call} {a n : Nat}
variable {host : Host σ} {locals : Locals} {addr v : U32} {o : Overlay U8} {os : List (Overlay U8)}

theorem byte_putAll (s : EmuState σ) (os : List (Overlay U8)) :
    (s.putAll os).machine.vmem.byte = Overlay.last os s.machine.vmem.byte := by
  induction os generalizing s with
  | nil => rfl
  | cons o os ih =>
    rw [Overlay.last_cons]
    exact ih (s.put o)

theorem EmuState.reg_putAll (s : EmuState σ) (os : List (Overlay U8)) (r : Reg) :
    (s.putAll os).reg r = s.reg r := by
  induction os generalizing s with
  | nil => rfl
  | cons o os ih => exact ih (s.put o)

theorem putAt_runs (h : addr.toNat + o.start + o.values.length ≤ s.machine.vmem.size) :
    Runs (putAt addr o) s () (s.put (behind addr o)) := by
  rw [putAt, runs_get_bind, if_pos (.inr h)]
  rfl

theorem putMembers_runs
    (h : ∀ o ∈ os, addr.toNat + o.start + o.values.length ≤ s.machine.vmem.size) :
    Runs (putMembers addr os) s () (s.putAll (os.map (behind addr))) := by
  induction os generalizing s with
  | nil => rfl
  | cons o os ih =>
    rw [List.forall_mem_cons] at h
    exact (putAt_runs h.1).bind (ih (s := s.put (behind addr o)) h.2)

theorem copyLocal_runs (filled : Option α) (uninit : α) {members : α → List (Overlay U8)}
    (h : ∀ x, ∀ o ∈ members x, addr.toNat + o.start + o.values.length ≤ s.machine.vmem.size) :
    Runs (copyLocal addr filled uninit members) s ()
      (({ s with leaked := s.leaked || filled.isNone } : EmuState σ).putAll
        ((members (filled.getD uninit)).map (behind addr))) :=
  Runs.bind (out_modify _ s) (putMembers_runs (h _))

theorem EmuTime.members_within (t : EmuTime) :
    ∀ o ∈ t.members 0, o.start + o.values.length ≤ EmuTime.bytes := by
  simp [members, member, EmuTime.bytes]

theorem EmuStat.members_within (s : EmuStat) :
    ∀ o ∈ s.members, o.start + o.values.length ≤ EmuStat.bytes := by
  simp [members, EmuTime.members, member, EmuStat.bytes]

theorem ChangesOnly.start (a n : Nat) (m : Machine σ) :
    ChangesOnly a n m (EmuState.start m).machine where
  size := rfl
  byte _ _ := rfl
  core := by simp [EmuState.start, VCore.setReg, Machine.reg]
  host := rfl

theorem ChangesOnly.setA0 (h : ChangesOnly a n m s.machine) (v : U32) :
    ChangesOnly a n m (s.setReg Reg.a0 v).machine where
  size := h.size
  byte := h.byte
  core := by
    have hcore : (s.setReg Reg.a0 v).machine.core = s.machine.core.setReg Reg.a0 v := rfl
    have hreg : (s.setReg Reg.a0 v).machine.reg Reg.a0 = v := EmuState.reg_setReg_self s Reg.a0 v
    rw [hcore, hreg, h.core]
    simp [VCore.setReg]
  host := h.host

theorem ChangesOnly.put (h : ChangesOnly a n m s.machine)
    (ho : a ≤ o.start ∧ o.start + o.values.length ≤ a + n) :
    ChangesOnly a n m (s.put o).machine where
  size := h.size
  byte k hk := by
    have hcovers : ¬ o.Covers k := by
      rintro ⟨hstart, hend⟩
      omega
    exact (if_neg hcovers).trans (h.byte k hk)
  core := h.core
  host := h.host

theorem ChangesOnly.putAll (h : ChangesOnly a n m s.machine)
    (hos : ∀ o ∈ os, a ≤ o.start ∧ o.start + o.values.length ≤ a + n) :
    ChangesOnly a n m (s.putAll os).machine := by
  induction os generalizing s with
  | nil => exact h
  | cons o os ih =>
    rw [List.forall_mem_cons] at hos
    exact ih (h.put hos.1) hos.2

theorem copyLocal_changesOnly (filled : Option α) (uninit : α) {members : α → List (Overlay U8)}
    (h : ChangesOnly addr.toNat n m s.machine) (hroom : addr.toNat + n ≤ m.vmem.size)
    (hmembers : ∀ x, ∀ o ∈ members x, o.start + o.values.length ≤ n) :
    ∃ s', Runs (copyLocal addr filled uninit members) s () s' ∧
      ChangesOnly addr.toNat n m s'.machine := by
  refine ⟨_, copyLocal_runs _ _ fun x o ho => ?_, ChangesOnly.putAll h fun o ho => ?_⟩
  · have hend := hmembers x o ho
    rw [h.size]
    omega
  · obtain ⟨o', ho', rfl⟩ := List.mem_map.mp ho
    have hend := hmembers _ o' ho'
    simp only [behind]
    omega

theorem onFd_changesOnly {a0 : U32} {call : Int → EmuM σ Unit} {P : U32 → Nat}
    (h : ∃ s, Runs (call (hostFd a0)) (.start m) () s ∧
      ChangesOnly a (P (s.reg Reg.a0)) m s.machine) :
    ∃ s, Runs (onFd a0 call) (.start m) () s ∧
      ChangesOnly a (P (s.reg Reg.a0)) m s.machine := by
  unfold onFd
  split
  · exact ⟨_, rfl, (ChangesOnly.start _ _ m).setA0 _⟩
  · exact h

theorem emuRead_changesOnly (host : Host σ) (fd : Int)
    (hroom : (m.reg Reg.a1).toNat + (m.reg Reg.a2).toNat ≤ m.vmem.size) :
    ∃ s, Runs (emuRead host m fd) (.start m) () s ∧
      ChangesOnly (m.reg Reg.a1).toNat (Call.read.returned (s.reg Reg.a0)) m s.machine := by
  unfold emuRead
  cases hread : host.read fd (m.reg Reg.a2).toNat with
  | none => exact ⟨_, rfl, (ChangesOnly.start _ _ m).setA0 _⟩
  | some bytes =>
    obtain ⟨hle, hmax⟩ := host.read_le _ _ _ hread
    have hfits :
        (m.reg Reg.a1).toNat + 0 + bytes.length ≤ (EmuState.start m).machine.vmem.size := by
      rw [EmuState.vmem_start]
      omega
    have hcount : (BitVec.ofNat 32 bytes.length : U32).toNat = bytes.length := by
      rw [BitVec.toNat_ofNat]
      omega
    have hnot : ¬ (BitVec.ofNat 32 bytes.length : U32) = -1 := by
      intro hones
      have hlength : bytes.length = 2 ^ 32 - 1 := hcount.symm.trans (congrArg BitVec.toNat hones)
      omega
    refine ⟨_, (putAt_runs (o := ⟨0, bytes⟩) hfits).bind rfl, ?_⟩
    rw [EmuState.reg_setReg_self, Call.returned, if_neg hnot, hcount]
    refine ChangesOnly.setA0 (ChangesOnly.put (ChangesOnly.start _ _ m) ?_) _
    simp only [behind]
    omega

theorem emuFstat_changesOnly (host : Host σ) (locals : Locals) (fd : Int)
    (hroom : (m.reg Reg.a1).toNat + EmuStat.bytes ≤ m.vmem.size) :
    ∃ s, Runs (emuFstat host locals m fd) (.start m) () s ∧
      ChangesOnly (m.reg Reg.a1).toNat EmuStat.bytes m s.machine := by
  obtain ⟨s, hrun, honly⟩ := copyLocal_changesOnly (host.fstat fd) locals.fs
    ((ChangesOnly.start _ _ m).setA0 (answer (host.fstat fd))) hroom
    fun fs => (emuCopyStat fs).members_within
  exact ⟨s, Runs.bind rfl hrun, honly⟩

theorem emuClockGettime_changesOnly (host : Host σ) (locals : Locals)
    (hroom : (m.reg Reg.a1).toNat + EmuTime.bytes ≤ m.vmem.size) :
    ∃ s, Runs (emuClockGettime host locals m) (.start m) () s ∧
      ChangesOnly (m.reg Reg.a1).toNat EmuTime.bytes m s.machine := by
  obtain ⟨s, hrun, honly⟩ := copyLocal_changesOnly (host.clockGettime (m.reg Reg.a0)) locals.ts
    ((ChangesOnly.start _ _ m).setA0 (answer (host.clockGettime (m.reg Reg.a0)))) hroom
    fun ts => (emuCopyTimespec ts).members_within
  exact ⟨s, Runs.bind rfl hrun, honly⟩

theorem emuGettimeofday_failing (locals : Locals) (m : Machine σ)
    (h : host.gettimeofday = none) :
    ¬ ∃ s, Runs (emuGettimeofday host locals m) (.start m) () s := by
  rintro ⟨s, hrun⟩
  have hlast : (answer (none : Option (HostTime × Option (BitVec 64)))).toNat = 2 ^ 32 - 1 := rfl
  have hsize := m.vmem.size_le
  rw [emuGettimeofday, h, Option.bind_none, putTimezone, pure_bind, Option.map_none] at hrun
  obtain ⟨⟨⟩, s₁, ha0, hrun⟩ := hrun.of_bind
  cases ha0
  rw [runs_get_bind, EmuState.reg_setReg_self, copyLocal] at hrun
  obtain ⟨⟨⟩, s₂, hleak, hrun⟩ := hrun.of_bind
  cases hleak
  obtain ⟨⟨⟩, s₃, hput, -⟩ := Runs.of_bind (x := putAt _ _) hrun
  rw [putAt, runs_get_bind, if_neg] at hput
  · cases hput
  · rintro (hnil | hfits)
    · exact absurd (congrArg List.length hnil) (by simp [member])
    · have hfits : (answer (none : Option (HostTime × Option (BitVec 64)))).toNat + 0 +
          (member 0 (emuCopyTimeval locals.tv).sec).values.length ≤ m.vmem.size := hfits
      simp only [hlast, member, List.length_map, List.length_range] at hfits
      omega

theorem emuGettimeofday_runs (host : Host σ) {tv : HostTime} (locals : Locals) (m : Machine σ)
    (h : host.gettimeofday = some (tv, none)) (hsize : EmuTime.bytes ≤ m.vmem.size) :
    ∃ s, Runs (emuGettimeofday host locals m) (.start m) () s ∧ s.reg Reg.a0 = 0 ∧
      s.machine.vmem.byte = Overlay.last ((emuCopyTimeval tv).members 0) m.vmem.byte := by
  have hnone : (some (tv, (none : Option (BitVec 64)))).bind Prod.snd = none := rfl
  have hanswer : answer (some (tv, (none : Option (BitVec 64)))) = 0 := rfl
  have hbehind : behind 0 = id := by
    funext o
    simp [behind]
  have hset : Runs (setA0 0) (.start m) () ((EmuState.start m).setReg Reg.a0 0) := rfl
  obtain ⟨s, hrun, hs⟩ : ∃ s, Runs (copyLocal 0 (some tv) locals.tv fun tv =>
        (emuCopyTimeval tv).members 0) ((EmuState.start m).setReg Reg.a0 0) () s ∧
      s.reg Reg.a0 = 0 ∧
      s.machine.vmem.byte = Overlay.last ((emuCopyTimeval tv).members 0) m.vmem.byte := by
    refine ⟨_, copyLocal_runs _ _ fun tv o ho => ?_, ?_, ?_⟩
    · have hend := (emuCopyTimeval tv).members_within o ho
      simpa using Nat.le_trans hend hsize
    · rw [EmuState.reg_putAll]
      exact EmuState.reg_setReg_self _ _ _
    · rw [byte_putAll, hbehind, List.map_id]
      rfl
  rw [emuGettimeofday, h, hnone, putTimezone, pure_bind, hanswer]
  refine ⟨s, hset.bind (runs_get_bind.mpr ?_), hs⟩
  rw [EmuState.reg_setReg_self]
  exact hrun

end

/-- In every memory with room for it, and for all registers, exactly the calls other than
`GETTIMEOFDAY` keep to what the guest wants, whatever the host answers. -/
theorem stays_in_buffer_iff {σ : Type} {m : Machine σ} {call : Call}
    (hcall : callOf (m.reg Reg.a7) = some call) (hmem : call ∈ returning)
    (hroom : (call.ptr m).toNat + call.room m ≤ m.vmem.size) :
    StaysInBuffer m call ↔ call ≠ .gettimeofday := by
  unfold StaysInBuffer Runs
  simp only [out_emuSystemCall hcall]
  constructor
  · rintro h rfl
    obtain ⟨s, hrun, -⟩ := h (.failing σ) (.filledWith 0)
    exact emuGettimeofday_failing _ m rfl ⟨s, hrun⟩
  · intro hne host locals
    cases call with
    | read => exact onFd_changesOnly (P := Call.read.returned) (emuRead_changesOnly host _ hroom)
    | fstat =>
      exact onFd_changesOnly (P := fun _ => EmuStat.bytes)
        (emuFstat_changesOnly host locals _ hroom)
    | gettimeofday => exact absurd rfl hne
    | clockGettime => exact emuClockGettime_changesOnly host locals hroom
    | close | lseek | write | exit | brk | openFile | sdl => simp [returning] at hmem

theorem stays_in_buffer_clock :
    StaysInBuffer (calling [(Reg.a7, 403), (Reg.a0, 1), (Reg.a1, 256)]) .clockGettime :=
  (stays_in_buffer_iff (by decide) (by decide) (by decide)).mpr (by decide)

def timeTo256 : Machine Unit := calling [(Reg.a7, 169), (Reg.a0, 256)]

/-- The time goes to address 0. -/
theorem stays_in_buffer_fails :
    (∃ s, Runs (emuSystemCall (.telling ⟨7, 0⟩) (.filledWith 0)) (.start timeTo256) () s ∧
      s.reg Reg.a0 = 0 ∧ s.machine.vmem.byte 0 = 7 ∧ s.machine.vmem.byte 256 = 0) ∧
    timeTo256.vmem.byte 0 = 0 ∧ ¬ StaysInBuffer timeTo256 .gettimeofday := by
  have hcall : callOf (timeTo256.reg Reg.a7) = some .gettimeofday := by decide
  obtain ⟨s, hrun, ha0, hbyte⟩ := emuGettimeofday_runs (.telling ⟨7, 0⟩) (.filledWith 0) timeTo256
    rfl (by decide)
  have hcomes : Runs (emuSystemCall (.telling ⟨7, 0⟩) (.filledWith 0)) (.start timeTo256) () s :=
    (out_emuSystemCall hcall).trans hrun
  have hfirst : s.machine.vmem.byte 0 = 7 := by
    rw [hbyte]
    decide
  refine ⟨⟨s, hcomes, ha0, hfirst, ?_⟩, by decide, fun hstays => ?_⟩
  · rw [hbyte]
    decide
  · obtain ⟨s', hcomes', honly⟩ := hstays (.telling ⟨7, 0⟩) (.filledWith 0)
    cases hcomes.symm.trans hcomes'
    have hptr : (Call.ptr timeTo256 .gettimeofday).toNat = 256 := by decide
    have hsame := honly.byte 0 fun hin => by
      rw [hptr] at hin
      exact absurd hin.1 (by decide)
    rw [hfirst] at hsame
    exact absurd hsame (by decide)

-- ---------------------------------------------------------------------------
-- What the rest of the process sees
-- ---------------------------------------------------------------------------

/-- What a system call may do besides the calls to `sdl.c`. -/
structure Allowed {σ : Type} (P : EmuState σ → Prop) : Prop where
  put : ∀ s o, P s → P (s.put o)
  leak : ∀ (s : EmuState σ) b, P s → P { s with leaked := b }
  a0 : ∀ s v, P s → P (s.setReg Reg.a0 v)
  brk : ∀ s v, P s → P (s.setBrk v)

section
variable {σ α : Type} {P : EmuState σ → Prop} {host : Host σ} {m : Machine σ}

theorem Allowed.setA0 (h : Allowed P) (v : U32) : Keeps P (setA0 v) := fun s hs => h.a0 s v hs

theorem Allowed.onFd (h : Allowed P) {a0 : U32} {call : Int → EmuM σ Unit}
    (hcall : ∀ fd, Keeps P (call fd)) : Keeps P (onFd a0 call) :=
  Keeps.ite (fun _ => h.setA0 _) fun _ => hcall _

theorem Allowed.copyLocal (h : Allowed P) (addr : U32) (filled : Option α) (uninit : α)
    (members : α → List (Overlay U8)) : Keeps P (copyLocal addr filled uninit members) :=
  Keeps.bind (Keeps.modify fun s hs => h.leak s _ hs) fun _ => putMembers_keeps h.put _ _

theorem Allowed.emuRead (h : Allowed P) (host : Host σ) (m : Machine σ) (fd : Int) :
    Keeps P (emuRead host m fd) := by
  unfold Emu.emuRead
  cases host.read fd (m.reg Reg.a2).toNat with
  | none => exact h.setA0 _
  | some bytes => exact Keeps.bind (putAt_keeps h.put _ _) fun _ => h.setA0 _

theorem Allowed.emuGettimeofday (h : Allowed P) (host : Host σ) (locals : Locals)
    (m : Machine σ) : Keeps P (emuGettimeofday host locals m) := by
  refine Keeps.bind ?_ fun _ => Keeps.bind (h.setA0 _) fun _ =>
    Keeps.get_bind fun s _ => h.copyLocal _ _ _ _
  cases host.gettimeofday.bind Prod.snd with
  | none => exact Keeps.pure _
  | some tz => exact putAt_keeps h.put _ _

theorem Allowed.emuBrk (h : Allowed P) (host : Host σ) (m : Machine σ) :
    Keeps P (emuBrk host m) := by
  refine Keeps.ite (fun _ => h.setA0 _) fun _ => Keeps.bind (Keeps.modify fun s hs => ?_) fun _ =>
    Keeps.get_bind fun s _ => h.setA0 _
  split
  · exact h.brk s _ hs
  · exact hs

theorem Allowed.emuSystemCall (h : Allowed P) (hsdl : ∀ call, Keeps P (host.sdl call))
    (locals : Locals) : Keeps P (emuSystemCall host locals) := by
  refine Keeps.get_bind fun s _ => ?_
  cases callOf (s.reg Reg.a7) with
  | none => exact Keeps.bind (h.setA0 _) fun _ => Keeps.throw _
  | some call =>
    cases call with
    | close | lseek | write =>
      simp only [emuCall]
      exact h.onFd fun _ => h.setA0 _
    | read => exact h.onFd (h.emuRead host _)
    | fstat => exact h.onFd fun _ => Keeps.bind (h.setA0 _) fun _ => h.copyLocal _ _ _ _
    | exit => exact Keeps.throw _
    | gettimeofday => exact h.emuGettimeofday host locals _
    | brk => exact h.emuBrk host _
    | clockGettime => exact Keeps.bind (h.setA0 _) fun _ => h.copyLocal _ _ _ _
    | openFile =>
      refine Keeps.bind (h.setA0 _) fun _ => Keeps.ite (fun _ => Keeps.pure _) fun _ => ?_
      exact Keeps.ite (fun _ => Keeps.throw _) fun _ => Keeps.pure _
    | sdl call => exact hsdl call

end

def IsResult (m m' : Sv32) : Prop := ∃ r, User.emuSystemCall r m = .ok m'

theorem IsResult.allowed (m : Sv32) : Allowed fun s => IsResult m s.machine where
  put := by
    rintro ⟨m', leaked⟩ o ⟨r, hr⟩
    cases hr
    exact ⟨{ r with byte := o.put r.byte }, rfl⟩
  leak _ _ h := h
  a0 := by
    rintro ⟨m', leaked⟩ v ⟨r, hr⟩
    cases hr
    refine ⟨{ r with a0 := v }, ?_⟩
    simp [User.emuSystemCall, EmuState.setReg, Machine.setReg, VCore.setReg]
  brk := by
    rintro ⟨m', leaked⟩ v ⟨r, hr⟩
    cases hr
    exact ⟨{ r with elfBrk := v }, rfl⟩

theorem emuSystemCall_isResult (host : Host Platform) (locals : Locals) (m : Sv32)
    (hsdl : ∀ call, Keeps (fun s => IsResult m s.machine) (host.sdl call)) :
    IsResult m (out (emuSystemCall host locals) (.start m)).2.machine := by
  refine (IsResult.allowed m).emuSystemCall hsdl locals _ ?_
  refine ⟨⟨m.reg Reg.a0, m.core.elfBrk, m.vmem.byte⟩, ?_⟩
  simp [User.emuSystemCall, EmuState.start, Machine.setReg, VCore.setReg, Machine.reg]

end Emu

end SwitchV32
