import SwitchV32.Debug.Breakpoint
import SwitchV32.Hsm.System

/-!
# Cores under a debugger

The core threads of `threads_mgr2.c` with the thread of the stub, which handles
one packet after the other. A `vCont` packet is followed through `build_v`,
`breakpoint.c`, `threads_mgr_*` and `wait_for_halt` up to the stop reply; any
other packet is one step. A guest instruction may leave any core and any
memory; the calls that it makes into the table of records are steps of their
own. An assertion or a `SV32_CRASH` that fails ends the process; here the thread
takes no more steps.
-/

namespace SwitchV32

-- ---------------------------------------------------------------------------
-- Packets
-- ---------------------------------------------------------------------------

inductive VCont
  | continueAll
  | continueCore (core : Nat)
  | step (core : Nat)
  deriving DecidableEq, Repr

/-- The core that a thread id stands for; -1 are all of them. -/
def vContCore (selectedCore : Nat) (threadId : Int) : Int :=
  let threadId := if threadId = 0 then (selectedCore : Int) else threadId
  if 0 < threadId then threadId - 1 else threadId

/-- The action and the thread id as `build_v` reads them; `none` is answered with `E`. -/
def vCont (cores selectedCore : Nat) (action : Char) (threadId : Option Int) : Option VCont :=
  -- the id is optional, just assume -1
  let threadId := threadId.getD (-1)
  if cores ≤ threadId - 1 ∨ threadId < -1 then none
  else
    let core := vContCore selectedCore threadId
    match action with
    | 'c' => if core = -1 then some .continueAll else some (.continueCore core.toNat)
    | 's' => if core = -1 then none else some (.step core.toNat)
    | _ => none

def VCont.Below (cores : Nat) : VCont → Prop
  | .continueAll => True
  | .continueCore core | .step core => core < cores

theorem vContCore_lt {cores selectedCore : Nat} {threadId : Int} (hsel : selectedCore < cores)
    (hid : ¬ (cores ≤ threadId - 1 ∨ threadId < -1)) :
    (vContCore selectedCore threadId).toNat < cores := by
  dsimp only [vContCore]
  split_ifs <;> omega

theorem vCont_below {cores selectedCore : Nat} (hsel : selectedCore < cores)
    (h : vCont cores selectedCore action threadId = some act) : act.Below cores := by
  dsimp only [vCont] at h
  split at h
  · cases h
  · rename_i hid
    split at h
    · split at h <;> cases h
      · trivial
      · exact vContCore_lt hsel hid
    · split at h <;> cases h
      exact vContCore_lt hsel hid
    · cases h

theorem vCont_step {cores core : Nat} (h : core < cores) (selectedCore : Nat) :
    vCont cores selectedCore 's' (some (core + 1)) = some (.step core) := by
  have hid : ¬ ((cores : Int) ≤ (core : Int) + 1 - 1 ∨ (core : Int) + 1 < -1) := by omega
  have hcore : vContCore selectedCore (core + 1) = core := by
    dsimp only [vContCore]
    split_ifs <;> omega
  have hall : ¬ ((core : Int) = -1) := by omega
  simp only [vCont, Option.getD_some, hid, hcore, hall, if_false, Int.toNat_natCast]

-- ---------------------------------------------------------------------------
-- Where the threads stand
-- ---------------------------------------------------------------------------

inductive InsCall
  /-- none, or `hart_start` -/
  | hart (call : HartCall)
  /-- in `threads_mgr_halt_cores`, before core `n` -/
  | halting (n : Nat)
  /-- about to return from it -/
  | halted
  deriving DecidableEq

def InsCall.free : InsCall → Bool
  | .hart call => call.free
  | .halting _ => false
  | .halted => true

def InsCall.locks : InsCall → Bool
  | .halting _ => true
  | _ => false

inductive StubLoc
  /-- before a packet -/
  | idle
  /-- in `sad_step_the_breakpoint(core)` -/
  | breakpoint (core : Nat) (act : VCont)
  /-- in `threads_mgr_step_core(core)`; the breakpoint at `pc`, if any, is removed -/
  | stepCheck (core : Nat) (pc : Option (BitVec 64)) (act : VCont)
  | stepCore (core : Nat) (pc : Option (BitVec 64)) (act : VCont)
  /-- in the waits of `cthread_signal_step` -/
  | inStep (core : Nat) (pc : Option (BitVec 64)) (act : VCont)
  /-- back from it -/
  | stepped (core : Nat) (pc : Option (BitVec 64)) (act : VCont)
  /-- in `threads_mgr_continue_core(core)` -/
  | continueCheck (core : Nat)
  | continueCore (core : Nat)
  /-- in `threads_mgr_continue_cores`, in its loops with the mutex held -/
  | tryLock
  | checkAll (n : Nat)
  | continueAll (n : Nat)
  /-- at the top of the loop of `wait_for_halt` -/
  | poll
  /-- in `threads_mgr_are_halted`, before core `n` -/
  | scan (n : Nat)
  /-- in `threads_mgr_halt_cores`, in its loop with the mutex held -/
  | haltLock
  | haltAll (n : Nat)
  /-- builds and sends the stop reply: `T05` if `stop`, else `S02` -/
  | reply (stop : Bool)
  | crashed
  deriving DecidableEq

def StubLoc.locks : StubLoc → Bool
  | .checkAll _ | .continueAll _ | .haltAll _ => true
  | _ => false

structure DebugSys where
  cores : Nat
  node : Nat → CoreSys
  call : Nat → InsCall
  vmem : Mem
  breakpoints : Breakpoints
  selectedCore : Nat
  stub : StubLoc

namespace DebugSys

def setNode (s : DebugSys) (j : Nat) (n : CoreSys) : DebugSys :=
  { s with node := Function.update s.node j n }

def Halted (s : DebugSys) (j : Nat) : Prop := (s.node j).ct.state = .halted

instance (s : DebugSys) (j : Nat) : Decidable (s.Halted j) :=
  inferInstanceAs (Decidable (_ = _))

def AllHalted (s : DebugSys) : Prop := ∀ j < s.cores, s.Halted j

instance (s : DebugSys) : Decidable s.AllHalted :=
  inferInstanceAs (Decidable (∀ j < s.cores, s.Halted j))

def pc (s : DebugSys) (j : Nat) : BitVec 64 := ((s.node j).ct.core.regs Reg.pc).setWidth 64

def Locked (s : DebugSys) : Prop := s.stub.locks = true ∨ ∃ i < s.cores, (s.call i).locks = true

instance (s : DebugSys) : Decidable s.Locked :=
  inferInstanceAs (Decidable (_ ∨ ∃ i < s.cores, _))

-- ---------------------------------------------------------------------------
-- The stub
-- ---------------------------------------------------------------------------

/-- The breakpoint of core `i` is next, if there is such a core, else the action itself. -/
def fromBreakpoint (s : DebugSys) (i : Nat) (act : VCont) : StubLoc :=
  match act with
  | .continueAll => if i < s.cores then .breakpoint i act else .tryLock
  | .continueCore core | .step core => .breakpoint core act

/-- Back from `sad_step_the_breakpoint(core)`, which answers `ret`. -/
def afterBreakpoint (s : DebugSys) (core : Nat) (act : VCont) (ret : BrkRet) : StubLoc :=
  match act with
  | .continueAll => s.fromBreakpoint (core + 1) act
  | .continueCore core => .continueCheck core
  -- the current core isn't stopped on a breakpoint so just step it directly
  | .step core => if ret = .notFound then .stepCheck core none act else .poll

inductive StubMove
  /-- no signal to a core -/
  | goto (vmem : Mem) (breakpoints : Breakpoints) (stub : StubLoc)
  /-- a debug signal to a core, or a wake-up while it waits for the core -/
  | signal (core : Nat) (l : CoreLabel) (next : CoreSys → StubLoc)

def jump (s : DebugSys) (stub : StubLoc) : StubMove := .goto s.vmem s.breakpoints stub

/-- To `stub`, unless an assertion of the signal has failed. -/
def unlessAborted (stub : StubLoc) (n : CoreSys) : StubLoc :=
  if n.debug = .aborted then .crashed else stub

def stubMove (s : DebugSys) : Option StubMove :=
  match s.stub with
  | .idle | .crashed => none
  | .breakpoint core act =>
    match sadRemoveBreakpoint s.vmem s.breakpoints (s.pc core) with
    | .ok (vmem, t, .removed) => some (.goto vmem t (.stepCheck core (some (s.pc core)) act))
    | .ok (vmem, t, _) => some (.goto vmem t (s.afterBreakpoint core act .notFound))
    | .error _ => none
  | .stepCheck core pc act =>
    some (s.jump (if s.Halted core then .stepCore core pc act else .crashed))
  | .stepCore core pc act => some (.signal core .step (unlessAborted (.inStep core pc act)))
  | .inStep core pc act =>
    some (.signal core .stepWake fun n =>
      if n.debug = .idle then .stepped core pc act else .inStep core pc act)
  | .stepped core (some pc) act =>
    match sadInsertBreakpoint s.vmem s.breakpoints pc with
    | .ok (vmem, t, _) => some (.goto vmem t (s.afterBreakpoint core act .stepped))
    | .error _ => none
  | .stepped _ none _ => some (s.jump .poll)
  | .continueCheck core => some (s.jump (if s.Halted core then .continueCore core else .crashed))
  | .continueCore core => some (.signal core .continue (unlessAborted .poll))
  -- when racing with an halt all operation just "abort" the "run" operation
  | .tryLock => some (s.jump (if s.Locked then .poll else .checkAll 0))
  | .checkAll n =>
    if n < s.cores then some (s.jump (if s.Halted n then .checkAll (n + 1) else .crashed))
    else some (s.jump (.continueAll 0))
  | .continueAll n =>
    if n < s.cores then some (.signal n .continue (unlessAborted (.continueAll (n + 1))))
    else some (s.jump .poll)
  | .poll => some (s.jump (.scan 0))
  | .scan n =>
    if n < s.cores then some (s.jump (if s.Halted n then .scan (n + 1) else .poll))
    else some (s.jump (.reply true))
  | .haltLock => if s.Locked then none else some (s.jump (.haltAll 0))
  | .haltAll n =>
    if n < s.cores then some (.signal n .halt fun _ => .haltAll (n + 1))
    else some (s.jump (.reply false))
  | .reply _ => some (s.jump .idle)

inductive Packet (s : DebugSys) : DebugSys → Prop
  | insertBreakpoint (addr) {vmem t ret}
      (h : sadInsertBreakpoint s.vmem s.breakpoints addr = .ok (vmem, t, ret)) :
    Packet s { s with vmem, breakpoints := t }
  | removeBreakpoint (addr) {vmem t ret}
      (h : sadRemoveBreakpoint s.vmem s.breakpoints addr = .ok (vmem, t, ret)) :
    Packet s { s with vmem, breakpoints := t }
  | writeMem (vmem : Mem) (hsize : vmem.size = s.vmem.size) : Packet s { s with vmem }
  | writeRegs (regs : Reg → U32) :
    Packet s (s.setNode s.selectedCore
      { s.node s.selectedCore with
        ct := { (s.node s.selectedCore).ct with
          core := { (s.node s.selectedCore).ct.core with regs } } })
  | selectCore (core : Nat) (h : core < s.cores) : Packet s { s with selectedCore := core }
  /-- reads, and what is refused -/
  | other : Packet s s

-- ---------------------------------------------------------------------------
-- Steps
-- ---------------------------------------------------------------------------

end DebugSys

inductive DebugLabel
  /-- a section or an exit test of core thread `j` -/
  | core (j : Nat)
  /-- core `j` ends an iteration of `vcore_run` and leaves this memory -/
  | guest (j : Nat) (vmem : Mem)
  /-- the parts of `hart_start`, called by core `i` -/
  | hartStart (i : Nat)
  | hartInit (i : Nat)
  | hartSignal (i : Nat)
  /-- `hart_stop` or `hart_suspend`, called by core `i`, signals core `j` -/
  | hsm (i j : Nat) (signal : HsmSignal)
  /-- `EBREAK` on core `i` halts all cores -/
  | haltLock (i : Nat)
  | haltNext (i : Nat)
  | haltUnlock (i : Nat)
  | vCont (action : Char) (threadId : Option Int)
  /-- another packet -/
  | packet
  /-- the last byte read is 0x03 -/
  | interrupt
  | stub

namespace DebugSys

def setCall (s : DebugSys) (i : Nat) (call : InsCall) : DebugSys :=
  { s with call := Function.update s.call i call }

def hartStart (s : DebugSys) (i : Nat) : HartCall :=
  SwitchV32.hartStart s.cores s.vmem.size (fun j => (s.node j).ct) (s.node i).ct.core

inductive Step : DebugSys → DebugLabel → DebugSys → Prop
  | core {s : DebugSys} (j) {n : CoreSys} (hj : j < s.cores)
      (h : CoreSys.Step (s.node j) .core n) : Step s (.core j) (s.setNode j n)
  | guest {s : DebugSys} (j) (vmem : Mem) {n : CoreSys} (hj : j < s.cores)
      (hcall : (s.call j).free = true) (hsize : vmem.size = s.vmem.size)
      (h : CoreSys.Step (s.node j) .guest n) :
    Step s (.guest j vmem) { (s.setNode j n).setCall j (.hart .idle) with vmem }
  | hartStart {s : DebugSys} (i) (site) (hi : i < s.cores) (hcore : (s.node i).core = .instr site)
      (hcall : s.call i = .hart .idle) :
    Step s (.hartStart i) (s.setCall i (.hart (s.hartStart i)))
  | hartInit {s : DebugSys} (i) {args : HartArgs} (hcall : s.call i = .hart (.init args))
      (ha : (s.node args.target).Alive) :
    Step s (.hartInit i)
      ((s.setNode args.target
        { s.node args.target with
          ct := { (s.node args.target).ct with core := vcoreInit (some args.init) } }).setCall i
        (.hart (.signal args)))
  | hartSignal {s : DebugSys} (i) {args : HartArgs} {n : CoreSys}
      (hcall : s.call i = .hart (.signal args))
      (h : CoreSys.Step (s.node args.target) (.hsm .start) n) :
    Step s (.hartSignal i)
      ((s.setNode args.target n).setCall i (.hart (.done Supervisor.SbiError.success)))
  | hsm {s : DebugSys} (i j) (signal : HsmSignal) (site) {n : CoreSys} (hi : i < s.cores)
      (hj : j < s.cores) (hcore : (s.node i).core = .instr site) (hcall : s.call i = .hart .idle)
      (hsignal : signal ≠ .start) (h : CoreSys.Step (s.node j) (.hsm signal) n) :
    Step s (.hsm i j signal)
      ((s.setNode j n).setCall i (.hart (.done Supervisor.SbiError.success)))
  | haltLock {s : DebugSys} (i) (site) (hi : i < s.cores) (hcore : (s.node i).core = .instr site)
      (hcall : s.call i = .hart .idle) (hlock : ¬ s.Locked) :
    Step s (.haltLock i) (s.setCall i (.halting 0))
  | haltNext {s : DebugSys} (i) {n : Nat} {m : CoreSys} (hcall : s.call i = .halting n)
      (hn : n < s.cores) (h : CoreSys.Step (s.node n) .halt m) :
    Step s (.haltNext i) ((s.setNode n m).setCall i (.halting (n + 1)))
  | haltUnlock {s : DebugSys} (i) {n : Nat} (hcall : s.call i = .halting n) (hn : s.cores ≤ n) :
    Step s (.haltUnlock i) (s.setCall i .halted)
  | vCont {s : DebugSys} (action threadId) (hs : s.stub = .idle) :
    Step s (.vCont action threadId)
      { s with stub :=
        match SwitchV32.vCont s.cores s.selectedCore action threadId with
        | none => .idle
        | some act => s.fromBreakpoint 0 act }
  | packet {s s' : DebugSys} (hs : s.stub = .idle) (h : s.Packet s') : Step s .packet s'
  | interrupt {s : DebugSys} (hs : s.stub = .poll) : Step s .interrupt { s with stub := .haltLock }
  | stubGoto {s : DebugSys} {vmem t stub} (h : s.stubMove = some (.goto vmem t stub)) :
    Step s .stub { s with vmem, breakpoints := t, stub }
  | stubSignal {s : DebugSys} {j l next} {n : CoreSys} (h : s.stubMove = some (.signal j l next))
      (hs : CoreSys.Step (s.node j) l n) : Step s .stub { s.setNode j n with stub := next n }

abbrev Run := Lts.Run Step

structure Start (s : DebugSys) : Prop where
  cores : 0 < s.cores
  node : ∀ j, (s.node j).Init
  call : ∀ i, s.call i = .hart .idle
  breakpoints : s.breakpoints = .reset
  selectedCore : s.selectedCore = 0
  stub : s.stub = .idle

-- ---------------------------------------------------------------------------
-- What a step does
-- ---------------------------------------------------------------------------

inductive SignalMove (s : DebugSys) (j : Nat) : CoreLabel → (CoreSys → StubLoc) → Prop
  | step (pc act) (hs : s.stub = .stepCore j pc act) :
    SignalMove s j .step (unlessAborted (.inStep j pc act))
  | wake (pc act) (hs : s.stub = .inStep j pc act) :
    SignalMove s j .stepWake fun n =>
      if n.debug = .idle then .stepped j pc act else .inStep j pc act
  | continueCore (hs : s.stub = .continueCore j) : SignalMove s j .continue (unlessAborted .poll)
  | continueAll (hs : s.stub = .continueAll j) (hj : j < s.cores) :
    SignalMove s j .continue (unlessAborted (.continueAll (j + 1)))
  | halt (hs : s.stub = .haltAll j) (hj : j < s.cores) :
    SignalMove s j .halt fun _ => .haltAll (j + 1)

inductive GotoMove (s : DebugSys) : Mem → Breakpoints → StubLoc → Prop
  | removed (core act) {vmem t} (hs : s.stub = .breakpoint core act)
      (h : sadRemoveBreakpoint s.vmem s.breakpoints (s.pc core) = .ok (vmem, t, .removed)) :
    GotoMove s vmem t (.stepCheck core (some (s.pc core)) act)
  | notFound (core act) {vmem t ret} (hs : s.stub = .breakpoint core act)
      (h : sadRemoveBreakpoint s.vmem s.breakpoints (s.pc core) = .ok (vmem, t, ret))
      (hret : ret ≠ .removed) : GotoMove s vmem t (s.afterBreakpoint core act .notFound)
  | checked (core pc act) (hs : s.stub = .stepCheck core pc act) (hhalted : s.Halted core) :
    GotoMove s s.vmem s.breakpoints (.stepCore core pc act)
  | inserted (core pc act) {vmem t ret} (hs : s.stub = .stepped core (some pc) act)
      (h : sadInsertBreakpoint s.vmem s.breakpoints pc = .ok (vmem, t, ret)) :
    GotoMove s vmem t (s.afterBreakpoint core act .stepped)
  | stepped (core act) (hs : s.stub = .stepped core none act) :
    GotoMove s s.vmem s.breakpoints .poll
  | continueChecked (core) (hs : s.stub = .continueCheck core) (hhalted : s.Halted core) :
    GotoMove s s.vmem s.breakpoints (.continueCore core)
  | busy (hs : s.stub = .tryLock) (hlock : s.Locked) : GotoMove s s.vmem s.breakpoints .poll
  | lock (hs : s.stub = .tryLock) (hlock : ¬ s.Locked) :
    GotoMove s s.vmem s.breakpoints (.checkAll 0)
  | checkedNext (n) (hs : s.stub = .checkAll n) (hn : n < s.cores) (hhalted : s.Halted n) :
    GotoMove s s.vmem s.breakpoints (.checkAll (n + 1))
  | checkedAll (n) (hs : s.stub = .checkAll n) (hn : s.cores ≤ n) :
    GotoMove s s.vmem s.breakpoints (.continueAll 0)
  | continued (n) (hs : s.stub = .continueAll n) (hn : s.cores ≤ n) :
    GotoMove s s.vmem s.breakpoints .poll
  | poll (hs : s.stub = .poll) : GotoMove s s.vmem s.breakpoints (.scan 0)
  | scanNext (n) (hs : s.stub = .scan n) (hn : n < s.cores) (hhalted : s.Halted n) :
    GotoMove s s.vmem s.breakpoints (.scan (n + 1))
  | again (n) (hs : s.stub = .scan n) : GotoMove s s.vmem s.breakpoints .poll
  | scanned (n) (hs : s.stub = .scan n) (hn : s.cores ≤ n) :
    GotoMove s s.vmem s.breakpoints (.reply true)
  | haltLock (hs : s.stub = .haltLock) (hlock : ¬ s.Locked) :
    GotoMove s s.vmem s.breakpoints (.haltAll 0)
  | halted (n) (hs : s.stub = .haltAll n) (hn : s.cores ≤ n) :
    GotoMove s s.vmem s.breakpoints (.reply false)
  | sent (b) (hs : s.stub = .reply b) : GotoMove s s.vmem s.breakpoints .idle
  /-- `SV32_CRASH`: a core that is asked to go on is not halted -/
  | crash (core) (hs : (∃ pc act, s.stub = .stepCheck core pc act) ∨ s.stub = .continueCheck core ∨
        s.stub = .checkAll core ∧ core < s.cores) (hhalted : ¬ s.Halted core) :
    GotoMove s s.vmem s.breakpoints .crashed

theorem stubMove_signal {s : DebugSys} (h : s.stubMove = some (.signal j l next)) :
    s.SignalMove j l next := by
  unfold stubMove at h
  split at h <;> try split at h
  all_goals cases h
  · exact .step _ _ ‹_›
  · exact .wake _ _ ‹_›
  · exact .continueCore ‹_›
  · exact .continueAll ‹_› ‹_›
  · exact .halt ‹_› ‹_›

theorem stubMove_goto {s : DebugSys} {vmem : Mem} {t : Breakpoints} {stub : StubLoc}
    (h : s.stubMove = some (.goto vmem t stub)) : s.GotoMove vmem t stub := by
  cases hs : s.stub with
  | idle | crashed | stepCore | inStep | continueCore =>
    simp only [stubMove, hs] at h
    cases h
  | breakpoint core act =>
    simp only [stubMove, hs] at h
    split at h
    · cases h
      exact .removed core act hs ‹_›
    · cases h
      exact .notFound core act hs ‹_› ‹_›
    · cases h
  | stepCheck core pc act =>
    simp only [stubMove, hs] at h
    split at h <;> cases h
    · exact .checked core pc act hs ‹_›
    · exact .crash core (.inl ⟨pc, act, hs⟩) ‹_›
  | stepped core pc act =>
    cases pc with
    | none =>
      simp only [stubMove, hs] at h
      cases h
      exact .stepped core act hs
    | some pc =>
      simp only [stubMove, hs] at h
      split at h <;> cases h
      exact .inserted core pc act hs ‹_›
  | continueCheck core =>
    simp only [stubMove, hs] at h
    split at h <;> cases h
    · exact .continueChecked core hs ‹_›
    · exact .crash core (.inr (.inl hs)) ‹_›
  | tryLock =>
    simp only [stubMove, hs] at h
    split at h <;> cases h
    · exact .busy hs ‹_›
    · exact .lock hs ‹_›
  | checkAll n =>
    simp only [stubMove, hs] at h
    split at h
    · split at h <;> cases h
      · exact .checkedNext n hs ‹_› ‹_›
      · exact .crash n (.inr (.inr ⟨hs, ‹_›⟩)) ‹_›
    · cases h
      exact .checkedAll n hs (Nat.le_of_not_lt ‹_›)
  | continueAll n =>
    simp only [stubMove, hs] at h
    split at h <;> cases h
    exact .continued n hs (Nat.le_of_not_lt ‹_›)
  | poll =>
    simp only [stubMove, hs] at h
    cases h
    exact .poll hs
  | scan n =>
    simp only [stubMove, hs] at h
    split at h
    · split at h <;> cases h
      · exact .scanNext n hs ‹_› ‹_›
      · exact .again n hs
    · cases h
      exact .scanned n hs (Nat.le_of_not_lt ‹_›)
  | haltLock =>
    simp only [stubMove, hs] at h
    split at h <;> cases h
    exact .haltLock hs ‹_›
  | haltAll n =>
    simp only [stubMove, hs] at h
    split at h <;> cases h
    exact .halted n hs (Nat.le_of_not_lt ‹_›)
  | reply b =>
    simp only [stubMove, hs] at h
    cases h
    exact .sent b hs

inductive NodeStep (s : DebugSys) (j : Nat) (n : CoreSys) : DebugLabel → Prop
  | same (l) (h : n = s.node j) : NodeStep s j n l
  | core (h : CoreSys.Step (s.node j) .core n) : NodeStep s j n (.core j)
  | guest (vmem) (hcall : (s.call j).free = true) (h : CoreSys.Step (s.node j) .guest n) :
    NodeStep s j n (.guest j vmem)
  /-- a signal from the call of a hart -/
  | asked (i l cl) (hcall : s.call i ≠ .hart .idle ∨ ∃ site, (s.node i).core = .instr site)
      (hcl : cl = .halt ∨ ∃ signal, cl = .hsm signal) (h : CoreSys.Step (s.node j) cl n) :
    NodeStep s j n l
  | init (i args) (hcall : s.call i = .hart (.init args)) (htarget : args.target = j)
      (h : n = { s.node j with ct := { (s.node j).ct with core := vcoreInit (some args.init) } }) :
    NodeStep s j n (.hartInit i)
  | regs (regs) (hs : s.stub = .idle)
      (h : n = { s.node j with
        ct := { (s.node j).ct with core := { (s.node j).ct.core with regs } } }) :
    NodeStep s j n .packet
  | stub (cl next) (hm : s.SignalMove j cl next) (h : CoreSys.Step (s.node j) cl n) :
    NodeStep s j n .stub

@[simp] theorem setNode_node (s : DebugSys) (i j : Nat) (n : CoreSys) :
    (s.setNode i n).node j = if j = i then n else s.node j := by
  simp only [setNode, Function.update_apply]

@[simp] theorem setCall_node (s : DebugSys) (i : Nat) (call : InsCall) :
    (s.setCall i call).node = s.node := rfl

@[simp] theorem setCall_call (s : DebugSys) (i j : Nat) (call : InsCall) :
    (s.setCall i call).call j = if j = i then call else s.call j := by
  simp only [setCall, Function.update_apply]

theorem Step.node {s s' : DebugSys} (h : Step s l s') (j : Nat) : s.NodeStep j (s'.node j) l := by
  cases h with
  | core i hi h =>
    simp only [setNode_node]
    split
    · subst ‹j = i›
      exact .core h
    · exact .same _ rfl
  | guest i vmem hi hcall hsize h =>
    simp only [setCall_node, setNode_node]
    split
    · subst ‹j = i›
      exact .guest vmem hcall h
    · exact .same _ rfl
  | hartStart | haltLock | haltUnlock | vCont | interrupt | stubGoto => exact .same _ rfl
  | hartInit i hcall =>
    simp only [setCall_node, setNode_node]
    split
    · rename_i args _ hj
      subst hj
      exact .init i args hcall rfl rfl
    · exact .same _ rfl
  | hartSignal i hcall h =>
    simp only [setCall_node, setNode_node]
    split
    · rename_i hj
      subst hj
      exact .asked i _ _ (.inl (by rw [hcall]; rintro ⟨⟩)) (.inr ⟨_, rfl⟩) h
    · exact .same _ rfl
  | hsm i i' signal site hi hj hcore hcall hsignal h =>
    simp only [setCall_node, setNode_node]
    split
    · subst ‹j = i'›
      exact .asked i _ _ (.inr ⟨site, hcore⟩) (.inr ⟨_, rfl⟩) h
    · exact .same _ rfl
  | haltNext i hcall hn h =>
    simp only [setCall_node, setNode_node]
    split
    · rename_i hj
      subst hj
      exact .asked i _ _ (.inl (by rw [hcall]; rintro ⟨⟩)) (.inl rfl) h
    · exact .same _ rfl
  | packet hs h =>
    cases h with
    | writeRegs regs =>
      simp only [setNode_node]
      split
      · rename_i hj
        subst hj
        exact .regs regs hs rfl
      · exact .same _ rfl
    | _ => exact .same _ rfl
  | stubSignal h hs =>
    simp only [setNode_node]
    split
    · rename_i hj
      subst hj
      exact .stub _ _ (stubMove_signal h) hs
    · exact .same _ rfl

end DebugSys

end SwitchV32
