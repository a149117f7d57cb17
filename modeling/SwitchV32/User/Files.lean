import SwitchV32.Fds
import SwitchV32.Lts
import SwitchV32.Cpu

/-!
# The files of the guest in the user build

`user/emu.c`: the system calls of the guest that take or return a descriptor. A
guest descriptor is a host descriptor less `ELF_FDS_BASELINE`. What the host
answers to a call that leaves the descriptors alone is a parameter of the call.
-/

namespace SwitchV32

namespace User

/-- `ELF_FDS_BASELINE`: the host descriptors from there on are for the guest. -/
abbrev elfFdsBaseline : Nat := 512

inductive FdCall (File : Type)
  /-- `OPEN`, with what the host finds under the path -/
  | openFile (file : Option File)
  | close (a0 : U32)
  | lseek (a0 ret : U32)
  | read (a0 ret : U32)
  | write (a0 ret : U32)
  | fstat (a0 ret : U32)

structure FdResult (File : Type) where
  a0 : U32
  fds : Fds File
  /-- the host descriptors that it passes to the host -/
  acted : List Int

section
variable {File : Type} (fds : Fds File)

/-- `fd += ELF_FDS_BASELINE` on an `int` -/
def hostFd (a0 : U32) : Int := (a0 + BitVec.ofNat 32 elfFdsBaseline).toInt

/-- A negative descriptor is refused, another one is passed on to `call`. -/
def onFd (a0 : U32) (call : Int → U32 × Fds File) : FdResult File :=
  if a0.toInt < 0 then ⟨-1, fds, []⟩
  else
    let fd := hostFd a0
    ⟨(call fd).1, (call fd).2, [fd]⟩

def emuClose (a0 : U32) : FdResult File :=
  onFd fds a0 fun fd => (BitVec.ofInt 32 (fds.close fd).1, (fds.close fd).2)

def onOpen (ret : U32) (fd : Int) : U32 × Fds File :=
  (if (fds.get fd).isSome then ret else -1, fds)

def emuLseek (a0 ret : U32) : FdResult File := onFd fds a0 (onOpen fds ret)
def emuRead (a0 ret : U32) : FdResult File := onFd fds a0 (onOpen fds ret)
def emuWrite (a0 ret : U32) : FdResult File := onFd fds a0 (onOpen fds ret)
def emuFstat (a0 ret : U32) : FdResult File := onFd fds a0 (onOpen fds ret)

def emuOpen (file : Option File) : Except Stop (FdResult File) :=
  match fds.openFile file with
  | (none, fds) => .ok ⟨-1, fds, []⟩
  | (some fd, fds) =>
    if fd ≥ elfFdsBaseline then .error (.exit exitFailure)
    else
      let (_, fds) := fds.dup2 fd (elfFdsBaseline + fd : Nat)
      let (_, fds) := fds.close fd
      .ok ⟨BitVec.ofNat 32 fd, fds, [fd, (elfFdsBaseline + fd : Nat), fd]⟩

/-- `emu_system_call` -/
def emuFdCall : FdCall File → Except Stop (FdResult File)
  | .openFile file => emuOpen fds file
  | .close a0 => .ok (emuClose fds a0)
  | .lseek a0 ret => .ok (emuLseek fds a0 ret)
  | .read a0 ret => .ok (emuRead fds a0 ret)
  | .write a0 ret => .ok (emuWrite fds a0 ret)
  | .fstat a0 ret => .ok (emuFstat fds a0 ret)

def FdStep (call : FdCall File) (fds' : Fds File) : Prop :=
  ∃ r, emuFdCall fds call = .ok r ∧ r.fds = fds'

end

-- ---------------------------------------------------------------------------
-- One system call
-- ---------------------------------------------------------------------------

section
variable {File : Type} {fds fds' : Fds File} {call : FdCall File} {r : FdResult File}
variable {a0 : U32} {f : File} {fd k : Nat}

/-- The sum may leave the range of an `int`, and then it is no descriptor. -/
theorem hostFd_cases (h : 0 ≤ a0.toInt) :
    hostFd a0 = (elfFdsBaseline + a0.toNat : Nat) ∨ hostFd a0 < 0 := by
  have hlt : a0.toNat < 2 ^ 31 := by
    have hwidth := a0.isLt
    rw [BitVec.toInt_eq_toNat_cond] at h
    split at h <;> omega
  have hsum : (a0 + BitVec.ofNat 32 elfFdsBaseline).toNat = elfFdsBaseline + a0.toNat := by
    rw [BitVec.toNat_add, BitVec.toNat_ofNat]
    simp only [elfFdsBaseline]
    omega
  unfold hostFd
  rw [BitVec.toInt_eq_toNat_cond, hsum]
  split
  · exact .inl rfl
  · exact .inr (by omega)

theorem onFd_other {call : Int → U32 × Fds File}
    (hcall : ∀ fd : Int, 0 ≤ a0.toInt → fd = hostFd a0 → (call fd).2.file k = fds.file k) :
    (onFd fds a0 call).fds.file k = fds.file k := by
  unfold onFd
  split
  · rfl
  · rename_i hneg
    exact hcall _ (by omega) rfl

theorem onFd_acted {call : Int → U32 × Fds File} {fd : Int}
    (h : fd ∈ (onFd fds a0 call).acted) : fd < 0 ∨ elfFdsBaseline ≤ fd := by
  unfold onFd at h
  split at h
  · cases h
  · rename_i hneg
    rw [List.mem_singleton.mp h]
    have hpos : 0 ≤ a0.toInt := by omega
    obtain heq | hlt := hostFd_cases hpos
    · exact .inr (by omega)
    · exact .inl hlt

/-- The answer of `OPEN` is the lowest free descriptor of the host, and the file is open at the
guest's side of it. -/
theorem emuOpen_eq (hmax : 2 * elfFdsBaseline ≤ fds.openMax) (hlowest : fds.lowest = some fd)
    (hlt : fd < elfFdsBaseline) :
    emuOpen fds (some f) = .ok ⟨BitVec.ofNat 32 fd, fds.set (elfFdsBaseline + fd) (some f),
      [fd, (elfFdsBaseline + fd : Nat), fd]⟩ := by
  obtain ⟨-, hfree⟩ := Fds.lowest_some hlowest
  have hne : elfFdsBaseline + fd ≠ fd := by omega
  have hclose := Fds.open_dup2_close f hfree hne (by omega)
  unfold emuOpen Fds.openFile
  rw [hlowest]
  dsimp only
  rw [if_neg (by omega), hclose]

theorem emuOpen_ok {file : Option File} (hmax : 2 * elfFdsBaseline ≤ fds.openMax)
    (h : emuOpen fds file = .ok r) :
    ((file = none ∨ fds.lowest = none) ∧ r = ⟨-1, fds, []⟩) ∨
    ∃ f fd, file = some f ∧ fds.lowest = some fd ∧ fd < elfFdsBaseline ∧
      r = ⟨BitVec.ofNat 32 fd, fds.set (elfFdsBaseline + fd) (some f),
        [fd, (elfFdsBaseline + fd : Nat), fd]⟩ := by
  cases file with
  | none =>
    cases h
    exact .inl ⟨.inl rfl, rfl⟩
  | some f =>
    cases hlowest : fds.lowest with
    | none =>
      simp only [emuOpen, Fds.openFile, hlowest] at h
      cases h
      exact .inl ⟨.inr rfl, rfl⟩
    | some fd =>
      by_cases hlt : fd < elfFdsBaseline
      · rw [emuOpen_eq hmax hlowest hlt] at h
        cases h
        exact .inr ⟨f, fd, rfl, rfl, hlt, rfl⟩
      · simp only [emuOpen, Fds.openFile, hlowest, if_pos (Nat.le_of_not_lt hlt)] at h
        cases h

theorem toInt_ofNat (h : fd < elfFdsBaseline) : (BitVec.ofNat 32 fd).toInt = fd := by
  simp only [elfFdsBaseline] at h
  rw [BitVec.toInt_eq_toNat_cond, BitVec.toNat_ofNat]
  split <;> omega

theorem toNat_ofNat (h : fd < elfFdsBaseline) : (BitVec.ofNat 32 fd).toNat = fd := by
  simp only [elfFdsBaseline] at h
  rw [BitVec.toNat_ofNat]
  omega

theorem emuOpen_opened {file : Option File} (hmax : 2 * elfFdsBaseline ≤ fds.openMax)
    (h : emuOpen fds file = .ok r) (hpos : 0 ≤ r.a0.toInt) :
    ∃ f, file = some f ∧ fds.lowest = some r.a0.toNat ∧ r.a0.toNat < elfFdsBaseline ∧
      r.fds = fds.set (elfFdsBaseline + r.a0.toNat) (some f) := by
  obtain ⟨-, rfl⟩ | ⟨f, fd, hfile, hlowest, hlt, rfl⟩ := emuOpen_ok hmax h
  · have hneg : ¬ 0 ≤ (-1 : U32).toInt := by decide
    exact absurd hpos hneg
  · refine ⟨f, hfile, ?_⟩
    dsimp only
    rw [toNat_ofNat hlt]
    exact ⟨hlowest, hlt, rfl⟩

/-- An `OPEN` that succeeds finds the guest's side of the lowest free descriptor free. -/
def Fresh (fds : Fds File) : FdCall File → Prop
  | .openFile (some _) => ∀ fd, fds.lowest = some fd → fd < elfFdsBaseline →
    fds.file (elfFdsBaseline + fd) = none
  | _ => True

theorem FdStep.vm (hmax : 2 * elfFdsBaseline ≤ fds.openMax) (h : FdStep fds call fds')
    (hk : k < elfFdsBaseline) : fds'.file k = fds.file k := by
  obtain ⟨r, hcall, rfl⟩ := h
  cases call with
  | openFile file =>
    obtain ⟨-, rfl⟩ | ⟨f, fd, rfl, -, -, rfl⟩ := emuOpen_ok hmax hcall
    · rfl
    · exact Fds.set_other (by omega)
  | close a0 =>
    cases hcall
    refine onFd_other fun fd hpos hfd => ?_
    dsimp only
    obtain heq | hneg := hostFd_cases hpos
    · rw [hfd, heq]
      exact Fds.close_other (by omega)
    · rw [hfd, Fds.close_neg hneg]
  | lseek | read | write | fstat =>
    cases hcall
    exact onFd_other fun _ _ _ => rfl

theorem FdStep.kept (hmax : 2 * elfFdsBaseline ≤ fds.openMax) (h : FdStep fds call fds')
    (hfresh : Fresh fds call) (hclose : call ≠ .close a0)
    (hopen : fds.file (elfFdsBaseline + a0.toNat) = some f) :
    fds'.file (elfFdsBaseline + a0.toNat) = some f := by
  obtain ⟨r, hcall, rfl⟩ := h
  rw [← hopen]
  cases call with
  | openFile file =>
    obtain ⟨-, rfl⟩ | ⟨g, fd, rfl, hlowest, hlt, rfl⟩ := emuOpen_ok hmax hcall
    · rfl
    · refine Fds.set_other fun heq => ?_
      rw [heq, hfresh fd hlowest hlt] at hopen
      cases hopen
  | close b0 =>
    cases hcall
    refine onFd_other fun fd hpos hfd => ?_
    dsimp only
    obtain heq | hneg := hostFd_cases hpos
    · rw [hfd, heq]
      refine Fds.close_other fun hsame => hclose ?_
      rw [BitVec.eq_of_toNat_eq (x := a0) (y := b0) (by omega)]
    · rw [hfd, Fds.close_neg hneg]
  | lseek | read | write | fstat =>
    cases hcall
    exact onFd_other fun _ _ _ => rfl

theorem FdStep.openMax (hmax : 2 * elfFdsBaseline ≤ fds.openMax) (h : FdStep fds call fds') :
    fds'.openMax = fds.openMax := by
  obtain ⟨r, hcall, rfl⟩ := h
  cases call with
  | openFile file =>
    obtain ⟨-, rfl⟩ | ⟨f, fd, rfl, -, -, rfl⟩ := emuOpen_ok hmax hcall
    · rfl
    · rfl
  | close a0 =>
    cases hcall
    simp only [emuClose, onFd]
    split
    · rfl
    · rw [Fds.close_openMax]
  | lseek | read | write | fstat =>
    cases hcall
    simp only [emuLseek, emuRead, emuWrite, emuFstat, onFd, onOpen]
    split <;> rfl

/-- The host calls are on descriptors of the guest, and on the free one that `OPEN` is given. -/
theorem emuFdCall_acted {fd : Int} (hmax : 2 * elfFdsBaseline ≤ fds.openMax)
    (h : emuFdCall fds call = .ok r) (hfd : fd ∈ r.acted) (hlt : fd < elfFdsBaseline) :
    fds.get fd = none := by
  have hon {a0 call} (hr : onFd fds a0 call = r) : fds.get fd = none := by
    subst hr
    obtain hneg | hge := onFd_acted hfd
    · exact Fds.get_neg hneg
    · omega
  cases call with
  | openFile file =>
    obtain ⟨-, rfl⟩ | ⟨f, low, rfl, hlowest, -, rfl⟩ := emuOpen_ok hmax h
    · cases hfd
    · simp only [List.mem_cons, List.not_mem_nil, or_false] at hfd
      obtain rfl : fd = low := by omega
      rw [Fds.get_ofNat]
      exact (Fds.lowest_some hlowest).2
  | close | lseek | read | write | fstat =>
    exact hon (Except.ok.inj h)

end

-- ---------------------------------------------------------------------------
-- A sequence of system calls
-- ---------------------------------------------------------------------------

section
variable {File : Type} {s₀ s : Fds File} {t : List (Fds File × FdCall File)}

structure OwnFiles (s₀ : Fds File) (t : List (Fds File × FdCall File)) (s : Fds File) : Prop where
  /-- the descriptors of the VM are as they were -/
  vm : ∀ k < elfFdsBaseline, s.file k = s₀.file k
  /-- and no call acts on an open one -/
  acted : ∀ t₁ s₁ call t₂ r, t = t₁ ++ (s₁, call) :: t₂ → emuFdCall s₁ call = .ok r →
    ∀ fd ∈ r.acted, fd < elfFdsBaseline → s₁.get fd = none
  /-- a successful `OPEN` returns a descriptor that is not open -/
  fresh : ∀ t₁ s₁ file t₂ r, t = t₁ ++ (s₁, .openFile file) :: t₂ →
    emuFdCall s₁ (.openFile file) = .ok r → 0 ≤ r.a0.toInt →
    s₁.file (elfFdsBaseline + r.a0.toNat) = none
  /-- which denotes the file that it opened until the guest closes it -/
  own : ∀ t₁ s₁ file t₂ r, t = t₁ ++ (s₁, .openFile file) :: t₂ →
    emuFdCall s₁ (.openFile file) = .ok r → 0 ≤ r.a0.toInt →
    (∀ e ∈ t₂, e.2 ≠ .close r.a0) → s.file (elfFdsBaseline + r.a0.toNat) = file
  /-- as do the descriptors that were open from the start -/
  std : ∀ (a0 : U32) f, s₀.file (elfFdsBaseline + a0.toNat) = some f →
    (∀ e ∈ t, e.2 ≠ .close a0) → s.file (elfFdsBaseline + a0.toNat) = some f

theorem run_openMax (hmax : 2 * elfFdsBaseline ≤ s₀.openMax) (h : Lts.Run FdStep s₀ t s) :
    2 * elfFdsBaseline ≤ s.openMax :=
  h.inv_all (fun s => 2 * elfFdsBaseline ≤ s.openMax)
    (fun _ _ _ hmax hstep => by rw [hstep.openMax hmax]; exact hmax) hmax

theorem run_vm (hmax : 2 * elfFdsBaseline ≤ s₀.openMax) (h : Lts.Run FdStep s₀ t s) {k : Nat}
    (hk : k < elfFdsBaseline) : s.file k = s₀.file k := by
  induction h with
  | nil => rfl
  | snoc hrun hstep ih => rw [hstep.vm (run_openMax hmax hrun) hk, ih]

theorem run_kept (hmax : 2 * elfFdsBaseline ≤ s₀.openMax) (h : Lts.Run FdStep s₀ t s)
    (hfresh : Lts.Every Fresh t) {a0 : U32} (hclose : ∀ e ∈ t, e.2 ≠ .close a0) {f : File}
    (hopen : s₀.file (elfFdsBaseline + a0.toNat) = some f) :
    s.file (elfFdsBaseline + a0.toNat) = some f := by
  induction h with
  | nil => exact hopen
  | snoc hrun hstep ih =>
    rw [Lts.every_append, Lts.every_cons] at hfresh
    have hbefore := ih hfresh.1 fun e he => hclose e (List.mem_append_left _ he)
    exact hstep.kept (run_openMax hmax hrun) hfresh.2.1
      (hclose _ (List.mem_append_right _ (List.mem_singleton.mpr rfl))) hbefore

/-- The guest's descriptors are its own exactly if no `OPEN` finds the guest's side of the lowest
free host descriptor taken. -/
theorem ownFiles_iff (hmax : 2 * elfFdsBaseline ≤ s₀.openMax) (h : Lts.Run FdStep s₀ t s) :
    OwnFiles s₀ t s ↔ Lts.Every Fresh t := by
  constructor
  · intro hown
    rintro ⟨s₁, call⟩ he
    obtain ⟨t₁, t₂, ht⟩ := List.append_of_mem he
    cases call with
    | openFile file =>
      cases file with
      | none => trivial
      | some f =>
        intro fd hlowest hlt
        obtain ⟨h₁, s₂, ⟨r, hcall, -⟩, -⟩ := h.split ht
        obtain ⟨hnone | hnone, -⟩ | ⟨g, low, heq, hlow, -, rfl⟩ :=
          emuOpen_ok (run_openMax hmax h₁) hcall
        · cases hnone
        · cases hnone.symm.trans hlowest
        · cases hlowest.symm.trans hlow
          have hfree := hown.fresh t₁ s₁ _ t₂ _ ht hcall (by rw [toInt_ofNat hlt]; omega)
          rwa [toNat_ofNat hlt] at hfree
    | close | lseek | read | write | fstat => trivial
  · intro hfresh
    refine ⟨fun k hk => run_vm hmax h hk, ?_, ?_, ?_, ?_⟩
    · intro t₁ s₁ call t₂ r ht hcall fd hfd hlt
      obtain ⟨h₁, -⟩ := h.split ht
      exact emuFdCall_acted (run_openMax hmax h₁) hcall hfd hlt
    · intro t₁ s₁ file t₂ r ht hcall hpos
      obtain ⟨h₁, -⟩ := h.split ht
      obtain ⟨f, rfl, hlowest, hlt, -⟩ := emuOpen_opened (run_openMax hmax h₁) hcall hpos
      rw [ht, Lts.every_append, Lts.every_cons] at hfresh
      exact hfresh.2.1 _ hlowest hlt
    · intro t₁ s₁ file t₂ r ht hcall hpos hclose
      obtain ⟨h₁, s₂, hstep, h₂⟩ := h.split ht
      have hmax₁ := run_openMax hmax h₁
      have hmax₂ : 2 * elfFdsBaseline ≤ s₂.openMax := by rw [hstep.openMax hmax₁]; exact hmax₁
      obtain ⟨f, rfl, -, -, hset⟩ := emuOpen_opened hmax₁ hcall hpos
      obtain ⟨r', hcall', rfl⟩ := hstep
      cases hcall.symm.trans hcall'
      rw [ht, Lts.every_append, Lts.every_cons] at hfresh
      exact run_kept hmax₂ h₂ hfresh.2.2 hclose (by rw [hset, Fds.set_same])
    · intro a0 f hopen hclose
      exact run_kept hmax h hfresh hclose hopen

end

def stdFds : Fds Nat where
  openMax := 1024
  file k :=
    if k < 3 then some k
    else if elfFdsBaseline ≤ k ∧ k < elfFdsBaseline + 3 then some (k - elfFdsBaseline)
    else none

theorem stdFds_open (f : Nat) :
    FdStep stdFds (.openFile (some f)) (stdFds.set (elfFdsBaseline + 3) (some f)) := by
  have hopen : emuOpen stdFds (some f) = .ok _ := emuOpen_eq (by decide) rfl (by decide)
  exact ⟨_, hopen, rfl⟩

/-- A file that is closed before the next one is opened. -/
theorem ownFiles_closed :
    ∃ t s, t.map Prod.snd = [.openFile (some 7), .close 3] ∧ Lts.Run FdStep stdFds t s ∧
      OwnFiles stdFds t s := by
  have hrun := (Lts.Run.one (stdFds_open 7)).snoc (l := .close 3) ⟨_, rfl, rfl⟩
  refine ⟨_, _, rfl, hrun, (ownFiles_iff (by decide) hrun).mpr ?_⟩
  simp only [Lts.every_append, Lts.every_cons, Lts.every_nil, and_true]
  refine ⟨fun fd hlowest _ => ?_, trivial⟩
  cases hlowest
  rfl

/-- Two files in a row get one descriptor, which is left on the second. -/
theorem ownFiles_fails :
    ∃ t s, t.map Prod.snd = [.openFile (some 7), .openFile (some 8)] ∧
      Lts.Run FdStep stdFds t s ∧ s.file (elfFdsBaseline + 3) = some 8 ∧
      ¬ OwnFiles stdFds t s := by
  have hopen : emuOpen (stdFds.set (elfFdsBaseline + 3) (some 7)) (some 8) = .ok _ :=
    emuOpen_eq (by decide) rfl (by decide)
  have hagain : emuFdCall (stdFds.set (elfFdsBaseline + 3) (some 7)) (.openFile (some 8)) = .ok _ :=
    hopen
  have hrun := (Lts.Run.one (stdFds_open 7)).snoc (l := .openFile (some 8)) ⟨_, hagain, rfl⟩
  refine ⟨_, _, rfl, hrun, rfl, fun hown => ?_⟩
  have hfree := hown.fresh [_] _ _ [] _ rfl hagain (by decide)
  cases hfree

end User

end SwitchV32
