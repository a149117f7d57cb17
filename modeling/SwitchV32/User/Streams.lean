import SwitchV32.User.Files

/-!
# The standard streams of the guest

`emu_std` of `user/emu.c`, which puts the first three descriptors of the guest
on the files of the options or on the VM's own streams, and what becomes of them
while the guest runs.
-/

namespace SwitchV32

namespace User

-- ---------------------------------------------------------------------------
-- `emu_std`
-- ---------------------------------------------------------------------------

section
variable {File : Type}

/-- The file of an option: `open`, `dup2` to `new` and `close`. -/
def emuStdFile (fds : Fds File) (file : Option File) (new : Nat) :
    Except Stop (Int × Fds File) :=
  match fds.openFile file with
  | (none, _) => .error (.exit exitFailure)
  | (some fd, fds) =>
    let (ret, fds) := fds.dup2 fd new
    let (_, fds) := fds.close fd
    .ok (ret, fds)

/-- The block of `stdin`, before its check. -/
def emuStdIn (fds : Fds File) : Option (Option File) → Except Stop (Int × Fds File)
  | none => .ok (fds.dup2 0 elfFdsBaseline)
  | some file => emuStdFile fds file elfFdsBaseline

/-- The blocks of `stdout` and `stderr`: the VM's own stream is not checked, `ret` is then still
what it was. -/
def emuStdOut (ret : Int) (fds : Fds File) (k : Nat) (option : Option (Option File)) :
    Except Stop (Int × Fds File) := do
  let (ret, fds) ← match option with
    | none => .ok (ret, (fds.dup2 k (elfFdsBaseline + k : Nat)).2)
    | some file => emuStdFile fds file (elfFdsBaseline + k)
  if ret = -1 then throw (.exit exitFailure) else return (ret, fds)

/-- The arguments are what is found to open for each option that is given. -/
def emuStd (fds : Fds File) (elfStdin elfStdout elfStderr : Option (Option File)) :
    Except Stop (Fds File) := do
  let (ret, fds) ← emuStdIn fds elfStdin
  if ret = -1 then throw (.exit exitFailure)
  else
    let (ret, fds) ← emuStdOut ret fds 1 elfStdout
    let (_, fds) ← emuStdOut ret fds 2 elfStderr
    return fds

end

-- ---------------------------------------------------------------------------
-- What the guest is given
-- ---------------------------------------------------------------------------

section
variable {File : Type} {fds fds' : Fds File} {f : File} {file : Option File} {fd k : Nat}
variable {option : Option (Option File)} {options : Nat → Option (Option File)}

/-- The VM is started with its three streams open, and not with all its descriptors. -/
structure Launched (fds : Fds File) : Prop where
  openMax : 2 * elfFdsBaseline ≤ fds.openMax
  streams : ∀ k < 3, ∃ f, fds.file k = some f
  free : ∃ fd < elfFdsBaseline, fds.lowest = some fd

/-- What the guest's stream `k` is for: the file of the option, or the VM's own stream. -/
def streamFile (fds : Fds File) (k : Nat) : Option (Option File) → Option File
  | none => fds.file k
  | some file => file

theorem streamFile_set {j : Nat} {f : Option File} (h : k ≠ j) :
    streamFile (fds.set j f) k option = streamFile fds k option := by
  cases option with
  | none => exact Fds.set_other h
  | some file => rfl

theorem Launched.set (h : Launched fds) (hk : elfFdsBaseline ≤ k) (f : Option File) :
    Launched (fds.set k f) := by
  obtain ⟨fd, hlt, hlowest⟩ := h.free
  refine ⟨h.openMax, fun j hj => ?_, fd, hlt, Fds.lowest_set hlowest (Nat.lt_of_lt_of_le hlt hk)⟩
  simp only [elfFdsBaseline] at hk
  rw [Fds.set_other (by omega)]
  exact h.streams j hj

theorem emuStdFile_some (h : Launched fds) (hk : k < elfFdsBaseline) (f : File) :
    emuStdFile fds (some f) (elfFdsBaseline + k) =
      .ok ((elfFdsBaseline + k : Nat), fds.set (elfFdsBaseline + k) (some f)) := by
  obtain ⟨fd, hlt, hlowest⟩ := h.free
  have hmax := h.openMax
  obtain ⟨hfd, hfree⟩ := Fds.lowest_some hlowest
  have hnew : elfFdsBaseline + k < fds.openMax := by omega
  have hdup := Fds.dup2_open (s := fds.set fd (some f)) Fds.set_same hnew
  have hclose := Fds.open_dup2_close f hfree (by omega) hnew
  unfold emuStdFile Fds.openFile
  rw [hlowest]
  dsimp only
  rw [hclose, hdup]

theorem emuStdFile_none (fds : Fds File) (new : Nat) :
    emuStdFile fds none new = .error (.exit exitFailure) := rfl

/-- A stream of the VM is open, so that only a file that is not found is in the way. -/
theorem emuStdOut_ok {ret : Int} {r : Int × Fds File} (h : Launched fds) (hret : ret ≠ -1)
    (hk : k < 3) (hok : emuStdOut ret fds k option = .ok r) :
    ∃ f, streamFile fds k option = some f ∧ r.1 ≠ -1 ∧
      r.2 = fds.set (elfFdsBaseline + k) (some f) := by
  have hmax := h.openMax
  have hlt : k < elfFdsBaseline := by simp only [elfFdsBaseline]; omega
  have hnew : elfFdsBaseline + k < fds.openMax := by omega
  have hret' : ((elfFdsBaseline + k : Nat) : Int) ≠ -1 := by omega
  cases option with
  | none =>
    obtain ⟨f, hf⟩ := h.streams k hk
    simp only [emuStdOut, Fds.dup2_open hf hnew, ok_bind, if_neg hret] at hok
    cases hok
    exact ⟨f, hf, hret, rfl⟩
  | some file =>
    cases file with
    | none =>
      simp only [emuStdOut, emuStdFile_none, error_bind] at hok
      cases hok
    | some f =>
      simp only [emuStdOut, emuStdFile_some h hlt, ok_bind, if_neg hret'] at hok
      cases hok
      exact ⟨f, rfl, hret', rfl⟩

theorem emuStdIn_ok {r : Int × Fds File} (h : Launched fds) (hok : emuStdIn fds option = .ok r) :
    ∃ f, streamFile fds 0 option = some f ∧ r.1 ≠ -1 ∧
      r.2 = fds.set (elfFdsBaseline + 0) (some f) := by
  have hret : ((elfFdsBaseline + 0 : Nat) : Int) ≠ -1 := by decide
  have hnew : elfFdsBaseline + 0 < fds.openMax := Nat.lt_of_lt_of_le (by decide) h.openMax
  cases option with
  | none =>
    obtain ⟨f, hf⟩ := h.streams 0 (by decide)
    obtain rfl := Except.ok.inj ((congrArg Except.ok (Fds.dup2_open hf hnew)).symm.trans hok)
    exact ⟨f, hf, hret, rfl⟩
  | some file =>
    cases file with
    | none => cases hok
    | some f =>
      have hzero : 0 < elfFdsBaseline := by decide
      obtain rfl := Except.ok.inj ((emuStdFile_some h hzero f).symm.trans hok)
      exact ⟨f, rfl, hret, rfl⟩

/-- Where `emu_std` returns, the guest's three streams are on their files, and the VM's descriptors
are as they were. -/
theorem emuStd_ok (h : Launched fds)
    (hok : emuStd fds (options 0) (options 1) (options 2) = .ok fds') :
    fds'.openMax = fds.openMax ∧ (∀ k < elfFdsBaseline, fds'.file k = fds.file k) ∧
      ∀ k < 3, ∃ f, streamFile fds k (options k) = some f ∧
        fds'.file (elfFdsBaseline + k) = some f := by
  obtain ⟨⟨ret₀, fds₀⟩, hin, hok⟩ := bind_eq_ok.mp hok
  obtain ⟨f₀, hf₀, hret₀, hfds₀⟩ := emuStdIn_ok h hin
  dsimp only at hret₀ hfds₀
  subst hfds₀
  simp only [if_neg hret₀] at hok
  obtain ⟨⟨ret₁, fds₁⟩, hout, hok⟩ := bind_eq_ok.mp hok
  have h₁ := h.set (Nat.le_add_right elfFdsBaseline 0) (some f₀)
  obtain ⟨f₁, hf₁, hret₁, hfds₁⟩ := emuStdOut_ok h₁ hret₀ (by decide) hout
  dsimp only at hret₁ hfds₁
  subst hfds₁
  obtain ⟨⟨ret₂, fds₂⟩, herr, hok⟩ := bind_eq_ok.mp hok
  have h₂ := h₁.set (Nat.le_add_right elfFdsBaseline 1) (some f₁)
  obtain ⟨f₂, hf₂, -, hfds₂⟩ := emuStdOut_ok h₂ hret₁ (by decide) herr
  dsimp only at hfds₂
  subst hfds₂
  cases hok
  rw [streamFile_set (by decide)] at hf₁
  rw [streamFile_set (by decide), streamFile_set (by decide)] at hf₂
  refine ⟨rfl, fun k hk => ?_, fun k hk => ?_⟩
  · rw [Fds.set_other (by omega), Fds.set_other (by omega), Fds.set_other (by omega)]
  · have hcases : k = 0 ∨ k = 1 ∨ k = 2 := by omega
    obtain rfl | rfl | rfl := hcases
    · exact ⟨f₀, hf₀, rfl⟩
    · exact ⟨f₁, hf₁, rfl⟩
    · exact ⟨f₂, hf₂, rfl⟩

/-- `OPEN` does not find a stream of the VM free, so that it leaves the guest's side of it alone. -/
theorem FdStep.stream {call : FdCall File} (hmax : 2 * elfFdsBaseline ≤ fds.openMax)
    (hvm : fds.file k ≠ none) (h : FdStep fds call fds')
    (hclose : call ≠ .close (BitVec.ofNat 32 k)) :
    fds'.file (elfFdsBaseline + k) = fds.file (elfFdsBaseline + k) := by
  obtain ⟨r, hcall, rfl⟩ := h
  cases call with
  | openFile file =>
    obtain ⟨-, rfl⟩ | ⟨f, fd, -, hlowest, -, rfl⟩ := emuOpen_ok hmax hcall
    · rfl
    · refine Fds.set_other fun heq => hvm ?_
      rw [Nat.add_left_cancel heq]
      exact (Fds.lowest_some hlowest).2
  | close a0 =>
    cases hcall
    refine onFd_other fun fd hpos hfd => ?_
    dsimp only
    obtain heq | hneg := hostFd_cases hpos
    · rw [hfd, heq]
      refine Fds.close_other fun hsame => hclose ?_
      have hnum : k = a0.toNat := by omega
      rw [hnum, BitVec.ofNat_toNat, BitVec.setWidth_eq]
    · rw [hfd, Fds.close_neg hneg]
  | lseek | read | write | fstat =>
    cases hcall
    exact onFd_other fun _ _ _ => rfl

theorem FdStep.stream_closed (hk : k < elfFdsBaseline)
    (h : FdStep fds (.close (BitVec.ofNat 32 k)) fds') : fds'.file (elfFdsBaseline + k) = none := by
  obtain ⟨r, hcall, rfl⟩ := h
  cases hcall
  have hpos : ¬ (BitVec.ofNat 32 k).toInt < 0 := by
    rw [toInt_ofNat hk]
    omega
  have hfd : hostFd (BitVec.ofNat 32 k) = (elfFdsBaseline + k : Nat) := by
    have hsum : (BitVec.ofNat 32 k + BitVec.ofNat 32 elfFdsBaseline).toNat =
        elfFdsBaseline + k := by
      rw [BitVec.toNat_add, BitVec.toNat_ofNat, BitVec.toNat_ofNat]
      simp only [elfFdsBaseline] at hk ⊢
      omega
    simp only [elfFdsBaseline] at hk
    rw [hostFd, BitVec.toInt_eq_toNat_cond, hsum, if_pos (by simp only [elfFdsBaseline]; omega)]
  simp only [emuClose, onFd, if_neg hpos, hfd]
  unfold Fds.close
  rw [Fds.get_ofNat]
  cases hfile : fds.file (elfFdsBaseline + k) with
  | none => exact hfile
  | some f => exact Fds.set_same

structure Streams (fds : Fds File) (options : Nat → Option (Option File))
    (t : List (Fds File × FdCall File)) (s : Fds File) : Prop where
  /-- a stream is on the file of its option, or on the VM's own stream, until the guest closes it -/
  on : ∀ k < 3, (∀ e ∈ t, e.2 ≠ .close (BitVec.ofNat 32 k)) →
    ∃ f, streamFile fds k (options k) = some f ∧ s.file (elfFdsBaseline + k) = some f
  /-- and then it stays closed -/
  closed : ∀ k < 3, (∃ e ∈ t, e.2 = .close (BitVec.ofNat 32 k)) →
    s.file (elfFdsBaseline + k) = none
  /-- as `OPEN` answers another descriptor -/
  opened : ∀ t₁ s₁ file t₂ r, t = t₁ ++ (s₁, .openFile file) :: t₂ →
    emuFdCall s₁ (.openFile file) = .ok r → 0 ≤ r.a0.toInt → 3 ≤ r.a0.toNat

/-- Whatever the guest calls, its streams stay what the options say until it closes them. -/
theorem streams_kept {t : List (Fds File × FdCall File)} {s : Fds File} (h : Launched fds)
    (hstd : emuStd fds (options 0) (options 1) (options 2) = .ok fds')
    (hrun : Lts.Run FdStep fds' t s) : Streams fds options t s := by
  obtain ⟨hmax, hvm, hstreams⟩ := emuStd_ok h hstd
  have hmax' : 2 * elfFdsBaseline ≤ fds'.openMax := hmax ▸ h.openMax
  -- the VM's own streams are never closed
  have hopen {t : List (Fds File × FdCall File)} {s : Fds File} (hrun : Lts.Run FdStep fds' t s)
      {k : Nat} (hk : k < 3) : s.file k ≠ none := by
    have hlt : k < elfFdsBaseline := Nat.lt_trans hk (by decide)
    obtain ⟨f, hf⟩ := h.streams k hk
    rw [run_vm hmax' hrun hlt, hvm k hlt, hf]
    exact Option.some_ne_none f
  refine ⟨fun k hk hnever => ?_, fun k hk hclosed => ?_, ?_⟩
  · obtain ⟨f, hstream, hfile⟩ := hstreams k hk
    refine ⟨f, hstream, ?_⟩
    induction hrun with
    | nil => exact hfile
    | snoc hrun hstep ih =>
      have hlast := hnever _ (List.mem_append_right _ (List.mem_singleton.mpr rfl))
      rw [hstep.stream (run_openMax hmax' hrun) (hopen hrun hk) hlast]
      exact ih fun e he => hnever e (List.mem_append_left _ he)
  · induction hrun with
    | nil => simp at hclosed
    | @snoc t s₁ call s₂ hrun hstep ih =>
      by_cases hlast : call = .close (BitVec.ofNat 32 k)
      · subst hlast
        exact hstep.stream_closed (Nat.lt_trans hk (by decide))
      · rw [hstep.stream (run_openMax hmax' hrun) (hopen hrun hk) hlast]
        obtain ⟨e, he, heq⟩ := hclosed
        obtain he | he := List.mem_append.mp he
        · exact ih ⟨e, he, heq⟩
        · rw [List.mem_singleton.mp he] at heq
          exact absurd heq hlast
  · intro t₁ s₁ file t₂ r ht hcall hpos
    obtain ⟨h₁, -⟩ := hrun.split ht
    obtain ⟨f, -, hlowest, -, -⟩ := emuOpen_opened (run_openMax hmax' h₁) hcall hpos
    exact Nat.le_of_not_lt fun hlt => hopen h₁ hlt (Fds.lowest_some hlowest).2

end

def launchedFds : Fds Nat where
  openMax := 1024
  file k := if k < 3 then some k else none

theorem launchedFds_launched : Launched launchedFds where
  openMax := by decide
  streams k hk := ⟨k, if_pos hk⟩
  free := ⟨3, by decide, rfl⟩

def twoFiles : Nat → Option (Option Nat)
  | 0 => some (some 7)
  | 1 => some (some 8)
  | _ => none

/-- A file that the guest opens, and its first stream closed. -/
theorem streams_kept_redirected : ∃ fds' t s,
    emuStd launchedFds (twoFiles 0) (twoFiles 1) (twoFiles 2) = .ok fds' ∧
      t.map Prod.snd = [.openFile (some 9), .close 0] ∧ Lts.Run FdStep fds' t s ∧
      Streams launchedFds twoFiles t s := by
  obtain ⟨fds', hstd, hlowest⟩ : ∃ fds',
      emuStd launchedFds (twoFiles 0) (twoFiles 1) (twoFiles 2) = .ok fds' ∧
        fds'.lowest = some 3 := ⟨_, rfl, rfl⟩
  obtain ⟨hmax, -⟩ := emuStd_ok launchedFds_launched hstd
  have hopen : emuFdCall fds' (.openFile (some 9)) = .ok _ :=
    emuOpen_eq (by rw [hmax]; decide) hlowest (by decide)
  have hstep : FdStep fds' (.openFile (some 9)) (fds'.set (elfFdsBaseline + 3) (some 9)) :=
    ⟨_, hopen, rfl⟩
  have hrun := (Lts.Run.one hstep).snoc (l := .close 0) ⟨_, rfl, rfl⟩
  exact ⟨_, _, _, hstd, rfl, hrun, streams_kept launchedFds_launched hstd hrun⟩

end User

end SwitchV32
