import SwitchV32.Lts
import SwitchV32.RegularFile
import SwitchV32.User.SystemCall

/-!
# The position in a file of the guest

`READ`, `WRITE` and `LSEEK` of `user/emu.c` on a descriptor that is open on a
regular file, beside a file of the guest's own on which offsets are signed. The
offset of `LSEEK` is widened without its sign.
-/

namespace SwitchV32

namespace Emu

open Effect
open User (hostFd)

-- ---------------------------------------------------------------------------
-- The file of the host
-- ---------------------------------------------------------------------------

/-- `ssize_t` and `off_t` of a function of the host -/
def returned (r : Option Nat) : BitVec 64 := r.elim (-1) (BitVec.ofNat 64)

def answer32 (r : Option Nat) : U32 := r.elim (-1) (BitVec.ofNat 32)

def guestBytes (mem : Mem) (addr n : U32) : List U8 :=
  (List.range n.toNat).map fun i => mem.byte (addr.toNat + i)

section
variable {σ : Type}

def Host.serving (host : Host σ) (fd : Int) (f : RegularFile) (ready : Option Nat) : Host σ :=
  { host with
    lseek := fun fd' offset whence =>
      if fd' = fd then returned (f.answer ready (.lseek offset.toInt whence.toInt))
      else host.lseek fd' offset whence
    read := fun fd' n => if fd' = fd then (f.read ready n).map Prod.fst else host.read fd' n
    read_le := by
      intro fd' n bytes h
      split at h
      · obtain ⟨⟨bytes', f'⟩, hread, rfl⟩ := Option.map_eq_some_iff.mp h
        exact f.length_read hread
      · exact host.read_le fd' n bytes h
    write := fun fd' mem addr n =>
      if fd' = fd then returned (f.answer ready (.write (guestBytes mem addr n)))
      else host.write fd' mem addr n }

def positional : List Call := [.read, .write, .lseek]

/-- A call on the guest descriptor `d`, in whatever state the guest and the host are. -/
structure FileCall (σ : Type) (d : U32) where
  machine : Machine σ
  host : Host σ
  locals : Locals
  ready : Option Nat
  call : Call
  callOf_a7 : callOf (machine.reg Reg.a7) = some call
  call_mem : call ∈ positional
  reg_a0 : machine.reg Reg.a0 = d
  /-- An open descriptor is not negative. -/
  d_nonneg : 0 ≤ d.toInt

/-- The call on the file, `widen` being how the offset is taken. -/
def fileOp (widen : U32 → Int) (m : Machine σ) : Call → RegularFile.Op
  | .lseek => .lseek (widen (m.reg Reg.a1)) (m.reg Reg.a2).toInt
  | .write => .write (guestBytes m.vmem (m.reg Reg.a1) (m.reg Reg.a2))
  | _ => .read (m.reg Reg.a2).toNat

variable {d : U32}

/-- What the code passes to the host: the offset is `(off_t) core->regs[A1]`. -/
def FileCall.passed (c : FileCall σ d) : RegularFile.Op :=
  fileOp (fun a1 => (a1.setWidth 64).toInt) c.machine c.call

def FileCall.meant (c : FileCall σ d) : RegularFile.Op := fileOp BitVec.toInt c.machine c.call

def FileCall.Answers (c : FileCall σ d) (f : RegularFile) (a0 : U32) : Prop :=
  ∃ s, Runs (emuSystemCall (c.host.serving (hostFd d) f c.ready) c.locals) (.start c.machine) () s ∧
    s.reg Reg.a0 = a0

/-- The file of the host, and the one of the guest's own. -/
structure Files where
  file : RegularFile
  reference : RegularFile

def FileStep (s : Files) (c : FileCall σ d) (s' : Files) : Prop :=
  (∃ a0, c.Answers s.file a0) ∧
    s' = ⟨s.file.after c.ready c.passed, s.reference.after c.ready c.meant⟩

def AgreesAfter (s : Files) (c : FileCall σ d) : Prop :=
  (∀ a0, c.Answers s.file a0 → a0 = answer32 (s.reference.answer c.ready c.meant)) ∧
    (s.file.after c.ready c.passed).pos = (s.reference.after c.ready c.meant).pos

/-- It seeks by a negative offset, other than to right before the start of the file from the one
position that looks like the answer to that. -/
def FileCall.Backwards (f : RegularFile) (c : FileCall σ d) : Prop :=
  c.call = .lseek ∧ (c.machine.reg Reg.a1).toInt < 0 ∧
    ∃ base, f.seekBase (c.machine.reg Reg.a2).toInt = some base ∧
      ¬ (base + (c.machine.reg Reg.a1).toInt = -1 ∧ f.pos = 2 ^ 32 - 1)

end

section
variable {σ : Type} {d a0 : U32} {f : RegularFile} {c : FileCall σ d}

@[simp] theorem setWidth_returned (r : Option Nat) : (returned r).setWidth 32 = answer32 r := by
  cases r with
  | none => rfl
  | some n => simp [returned, answer32, BitVec.setWidth_ofNat_of_le]

theorem onFd_open {call : Int → EmuM σ Unit} (h : 0 ≤ d.toInt) :
    onFd d call = call (hostFd d) := by
  rw [onFd, if_neg (by omega)]

theorem emuRead_answers {host : Host σ} {m : Machine σ} {fd : Int} {s : EmuState σ}
    (h : Runs (emuRead host m fd) (.start m) () s) :
    s.reg Reg.a0 = answer32 ((host.read fd (m.reg Reg.a2).toNat).map List.length) := by
  unfold emuRead at h
  cases hread : host.read fd (m.reg Reg.a2).toNat with
  | none =>
    rw [hread] at h
    cases h
    exact EmuState.reg_setReg_self _ _ _
  | some bytes =>
    rw [hread] at h
    obtain ⟨⟨⟩, s₁, -, ha0⟩ := Runs.of_bind (x := putAt _ _) h
    cases ha0
    exact EmuState.reg_setReg_self _ _ _

theorem emuCall_serving (c : FileCall σ d) {s : EmuState σ}
    (h : Runs (emuCall (c.host.serving (hostFd d) f c.ready) c.locals c.machine c.call)
      (.start c.machine) () s) :
    s.reg Reg.a0 = answer32 (f.answer c.ready c.passed) := by
  revert h
  obtain ⟨m, host, locals, ready, call, -, hmem, rfl, hopen⟩ := c
  intro h
  cases call with
  | read =>
    simp only [emuCall, onFd_open hopen] at h
    rw [emuRead_answers h, Host.serving]
    simp [FileCall.passed, fileOp, RegularFile.answer, RegularFile.perform, Option.map_map,
      Function.comp_def]
  | write =>
    simp only [emuCall, onFd_open hopen] at h
    cases h
    rw [EmuState.reg_setReg_self, Host.serving]
    simp [FileCall.passed, fileOp]
  | lseek =>
    simp only [emuCall, onFd_open hopen] at h
    cases h
    rw [EmuState.reg_setReg_self, Host.serving]
    simp [FileCall.passed, fileOp]
  | close | fstat | exit | gettimeofday | brk | clockGettime | openFile | sdl =>
    simp [positional] at hmem

theorem FileCall.Answers.eq (h : c.Answers f a0) :
    a0 = answer32 (f.answer c.ready c.passed) := by
  obtain ⟨s, hrun, rfl⟩ := h
  rw [Runs, out_emuSystemCall c.callOf_a7] at hrun
  exact emuCall_serving c hrun

theorem FileCall.lseek_answers (h : c.call = .lseek) : ∃ a0, c.Answers f a0 := by
  have hcall := c.callOf_a7
  rw [h] at hcall
  obtain ⟨s, hrun⟩ : ∃ s, Runs (emuCall (c.host.serving (hostFd d) f c.ready) c.locals c.machine
      .lseek) (.start c.machine) () s := by
    simp only [emuCall, c.reg_a0, onFd_open c.d_nonneg]
    exact ⟨_, out_modify _ _⟩
  exact ⟨_, s, (out_emuSystemCall hcall).trans hrun, rfl⟩

theorem answer32_eq_neg_one {n : Nat} : answer32 (some n) = -1 ↔ n % 2 ^ 32 = 2 ^ 32 - 1 := by
  have hones : (-1 : U32).toNat = 2 ^ 32 - 1 := rfl
  have hlow : (answer32 (some n)).toNat = n % 2 ^ 32 := BitVec.toNat_ofNat _ _
  rw [BitVec.toNat_inj.symm, hlow, hones]

/-- A negative offset that has lost its sign leads elsewhere. -/
theorem lseek_unsigned_agrees_iff {ready : Option Nat} {whence offset : Int} {base : Nat}
    (hbase : f.seekBase whence = some base) (hneg : offset < 0) (hmin : -2 ^ 31 ≤ offset) :
    (answer32 (f.answer ready (.lseek (offset + 2 ^ 32) whence)) =
        answer32 (f.answer ready (.lseek offset whence)) ∧
      (f.after ready (.lseek (offset + 2 ^ 32) whence)).pos =
        (f.after ready (.lseek offset whence)).pos) ↔
    base + offset = -1 ∧ f.pos = 2 ^ 32 - 1 := by
  have hle := RegularFile.seekBase_le hbase
  have hmax : offMax = 2 ^ 63 - 1 := rfl
  simp only [RegularFile.answer_lseek, RegularFile.after_lseek, RegularFile.lseek_of_base hbase]
  obtain ⟨f₁, h₁, hpos₁, -⟩ | ⟨h₁, hout₁⟩ := f.seekTo_cases (base + (offset + 2 ^ 32)) <;>
    obtain ⟨f₂, h₂, hpos₂, -⟩ | ⟨h₂, hout₂⟩ := f.seekTo_cases (base + offset) <;>
    rw [h₁, h₂]
  · refine iff_of_false ?_ (by omega)
    rintro ⟨-, hpos⟩
    simp only [Option.getD_some] at hpos
    omega
  · rw [Option.map_some, Option.map_none]
    have hnone : answer32 none = -1 := rfl
    rw [hnone, answer32_eq_neg_one, Option.getD_some, Option.getD_none]
    omega
  · -- the target with the sign is the largest position
    refine iff_of_false ?_ (by omega)
    rintro ⟨ha0, -⟩
    have hpos := answer32_eq_neg_one.mp ha0.symm
    omega
  · omega

-- ---------------------------------------------------------------------------
-- One call, and runs
-- ---------------------------------------------------------------------------

theorem toInt_setWidth_64 (v : U32) : (v.setWidth 64).toInt = v.toNat := by
  have hlt := v.isLt
  have hwide : (v.setWidth 64).toNat = v.toNat := by
    rw [BitVec.toNat_setWidth]
    omega
  rw [BitVec.toInt_eq_toNat_cond, hwide, if_pos (by omega)]

theorem toNat_of_toInt_nonneg {v : U32} (h : 0 ≤ v.toInt) : (v.toNat : Int) = v.toInt := by
  have hint := BitVec.toInt_eq_toNat_cond v
  split at hint <;> omega

theorem toNat_of_toInt_neg {v : U32} (h : v.toInt < 0) : (v.toNat : Int) = v.toInt + 2 ^ 32 := by
  have hint := BitVec.toInt_eq_toNat_cond v
  split at hint <;> omega

theorem FileCall.passed_eq_meant (h : ¬ (c.call = .lseek ∧ (c.machine.reg Reg.a1).toInt < 0)) :
    c.passed = c.meant := by
  cases hcall : c.call with
  | lseek =>
    have hpos : 0 ≤ (c.machine.reg Reg.a1).toInt := by
      by_contra hneg
      exact h ⟨hcall, by omega⟩
    have hsame : ((c.machine.reg Reg.a1).setWidth 64).toInt = (c.machine.reg Reg.a1).toInt :=
      (toInt_setWidth_64 _).trans (toNat_of_toInt_nonneg hpos)
    simp only [passed, meant, hcall, fileOp, hsame]
  | read | write | close | fstat | exit | gettimeofday | brk | clockGettime | openFile | sdl =>
    simp only [passed, meant, hcall, fileOp]

theorem FileCall.passed_of_neg (hcall : c.call = .lseek)
    (hneg : (c.machine.reg Reg.a1).toInt < 0) :
    c.passed = .lseek ((c.machine.reg Reg.a1).toInt + 2 ^ 32) (c.machine.reg Reg.a2).toInt := by
  have hwide : ((c.machine.reg Reg.a1).setWidth 64).toInt =
      (c.machine.reg Reg.a1).toInt + 2 ^ 32 :=
    (toInt_setWidth_64 _).trans (toNat_of_toInt_neg hneg)
  simp only [passed, hcall, fileOp, hwide]

theorem agreesAfter_iff_passed (h : c.Answers f a0) :
    AgreesAfter ⟨f, f⟩ c ↔
      answer32 (f.answer c.ready c.passed) = answer32 (f.answer c.ready c.meant) ∧
        (f.after c.ready c.passed).pos = (f.after c.ready c.meant).pos := by
  refine and_congr_left fun _ => ⟨fun hagrees => ?_, fun hsame a0 ha0 => ?_⟩
  · exact h.eq.symm.trans (hagrees a0 h)
  · exact ha0.eq.trans hsame

theorem agreesAfter_iff (h : c.Answers f a0) : AgreesAfter ⟨f, f⟩ c ↔ ¬ c.Backwards f := by
  rw [agreesAfter_iff_passed h]
  by_cases hlost : c.call = .lseek ∧ (c.machine.reg Reg.a1).toInt < 0
  · obtain ⟨hcall, hneg⟩ := hlost
    have hmin : -2 ^ 31 ≤ (c.machine.reg Reg.a1).toInt := by
      simpa using (c.machine.reg Reg.a1).le_toInt
    rw [c.passed_of_neg hcall hneg, FileCall.meant, hcall]
    cases hbase : f.seekBase (c.machine.reg Reg.a2).toInt with
    | none =>
      refine iff_of_true ?_ ?_
      · simp only [fileOp, RegularFile.answer_lseek, RegularFile.after_lseek,
          RegularFile.lseek_of_no_base hbase, and_self]
      · rintro ⟨-, -, base, hsome, -⟩
        rw [hbase] at hsome
        cases hsome
    | some base =>
      refine (lseek_unsigned_agrees_iff hbase hneg hmin).trans ?_
      simp only [FileCall.Backwards, hcall, hneg, hbase, Option.some.injEq, exists_eq_left',
        true_and, not_not]
  · rw [c.passed_eq_meant hlost]
    exact iff_of_true ⟨rfl, rfl⟩ fun hback => hlost ⟨hback.1, hback.2.1⟩

theorem after_eq_of_agrees (h : AgreesAfter ⟨f, f⟩ c) :
    f.after c.ready c.passed = f.after c.ready c.meant := by
  by_cases hlost : c.call = .lseek ∧ (c.machine.reg Reg.a1).toInt < 0
  · obtain ⟨hcall, hneg⟩ := hlost
    refine RegularFile.ext_pos ?_ h.2
    rw [c.passed_of_neg hcall hneg, FileCall.meant, hcall, fileOp,
      RegularFile.content_after_lseek, RegularFile.content_after_lseek]
  · rw [c.passed_eq_meant hlost]

variable {t : List (Files × FileCall σ d)} {s : Files}

theorem run_same_file (h : Lts.Run FileStep ⟨f, f⟩ t s) (hagrees : Lts.Every AgreesAfter t) :
    s = ⟨s.file, s.file⟩ := by
  induction h with
  | nil => rfl
  | snoc _ hstep ih =>
    rw [Lts.every_append] at hagrees
    have hsame := ih hagrees.1
    have hlast := hagrees.2 _ (List.mem_singleton_self _)
    obtain ⟨-, rfl⟩ := hstep
    rw [hsame] at hlast ⊢
    rw [after_eq_of_agrees hlast]

/-- In every run on a regular file, the position and `a0` are those of the reference after every
call exactly if no call seeks backwards. -/
theorem file_position_agrees_iff (h : Lts.Run FileStep ⟨f, f⟩ t s) :
    Lts.Every AgreesAfter t ↔ Lts.Every (fun s c => ¬ c.Backwards s.file) t := by
  induction h with
  | nil => simp
  | @snoc t s c s' hrun hstep ih =>
    rw [Lts.every_append, Lts.every_append, ih]
    refine and_congr_right fun hforwards => ?_
    rw [Lts.every_cons, Lts.every_cons]
    refine and_congr ?_ (by simp)
    obtain ⟨⟨a0, ha0⟩, -⟩ := hstep
    rw [run_same_file hrun (ih.mpr hforwards)]
    exact agreesAfter_iff ha0

end

/-- A call on a file that is open as the descriptor 3. -/
def callOnThree (call : Call) (a7 a1 a2 : U32) (hcall : callOf a7 = some call)
    (hmem : call ∈ positional) : FileCall Unit 3 where
  machine := calling [(Reg.a7, a7), (Reg.a0, 3), (Reg.a1, a1), (Reg.a2, a2)]
  host := .failing Unit
  locals := .filledWith 0
  ready := some 4096
  call := call
  callOf_a7 := hcall
  call_mem := hmem
  reg_a0 := rfl
  d_nonneg := by decide

def readCall (addr n : U32) : FileCall Unit 3 := callOnThree .read 63 addr n rfl (by decide)
def writeCall (addr n : U32) : FileCall Unit 3 := callOnThree .write 64 addr n rfl (by decide)

def seekCall (offset whence : U32) : FileCall Unit 3 :=
  callOnThree .lseek 62 offset whence rfl (by decide)

def fourBytes : RegularFile where
  content := [1, 2, 3, 4]
  pos := 2
  size_le := by decide
  pos_le := by decide

def Files.next {d : U32} (s : Files) (c : FileCall Unit d) : Files :=
  ⟨s.file.after c.ready c.passed, s.reference.after c.ready c.meant⟩

theorem seekCall_run (offset whence : U32) : Lts.Run FileStep ⟨fourBytes, fourBytes⟩
    [(⟨fourBytes, fourBytes⟩, seekCall offset whence)]
    (Files.next ⟨fourBytes, fourBytes⟩ (seekCall offset whence)) :=
  .one ⟨FileCall.lseek_answers rfl, rfl⟩

/-- A read of one byte, a write of two over the end, and a seek behind it. -/
theorem file_position_agrees_forwards :
    ∃ t s, Lts.Run FileStep ⟨fourBytes, fourBytes⟩ t s ∧
      t.map Prod.snd = [readCall 0 1, writeCall 0 2, seekCall 1 1] ∧
      s.file.content = [1, 2, 3, 0, 0] ∧ s.file.pos = 6 ∧ Lts.Every AgreesAfter t := by
  let s₀ : Files := ⟨fourBytes, fourBytes⟩
  let s₁ := s₀.next (readCall 0 1)
  let s₂ := s₁.next (writeCall 0 2)
  have hread : FileStep s₀ (readCall 0 1) s₁ := ⟨⟨_, _, rfl, rfl⟩, rfl⟩
  have hwrite : FileStep s₁ (writeCall 0 2) s₂ := ⟨⟨_, _, rfl, rfl⟩, rfl⟩
  have hseek : FileStep s₂ (seekCall 1 1) (s₂.next (seekCall 1 1)) :=
    ⟨FileCall.lseek_answers rfl, rfl⟩
  have hrun := ((Lts.Run.one hread).snoc hwrite).snoc hseek
  refine ⟨_, _, hrun, rfl, by decide, by decide, (file_position_agrees_iff hrun).mpr ?_⟩
  simp only [Lts.every_append, Lts.every_cons, Lts.every_nil, and_true]
  refine ⟨⟨?_, ?_⟩, ?_⟩
  · rintro ⟨hcall, -⟩
    cases hcall
  · rintro ⟨hcall, -⟩
    cases hcall
  · rintro ⟨-, hneg, -⟩
    exact absurd hneg (by decide)

/-- A seek by -1 from 2 goes to `2 ^ 32 + 1`. -/
theorem file_position_agrees_fails :
    ∃ s, Lts.Run FileStep ⟨fourBytes, fourBytes⟩
        [(⟨fourBytes, fourBytes⟩, seekCall (-1) 1)] s ∧
      s.file.pos = 2 ^ 32 + 1 ∧ s.reference.pos = 1 ∧
      ¬ Lts.Every AgreesAfter [(⟨fourBytes, fourBytes⟩, seekCall (-1) 1)] := by
  have hpos : (fourBytes.after none (seekCall (-1) 1).passed).pos = 2 ^ 32 + 1 := by decide
  have href : (fourBytes.after none (seekCall (-1) 1).meant).pos = 1 := by decide
  refine ⟨_, seekCall_run (-1) 1, hpos, href, fun hagrees => ?_⟩
  obtain ⟨-, hsame⟩ := hagrees _ (List.mem_singleton_self _)
  have hsame : (fourBytes.after none (seekCall (-1) 1).passed).pos =
      (fourBytes.after none (seekCall (-1) 1).meant).pos := hsame
  rw [hpos, href] at hsame
  exact absurd hsame (by decide)

end Emu

end SwitchV32
