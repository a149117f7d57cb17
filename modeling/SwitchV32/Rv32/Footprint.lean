import SwitchV32.Rv32.Program

/-!
# What an instruction depends on

Of memory, an instruction reads and writes the bytes of its access, and no
others: two states that differ elsewhere execute it alike. `Shared` are any
number of harts on one memory.
-/

namespace Rv32

-- ---------------------------------------------------------------------------
-- One hart
-- ---------------------------------------------------------------------------

/-- The states differ at most in the bytes of `D`. -/
structure State.AgreeOff (D : Word → Prop) (s s' : State) : Prop where
  x : s'.x = s.x
  pc : s'.pc = s.pc
  mem : ∀ a, ¬ D a → s'.mem a = s.mem a

def Op.Spares (D : Word → Prop) (s : State) (op : Op) : Prop :=
  ∀ a n, op.access? s = some (a, n) → ∀ k < n, ¬ D (a + BitVec.ofNat 32 k)

section
variable {D : Word → Prop} {s s' : State} {a : Word} {n : Nat} {op : Op}

theorem readLE_congr {mem mem' : Word → Byte}
    (h : ∀ k < n, mem' (a + BitVec.ofNat 32 k) = mem (a + BitVec.ofNat 32 k)) :
    readLE mem' a n = readLE mem a n := by
  induction n generalizing a with
  | zero => rfl
  | succ n ih =>
    have hfirst := h 0 (Nat.succ_pos n)
    simp only [BitVec.add_zero] at hfirst
    have hrest : readLE mem' (a + 1) n = readLE mem (a + 1) n := by
      apply ih
      intro k hk
      have hbyte := h (k + 1) (Nat.succ_lt_succ hk)
      rwa [Nat.add_comm k 1, BitVec.ofNat_add, ← BitVec.add_assoc] at hbyte
    simp only [readLE, hfirst, hrest]

theorem writeLE_of_spares {mem : Word → Byte} {b v : Word}
    (h : ∀ k < n, a + BitVec.ofNat 32 k ≠ b) : writeLE mem a n v b = mem b := by
  refine if_neg fun hlt => h (b - a).toNat hlt ?_
  rw [BitVec.ofNat_toNat, BitVec.setWidth_eq, BitVec.add_comm, BitVec.sub_add_cancel]

namespace State.AgreeOff

theorem get (h : AgreeOff D s s') (r : Reg) : s'.get r = s.get r := by
  simp only [State.get, h.x]

theorem set (h : AgreeOff D s s') (r : Reg) (v : Word) : AgreeOff D (s.set r v) (s'.set r v) := by
  unfold State.set
  split
  · exact h
  · exact ⟨by simp only [h.x], h.pc, h.mem⟩

theorem setPc (h : AgreeOff D s s') (pc : Word) : AgreeOff D { s with pc } { s' with pc } :=
  ⟨h.x, rfl, h.mem⟩

theorem next (h : AgreeOff D s s') : AgreeOff D s.next s'.next := by
  rw [State.next, State.next, h.pc]
  exact h.setPc _

theorem readLE (h : AgreeOff D s s') (hspares : ∀ k < n, ¬ D (a + BitVec.ofNat 32 k)) :
    Rv32.readLE s'.mem a n = Rv32.readLE s.mem a n :=
  readLE_congr fun k hk => h.mem _ (hspares k hk)

theorem writeLE (h : AgreeOff D s s') (a : Word) (n : Nat) (v : Word) :
    AgreeOff D { s with mem := Rv32.writeLE s.mem a n v }
      { s' with mem := Rv32.writeLE s'.mem a n v } := by
  refine ⟨h.x, h.pc, fun b hb => ?_⟩
  simp only [Rv32.writeLE]
  split
  · rfl
  · exact h.mem b hb

end State.AgreeOff

theorem set_mem (s : State) (r : Reg) (v : Word) : (s.set r v).mem = s.mem := by
  unfold State.set
  split <;> rfl

theorem Instr.exec_agreeOff (i : Instr) (h : s.AgreeOff D s')
    (hspares : (Op.base i).Spares D s) : (i.exec s).AgreeOff D (i.exec s') := by
  cases i with
  | op | mulDiv =>
    simp only [Instr.exec, h.get]
    exact (h.set _ _).next
  | opImm | shiftImm =>
    simp only [Instr.exec, h.get]
    exact (h.set _ _).next
  | lui => exact (h.set _ _).next
  | auipc =>
    simp only [Instr.exec, h.pc]
    exact (h.set _ _).next
  | branch o rs1 rs2 imm =>
    simp only [Instr.exec, h.get, h.pc]
    split
    · exact h.setPc _
    · exact h.next
  | load o rd rs1 imm =>
    have hread := h.readLE (hspares _ _ rfl)
    simp only [Instr.exec, h.get, hread]
    exact (h.set _ _).next
  | store o rs1 rs2 imm =>
    simp only [Instr.exec, h.get]
    exact h.next.writeLE _ _ _
  | jal rd imm =>
    simp only [Instr.exec, h.pc]
    exact (h.set _ _).setPc _
  | jalr rd rs1 imm =>
    simp only [Instr.exec, h.pc, h.get]
    exact (h.set _ _).setPc _

theorem Op.exec_agreeOff (h : s.AgreeOff D s') (hspares : op.Spares D s) :
    (op.exec s).AgreeOff D (op.exec s') := by
  cases op with
  | base i => exact i.exec_agreeOff h hspares
  | amo o aq rl rd rs1 rs2 =>
    have hread := h.readLE (hspares _ _ rfl)
    simp only [Op.exec, execAmo, State.word, h.get, hread]
    have hset := (h.set rd (BitVec.ofNat 32 (readLE s.mem (s.get rs1) 4))).next
    have hwrite := h.writeLE (s.get rs1) 4
      (o.eval (BitVec.ofNat 32 (readLE s.mem (s.get rs1) 4)) (s.get rs2))
    exact ⟨hset.x, hset.pc, hwrite.mem⟩

theorem Op.Spares.agreeOff (hspares : op.Spares D s) (h : s.AgreeOff D s') : op.Spares D s' := by
  have haccess : op.access? s' = op.access? s := by
    cases op with
    | base i => cases i <;> simp only [Op.access?, Instr.access?, h.get]
    | amo => simp only [Op.access?, h.get]
  intro a n ha
  rw [haccess] at ha
  exact hspares a n ha

theorem Op.exec_mem (hspares : op.Spares D s) (ha : D a) : (op.exec s).mem a = s.mem a := by
  cases op with
  | base i =>
    cases i with
    | store o rs1 rs2 imm =>
      refine writeLE_of_spares fun k hk heq => ?_
      exact hspares _ _ rfl k hk (heq ▸ ha)
    | branch =>
      simp only [Op.exec, Instr.exec]
      split <;> rfl
    | _ => simp only [Op.exec, Instr.exec, State.next_mem, set_mem]
  | amo o aq rl rd rs1 rs2 =>
    refine writeLE_of_spares fun k hk heq => ?_
    exact hspares _ _ rfl k hk (heq ▸ ha)

end

-- ---------------------------------------------------------------------------
-- Harts on one memory
-- ---------------------------------------------------------------------------

@[ext] structure Shared where
  x : Nat → Reg → Word
  pc : Nat → Word
  mem : Word → Byte

def Shared.hart (s : Shared) (i : Nat) : State := ⟨s.x i, s.pc i, s.mem⟩

def Shared.put (s : Shared) (i : Nat) (h : State) : Shared where
  x := Function.update s.x i h.x
  pc := Function.update s.pc i h.pc
  mem := h.mem

theorem Shared.put_hart (s : Shared) (i : Nat) : s.put i (s.hart i) = s := by
  simp only [Shared.put, Shared.hart, Function.update_eq_self]

structure Shared.Exec (s : Shared) (l : Nat × Op) (s' : Shared) : Prop where
  fetch : (s.hart l.1).word (s.hart l.1).pc = l.2.encode
  exec : s' = s.put l.1 (l.2.exec (s.hart l.1))

end Rv32
