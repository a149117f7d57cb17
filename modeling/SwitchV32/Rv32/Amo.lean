import SwitchV32.Rv32.Base

/-!
# The RV32A atomic memory operations

One AMO reads the word at the address in `rs1`, stores the operation applied to
it and `rs2`, and puts the word it read in `rd`. `LR.W` and `SC.W` share the
format; whether an `SC.W` may store depends on the address that the hart has
reserved.
-/

namespace Rv32

inductive AmoOp
  | swap | add | xor | and | or | min | max | minu | maxu
  deriving DecidableEq, Repr

/-- `aq` and `rl` sit between the 5-bit function code and `rs2`. -/
def amoFormat (funct5 : BitVec 5) (aq rl : BitVec 1) (rs2 rs1 rd : Reg) : Word :=
  field funct5 27 ||| field aq 26 ||| field rl 25 ||| field rs2 20 ||| field rs1 15 |||
    field 0b010#3 12 ||| field rd 7 ||| field Opcode.amo 0

def AmoOp.funct5 : AmoOp → BitVec 5
  | .swap => 0b00001
  | .add => 0b00000
  | .xor => 0b00100
  | .and => 0b01100
  | .or => 0b01000
  | .min => 0b10000
  | .max => 0b10100
  | .minu => 0b11000
  | .maxu => 0b11100

def encodeAmo (o : AmoOp) (aq rl : BitVec 1) (rd rs1 rs2 : Reg) : Word :=
  amoFormat o.funct5 aq rl rs2 rs1 rd

def encodeLr (aq rl : BitVec 1) (rd rs1 : Reg) : Word := amoFormat 0b00010 aq rl 0 rs1 rd

def encodeSc (aq rl : BitVec 1) (rd rs1 rs2 : Reg) : Word := amoFormat 0b00011 aq rl rs2 rs1 rd

def AmoOp.eval : AmoOp → Word → Word → Word
  | .swap, _, b => b
  | .add, a, b => a + b
  | .xor, a, b => a ^^^ b
  | .and, a, b => a &&& b
  | .or, a, b => a ||| b
  | .min, a, b => if a.toInt ≤ b.toInt then a else b
  | .max, a, b => if b.toInt ≤ a.toInt then a else b
  | .minu, a, b => if a.toNat ≤ b.toNat then a else b
  | .maxu, a, b => if b.toNat ≤ a.toNat then a else b

def State.word (s : State) (a : Word) : Word := BitVec.ofNat 32 (readLE s.mem a 4)

def execAmo (o : AmoOp) (rd rs1 rs2 : Reg) (s : State) : State :=
  let a := s.get rs1
  { (s.set rd (s.word a)).next with
    mem := writeLE s.mem a 4 (o.eval (s.word a) (s.get rs2)) }

def execLr (rd rs1 : Reg) (s : State) : State := (s.set rd (s.word (s.get rs1))).next

def execSc (rd rs1 rs2 : Reg) (s : State) : State :=
  { (s.set rd 0).next with mem := writeLE s.mem (s.get rs1) 4 (s.get rs2) }

/-- With `reserved` the address of the last `LR`, if no `SC` followed it. An `SC` that does not
store answers some value other than 0. -/
def ScDoes (reserved : Option Word) (rd rs1 rs2 : Reg) (s s' : State) : Prop :=
  if reserved = some (s.get rs1) then s' = execSc rd rs1 rs2 s
  else ∃ v, v ≠ 0 ∧ s' = (s.set rd v).next

-- ---------------------------------------------------------------------------
-- States that differ in nothing
-- ---------------------------------------------------------------------------

theorem State.next_inj {s s' : State} : s.next = s'.next ↔ s = s' := by
  constructor
  · intro h
    have hx := congrArg State.x h
    have hpc : s.pc + 4 = s'.pc + 4 := congrArg State.pc h
    have hmem := congrArg State.mem h
    exact State.ext hx (by bv_omega) hmem
  · rintro rfl
    rfl

theorem State.set_eq_self {s : State} {r : Reg} {v : Word} :
    s.set r v = s ↔ r = 0 ∨ s.get r = v := by
  by_cases h0 : r = 0
  · simp only [State.set, h0, ite_true, true_or]
  · simp only [State.set, State.get, h0, ite_false, false_or]
    constructor
    · intro h
      rw [← congrFun (congrArg State.x h) r]
      exact Function.update_self ..
    · rintro rfl
      rw [Function.update_eq_self]

theorem execSc_eq_fail {s : State} {rd rs1 rs2 : Reg} :
    (∃ v, v ≠ 0 ∧ execSc rd rs1 rs2 s = (s.set rd v).next) ↔
      rd = 0 ∧ writeLE s.mem (s.get rs1) 4 (s.get rs2) = s.mem := by
  constructor
  · rintro ⟨v, hv, h⟩
    have hmem : writeLE s.mem (s.get rs1) 4 (s.get rs2) = s.mem := by
      refine (congrArg State.mem h).trans ?_
      rw [State.next, State.set]
      split <;> rfl
    refine ⟨?_, hmem⟩
    by_contra h0
    have hx := congrFun (congrArg State.x h) rd
    simp only [execSc, State.next, State.set, h0, ite_false, Function.update_self] at hx
    exact hv hx.symm
  · rintro ⟨rfl, hmem⟩
    refine ⟨1, by decide, ?_⟩
    rw [execSc, hmem]
    rfl

theorem ScDoes.pc {reserved : Option Word} {rd rs1 rs2 : Reg} {s s' : State}
    (h : ScDoes reserved rd rs1 rs2 s s') : s'.pc = s.pc + 4 := by
  unfold ScDoes at h
  split at h
  · rw [h, execSc, State.next_pc, State.set_pc]
  · obtain ⟨v, -, rfl⟩ := h
    rw [State.next_pc, State.set_pc]

-- ---------------------------------------------------------------------------
-- Words in memory
-- ---------------------------------------------------------------------------

theorem add_2 (a : Word) : a + 1 + 1 = a + 2 := by rw [BitVec.add_assoc]; rfl

theorem add_3 (a : Word) : a + 2 + 1 = a + 3 := by rw [BitVec.add_assoc]; rfl

theorem word_writeLE (mem : Word → Byte) (a v : Word) :
    BitVec.ofNat 32 (readLE (writeLE mem a 4 v) a 4) = v := by
  have h1 : a + 1 - a = 1 := by rw [BitVec.add_comm, BitVec.add_sub_cancel]
  have h2 : a + 2 - a = 2 := by rw [BitVec.add_comm, BitVec.add_sub_cancel]
  have h3 : a + 3 - a = 3 := by rw [BitVec.add_comm, BitVec.add_sub_cancel]
  apply BitVec.eq_of_toNat_eq
  simp only [readLE, writeLE, add_2, add_3, h1, h2, h3, BitVec.sub_self]
  simp [Nat.shiftRight_eq_div_pow]
  omega

theorem writeLE_word (mem : Word → Byte) (a : Word) :
    writeLE mem a 4 (BitVec.ofNat 32 (readLE mem a 4)) = mem := by
  funext b
  simp only [writeLE]
  split
  · have hb : b = a + (b - a) := by rw [BitVec.add_comm, BitVec.sub_add_cancel]
    generalize b - a = k at *
    subst hb
    have hk : k = 0 ∨ k = 1 ∨ k = 2 ∨ k = 3 := by bv_omega
    have h0 := (mem a).isLt
    have h1 := (mem (a + 1)).isLt
    have h2 := (mem (a + 2)).isLt
    have h3 := (mem (a + 3)).isLt
    apply BitVec.eq_of_toNat_eq
    rcases hk with rfl | rfl | rfl | rfl <;>
      · simp only [readLE, add_2, add_3]
        simp [Nat.shiftRight_eq_div_pow]
        omega
  · rfl

theorem writeLE_eq_self {mem : Word → Byte} {a v : Word} :
    writeLE mem a 4 v = mem ↔ v = BitVec.ofNat 32 (readLE mem a 4) := by
  constructor
  · intro h
    rw [← word_writeLE mem a v, h]
  · rintro rfl
    exact writeLE_word mem a

-- ---------------------------------------------------------------------------
-- Format laws
-- ---------------------------------------------------------------------------

theorem amoFormat_eq (funct5 aq rl) (rs2 rs1 rd : Reg) :
    amoFormat funct5 aq rl rs2 rs1 rd =
      rFormat (funct5.setWidth 7 <<< 2 ||| aq.setWidth 7 <<< 1 ||| rl.setWidth 7) rs2 rs1 0b010 rd
        Opcode.amo := by
  apply BitVec.eq_of_getLsbD_eq
  intro i hi
  simp only [amoFormat, rFormat, BitVec.getLsbD_or, getLsbD_field, BitVec.getLsbD_shiftLeft,
    BitVec.getLsbD_setWidth]
  interval_cases i <;> simp

end Rv32
