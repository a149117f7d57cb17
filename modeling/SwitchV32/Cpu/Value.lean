import SwitchV32.Cpu
import SwitchV32.Cpu.Decode

/-!
# The computed values are the specified ones

Each switch of `cpu.c`, given the function code of an encoded instruction,
answers the value the manual prescribes for it.
-/

namespace SwitchV32

open Rv32 (AluOp MulOp ImmOp ShiftOp BranchOp LoadOp StoreOp field rFormat iFormat readLE writeLE)

-- ---------------------------------------------------------------------------
-- Arithmetic
-- ---------------------------------------------------------------------------

theorem toNat_and_31 (x : U32) : (x &&& 31).toNat = x.toNat % 32 := by
  rw [BitVec.toNat_and]
  exact Nat.and_two_pow_sub_one_eq_mod _ 5

/-- Masking out the low word before the shift changes nothing. -/
theorem highWord_ofInt (z : Int) : highWord (BitVec.ofInt 64 z) = BitVec.ofInt 32 (z / 2 ^ 32) := by
  have hmask : highWord (BitVec.ofInt 64 z) = (BitVec.ofInt 64 z >>> 32).setWidth 32 := by
    apply BitVec.eq_of_getLsbD_eq
    intro i hi
    simp only [highWord, BitVec.getLsbD_setWidth, BitVec.getLsbD_ushiftRight, BitVec.getLsbD_and]
    interval_cases i <;> simp
  rw [hmask]
  apply BitVec.eq_of_toNat_eq
  simp only [BitVec.toNat_setWidth, BitVec.toNat_ushiftRight, BitVec.toNat_ofInt,
    Nat.shiftRight_eq_div_pow]
  omega

theorem signExtend_64 (x : U32) : x.signExtend 64 = BitVec.ofInt 64 x.toInt := rfl

theorem setWidth_64 (x : U32) : x.setWidth 64 = BitVec.ofInt 64 x.toNat := by
  apply BitVec.eq_of_toNat_eq
  simp

theorem setWidth_ofInt_64 (z : Int) : (BitVec.ofInt 64 z).setWidth 32 = BitVec.ofInt 32 z := by
  apply BitVec.eq_of_toNat_eq
  simp only [BitVec.toNat_setWidth, BitVec.toNat_ofInt]
  omega

theorem sdiv_eq_ofInt (a b : U32) : a.sdiv b = BitVec.ofInt 32 (a.toInt.tdiv b.toInt) := by
  apply BitVec.eq_of_toInt_eq
  rw [BitVec.toInt_sdiv, BitVec.toInt_ofInt]

theorem srem_eq_ofInt (a b : U32) : a.srem b = BitVec.ofInt 32 (a.toInt.tmod b.toInt) := by
  rw [← BitVec.toInt_srem, BitVec.ofInt_toInt]

theorem toInt_eq_min {a : U32} : a.toInt = -2 ^ 31 ↔ a = int32Min := by
  constructor
  · intro h
    apply BitVec.eq_of_toInt_eq
    rw [h]
    decide
  · rintro rfl
    decide

-- ---------------------------------------------------------------------------
-- OP
-- ---------------------------------------------------------------------------

theorem rCorner_of_ne (h1 : func ≠ Func.div) (h2 : func ≠ Func.divu) (h3 : func ≠ Func.rem)
    (h4 : func ≠ Func.remu) : rCorner func a b = none := by
  simp [rCorner, h1, h2, h3, h4]

theorem rValue_alu (o : AluOp) (a b : U32) :
    rValue (field o.funct7 4 ||| field o.funct3 0) a b = some (o.eval a b) := by
  have hc : rCorner (field o.funct7 4 ||| field o.funct3 0) a b = none := by
    apply rCorner_of_ne <;> cases o <;> decide
  rw [rValue, hc, Option.none_or]
  cases o with
  | sll => exact congrArg some (congrArg (a <<< ·) (toNat_and_31 b))
  | srl => exact congrArg some (congrArg (a >>> ·) (toNat_and_31 b))
  | sra => exact congrArg some (congrArg (a.sshiftRight ·) (toNat_and_31 b))
  | slt =>
    show some (if a.slt b then (1 : U32) else 0) = some (if a.toInt < b.toInt then 1 else 0)
    simp [BitVec.slt]
  | sltu =>
    show some (if a.ult b then (1 : U32) else 0) = some (if a.toNat < b.toNat then 1 else 0)
    simp [BitVec.ult]
  | _ => rfl

theorem rValue_mul (o : MulOp) (h : o = .mul ∨ o = .mulh ∨ o = .mulhsu ∨ o = .mulhu) (a b : U32) :
    rValue (field 0b0000001#7 4 ||| field o.funct3 0) a b = some (o.eval a b) := by
  have hc : rCorner (field 0b0000001#7 4 ||| field o.funct3 0) a b = none := by
    apply rCorner_of_ne <;> rcases h with rfl | rfl | rfl | rfl <;> decide
  rw [rValue, hc, Option.none_or]
  rcases h with rfl | rfl | rfl | rfl
  · show some ((a.signExtend 64 * b.signExtend 64).setWidth 32) = some (a * b)
    rw [signExtend_64, signExtend_64, ← BitVec.ofInt_mul, setWidth_ofInt_64, BitVec.ofInt_mul,
      BitVec.ofInt_toInt, BitVec.ofInt_toInt]
  · show some (highWord (a.signExtend 64 * b.signExtend 64)) = _
    rw [signExtend_64, signExtend_64, ← BitVec.ofInt_mul, highWord_ofInt]
    rfl
  · show some (highWord (a.signExtend 64 * b.setWidth 64)) = _
    rw [signExtend_64, setWidth_64, ← BitVec.ofInt_mul, highWord_ofInt]
    rfl
  · show some (highWord (a.setWidth 64 * b.setWidth 64)) = _
    rw [setWidth_64, setWidth_64, ← BitVec.ofInt_mul, highWord_ofInt]
    rfl

theorem rCorner_div (a b : U32) : rCorner Func.div a b =
    if b = 0 then some (-1)
    else if a.toInt = -2 ^ 31 ∧ b.toInt = -1 then some int32Min else none := by
  have h : Func.div ≠ Func.divu ∧ Func.div ≠ Func.rem ∧ Func.div ≠ Func.remu := by decide
  simp only [rCorner, h, or_false, and_true, and_false, ite_false, toInt_eq_min,
    @and_comm (b.toInt = -1)]
  rfl

theorem rCorner_divu (a b : U32) : rCorner Func.divu a b = if b = 0 then some (-1) else none := by
  have h : Func.divu ≠ Func.div ∧ Func.divu ≠ Func.rem ∧ Func.divu ≠ Func.remu := by decide
  simp only [rCorner, h, false_or, or_false, and_true, and_false, ite_false]
  rfl

theorem rCorner_rem (a b : U32) : rCorner Func.rem a b =
    if b = 0 then some a
    else if a.toInt = -2 ^ 31 ∧ b.toInt = -1 then some 0 else none := by
  have h : Func.rem ≠ Func.div ∧ Func.rem ≠ Func.divu ∧ Func.rem ≠ Func.remu := by decide
  simp only [rCorner, h, or_false, and_true, and_false, false_and, ite_false, toInt_eq_min,
    @and_comm (b.toInt = -1)]

theorem rCorner_remu (a b : U32) : rCorner Func.remu a b = if b = 0 then some a else none := by
  have h : Func.remu ≠ Func.div ∧ Func.remu ≠ Func.divu ∧ Func.remu ≠ Func.rem := by decide
  simp only [rCorner, h, or_false, false_or, and_true, and_false, ite_false]

theorem rValue_mulDiv (o : MulOp) (a b : U32) :
    rValue (field 0b0000001#7 4 ||| field o.funct3 0) a b = some (o.eval a b) := by
  cases o with
  | mul | mulh | mulhsu | mulhu => exact rValue_mul _ (by simp) a b
  | div =>
    show (rCorner Func.div a b).or (some (a.sdiv b)) = some (MulOp.div.eval a b)
    rw [rCorner_div, sdiv_eq_ofInt, MulOp.eval]
    split
    · rfl
    · split
      · rename_i h
        rw [toInt_eq_min.mp h.1]
        rfl
      · rfl
  | divu =>
    show (rCorner Func.divu a b).or (some (a.udiv b)) = some (MulOp.divu.eval a b)
    have hq : a.toNat / b.toNat < 2 ^ 32 := Nat.lt_of_le_of_lt (Nat.div_le_self _ _) a.isLt
    rw [rCorner_divu, MulOp.eval]
    split
    · rfl
    · refine congrArg some (BitVec.eq_of_toNat_eq ?_)
      rw [BitVec.udiv_eq, BitVec.toNat_udiv, BitVec.toNat_ofNat, Nat.mod_eq_of_lt hq]
  | rem =>
    show (rCorner Func.rem a b).or (some (a.srem b)) = some (MulOp.rem.eval a b)
    rw [rCorner_rem, srem_eq_ofInt, MulOp.eval]
    split
    · rfl
    · split <;> rfl
  | remu =>
    show (rCorner Func.remu a b).or (some (a.umod b)) = some (MulOp.remu.eval a b)
    have hq : a.toNat % b.toNat < 2 ^ 32 := Nat.lt_of_le_of_lt (Nat.mod_le _ _) a.isLt
    rw [rCorner_remu, MulOp.eval]
    split
    · rfl
    · refine congrArg some (BitVec.eq_of_toNat_eq ?_)
      rw [BitVec.umod_eq, BitVec.toNat_umod, BitVec.toNat_ofNat, Nat.mod_eq_of_lt hq]

-- ---------------------------------------------------------------------------
-- OP-IMM
-- ---------------------------------------------------------------------------

theorem rFunc_and_7 (x : U32) : Ins.rFunc x &&& 7 = Ins.func x := by
  apply BitVec.eq_of_getLsbD_eq
  intro i hi
  simp only [Ins.rFunc, Ins.func, BitVec.getLsbD_or, BitVec.getLsbD_and, BitVec.getLsbD_ushiftRight,
    BitVec.getLsbD_shiftLeft]
  interval_cases i <;> simp

theorem irValue_of_func (h1 : Ins.func ins ≠ 1) (h5 : Ins.func ins ≠ 5) :
    irValue ins a = irSwitch (Ins.func ins) a (Ins.iImm ins) := by
  have h (c : U32) (hc : c &&& 7 = 1 ∨ c &&& 7 = 5) : Ins.rFunc ins ≠ c := by
    rintro rfl
    rw [rFunc_and_7] at hc
    exact hc.elim h1 h5
  have hsra := h Func.sra (by decide)
  have hsrl := h Func.srl (by decide)
  have hsll := h Func.sll (by decide)
  simp only [irValue, hsra, hsrl, hsll, ite_false]

theorem irValue_opImm (o : ImmOp) (imm : BitVec 12) (rs1 rd : Rv32.Reg) (opcode) (a : U32) :
    irValue (iFormat imm rs1 o.funct3 rd opcode) a =
      some (o.alu.eval a (imm.signExtend 32)) := by
  have hf : Ins.func (iFormat imm rs1 o.funct3 rd opcode) = o.funct3.setWidth 32 := by
    rw [Rv32.iFormat_eq, Ins.func_rFormat]
  rw [irValue_of_func, hf, Ins.iImm_iFormat]
  · cases o with
    | slti =>
      show some (if a.slt _ then (1 : U32) else 0) = some (if a.toInt < _ then 1 else 0)
      simp [BitVec.slt]
    | sltiu =>
      show some (if a.ult _ then (1 : U32) else 0) = some (if a.toNat < _ then 1 else 0)
      simp [BitVec.ult]
    | _ => rfl
  · rw [hf]
    cases o <;> decide
  · rw [hf]
    cases o <;> decide

theorem irValue_shiftImm (o : ShiftOp) (shamt : BitVec 5) (rs1 rd : Rv32.Reg) (opcode) (a : U32) :
    irValue (rFormat o.funct7 shamt rs1 o.funct3 rd opcode) a =
      some (o.alu.eval a (shamt.setWidth 32)) := by
  have hs : (Ins.rs2 (rFormat o.funct7 shamt rs1 o.funct3 rd opcode) &&& 31).toNat =
      (shamt.setWidth 32).toNat % 32 := by
    rw [Ins.rs2_rFormat, toNat_and_31]
  rw [irValue, Ins.rFunc_rFormat]
  cases o with
  | slli => exact congrArg some (congrArg (a <<< ·) hs)
  | srli => exact congrArg some (congrArg (a >>> ·) hs)
  | srai => exact congrArg some (congrArg (a.sshiftRight ·) hs)

-- ---------------------------------------------------------------------------
-- BRANCH
-- ---------------------------------------------------------------------------

theorem bTaken_branch (o : BranchOp) (a b : U32) :
    bTaken (o.funct3.setWidth 32) a b = some (o.taken a b) := by
  cases o with
  | beq | bne => rfl
  | blt => rfl
  | bge =>
    show some (!decide (a.toInt < b.toInt)) = some (decide (b.toInt ≤ a.toInt))
    rw [← decide_not]
    exact congrArg some (decide_eq_decide.mpr Int.not_lt)
  | bltu => rfl
  | bgeu =>
    show some (!decide (a.toNat < b.toNat)) = some (decide (b.toNat ≤ a.toNat))
    rw [← decide_not]
    exact congrArg some (decide_eq_decide.mpr Nat.not_lt)

-- ---------------------------------------------------------------------------
-- LOAD and STORE
-- ---------------------------------------------------------------------------

def Mem.space (vmem : Mem) (a : U32) : U8 := vmem.byte a.toNat

theorem readLE_space (vmem : Mem) (a : U32) (n : Nat) (h : a.toNat + n ≤ 2 ^ 32) :
    readLE vmem.space a n = bytesLE vmem.byte a.toNat n := by
  induction n generalizing a with
  | zero => rfl
  | succ n ih =>
    rw [readLE, bytesLE, Mem.space]
    cases n with
    | zero => rfl
    | succ n =>
      have ha : (a + 1).toNat = a.toNat + 1 := by
        rw [BitVec.toNat_add]
        exact Nat.mod_eq_of_lt (by simp; omega)
      rw [ih (a + 1) (by omega), ha]

theorem space_put {w : Nat} (vmem : Mem) (a : U32) (v : U32) (hw : 8 * (w / 8) = w) (hw32 : w ≤ 32)
    (h : a.toNat + w / 8 ≤ 2 ^ 32) :
    (vmem.put a.toNat (v.setWidth w)).space = writeLE vmem.space a (w / 8) v := by
  funext b
  have hb : (b - a).toNat < w / 8 ↔ a.toNat ≤ b.toNat ∧ b.toNat < a.toNat + w / 8 := by
    rw [BitVec.toNat_sub]
    omega
  simp only [Mem.space, Mem.put, writeLE, hb]
  split
  · rename_i hin
    have hk : (b - a).toNat = b.toNat - a.toNat := by
      rw [BitVec.toNat_sub]
      omega
    rw [hk]
    apply BitVec.eq_of_getLsbD_eq
    intro j hj
    have hlt : 8 * (b.toNat - a.toNat) + j < w := by omega
    simp [hj, hlt]
  · rfl

/-- The loads that extend the sign do it by or-ing the upper bits in. -/
theorem signExtend_or {w : Nat} (x : BitVec w) (hw : 0 < w) (hw32 : w < 32) :
    (if x.setWidth 32 ≥ BitVec.ofNat 32 (2 ^ (w - 1)) then
        x.setWidth 32 ||| ~~~(BitVec.ofNat 32 (2 ^ w - 1)) else x.setWidth 32) =
      x.signExtend 32 := by
  have hpow : 2 ^ w ≤ 2 ^ 31 := Nat.pow_le_pow_right (by decide) (by omega)
  have hhalf : 2 ^ (w - 1) < 2 ^ 32 := Nat.pow_lt_pow_right (by decide) (by omega)
  have hx : x.toNat < 2 ^ 32 := by
    have := x.isLt
    omega
  have hge : x.setWidth 32 ≥ BitVec.ofNat 32 (2 ^ (w - 1)) ↔ x.msb = true := by
    rw [BitVec.msb_eq_decide, decide_eq_true_eq, ge_iff_le, BitVec.le_def, BitVec.toNat_ofNat,
      BitVec.toNat_setWidth, Nat.mod_eq_of_lt hhalf, Nat.mod_eq_of_lt hx]
  apply BitVec.eq_of_getLsbD_eq
  intro i hi
  have hmask : (BitVec.ofNat 32 (2 ^ w - 1)).getLsbD i = decide (i < w) := by
    rw [BitVec.getLsbD_ofNat, Nat.testBit_two_pow_sub_one]
    simp [hi]
  simp only [hge]
  cases hm : x.msb with
  | false =>
    rw [BitVec.signExtend_eq_setWidth_of_msb_false hm]
    rfl
  | true =>
    rw [BitVec.getLsbD_signExtend, hm]
    simp only [ite_true, BitVec.getLsbD_or, BitVec.getLsbD_setWidth, BitVec.getLsbD_not, hmask, hi]
    by_cases hiw : i < w
    · simp [hiw]
    · simp [hiw, BitVec.getLsbD_of_ge x i (by omega)]

theorem ilValue_load (o : LoadOp) (vmem : Mem) (a : U32) (h : vmem.Inside a o.size) :
    ilValue vmem (o.funct3.setWidth 32) a =
      some (.ok (o.extend (readLE vmem.space a o.size))) := by
  have hsp : readLE vmem.space a o.size = bytesLE vmem.byte a.toNat o.size :=
    readLE_space vmem a o.size (Nat.le_trans h vmem.size_le)
  rw [hsp]
  cases o with
  | lb =>
    have h1 : memRb vmem a = .ok (BitVec.ofNat 8 (bytesLE vmem.byte a.toNat 1)) := if_pos h
    show some (do let rd := (← memRb vmem a).setWidth 32; return _) = _
    rw [h1]
    exact congrArg (fun v => some (Except.ok v)) (signExtend_or (w := 8) _ (by decide) (by decide))
  | lh =>
    have h1 : memRh vmem a = .ok (BitVec.ofNat 16 (bytesLE vmem.byte a.toNat 2)) := if_pos h
    show some (do let rd := (← memRh vmem a).setWidth 32; return _) = _
    rw [h1]
    exact congrArg (fun v => some (Except.ok v)) (signExtend_or (w := 16) _ (by decide) (by decide))
  | lw =>
    have h1 : memRw vmem a = .ok (BitVec.ofNat 32 (bytesLE vmem.byte a.toNat 4)) := if_pos h
    show some (memRw vmem a) = _
    rw [h1]
    rfl
  | lbu =>
    have h1 : memRb vmem a = .ok (BitVec.ofNat 8 (bytesLE vmem.byte a.toNat 1)) := if_pos h
    show some (do return (← memRb vmem a).setWidth 32) = _
    rw [h1]
    rfl
  | lhu =>
    have h1 : memRh vmem a = .ok (BitVec.ofNat 16 (bytesLE vmem.byte a.toNat 2)) := if_pos h
    show some (do return (← memRh vmem a).setWidth 32) = _
    rw [h1]
    rfl

theorem sValue_store (o : StoreOp) (vmem : Mem) (a v : U32) (h : vmem.Inside a o.size) :
    ∃ vmem', sValue vmem (o.funct3.setWidth 32) a v = some (.ok vmem') ∧
      vmem'.size = vmem.size ∧ vmem'.space = writeLE vmem.space a o.size v := by
  have hle : a.toNat + o.size ≤ 2 ^ 32 := Nat.le_trans h vmem.size_le
  cases o with
  | sb =>
    refine ⟨vmem.put a.toNat (v.setWidth 8), ?_, rfl, ?_⟩
    · exact congrArg some (if_pos h)
    · exact space_put vmem a v (w := 8) (by decide) (by decide) hle
  | sh =>
    refine ⟨vmem.put a.toNat (v.setWidth 16), ?_, rfl, ?_⟩
    · exact congrArg some (if_pos h)
    · exact space_put vmem a v (w := 16) (by decide) (by decide) hle
  | sw =>
    refine ⟨vmem.put a.toNat v, ?_, rfl, ?_⟩
    · exact congrArg some (if_pos h)
    · have hv := space_put vmem a v (w := 32) (by decide) (by decide) hle
      rwa [BitVec.setWidth_eq] at hv

end SwitchV32
