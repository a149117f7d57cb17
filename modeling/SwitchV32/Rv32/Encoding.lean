import SwitchV32.Rv32.Amo
import SwitchV32.Rv32.Zicsr

/-!
# The words that encode an instruction

Which 32-bit words RV32IMA gives a meaning, with or without Zicsr. Every word is
one of the R format, and an opcode with a single format and no function code has
no invalid word.
-/

namespace Rv32

def Opcode.miscMem : BitVec 7 := 0b0001111

/-- `FENCE` with reserved fields is a fence. Any number may stand in a CSR
instruction: whether there is such a CSR is not a matter of the encoding. -/
inductive Encoding (zicsr : Bool) : Word → Prop
  | base (i : Instr) : Encoding zicsr (encode i)
  | fence (imm rs1 rd) : Encoding zicsr (iFormat imm rs1 0b000 rd Opcode.miscMem)
  | amo (o aq rl rd rs1 rs2) : Encoding zicsr (encodeAmo o aq rl rd rs1 rs2)
  | lr (aq rl rd rs1) : Encoding zicsr (encodeLr aq rl rd rs1)
  | sc (aq rl rd rs1 rs2) : Encoding zicsr (encodeSc aq rl rd rs1 rs2)
  | ecall : Encoding zicsr 0x00000073
  | ebreak : Encoding zicsr 0x00100073
  | csr (h : zicsr = true) (o : CsrOp) (number rd src) :
    Encoding zicsr (iFormat number src o.funct3 rd Opcode.system)

-- ---------------------------------------------------------------------------
-- Words as formats
-- ---------------------------------------------------------------------------

theorem exists_rFormat (w : Word) :
    ∃ funct7 rs2 rs1 funct3 rd opcode, w = rFormat funct7 rs2 rs1 funct3 rd opcode := by
  refine ⟨w.extractLsb' 25 7, w.extractLsb' 20 5, w.extractLsb' 15 5, w.extractLsb' 12 3,
    w.extractLsb' 7 5, w.extractLsb' 0 7, ?_⟩
  have hfields : rFormat (w.extractLsb' 25 7) (w.extractLsb' 20 5) (w.extractLsb' 15 5)
      (w.extractLsb' 12 3) (w.extractLsb' 7 5) (w.extractLsb' 0 7) =
      field (w.extractLsb' 25 7 ++ w.extractLsb' 20 5 ++ w.extractLsb' 15 5 ++
        w.extractLsb' 12 3 ++ w.extractLsb' 7 5 ++ w.extractLsb' 0 7) 0 := by
    simp only [field_append]
    rfl
  have hall : w.extractLsb' 25 7 ++ w.extractLsb' 20 5 ++ w.extractLsb' 15 5 ++
      w.extractLsb' 12 3 ++ w.extractLsb' 7 5 ++ w.extractLsb' 0 7 = w := by
    simp (disch := decide) only [BitVec.extractLsb'_append_extractLsb'_eq_extractLsb']
    exact BitVec.extractLsb'_eq_self
  rw [hfields, hall, field_zero]
  exact (BitVec.setWidth_eq w).symm

theorem exists_parts (a : BitVec k) (b : BitVec l) (c : BitVec m) (d : BitVec n) :
    ∃ imm : BitVec (k + l + m + n), imm.extractLsb' (n + m + l) k = a ∧
      imm.extractLsb' (n + m) l = b ∧ imm.extractLsb' n m = c ∧ imm.extractLsb' 0 n = d := by
  refine ⟨a ++ b ++ c ++ d, ?_, ?_, ?_, BitVec.extractLsb'_append_eq_right⟩
  · have hidx : n + m + l - n - m = l := by omega
    rw [BitVec.extractLsb'_append_eq_of_le (by omega),
      BitVec.extractLsb'_append_eq_of_le (by omega), hidx, BitVec.extractLsb'_append_eq_left]
  · have hidx : n + m - n - m = 0 := by omega
    rw [BitVec.extractLsb'_append_eq_of_le (by omega),
      BitVec.extractLsb'_append_eq_of_le (by omega), hidx, BitVec.extractLsb'_append_eq_right]
  · rw [BitVec.extractLsb'_append_eq_of_le (Nat.le_refl n), Nat.sub_self,
      BitVec.extractLsb'_append_eq_right]

section
variable (funct7 : BitVec 7) (rs2 rs1 : Reg) (funct3 : BitVec 3) (rd : Reg) (opcode : BitVec 7)

theorem exists_imm (high : BitVec 7) (low : BitVec 5) :
    ∃ imm : BitVec 12, imm.extractLsb' 5 7 = high ∧ imm.extractLsb' 0 5 = low :=
  ⟨high ++ low, BitVec.extractLsb'_append_eq_left, BitVec.extractLsb'_append_eq_right⟩

theorem exists_iFormat :
    ∃ imm, rFormat funct7 rs2 rs1 funct3 rd opcode = iFormat imm rs1 funct3 rd opcode := by
  obtain ⟨imm, rfl, rfl⟩ := exists_imm funct7 rs2
  exact ⟨imm, (iFormat_eq ..).symm⟩

theorem exists_sFormat :
    ∃ imm, rFormat funct7 rs2 rs1 funct3 rd opcode = sFormat imm rs2 rs1 funct3 opcode := by
  obtain ⟨imm, rfl, rfl⟩ := exists_imm funct7 rd
  exact ⟨imm, (sFormat_eq ..).symm⟩

theorem exists_bFormat :
    ∃ imm, rFormat funct7 rs2 rs1 funct3 rd opcode = bFormat imm rs2 rs1 funct3 opcode := by
  have hfunct7 : field funct7 25 =
      field (funct7.extractLsb' 6 1) 31 ||| field (funct7.extractLsb' 0 6) 25 :=
    field_split funct7 25 6 rfl
  have hrd : field rd 7 = field (rd.extractLsb' 1 4) 8 ||| field (rd.extractLsb' 0 1) 7 :=
    field_split rd 7 1 rfl
  obtain ⟨imm, h11, h10, h4, h0⟩ : ∃ imm : BitVec 12,
      imm.extractLsb' 11 1 = funct7.extractLsb' 6 1 ∧ imm.extractLsb' 10 1 = rd.extractLsb' 0 1 ∧
      imm.extractLsb' 4 6 = funct7.extractLsb' 0 6 ∧ imm.extractLsb' 0 4 = rd.extractLsb' 1 4 :=
    exists_parts (funct7.extractLsb' 6 1) (rd.extractLsb' 0 1) (funct7.extractLsb' 0 6)
      (rd.extractLsb' 1 4)
  refine ⟨imm, ?_⟩
  rw [rFormat, bFormat, hfunct7, hrd, h11, h10, h4, h0]
  simp only [BitVec.or_assoc]

theorem exists_uFormat :
    ∃ imm, rFormat funct7 rs2 rs1 funct3 rd opcode = uFormat imm rd opcode := by
  refine ⟨funct7 ++ rs2 ++ rs1 ++ funct3, ?_⟩
  simp only [uFormat, field_append]
  rfl

theorem exists_jFormat :
    ∃ imm, rFormat funct7 rs2 rs1 funct3 rd opcode = jFormat imm rd opcode := by
  have hfunct7 : field funct7 25 =
      field (funct7.extractLsb' 6 1) 31 ||| field (funct7.extractLsb' 0 6) 25 :=
    field_split funct7 25 6 rfl
  have hrs2 : field rs2 20 = field (rs2.extractLsb' 1 4) 21 ||| field (rs2.extractLsb' 0 1) 20 :=
    field_split rs2 20 1 rfl
  obtain ⟨imm, h19, h11, h10, h0⟩ : ∃ imm : BitVec 20,
      imm.extractLsb' 19 1 = funct7.extractLsb' 6 1 ∧ imm.extractLsb' 11 8 = rs1 ++ funct3 ∧
      imm.extractLsb' 10 1 = rs2.extractLsb' 0 1 ∧
      imm.extractLsb' 0 10 = funct7.extractLsb' 0 6 ++ rs2.extractLsb' 1 4 :=
    exists_parts (funct7.extractLsb' 6 1) (rs1 ++ funct3) (rs2.extractLsb' 0 1)
      (funct7.extractLsb' 0 6 ++ rs2.extractLsb' 1 4)
  have hlow : field (imm.extractLsb' 0 10) 21 =
      field (funct7.extractLsb' 0 6) 25 ||| field (rs2.extractLsb' 1 4) 21 :=
    h0 ▸ field_append (funct7.extractLsb' 0 6) (rs2.extractLsb' 1 4) 21
  have hhigh : field (imm.extractLsb' 11 8) 12 = field rs1 15 ||| field funct3 12 :=
    h11 ▸ field_append rs1 funct3 12
  refine ⟨imm, ?_⟩
  rw [rFormat, jFormat, hfunct7, hrs2, hlow, hhigh, h19, h10]
  simp only [BitVec.or_assoc]

theorem rFormat_eq_amoFormat :
    rFormat funct7 rs2 rs1 0b010#3 rd Opcode.amo =
      amoFormat (funct7.extractLsb' 2 5) (funct7.extractLsb' 1 1) (funct7.extractLsb' 0 1) rs2 rs1
        rd := by
  have hfunct7 : field funct7 25 =
      field (funct7.extractLsb' 2 5) 27 ||| field (funct7.extractLsb' 0 2) 25 :=
    field_split funct7 25 2 rfl
  have hlow : funct7.extractLsb' 0 2 = funct7.extractLsb' 1 1 ++ funct7.extractLsb' 0 1 :=
    (BitVec.extractLsb'_append_extractLsb'_eq_extractLsb' (by decide : 1 = 0 + 1)).symm
  simp only [rFormat, amoFormat, hfunct7, hlow, field_append, BitVec.or_assoc]

end

end Rv32
