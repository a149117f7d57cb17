import SwitchV32.Core
import SwitchV32.Rv32.Amo

/-!
# The decoders on encoded instructions

Each decoder of `cpu.h` and `cpu.c` reads back the field that the encoding put
there.
-/

namespace SwitchV32

open Rv32 (field getLsbD_field field_zero field_and_eq field_and_zero field_ushiftRight
  field_ushiftRight_zero rFormat iFormat sFormat bFormat uFormat jFormat amoFormat)

def Reg.gpr (r : Rv32.Reg) : Reg := ⟨r.toNat, by omega⟩

theorem Reg.gpr_inj : Reg.gpr r = Reg.gpr r' ↔ r = r' := by
  simp only [Reg.gpr, Fin.mk.injEq]
  exact BitVec.toNat_inj

@[simp] theorem Reg.gpr_zero : Reg.gpr 0 = Reg.zero := rfl

theorem Reg.gpr_ne (h : 32 ≤ r'.val) : Reg.gpr r ≠ r' := by
  intro he
  have hr : (Reg.gpr r).val < 32 := r.isLt
  rw [he] at hr
  omega

theorem Reg.gpr_ne_pc : Reg.gpr r ≠ Reg.pc := Reg.gpr_ne (by decide)

namespace Ins

section
variable (funct7 : BitVec 7) (rs2 rs1 : Rv32.Reg) (funct3 : BitVec 3) (rd : Rv32.Reg)
variable (opcode : BitVec 7)

@[simp] theorem opcodeType_rFormat :
    opcodeType (rFormat funct7 rs2 rs1 funct3 rd opcode) = opcode.setWidth 32 := by
  simp (disch := decide) only [opcodeType, rFormat, BitVec.and_or_distrib_right, field_and_eq,
    field_and_zero, BitVec.zero_or, BitVec.or_zero]
  exact field_zero opcode

@[simp] theorem rd_rFormat :
    Ins.rd (rFormat funct7 rs2 rs1 funct3 rd opcode) = rd.setWidth 32 := by
  simp (disch := decide) only [Ins.rd, rFormat, BitVec.and_or_distrib_right, field_and_eq,
    field_and_zero, BitVec.zero_or, BitVec.or_zero, field_ushiftRight]
  exact field_zero rd

@[simp] theorem rs1_rFormat :
    Ins.rs1 (rFormat funct7 rs2 rs1 funct3 rd opcode) = rs1.setWidth 32 := by
  simp (disch := decide) only [Ins.rs1, rFormat, BitVec.and_or_distrib_right, field_and_eq,
    field_and_zero, BitVec.zero_or, BitVec.or_zero, field_ushiftRight]
  exact field_zero rs1

@[simp] theorem rs2_rFormat :
    Ins.rs2 (rFormat funct7 rs2 rs1 funct3 rd opcode) = rs2.setWidth 32 := by
  simp (disch := decide) only [Ins.rs2, rFormat, BitVec.and_or_distrib_right, field_and_eq,
    field_and_zero, BitVec.zero_or, BitVec.or_zero, field_ushiftRight]
  exact field_zero rs2

@[simp] theorem func_rFormat :
    func (rFormat funct7 rs2 rs1 funct3 rd opcode) = funct3.setWidth 32 := by
  simp (disch := decide) only [func, rFormat, BitVec.and_or_distrib_right, field_and_eq,
    field_and_zero, BitVec.zero_or, BitVec.or_zero, field_ushiftRight]
  exact field_zero funct3

@[simp] theorem rFunc_rFormat :
    rFunc (rFormat funct7 rs2 rs1 funct3 rd opcode) = field funct7 4 ||| field funct3 0 := by
  simp (disch := decide) only [rFunc, rFormat, BitVec.and_or_distrib_right, field_and_eq,
    field_and_zero, BitVec.zero_or, BitVec.or_zero, field_ushiftRight]
  exact BitVec.or_comm ..

@[simp] theorem rdReg_rFormat :
    rdReg (rFormat funct7 rs2 rs1 funct3 rd opcode) = Reg.gpr rd := by
  simp only [rdReg, rd_rFormat, Reg.gpr, BitVec.toNat_setWidth, Fin.mk.injEq]
  omega

@[simp] theorem rs1Reg_rFormat :
    rs1Reg (rFormat funct7 rs2 rs1 funct3 rd opcode) = Reg.gpr rs1 := by
  simp only [rs1Reg, rs1_rFormat, Reg.gpr, BitVec.toNat_setWidth, Fin.mk.injEq]
  omega

@[simp] theorem rs2Reg_rFormat :
    rs2Reg (rFormat funct7 rs2 rs1 funct3 rd opcode) = Reg.gpr rs2 := by
  simp only [rs2Reg, rs2_rFormat, Reg.gpr, BitVec.toNat_setWidth, Fin.mk.injEq]
  omega

end

theorem isCompressed_eq (x : U32) : isCompressed x = (opcodeType x &&& 0x3#32 != 0x3#32) := by
  have h : x &&& 0x3#32 = opcodeType x &&& 0x3#32 := by
    rw [opcodeType, BitVec.and_assoc]; rfl
  rw [isCompressed, h]

@[simp] theorem iImm_iFormat (imm : BitVec 12) (rs1 funct3 rd opcode) :
    iImm (iFormat imm rs1 funct3 rd opcode) = imm.signExtend 32 := by
  simp (disch := decide) only [iImm, iFormat, BitVec.and_or_distrib_right, field_and_eq,
    field_and_zero, BitVec.or_zero]
  apply BitVec.eq_of_getLsbD_eq
  intro i hi
  simp only [getLsbD_field, BitVec.getLsbD_sshiftRight, BitVec.getLsbD_signExtend,
    BitVec.msb_eq_getLsbD_last]
  interval_cases i <;> simp

@[simp] theorem sImm_sFormat (imm : BitVec 12) (rs2 rs1 funct3 opcode) :
    sImm (sFormat imm rs2 rs1 funct3 opcode) = imm.signExtend 32 := by
  simp (disch := decide) only [sImm, Ins.rd, sFormat, BitVec.and_or_distrib_right, field_and_eq,
    field_and_zero, BitVec.zero_or, BitVec.or_zero, field_ushiftRight]
  apply BitVec.eq_of_getLsbD_eq
  intro i hi
  simp only [BitVec.getLsbD_or, getLsbD_field, BitVec.getLsbD_sshiftRight,
    BitVec.getLsbD_signExtend, BitVec.getLsbD_extractLsb', BitVec.msb_eq_getLsbD_last]
  interval_cases i <;> simp

@[simp] theorem bImm_bFormat (imm : BitVec 12) (rs2 rs1 funct3 opcode) :
    bImm (bFormat imm rs2 rs1 funct3 opcode) = imm.signExtend 32 <<< 1 := by
  simp (disch := decide) only [bImm, bFormat, BitVec.and_or_distrib_left,
    BitVec.and_comm _ (field _ _), field_and_eq, field_and_zero, BitVec.zero_or, BitVec.or_zero,
    field_ushiftRight]
  apply BitVec.eq_of_getLsbD_eq
  intro i hi
  simp only [BitVec.getLsbD_or, getLsbD_field, BitVec.getLsbD_sshiftRight,
    BitVec.getLsbD_shiftLeft, BitVec.getLsbD_signExtend, BitVec.getLsbD_extractLsb',
    BitVec.msb_eq_getLsbD_last]
  interval_cases i <;> simp

@[simp] theorem uImm_uFormat (imm : BitVec 20) (rd opcode) :
    uImm (uFormat imm rd opcode) = field imm 12 := by
  simp (disch := decide) only [uImm, uFormat, BitVec.and_or_distrib_right, field_and_eq,
    field_and_zero, BitVec.or_zero]

@[simp] theorem opcodeType_uFormat (imm : BitVec 20) (rd opcode) :
    opcodeType (uFormat imm rd opcode) = opcode.setWidth 32 := by
  simp (disch := decide) only [opcodeType, uFormat, BitVec.and_or_distrib_right, field_and_eq,
    field_and_zero, BitVec.zero_or]
  exact field_zero opcode

@[simp] theorem rdReg_uFormat (imm : BitVec 20) (rd opcode) :
    rdReg (uFormat imm rd opcode) = Reg.gpr rd := by
  have h : Ins.rd (uFormat imm rd opcode) = rd.setWidth 32 := by
    simp (disch := decide) only [Ins.rd, uFormat, BitVec.and_or_distrib_right, field_and_eq,
      field_and_zero, BitVec.zero_or, BitVec.or_zero, field_ushiftRight]
    exact field_zero rd
  simp only [rdReg, h, Reg.gpr, BitVec.toNat_setWidth, Fin.mk.injEq]
  omega

theorem sshiftRight_and_high (x : U32) :
    x.sshiftRight 11 &&& 0xFFF00000#32 = (x &&& 1#32 <<< 31).sshiftRight 11 := by
  apply BitVec.eq_of_getLsbD_eq
  intro i hi
  simp only [BitVec.getLsbD_and, BitVec.getLsbD_sshiftRight, BitVec.getLsbD_shiftLeft,
    BitVec.msb_eq_getLsbD_last]
  interval_cases i <;> simp

@[simp] theorem jImm_jFormat (imm : BitVec 20) (rd opcode) :
    jImm (jFormat imm rd opcode) = imm.signExtend 32 <<< 1 := by
  simp (disch := decide) only [jImm, sshiftRight_and_high, jFormat, BitVec.ushiftRight_or_distrib,
    BitVec.and_or_distrib_right, field_ushiftRight, field_ushiftRight_zero, field_and_eq,
    field_and_zero, BitVec.zero_or, BitVec.or_zero]
  apply BitVec.eq_of_getLsbD_eq
  intro i hi
  simp only [BitVec.getLsbD_or, getLsbD_field, BitVec.getLsbD_sshiftRight,
    BitVec.getLsbD_shiftLeft, BitVec.getLsbD_signExtend, BitVec.getLsbD_extractLsb',
    BitVec.msb_eq_getLsbD_last]
  interval_cases i <;> simp

@[simp] theorem opcodeType_jFormat (imm : BitVec 20) (rd opcode) :
    opcodeType (jFormat imm rd opcode) = opcode.setWidth 32 := by
  simp (disch := decide) only [opcodeType, jFormat, BitVec.and_or_distrib_right, field_and_eq,
    field_and_zero, BitVec.zero_or]
  exact field_zero opcode

@[simp] theorem rdReg_jFormat (imm : BitVec 20) (rd opcode) :
    rdReg (jFormat imm rd opcode) = Reg.gpr rd := by
  have h : Ins.rd (jFormat imm rd opcode) = rd.setWidth 32 := by
    simp (disch := decide) only [Ins.rd, jFormat, BitVec.and_or_distrib_right, field_and_eq,
      field_and_zero, BitVec.zero_or, BitVec.or_zero, field_ushiftRight]
    exact field_zero rd
  simp only [rdReg, h, Reg.gpr, BitVec.toNat_setWidth, Fin.mk.injEq]
  omega

@[simp] theorem aFunc_amoFormat (funct5 aq rl) (rs2 rs1 rd : Rv32.Reg) :
    aFunc (amoFormat funct5 aq rl rs2 rs1 rd) = field funct5 4 ||| 0b010#32 := by
  simp (disch := decide) only [aFunc, amoFormat, BitVec.and_or_distrib_right, field_and_eq,
    field_and_zero, BitVec.zero_or, BitVec.or_zero, field_ushiftRight]
  exact BitVec.or_comm ..

end Ins

end SwitchV32
