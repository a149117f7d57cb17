import SwitchV32.Cpu.Arch
import SwitchV32.Supervisor.Sys

/-!
# The interpreter refines RV32IM

One iteration of the loop on an encoded instruction is `Instr.exec` on the
architectural state, in either build: the classes here do not reach `Env`.
-/

namespace SwitchV32

open Rv32 (Instr encode field rFormat iFormat sFormat bFormat uFormat)

section
variable {σ : Type} {env : Env σ} {m : Machine σ}

-- ---------------------------------------------------------------------------
-- Fetch
-- ---------------------------------------------------------------------------

theorem vcoreExecute_fetch (hfetch : memRw m.vmem (m.reg Reg.pc) = .ok ins)
    (hc : Ins.isCompressed ins = false) :
    vcoreExecute env m = vcoreDispatch env (m.setReg Reg.zero 0) ins := by
  have hpc : (m.setReg Reg.zero 0).reg Reg.pc = m.reg Reg.pc :=
    Machine.reg_setReg_ne m (by decide)
  simp only [vcoreExecute, hpc, Machine.setReg_vmem, hfetch, ok_bind, hc]
  rfl

/-- No opcode of a full-width instruction ends in anything but two ones. -/
theorem isCompressed_of_opcodeType {opcode : BitVec 7}
    (h : Ins.opcodeType ins = opcode.setWidth 32)
    (hop : opcode.setWidth 32 &&& 0x3#32 = 0x3#32) : Ins.isCompressed ins = false := by
  rw [Ins.isCompressed_eq, h, hop]
  rfl

-- ---------------------------------------------------------------------------
-- Instruction classes
-- ---------------------------------------------------------------------------

def Yields (m : Machine σ) (r : Except Stop (Machine σ)) (s : Rv32.State) : Prop :=
  ∃ m', r = .ok m' ∧ m'.arch = s ∧ SameContext m m'

theorem yields_setGpr (m : Machine σ) (rd : Rv32.Reg) (v : U32) :
    Yields m (.ok ((m.setReg (Reg.gpr rd) v).addPc 4)) (m.arch.set rd v).next :=
  ⟨_, rfl, by rw [arch_addPc_4, arch_setGpr], ((SameContext.refl m).setGpr rd v).addPc 4⟩

variable (hz : m.reg Reg.zero = 0)
include hz

theorem vcoreRType_yields (funct7 rs2 rs1 funct3 rd) (v : U32)
    (hv : rValue (field funct7 4 ||| field funct3 0) (m.arch.get rs1) (m.arch.get rs2) = some v) :
    Yields m (vcoreRType env m (rFormat funct7 rs2 rs1 funct3 rd Rv32.Opcode.op))
      (m.arch.set rd v).next := by
  rw [arch_get m hz, arch_get m hz] at hv
  simp only [vcoreRType, Ins.rFunc_rFormat, Ins.rs1Reg_rFormat, Ins.rs2Reg_rFormat,
    Ins.rdReg_rFormat, hv]
  exact yields_setGpr m rd v

theorem vcoreIrType_yields (hrs1 : Ins.rs1Reg ins = Reg.gpr rs1) (hrd : Ins.rdReg ins = Reg.gpr rd)
    (hv : irValue ins (m.arch.get rs1) = some v) :
    Yields m (vcoreIrType env m ins) (m.arch.set rd v).next := by
  rw [arch_get m hz] at hv
  simp only [vcoreIrType, hrs1, hrd, hv]
  exact yields_setGpr m rd v

omit hz in
theorem vcoreLuiType_yields (rd imm) :
    Yields m (vcoreLuiType m (encode (.lui rd imm))) ((Instr.lui rd imm).exec m.arch) := by
  simp only [encode, vcoreLuiType, Ins.uImm_uFormat, Ins.rdReg_uFormat]
  exact yields_setGpr m rd _

omit hz in
theorem vcoreAuipcType_yields (rd imm) :
    Yields m (vcoreAuipcType m (encode (.auipc rd imm))) ((Instr.auipc rd imm).exec m.arch) := by
  simp only [encode, vcoreAuipcType, Ins.uImm_uFormat, Ins.rdReg_uFormat]
  exact yields_setGpr m rd _

theorem vcoreBType_yields (o rs1 rs2 imm) :
    Yields m (vcoreBType env m (encode (.branch o rs1 rs2 imm)))
      ((Instr.branch o rs1 rs2 imm).exec m.arch) := by
  have himm := Ins.bImm_bFormat imm rs2 rs1 o.funct3 Rv32.Opcode.branch
  simp only [encode, vcoreBType, himm, Instr.exec, arch_get m hz]
  simp only [Rv32.bFormat_eq, Ins.func_rFormat, Ins.rs1Reg_rFormat, Ins.rs2Reg_rFormat,
    bTaken_branch]
  cases o.taken (m.reg (Reg.gpr rs1)) (m.reg (Reg.gpr rs2)) with
  | true => exact ⟨_, rfl, arch_addPc m _, (SameContext.refl m).addPc _⟩
  | false => exact ⟨_, rfl, arch_addPc m _, (SameContext.refl m).addPc _⟩

theorem vcoreIlType_yields (o : Rv32.LoadOp) (rd rs1 : Rv32.Reg) (imm)
    (hin : m.vmem.Inside (m.arch.get rs1 + imm.signExtend 32) o.size) :
    Yields m (vcoreIlType env m (encode (.load o rd rs1 imm)))
      ((Instr.load o rd rs1 imm).exec m.arch) := by
  have hv := ilValue_load o m.vmem _ hin
  have himm := Ins.iImm_iFormat imm rs1 o.funct3 rd Rv32.Opcode.load
  rw [arch_get m hz] at hv
  simp only [encode, vcoreIlType, himm, Instr.exec, arch_get m hz]
  simp only [Rv32.iFormat_eq, Ins.func_rFormat, Ins.rs1Reg_rFormat, Ins.rdReg_rFormat, hv]
  exact yields_setGpr m rd _

theorem vcoreSType_yields (o : Rv32.StoreOp) (rs1 rs2 : Rv32.Reg) (imm)
    (hin : m.vmem.Inside (m.arch.get rs1 + imm.signExtend 32) o.size) :
    Yields m (vcoreSType env m (encode (.store o rs1 rs2 imm)))
      ((Instr.store o rs1 rs2 imm).exec m.arch) := by
  obtain ⟨vmem, hv, hsize, hspace⟩ := sValue_store o m.vmem _ (m.arch.get rs2) hin
  have himm := Ins.sImm_sFormat imm rs2 rs1 o.funct3 Rv32.Opcode.store
  simp only [arch_get m hz] at hv hspace
  simp only [encode, vcoreSType, himm, Instr.exec, arch_get m hz]
  simp only [Rv32.sFormat_eq, Ins.func_rFormat, Ins.rs1Reg_rFormat, Ins.rs2Reg_rFormat, hv]
  refine ⟨({ m with vmem } : Machine σ).addPc 4, rfl, ?_,
    ((SameContext.refl m).setVmem hsize).addPc 4⟩
  rw [arch_addPc_4, arch_setVmem, hspace]
  rfl

-- ---------------------------------------------------------------------------
-- One iteration
-- ---------------------------------------------------------------------------

omit hz in
theorem opcodeType_encode (i : Instr) : Ins.opcodeType (encode i) = i.opcode.setWidth 32 := by
  cases i with
  | op | mulDiv | shiftImm => exact Ins.opcodeType_rFormat ..
  | opImm o rd rs1 imm | load o rd rs1 imm | jalr rd rs1 imm =>
    rw [encode, Rv32.iFormat_eq, Ins.opcodeType_rFormat]
    rfl
  | lui | auipc => exact Ins.opcodeType_uFormat ..
  | branch =>
    rw [encode, Rv32.bFormat_eq, Ins.opcodeType_rFormat]
    rfl
  | store => exact Ins.opcodeType_rFormat ..
  | jal => exact Ins.opcodeType_jFormat ..

def rv32imOpcodes : List (BitVec 7) :=
  [Rv32.Opcode.op, Rv32.Opcode.opImm, Rv32.Opcode.lui, Rv32.Opcode.auipc, Rv32.Opcode.branch,
    Rv32.Opcode.load, Rv32.Opcode.store]

theorem vcoreDispatch_yields (i : Instr) (hi : i.opcode ∈ rv32imOpcodes)
    (hin : ∀ a n, i.access? m.arch = some (a, n) → m.vmem.Inside a n) :
    Yields m (vcoreDispatch env m (encode i)) (i.exec m.arch) := by
  rw [vcoreDispatch, opcodeType_encode i]
  cases i with
  | op o rd rs1 rs2 => exact vcoreRType_yields hz _ _ _ _ _ _ (rValue_alu o _ _)
  | mulDiv o rd rs1 rs2 => exact vcoreRType_yields hz _ _ _ _ _ _ (rValue_mulDiv o _ _)
  | opImm o rd rs1 imm =>
    refine vcoreIrType_yields hz ?_ ?_ (irValue_opImm o imm rs1 rd Rv32.Opcode.opImm _)
    · rw [encode, Rv32.iFormat_eq, Ins.rs1Reg_rFormat]
    · rw [encode, Rv32.iFormat_eq, Ins.rdReg_rFormat]
  | shiftImm o rd rs1 shamt =>
    exact vcoreIrType_yields hz (Ins.rs1Reg_rFormat ..) (Ins.rdReg_rFormat ..)
      (irValue_shiftImm o shamt rs1 rd Rv32.Opcode.opImm _)
  | lui rd imm => exact vcoreLuiType_yields rd imm
  | auipc rd imm => exact vcoreAuipcType_yields rd imm
  | branch o rs1 rs2 imm => exact vcoreBType_yields hz o rs1 rs2 imm
  | load o rd rs1 imm => exact vcoreIlType_yields hz o rd rs1 imm (hin _ _ rfl)
  | store o rs1 rs2 imm => exact vcoreSType_yields hz o rs1 rs2 imm (hin _ _ rfl)
  | jal => exact absurd hi (show Rv32.Opcode.jal ∉ rv32imOpcodes by decide)
  | jalr => exact absurd hi (show Rv32.Opcode.jalr ∉ rv32imOpcodes by decide)

omit hz

/-- One iteration on a fetched instruction of these classes is the manual's step. -/
theorem vcoreExecute_rv32im (i : Instr) (hi : i.opcode ∈ rv32imOpcodes)
    (hfetch : memRw m.vmem (m.reg Reg.pc) = .ok (encode i))
    (hin : ∀ a n, i.access? m.arch = some (a, n) → m.vmem.Inside a n) :
    Yields m (vcoreExecute env m) (i.exec m.arch) := by
  have hc := isCompressed_of_opcodeType (opcodeType_encode i) ?_
  · rw [vcoreExecute_fetch hfetch hc]
    have hz : (m.setReg Reg.zero 0).reg Reg.zero = 0 := Machine.reg_setReg_self m _ _
    obtain ⟨m', hm', harch, hctx⟩ : Yields _ (vcoreDispatch env _ (encode i)) _ :=
      vcoreDispatch_yields hz i hi (by rwa [arch_setZero])
    refine ⟨m', hm', by rw [harch, arch_setZero], ?_⟩
    exact ((SameContext.refl m).setReg (by decide) 0).trans hctx
  · cases i <;> simp only [Instr.opcode] <;> decide

/-- With no exit request and no interrupt the loop goes on from that state. -/
theorem vcoreIteration_rv32im (env : Env σ) (m : Machine σ) (i : Instr)
    (hi : i.opcode ∈ rv32imOpcodes)
    (hfetch : memRw m.vmem (m.reg Reg.pc) = .ok (encode i))
    (hin : ∀ a n, i.access? m.arch = some (a, n) → m.vmem.Inside a n)
    (hexit : m.core.atomicExitLoop = false)
    (hint : ∀ m', vcoreExecute env m = .ok m' → env.checkInterrupts m' = .ok m') :
    ∃ m', vcoreIteration env m = .ok (.again m') ∧ m'.arch = i.exec m.arch ∧
      SameContext m m' := by
  obtain ⟨m', hm', harch, hctx⟩ : Yields m (vcoreExecute env m) _ :=
    vcoreExecute_rv32im i hi hfetch hin
  have hexit' : m'.core.atomicExitLoop = false := hctx.atomicExitLoop.trans hexit
  refine ⟨m', ?_, harch, hctx⟩
  simp only [vcoreIteration, vcoreExitTest, hm', ok_bind, hexit', hint m' hm']
  rfl

end

/-- `sb x6, -1(x5)` -/
def storeByte : Instr := .store .sb 5 6 (-1)

def storeByteMachine : Sv32 := .boot [encode storeByte] [(5, 0x102), (6, 0xABCD)]

theorem vcoreIteration_rv32im_storeByte :
    ∃ m', vcoreIteration Supervisor.env storeByteMachine = .ok (.again m') ∧
      m'.arch = storeByte.exec storeByteMachine.arch ∧ SameContext storeByteMachine m' := by
  refine vcoreIteration_rv32im Supervisor.env storeByteMachine storeByte (by decide) (by decide) ?_
    rfl ?_
  · intro a n h
    cases h
    decide
  · intro m' h
    cases h
    rfl

end SwitchV32
