import SwitchV32.Cpu.Rv32im

/-!
# Jumps

`vcore_ij_type` writes the link before it reads `rs1`, and it does not clear the
bit 0 of the sum. `JAL` is as in the manual.
-/

namespace SwitchV32

open Rv32 (Instr encode)

section
variable {σ : Type} {env : Env σ} {m : Machine σ}

/-- The iteration shows the state `s`, keeps the rest of `m`, and goes on to its exit test. -/
def IterationYields (env : Env σ) (m : Machine σ) (s : Rv32.State) : Prop :=
  ∃ m', vcoreExecute env m = .ok m' ∧ vcoreIteration env m = vcoreExitTest env m' ∧
    m'.arch = s ∧ SameContext m m'

/-- Where the code's target is the manual's: with `rd` in the place of `rs1` the sum is of the
link. -/
def TargetAgrees (i : Instr) (s : Rv32.State) : Prop :=
  match i with
  | .jalr rd rs1 imm =>
    if rd = rs1 then
      s.pc + 4 + imm.signExtend 32 = (s.get rs1 + imm.signExtend 32) &&& ~~~1#32
    else (s.get rs1 + imm.signExtend 32).getLsbD 0 = false
  | _ => True

theorem iterationYields_iff {m' : Machine σ} (h : vcoreExecute env m = .ok m')
    (hctx : SameContext m m') (s : Rv32.State) : IterationYields env m s ↔ m'.arch = s := by
  constructor
  · rintro ⟨m'', h'', -, hs, -⟩
    cases h.symm.trans h''
    exact hs
  · intro hs
    refine ⟨m', h, ?_, hs, hctx⟩
    rw [vcoreIteration, h, ok_bind]

/-- No bit is cleared where bit 0 is clear. -/
theorem eq_and_not_one_iff (x : U32) : x = x &&& ~~~1#32 ↔ x.getLsbD 0 = false := by
  constructor
  · intro h
    rw [h]
    simp
  · intro h
    ext i hi
    cases i with
    | zero => simpa using h
    | succ i => simp only [BitVec.getElem_and, BitVec.getElem_not, BitVec.getElem_one,
        Nat.add_eq_zero_iff, one_ne_zero, and_false, decide_false, Bool.not_false, Bool.and_true]

theorem arch_link (rd : Rv32.Reg) (target : U32) :
    ((m.setReg (Reg.gpr rd) (m.reg Reg.pc + 4)).setReg Reg.pc target).arch =
      { m.arch.set rd (m.arch.pc + 4) with pc := target } := by
  rw [arch_setPc, arch_setGpr, arch_pc]

theorem vcoreJType_eq (rd : Rv32.Reg) (imm : BitVec 20) :
    vcoreJType m (encode (.jal rd imm)) =
      .ok ((m.setReg (Reg.gpr rd) (m.reg Reg.pc + 4)).setReg Reg.pc
        (m.reg Reg.pc + imm.signExtend 32 <<< 1)) := by
  simp only [vcoreJType, encode, Ins.rdReg_jFormat, Ins.jImm_jFormat, Machine.addPc,
    Machine.reg_setReg_ne m Reg.gpr_ne_pc.symm]
  rfl

theorem vcoreIjType_eq (hz : m.reg Reg.zero = 0) (rd rs1 : Rv32.Reg) (imm : BitVec 12) :
    vcoreIjType m (encode (.jalr rd rs1 imm)) =
      .ok ((m.setReg (Reg.gpr rd) (m.reg Reg.pc + 4)).setReg Reg.pc
        ((if rd = rs1 then m.arch.pc + 4 else m.arch.get rs1) + imm.signExtend 32)) := by
  have hrs1 : (m.setReg (Reg.gpr rd) (m.reg Reg.pc + 4)).reg (Reg.gpr rs1) =
      if rd = rs1 then m.arch.pc + 4 else m.arch.get rs1 := by
    by_cases h : rd = rs1
    · rw [if_pos h, h, Machine.reg_setReg_self, arch_pc]
    · have hne : Reg.gpr rs1 ≠ Reg.gpr rd := by
        rw [Ne, Reg.gpr_inj]
        exact fun h' => h h'.symm
      rw [if_neg h, Machine.reg_setReg_ne m hne, arch_get m hz]
  have himm := Ins.iImm_iFormat imm rs1 0b000 rd Rv32.Opcode.jalr
  simp only [vcoreIjType, encode, himm]
  simp only [Rv32.iFormat_eq, Ins.rdReg_rFormat, Ins.rs1Reg_rFormat, hrs1]
  rfl

theorem vcoreExecute_jump {i : Instr} (hi : i.opcode ∈ [Rv32.Opcode.jal, Rv32.Opcode.jalr])
    (hfetch : memRw m.vmem (m.reg Reg.pc) = .ok (encode i)) :
    vcoreExecute env m = vcoreDispatch env (m.setReg Reg.zero 0) (encode i) := by
  refine vcoreExecute_fetch hfetch (isCompressed_of_opcodeType (opcodeType_encode i) ?_)
  simp only [List.mem_cons, List.not_mem_nil, or_false] at hi
  rcases hi with h | h <;> rw [h] <;> decide

theorem iterationYields_link_iff {rd : Rv32.Reg} {link target : U32}
    (hlink : (m.setReg Reg.zero 0).reg Reg.pc + 4 = link)
    (h : vcoreExecute env m =
      .ok (((m.setReg Reg.zero 0).setReg (Reg.gpr rd) link).setReg Reg.pc target))
    (s : Rv32.State) :
    IterationYields env m s ↔ { m.arch.set rd (m.arch.pc + 4) with pc := target } = s := by
  have hctx : SameContext m
      (((m.setReg Reg.zero 0).setReg (Reg.gpr rd) link).setReg Reg.pc target) :=
    (((SameContext.refl m).setReg (by decide) 0).setGpr rd _).setReg (by decide) _
  rw [iterationYields_iff h hctx, ← hlink, arch_link, arch_setZero]

theorem iterationYields_jal (env : Env σ) (rd : Rv32.Reg) (imm : BitVec 20)
    (hfetch : memRw m.vmem (m.reg Reg.pc) = .ok (encode (.jal rd imm))) :
    IterationYields env m ((Instr.jal rd imm).exec m.arch) := by
  have h : vcoreExecute env m = vcoreJType (m.setReg Reg.zero 0) (encode (.jal rd imm)) := by
    rw [vcoreExecute_jump (by simp [Instr.opcode]) hfetch, vcoreDispatch, opcodeType_encode]
    rfl
  rw [iterationYields_link_iff rfl (h.trans (vcoreJType_eq rd imm))]
  simp only [Instr.exec, arch_pc, Machine.reg_setReg_ne m (show Reg.pc ≠ Reg.zero by decide)]

theorem iterationYields_jalr_iff (env : Env σ) (rd rs1 : Rv32.Reg) (imm : BitVec 12)
    (hfetch : memRw m.vmem (m.reg Reg.pc) = .ok (encode (.jalr rd rs1 imm))) :
    IterationYields env m ((Instr.jalr rd rs1 imm).exec m.arch) ↔
      TargetAgrees (.jalr rd rs1 imm) m.arch := by
  have hz : (m.setReg Reg.zero 0).reg Reg.zero = 0 := Machine.reg_setReg_self m _ _
  have h : vcoreExecute env m = vcoreIjType (m.setReg Reg.zero 0) (encode (.jalr rd rs1 imm)) := by
    rw [vcoreExecute_jump (by simp [Instr.opcode]) hfetch, vcoreDispatch, opcodeType_encode]
    rfl
  rw [iterationYields_link_iff rfl (h.trans (vcoreIjType_eq hz rd rs1 imm))]
  simp only [Instr.exec, arch_setZero, Rv32.State.mk.injEq, true_and, and_true, TargetAgrees]
  split
  · rfl
  · exact eq_and_not_one_iff _

/-- `JAL` is executed as the manual has it, and `JALR` exactly where the targets agree. -/
theorem jump_iff (env : Env σ) (m : Machine σ) (i : Instr)
    (hi : i.opcode ∈ [Rv32.Opcode.jal, Rv32.Opcode.jalr])
    (hfetch : memRw m.vmem (m.reg Reg.pc) = .ok (encode i)) :
    IterationYields env m (i.exec m.arch) ↔ TargetAgrees i m.arch := by
  cases i with
  | jal rd imm => exact iff_of_true (iterationYields_jal env rd imm hfetch) trivial
  | jalr rd rs1 imm => exact iterationYields_jalr_iff env rd rs1 imm hfetch
  | _ => exact absurd hi (by simp only [Instr.opcode]; decide)

end

/-- `jalr x1, 4(x5)` -/
def returnFar : Instr := .jalr 1 5 4

theorem jump_iff_returnFar :
    let m := Sv32.boot [encode returnFar] [(5, 0x100)]
    IterationYields Supervisor.env m (returnFar.exec m.arch) := by
  intro m
  refine (jump_iff Supervisor.env m returnFar (by decide) (by decide)).mpr ?_
  simp only [TargetAgrees, returnFar]
  decide

/-- A far call: `jalr ra, 8(ra)` jumps relative to itself. -/
theorem jump_fails :
    let i : Instr := .jalr 1 1 8
    let m := Sv32.boot [encode i] [(1, 0x1000)]
    ¬ IterationYields Supervisor.env m (i.exec m.arch) := by
  intro i m h
  have hpc := (iterationYields_jalr_iff Supervisor.env 1 1 8 (by decide)).mp h
  simp only [TargetAgrees, if_true] at hpc
  exact absurd hpc (by decide)

end SwitchV32
