import SwitchV32.Rv32.Zicsr
import SwitchV32.Supervisor.TrapEntry
import SwitchV32.Cpu.Access

/-!
# The interpreter and Zicsr

One iteration on an encoded CSR instruction in supervisor mode. The function
codes that `cpu_supervisor.c` compares with are the binary digits of `funct3`
read as hexadecimal, so only `CSRRW` is ever selected, and no path of the CSR
instructions moves the program counter.
-/

namespace SwitchV32.Supervisor

open Rv32 (Csr CsrOp encodeCsr)

-- ---------------------------------------------------------------------------
-- What the manual asks for
-- ---------------------------------------------------------------------------

def csrReg : Csr → Reg
  | .sstatus => Reg.sstatus
  | .sie => Reg.sie
  | .stvec => Reg.stvec
  | .scounteren => Reg.scounteren
  | .senvcfg => Reg.senvcfg
  | .sscratch => Reg.sscratch
  | .sepc => Reg.sepc
  | .scause => Reg.scause
  | .stval => Reg.stval
  | .sip => Reg.sip
  | .satp => Reg.satp

def csrOperand (o : CsrOp) (src : Rv32.Reg) (m : Sv32) : U32 :=
  if o.immediate then src.setWidth 32 else m.arch.get src

structure CsrDone (o : CsrOp) (c : Csr) (rd src : Rv32.Reg) (m m' : Sv32) : Prop where
  rd_eq : rd ≠ 0 → m'.arch.get rd = m.reg (csrReg c)
  csr_eq : m'.reg (csrReg c) =
    c.write (m.reg (csrReg c)) (o.eval (m.reg (csrReg c)) (csrOperand o src m))
  pc_eq : m'.reg Reg.pc = m.reg Reg.pc + 4
  other : ∀ r, r ≠ Reg.zero → r ≠ Reg.gpr rd → r ≠ csrReg c → r ≠ Reg.pc → m'.reg r = m.reg r

-- ---------------------------------------------------------------------------
-- The program counter
-- ---------------------------------------------------------------------------

variable {m : Sv32} {ins : U32}

theorem csrAccess_pc {r : Reg} (hr : r ≠ Reg.pc)
    (hread : getCsrAccess (Ins.iImm ins) ≠ csrReadAccess) :
    ∃ m', csrAccess dispatchTrap m ins (some r) = .ok m' ∧ m'.reg Reg.pc = m.reg Reg.pc := by
  have hset (m₁ : Sv32) (v) : (m₁.setReg r v).reg Reg.pc = m₁.reg Reg.pc :=
    Machine.reg_setReg_ne m₁ hr.symm
  have hrd (m₁ : Sv32) (v) : (m₁.setReg (Ins.rdReg ins) v).reg Reg.pc = m₁.reg Reg.pc :=
    Machine.reg_setReg_ne m₁ (Ins.rdReg_ne_pc ins).symm
  simp only [csrAccess, if_neg hread, derefCsr, ok_bind]
  generalize csrWrite _ _ _ = write
  cases write with
  | some write =>
    simp only [pure, Except.pure, ok_bind]
    split
    · split
      · exact ⟨_, rfl, by rw [hset, hset, hrd]⟩
      · exact ⟨_, rfl, by rw [hset, hrd]⟩
    · exact ⟨_, rfl, by rw [hset, hrd]⟩
  | none =>
    simp only [pure, Except.pure, ok_bind]
    split
    · split
      · exact ⟨_, rfl, hset _ _⟩
      · exact ⟨_, rfl, rfl⟩
    · exact ⟨_, rfl, rfl⟩

theorem findCsr_number (c : Csr) : findCsr (c.number.signExtend 32) = some (csrReg c) := by
  cases c <;> rfl

theorem csrReg_ne_pc (c : Csr) : csrReg c ≠ Reg.pc := by
  cases c <;> decide

theorem vcoreSysType_csr (hmode : m.core.mode = .supervisor) {o : CsrOp} {c : Csr}
    (hfunc : Ins.func ins = o.funct3.setWidth 32) (himm : Ins.iImm ins = c.number.signExtend 32) :
    vcoreSysType dispatchTrap m ins = csrAccess dispatchTrap m ins (some (csrReg c)) := by
  have hne : Ins.func ins ≠ 0 := by
    rw [hfunc]
    cases o <;> decide
  have hlevel : getCsrPrivilege (c.number.signExtend 32) = csrSupervisorLevel := by
    cases c <;> decide
  simp only [vcoreSysType, if_neg hne, himm, if_pos hlevel, hmode, ne_eq, not_true_eq_false,
    ite_false, findCsr_number]

theorem vcoreExecute_csr (hmode : m.core.mode = .supervisor) {o : CsrOp} {c : Csr} {rd src}
    (hfetch : m.Fetches (encodeCsr o c rd src)) :
    ∃ m', vcoreExecute env m = .ok m' ∧ m'.reg Reg.pc = m.reg Reg.pc := by
  have hop : Ins.opcodeType (encodeCsr o c rd src) = OpcodeType.sysType := by
    rw [encodeCsr, Rv32.iFormat_eq, Ins.opcodeType_rFormat]
    rfl
  have hc : Ins.isCompressed (encodeCsr o c rd src) = false := by
    rw [Ins.isCompressed_eq, hop]
    rfl
  have hfunc : Ins.func (encodeCsr o c rd src) = o.funct3.setWidth 32 := by
    rw [encodeCsr, Rv32.iFormat_eq, Ins.func_rFormat]
  have himm : Ins.iImm (encodeCsr o c rd src) = c.number.signExtend 32 := Ins.iImm_iFormat ..
  have hread : getCsrAccess (Ins.iImm (encodeCsr o c rd src)) ≠ csrReadAccess := by
    rw [himm]
    cases c <;> decide
  obtain ⟨m', hm', hpc⟩ := csrAccess_pc (m := m.setReg Reg.zero 0) (csrReg_ne_pc c) hread
  refine ⟨m', ?_, ?_⟩
  · rw [vcoreExecute_fetch hfetch hc, vcoreDispatch, hop, ← hm']
    exact vcoreSysType_csr (m := m.setReg Reg.zero 0) hmode hfunc himm
  · rw [hpc, Machine.reg_setReg_ne _ (by decide)]

/-- No CSR instruction is ever right: it leaves the program counter where it is, and the next
iteration executes it again. -/
theorem csr_never (m : Sv32) (o : CsrOp) (c : Csr) (rd src : Rv32.Reg)
    (hmode : m.core.mode = .supervisor) (hfetch : m.Fetches (encodeCsr o c rd src)) :
    ∃ m₁, vcoreExecute env m = .ok m₁ ∧ m₁.reg Reg.pc = m.reg Reg.pc ∧
      ¬ CsrDone o c rd src m m₁ ∧
      (¬ InterruptDue m₁ → ∀ m₂, vcoreIteration env m = .ok (.returned m₂) ∨
        vcoreIteration env m = .ok (.again m₂) → ¬ CsrDone o c rd src m m₂) := by
  obtain ⟨m₁, hm₁, hpc⟩ := vcoreExecute_csr hmode hfetch
  have hno : ¬ CsrDone o c rd src m m₁ := by
    intro h
    have hpc' := h.pc_eq
    rw [hpc] at hpc'
    bv_omega
  refine ⟨m₁, hm₁, hpc, hno, fun hdue m₂ hit => ?_⟩
  have hcheck : env.checkInterrupts m₁ = .ok m₁ := checkInterrupts_of_not_due hdue
  simp only [vcoreIteration, hm₁, ok_bind, vcoreExitTest, hcheck] at hit
  have heq : m₂ = m₁ := by
    split at hit <;> rcases hit with h | h <;> cases h <;> rfl
  rwa [heq]

/-- `csrrw x7, sscratch, x5` -/
def csrrwMachine : Sv32 := .boot [encodeCsr .rw .sscratch 7 5] [(5, 3), (Reg.sscratch, 9)]

theorem csr_never_csrrw :
    ∃ m₁, vcoreExecute env csrrwMachine = .ok m₁ ∧ m₁.reg Reg.pc = 0 ∧
      ¬ CsrDone .rw .sscratch 7 5 csrrwMachine m₁ := by
  obtain ⟨m₁, hm₁, hpc, hno, -⟩ := csr_never csrrwMachine .rw .sscratch 7 5 rfl (by decide)
  exact ⟨m₁, hm₁, hpc, hno⟩

/-- `csrrs x7, sscratch, x5` -/
def csrrsMachine : Sv32 := .boot [encodeCsr .rs .sscratch 7 5] [(5, 3), (Reg.sscratch, 9)]

/-- Neither the register nor the CSR is written. -/
theorem csrrs_does_nothing :
    ∃ m₁, vcoreIteration env csrrsMachine = .ok (.again m₁) ∧
      m₁.reg Reg.pc = 0 ∧ m₁.reg 7 = 0 ∧ m₁.reg Reg.sscratch = 9 ∧
      ¬ CsrDone .rs .sscratch 7 5 csrrsMachine m₁ := by
  refine ⟨_, rfl, by decide, by decide, by decide, fun h => ?_⟩
  exact absurd h.pc_eq (by decide)

end SwitchV32.Supervisor
