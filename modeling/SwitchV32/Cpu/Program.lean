import SwitchV32.Cpu.Jump
import SwitchV32.Cpu.Amo
import SwitchV32.Rv32.Program
import SwitchV32.Supervisor.TrapEntry
import SwitchV32.User

/-!
# The interpreter runs programs

Step by step the loop of `vcore_run` is the manual's execution of the program in
guest memory, for as long as the program keeps to what the interpreter does
right and no interrupt is due. A program may change its own code.
-/

namespace SwitchV32

open Rv32 (Op)

section
variable {σ : Type} {env : Env σ} {m m' : Machine σ} {s : Rv32.State} {op : Op}

def vcoreIterations (env : Env σ) : Nat → Machine σ → Except Stop (Iteration σ)
  | 0, m => .ok (.again m)
  | n + 1, m => do
    match ← vcoreIteration env m with
    | .again m => vcoreIterations env n m
    | .returned m => return .returned m

theorem vcoreIterations_succ {n : Nat} (h : vcoreIterations env n m = .ok (.again m')) :
    vcoreIterations env (n + 1) m = vcoreIteration env m' := by
  induction n generalizing m with
  | zero =>
    cases h
    rw [vcoreIterations]
    cases vcoreIteration env m' with
    | error e => rfl
    | ok r => cases r <;> rfl
  | succ n ih =>
    rw [vcoreIterations] at h ⊢
    obtain ⟨r, hr, h⟩ := bind_eq_ok.mp h
    rw [hr, ok_bind]
    cases r with
    | again m₁ => exact ih h
    | returned m₁ => cases h

-- ---------------------------------------------------------------------------
-- One instruction
-- ---------------------------------------------------------------------------

/-- The instruction and its access are in a guest memory of `size` bytes, and the interpreter
executes the instruction as the manual has it. -/
structure Ordinary (size : Nat) (s : Rv32.State) (op : Op) : Prop where
  fetch : s.pc.toNat + 4 ≤ size
  access : ∀ a n, op.access? s = some (a, n) → a.toNat + n ≤ size
  jump : ∀ i, op = .base i → TargetAgrees i s
  amo : ∀ o aq rl rd rs1 rs2, op = .amo o aq rl rd rs1 rs2 → o ≠ .or

theorem vcoreExecute_op (hfetch : m.arch.word m.arch.pc = op.encode)
    (hop : Ordinary m.vmem.size m.arch op) :
    Yields m (vcoreExecute env m) (op.exec m.arch) := by
  have hword : memRw m.vmem (m.reg Reg.pc) = .ok op.encode := by
    rw [← hfetch]
    exact load_word hop.fetch
  cases op with
  | base i =>
    have hjump := hop.jump i rfl
    have haccess : ∀ a n, i.access? m.arch = some (a, n) → m.vmem.Inside a n := hop.access
    replace hword : memRw m.vmem (m.reg Reg.pc) = .ok (Rv32.encode i) := hword
    cases i with
    | jal rd imm =>
      obtain ⟨m', hm', -, hs, hctx⟩ := iterationYields_jal env rd imm hword
      exact ⟨m', hm', hs, hctx⟩
    | jalr rd rs1 imm =>
      obtain ⟨m', hm', -, hs, hctx⟩ := (iterationYields_jalr_iff env rd rs1 imm hword).mpr hjump
      exact ⟨m', hm', hs, hctx⟩
    | _ =>
      refine vcoreExecute_rv32im _ ?_ hword haccess
      simp only [Rv32.Instr.opcode]
      decide
  | amo o aq rl rd rs1 rs2 =>
    exact vcoreExecute_amo hword (hop.access _ _ rfl) (hop.amo _ _ _ _ _ _ rfl)

-- ---------------------------------------------------------------------------
-- Programs
-- ---------------------------------------------------------------------------

/-- No interrupt is due while only the architectural state changes. -/
def Undisturbed (env : Env σ) (m : Machine σ) : Prop :=
  ∀ m', SameContext m m' → env.checkInterrupts m' = .ok m'

theorem vcoreIteration_op (hexit : m.core.atomicExitLoop = false) (hfree : Undisturbed env m)
    (hfetch : m.arch.word m.arch.pc = op.encode) (hop : Ordinary m.vmem.size m.arch op) :
    ∃ m', vcoreIteration env m = .ok (.again m') ∧ m'.arch = op.exec m.arch ∧
      SameContext m m' := by
  obtain ⟨m', hm', harch, hctx⟩ : Yields m (vcoreExecute env m) _ := vcoreExecute_op hfetch hop
  refine ⟨m', ?_, harch, hctx⟩
  simp only [vcoreIteration, vcoreExitTest, hm', ok_bind, hctx.atomicExitLoop, hexit, hfree m' hctx]
  rfl

theorem vcoreIterations_run {t : List (Rv32.State × Op)} (hexit : m.core.atomicExitLoop = false)
    (hfree : Undisturbed env m) (hrun : Lts.Run Rv32.Exec m.arch t s)
    (ht : Lts.Every (Ordinary m.vmem.size) t) :
    ∃ m', vcoreIterations env t.length m = .ok (.again m') ∧ m'.arch = s ∧ SameContext m m' := by
  induction hrun with
  | nil => exact ⟨m, rfl, rfl, SameContext.refl m⟩
  | snoc _ hs ih =>
    rw [Lts.every_append, Lts.every_cons] at ht
    obtain ⟨m₁, hm₁, rfl, hctx⟩ := ih ht.1
    have hop := ht.2.1
    rw [← hctx.size] at hop
    obtain ⟨m₂, hm₂, harch, hctx₂⟩ := vcoreIteration_op (hctx.atomicExitLoop.trans hexit)
      (fun m' h => hfree m' (hctx.trans h)) hs.fetch hop
    refine ⟨m₂, ?_, harch.trans hs.exec.symm, hctx.trans hctx₂⟩
    rw [List.length_append, List.length_singleton, vcoreIterations_succ hm₁, hm₂]

end

/-- Whether an interrupt is due shows in the CSRs, the mode and the flag of an open LL/SC pair. -/
theorem Supervisor.InterruptDue.congr {m m' : Sv32} (h : Supervisor.InterruptDue m')
    (hcsr : ∀ r : Reg, 32 < r.val → m'.reg r = m.reg r)
    (hflag : m'.core.llScFlag = m.core.llScFlag) (hmode : m'.core.mode = m.core.mode) :
    Supervisor.InterruptDue m := by
  refine ⟨?_, ?_, ?_⟩
  · rw [← hflag]
    exact h.llScFlag
  · rw [← hmode, ← hcsr _ (by decide)]
    exact h.sie
  · rw [← hcsr _ (by decide), ← hcsr _ (by decide)]
    exact h.enabled

theorem undisturbed (build : Build) (emuSystemCall : Sv32 → Except Stop Sv32) {m : Sv32}
    (h : build = .supervisor → ¬ Supervisor.InterruptDue m) :
    Undisturbed (build.env emuSystemCall) m := by
  intro m' hctx
  cases build with
  | user => rfl
  | supervisor =>
    exact Supervisor.checkInterrupts_of_not_due fun hdue =>
      h rfl (hdue.congr hctx.csr hctx.llScFlag hctx.mode)

/-- As many iterations as the program has instructions take the machine to where the program
gets. -/
theorem program_runs (build : Build) (emuSystemCall : Sv32 → Except Stop Sv32) {m : Sv32}
    {t : List (Rv32.State × Op)} {s : Rv32.State} (hexit : m.core.atomicExitLoop = false)
    (hdue : build = .supervisor → ¬ Supervisor.InterruptDue m)
    (hrun : Lts.Run Rv32.Exec m.arch t s) (ht : Lts.Every (Ordinary m.vmem.size) t) :
    ∃ m', vcoreIterations (build.env emuSystemCall) t.length m = .ok (.again m') ∧
      m'.arch = s ∧ SameContext m m' :=
  vcoreIterations_run hexit (undisturbed build emuSystemCall hdue) hrun ht

/-- `addi x5, x5, -1`, `bne x5, x0, -4` and `amoadd.w x7, x6, (x8)` -/
def countDown : List Op :=
  [.base (.opImm .addi 5 5 (-1)), .base (.branch .bne 5 0 (-2)), .amo .add 0 0 7 8 6]

def countDownMachine : Sv32 := .boot (countDown.map Op.encode) [(5, 1), (6, 7), (8, 8)]

/-- The program leaves its loop and changes its last instruction. -/
theorem program_runs_countDown :
    ∃ m', vcoreIterations (Build.supervisor.env .ok) 3 countDownMachine = .ok (.again m') ∧
      m'.arch.pc = 12 ∧ m'.arch.x 5 = 0 ∧ SameContext countDownMachine m' := by
  have hstep (s : Rv32.State) (op : Op) (h : s.word s.pc = op.encode) :
      Rv32.Exec s op (op.exec s) := ⟨h, rfl⟩
  have hrun := ((Lts.Run.one (hstep countDownMachine.arch countDown[0] (by decide))).snoc
    (hstep _ countDown[1] (by decide))).snoc (hstep _ countDown[2] (by decide))
  have h : ∃ m', _ ∧ _ ∧ _ := program_runs .supervisor .ok (m := countDownMachine) rfl
    (fun _ h => by cases h.sie rfl) hrun ?_
  · obtain ⟨m', hm', harch, hctx⟩ := h
    refine ⟨m', hm', ?_, ?_, hctx⟩
    · rw [harch]
      decide
    · rw [harch]
      decide
  · simp only [Lts.every_append, Lts.every_cons, Lts.every_nil, and_true, and_assoc]
    refine ⟨?_, ?_, ?_⟩ <;>
      exact {
        fetch := by decide
        access := by rintro a n ⟨⟩ <;> decide
        jump := by rintro i ⟨⟩ <;> trivial
        amo := by rintro o aq rl rd rs1 rs2 ⟨⟩ <;> decide }

end SwitchV32
