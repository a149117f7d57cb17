import SwitchV32.Lts
import SwitchV32.Supervisor.ExitFlag

/-!
# Single-stepping against running

The debugger steps a core by calling `vcore_run` with the exit flag up. The loop
tests the flag before it looks for interrupts, so a stepped core never takes
one. Where a running core takes none either, the two go through the same states.
-/

namespace SwitchV32.Supervisor

-- ---------------------------------------------------------------------------
-- The two ways to run
-- ---------------------------------------------------------------------------

def raise (m : Sv32) : Sv32 := { m with core := { m.core with atomicExitLoop := true } }

def Again (m : Sv32) (_ : Unit) (m' : Sv32) : Prop := vcoreIteration env m = .ok (.again m')

/-- The iteration during which the flag goes up, before the instruction or after it. -/
inductive LastIteration (m : Sv32) : Sv32 → Prop
  | before (h : vcoreIteration env (raise m) = .ok (.returned m')) : LastIteration m m'
  | after (h : vcoreExecute env m = .ok m₁)
    (hexit : vcoreExitTest env (raise m₁) = .ok (.returned m')) :
    LastIteration m m'

inductive VcoreRun : Sv32 → Sv32 → Prop
  | returned {m m'} (h : vcoreIteration env m = .ok (.returned m')) : VcoreRun m m'
  | again {m m₁ m'} (h : vcoreIteration env m = .ok (.again m₁)) (hrun : VcoreRun m₁ m') :
    VcoreRun m m'

inductive Stepped (m : Sv32) : Nat → Sv32 → Prop
  | none : Stepped m 0 m
  | call {n m₁ m'} (h : Stepped m n m₁) (hrun : VcoreRun (raise m₁) m') : Stepped m (n + 1) m'

structure SameGuest (m s : Sv32) : Prop where
  reg : ∀ r, s.reg r = m.reg r
  mode : s.core.mode = m.core.mode
  vmem : s.vmem = m.vmem

/-- The next instruction is an SBI call by which the hart initialises its own record; that takes
the exit flag down again. -/
structure SelfInits (m : Sv32) : Prop where
  ecall : ∃ ins, m.Fetches ins ∧ Ins.opcodeType ins = OpcodeType.sysType ∧ Ins.func ins = 0 ∧
    Ins.iImm ins = 0
  mode : m.core.mode = .supervisor
  self : SelfInit m

structure Quiet (m : Sv32) (_ : Unit) : Prop where
  interrupts : ∀ m₁, vcoreExecute env m = .ok m₁ → ¬ InterruptDue m₁
  self : ¬ SelfInits m

-- ---------------------------------------------------------------------------
-- One iteration
-- ---------------------------------------------------------------------------

variable {m m' s s' : Sv32} {n : Nat}

theorem flagUp_raise (m : Sv32) : m.FlagUp (raise m) :=
  ⟨rfl, rfl, rfl, rfl, fun _ _ => rfl, fun _ => rfl⟩

theorem raise_of_flagUp (h : m.FlagUp s) : raise s = s := by
  have hcore := h.core
  obtain ⟨⟨regs, reserved, flag, exit, mode, idx, brk⟩, vmem, host⟩ := s
  cases hcore
  rfl

theorem selfInit_of_setZero (h : SelfInit (m.setReg Reg.zero 0)) : SelfInit m := by
  obtain ⟨hsm, hart, call, startAddr⟩ := h
  have hstate : cthreadGetHsmState ((m.setReg Reg.zero 0).cthread m.host.hart) =
      cthreadGetHsmState (m.cthread m.host.hart) := by
    simp only [Machine.cthread, Machine.setReg_host, ite_true]
    rfl
  rw [Machine.reg_setReg_ne _ (by decide)] at hsm hart startAddr
  rw [Machine.reg_setReg_ne _ (by decide), Machine.reg_setReg_ne _ (by decide),
    Machine.setReg_host, hstate] at call
  exact ⟨hsm, hart, call, startAddr⟩

theorem vcoreExecute_flagUp (h : m.FlagUp s) (hself : ¬ SelfInits m) :
    Agree Machine.FlagUp (vcoreExecute env m) (vcoreExecute env s) := by
  have h₀ := h.setReg Reg.zero 0
  have hpc : (m.setReg Reg.zero 0).reg Reg.pc = m.reg Reg.pc := Machine.reg_setReg_ne _ (by decide)
  simp only [vcoreExecute, h₀.reg, h₀.vmem, hpc, Machine.setReg_vmem]
  cases hfetch : memRw m.vmem (m.reg Reg.pc) with
  | error e => exact .error e
  | ok ins =>
    refine .ite (fun _ => .error _) fun _ => vcoreDispatch_flagUp h₀ ins ?_
    exact fun hop hfunc himm hmode hs =>
      hself ⟨⟨ins, hfetch, hop, hfunc, himm⟩, hmode, selfInit_of_setZero hs⟩

theorem iteration_flagUp {m₁ s₁ : Sv32} (h : vcoreExecute env s = .ok s₁) (h₁ : m₁.FlagUp s₁) :
    vcoreIteration env s = .ok (.returned s₁) := by
  have hexit : s₁.core.atomicExitLoop = true := by rw [h₁.core]
  simp only [vcoreIteration, h, ok_bind, vcoreExitTest, hexit, ite_true]
  rfl

theorem Again.stepped (h : Again m () m') (hq : Quiet m ()) (hs : m.FlagUp s) :
    ∃ s', vcoreIteration env s = .ok (.returned s') ∧ m'.FlagUp s' := by
  obtain ⟨m₁, hm₁, htest⟩ := bind_eq_ok.mp h
  obtain ⟨s₁, hs₁, h₁⟩ := (vcoreExecute_flagUp hs hq.self).of_ok hm₁
  have hm' : m' = m₁ := by
    have hcheck : env.checkInterrupts m₁ = .ok m₁ :=
      checkInterrupts_of_not_due (hq.interrupts m₁ hm₁)
    unfold vcoreExitTest at htest
    split at htest
    · cases htest
    · rw [hcheck] at htest
      cases htest
      rfl
  exact ⟨s₁, iteration_flagUp hs₁ h₁, by rwa [hm']⟩

theorem LastIteration.stepped (h : LastIteration m m') (hself : ¬ SelfInits m) (hs : m.FlagUp s) :
    ∃ s', vcoreIteration env s = .ok (.returned s') ∧ SameGuest m' s' := by
  cases h with
  | before h =>
    obtain ⟨r, hr, -⟩ := bind_eq_ok.mp h
    have hraise := vcoreExecute_flagUp (flagUp_raise m) hself
    rw [hr] at hraise
    generalize hm : vcoreExecute env m = x at hraise
    cases hraise with
    | @ok m₁ _ h₁ =>
      cases (iteration_flagUp hr h₁).symm.trans h
      obtain ⟨s₁, hs₁, h₂⟩ := (vcoreExecute_flagUp hs hself).of_ok hm
      refine ⟨s₁, iteration_flagUp hs₁ h₂, ⟨fun r => ?_, ?_, ?_⟩⟩
      · rw [h₂.reg, h₁.reg]
      · rw [h₂.core, h₁.core]
      · rw [h₂.vmem, h₁.vmem]
  | @after m₁ _ h hexit =>
    obtain ⟨s₁, hs₁, h₁⟩ := (vcoreExecute_flagUp hs hself).of_ok h
    cases hexit
    exact ⟨s₁, iteration_flagUp hs₁ h₁, h₁.reg, by rw [h₁.core]; rfl, h₁.vmem⟩

-- ---------------------------------------------------------------------------
-- Runs
-- ---------------------------------------------------------------------------

theorem VcoreRun.unique (h : VcoreRun m m') (h' : VcoreRun m s') : m' = s' := by
  induction h with
  | returned h =>
    cases h' with
    | returned h' =>
      cases h.symm.trans h'
      rfl
    | again h' => cases h.symm.trans h'
  | again h _ ih =>
    cases h' with
    | returned h' => cases h.symm.trans h'
    | again h' hrun =>
      cases h.symm.trans h'
      exact ih hrun

theorem Stepped.unique (h : Stepped m n m') (h' : Stepped m n s') : m' = s' := by
  induction h generalizing s' with
  | none =>
    cases h'
    rfl
  | call _ hrun ih =>
    cases h' with
    | call h' hrun' =>
      cases ih h'
      exact hrun.unique hrun'

theorem stepped_run {m₀ : Sv32} {t} (h : Lts.Run Again m₀ t m) (ht : Lts.Every Quiet t) :
    ∃ s, Stepped m₀ t.length s ∧ m.FlagUp (raise s) := by
  induction h with
  | nil => exact ⟨m₀, .none, flagUp_raise m₀⟩
  | snoc _ hagain ih =>
    rw [Lts.every_append, Lts.every_cons] at ht
    obtain ⟨s, hsteps, hup⟩ := ih ht.1
    obtain ⟨s', hs', hup'⟩ := Again.stepped hagain ht.2.1 hup
    refine ⟨s', ?_, by rwa [raise_of_flagUp hup']⟩
    rw [List.length_append]
    exact .call hsteps (.returned hs')

/-- If no iteration but the last ends with an interrupt to take, and none takes the exit flag down
by initialising its own hart, then as many single steps reach the state of the run. -/
theorem stepped_agrees {m m₁ m' : Sv32} {t} (hrun : Lts.Run Again m t m₁)
    (hlast : LastIteration m₁ m') (ht : Lts.Every Quiet t) (hself : ¬ SelfInits m₁) :
    (∃ s', Stepped m (t.length + 1) s') ∧ ∀ s', Stepped m (t.length + 1) s' → SameGuest m' s' := by
  obtain ⟨s, hsteps, hup⟩ := stepped_run hrun ht
  obtain ⟨s', hs', hsame⟩ := hlast.stepped hself hup
  have hcall : Stepped m (t.length + 1) s' := .call hsteps (.returned hs')
  refine ⟨⟨s', hcall⟩, fun s'' h => ?_⟩
  rwa [← hcall.unique h]

/-- Instructions that do nothing, also at the trap handler; software interrupts are enabled. -/
def nopMachine (sip : U32) : Sv32 :=
  .boot (List.replicate 66 0x13)
    [(Reg.sstatus, 0x2), (Reg.stvec, 0x100), (Reg.sie, 0x2), (Reg.sip, sip)]

theorem nop_not_selfInits {m : Sv32} (h : m.Fetches 0x13) : ¬ SelfInits m := by
  rintro ⟨⟨ins, hfetch, hop, -⟩, -, -⟩
  cases hfetch.symm.trans h
  exact absurd hop (by decide)

theorem stepped_agrees_nop :
    ∃ m' s', Stepped (nopMachine 0) 2 s' ∧ SameGuest m' s' ∧ m'.reg Reg.pc = 8 := by
  obtain ⟨m₁, hagain, hfetch, m₂, hm₂, hpc⟩ : ∃ m₁, Again (nopMachine 0) () m₁ ∧
      m₁.Fetches 0x13 ∧ ∃ m₂, vcoreExecute env m₁ = .ok m₂ ∧ (raise m₂).reg Reg.pc = 8 :=
    ⟨_, rfl, by decide +kernel, _, rfl, by decide +kernel⟩
  have hquiet : Quiet (nopMachine 0) () := by
    refine ⟨?_, nop_not_selfInits (by decide +kernel)⟩
    rintro m₁ hm₁ ⟨-, -, hen⟩
    cases hm₁
    exact absurd hen (by decide +kernel)
  obtain ⟨⟨s', hs'⟩, hsame⟩ := stepped_agrees (Lts.Run.one hagain) (.after hm₂ rfl)
    (by rw [Lts.every_cons]; exact ⟨hquiet, Lts.every_nil⟩) (nop_not_selfInits hfetch)
  exact ⟨raise m₂, s', hs', hsame s' hs', hpc⟩

/-- A pending software interrupt: the run goes on at the handler, the steps do not. -/
theorem stepping_misses_interrupt :
    ∃ m₁ m' s', Again (nopMachine 2) () m₁ ∧ LastIteration m₁ m' ∧ Stepped (nopMachine 2) 2 s' ∧
      (m'.reg Reg.pc = 0x104 ∧ m'.reg Reg.sepc = 4) ∧ s'.reg Reg.pc = 8 ∧ s'.reg Reg.sepc = 0 ∧
      ¬ SameGuest m' s' := by
  obtain ⟨m₁, hagain, m₂, hm₂, hpc⟩ : ∃ m₁, Again (nopMachine 2) () m₁ ∧
      ∃ m₂, vcoreExecute env m₁ = .ok m₂ ∧
        (raise m₂).reg Reg.pc = 0x104 ∧ (raise m₂).reg Reg.sepc = 4 :=
    ⟨_, rfl, _, rfl, by decide +kernel⟩
  obtain ⟨s₁, s₂, hs₁, hs₂, hpc'⟩ : ∃ s₁ s₂,
      vcoreIteration env (raise (nopMachine 2)) = .ok (.returned s₁) ∧
      vcoreIteration env (raise s₁) = .ok (.returned s₂) ∧
        s₂.reg Reg.pc = 8 ∧ s₂.reg Reg.sepc = 0 :=
    ⟨_, _, rfl, rfl, by decide +kernel⟩
  refine ⟨m₁, raise m₂, s₂, hagain, .after hm₂ rfl, ?_, hpc, hpc'.1, hpc'.2, fun h => ?_⟩
  · exact .call (.call .none (.returned hs₁)) (.returned hs₂)
  · have hreg := h.reg Reg.pc
    rw [hpc.1, hpc'.1] at hreg
    exact absurd hreg (by decide)

end SwitchV32.Supervisor
