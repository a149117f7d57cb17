import SwitchV32.Hsm.OwnRecord
import SwitchV32.Supervisor.CsrStep

/-!
# Properties of every core

A property of each core of the table, which may differ from core to core. A
hart's own instructions, traps and interrupts change its own registers, and the
cores of other harts only as `hart_start`, `hart_suspend` and the signals do:
they are initialised, or their exit flag is set or cleared.
-/

namespace SwitchV32

theorem VCore.regs_setReg_self (core : VCore) (r : Reg) (v : U32) :
    (core.setReg r v).regs r = v := Function.update_self ..

theorem VCore.regs_setReg_ne (core : VCore) {r r' : Reg} (v : U32) (h : r' ≠ r) :
    (core.setReg r v).regs r' = core.regs r' := Function.update_of_ne h ..

/-- Core `k` may write the registers in `R` and enter the modes in `M`. -/
structure CoreFrame (R : Reg → Prop) (M : ExecutionMode → Prop) (k : Nat)
    (P : Nat → VCore → Prop) : Prop where
  setReg : ∀ {core r} (v), R r → P k core → P k (core.setReg r v)
  setMode : ∀ {core mode}, M mode → P k core → P k { core with mode }
  setLr : ∀ {core} (reserved llScFlag), P k core → P k { core with reserved, llScFlag }
  setExit : ∀ {j core} (atomicExitLoop), P j core → P j { core with atomicExitLoop }
  init : ∀ j init, P j (vcoreInit (some init))

structure AllCores (P : Nat → VCore → Prop) (cores k : Nat) (m : Sv32) : Prop where
  cores_eq : m.host.ctx.cores = cores
  hart : m.host.hart = k
  hart_lt : k < cores
  each : ∀ j < cores, P j (m.cthread j).core

namespace AllCores

variable {R : Reg → Prop} {M : ExecutionMode → Prop} {P : Nat → VCore → Prop} {cores k : Nat}
variable {m : Sv32}

theorem core (h : AllCores P cores k m) : P k m.core := by
  have hk := h.each k h.hart_lt
  rwa [Machine.cthread, if_pos h.hart.symm] at hk

theorem setCore (h : AllCores P cores k m) {core : VCore} (hcore : P k core) (vmem : Mem) :
    AllCores P cores k { m with core, vmem } := by
  refine ⟨h.cores_eq, h.hart, h.hart_lt, fun j hj => ?_⟩
  have hP := h.each j hj
  simp only [Machine.cthread] at hP ⊢
  split
  · rename_i heq
    rw [heq, h.hart]
    exact hcore
  · rename_i hne
    rwa [if_neg hne] at hP

theorem setReg (h : AllCores P cores k m) {r : Reg} {v : U32} (hcore : P k (m.core.setReg r v)) :
    AllCores P cores k (m.setReg r v) := h.setCore hcore m.vmem

theorem frame (hP : CoreFrame R M k P) (cores : Nat) :
    Machine.FrameWith R M (AllCores P cores k) where
  setReg v hr h := h.setReg (hP.setReg v hr h.core)
  setVmem vmem h := h.setCore h.core vmem
  setMode hmode h := h.setCore (hP.setMode hmode h.core) _

theorem cthread_putCthread (m : Sv32) (i j : Nat) (ct : Cthread) :
    (m.putCthread i ct).cthread j = if j = i then ct else m.cthread j := by
  by_cases hji : j = i
  · subst hji
    by_cases hhart : j = m.host.hart <;> simp [Machine.cthread, Machine.putCthread, hhart]
  · by_cases hhart : j = m.host.hart
    · have hne : i ≠ m.host.hart := by
        rw [← hhart]
        exact Ne.symm hji
      have hne' : m.host.hart ≠ i := Ne.symm hne
      simp [Machine.cthread, Machine.putCthread, hne, hne', hhart]
    · simp [Machine.cthread, Machine.putCthread, hhart, hji]

theorem onCthread (h : AllCores P cores k m) (i : Nat) {f : Cthread → Cthread}
    (hf : ∀ ct : Cthread, P i ct.core → P i (f ct).core) :
    Ensures (m.onCthread i f) (AllCores P cores k) := by
  refine .ite (fun hi => .pure ?_) fun _ => .error
  refine ⟨h.cores_eq, h.hart, h.hart_lt, fun j hj => ?_⟩
  rw [cthread_putCthread]
  split
  · rename_i hji
    subst hji
    exact hf _ (h.each j hj)
  · exact h.each j hj

-- ---------------------------------------------------------------------------
-- Calls into the table
-- ---------------------------------------------------------------------------

theorem signalHsm (hP : CoreFrame R M k P) {i : Nat} (signal : HsmSignal) (ct : Cthread)
    (hct : P i ct.core) : P i (cthreadSignalHsm signal ct).core := by
  rcases cthreadSignalHsm_cases signal ct with h | ⟨-, -, h⟩ | ⟨-, h⟩ <;> rw [h]
  · exact hct
  · exact hct
  · exact hP.setExit _ hct

theorem signalHalt (hP : CoreFrame R M k P) {i : Nat} (ct : Cthread) (hct : P i ct.core) :
    P i (cthreadSignalHalt ct).core := by
  rcases cthreadSignalHalt_cases ct with ⟨-, h⟩ | ⟨-, -, h⟩ <;> rw [h]
  · exact hct
  · exact hP.setExit _ hct

theorem vcoreInitAt (hP : CoreFrame R M k P) (h : AllCores P cores k m) (i : Nat)
    (init : VCoreInit) :
    Ensures (Supervisor.Machine.vcoreInitAt m i init) (AllCores P cores k) :=
  h.onCthread i fun _ _ => hP.init i init

theorem haltCores (hP : CoreFrame R M k P) (h : AllCores P cores k m) :
    Ensures (threadsMgrHaltCores m) (AllCores P cores k) :=
  .foldlM (fun _ i h => h.onCthread i (signalHalt hP)) _ h

theorem hsmExt (hP : CoreFrame R M k P) (hR : ∀ r : Reg, r.General → R r)
    (h : AllCores P cores k m) : Ensures (Supervisor.hsmExt m) (AllCores P cores k) := by
  have ha0 {m : Sv32} (v) (h : AllCores P cores k m) : AllCores P cores k (m.setReg Reg.a0 v) :=
    (frame hP cores).setReg v (hR _ (by decide)) h
  intro m' hm'
  cases Supervisor.hsmExt_done hm' with
  | refused => exact ha0 _ h
  | status => exact ha0 _ ((frame hP cores).setReg _ (hR _ (by decide)) h)
  | start init _ _ _ h₁ h₂ =>
    exact ha0 _ ((vcoreInitAt hP h _ init _ h₁).onCthread _ (signalHsm hP .start) _ h₂)
  | signal i signal _ _ h₁ => exact ha0 _ (h.onCthread i (signalHsm hP signal) _ h₁)
  | init init _ _ _ h₁ => exact ha0 _ (vcoreInitAt hP h _ init _ h₁)

-- ---------------------------------------------------------------------------
-- Instructions and interrupts
-- ---------------------------------------------------------------------------

theorem begun {ins : U32} {r : Sv32 × Phase} (hP : CoreFrame R M k P)
    (hR : ∀ r, ¬ Supervisor.Warl r → R r) (hM : M .supervisor) (hm : AllCores P cores k m)
    (hcsr : Ins.opcodeType ins = OpcodeType.sysType → Ins.func ins ≠ 0 →
      m.core.mode = .supervisor →
      Supervisor.getCsrPrivilege (Ins.iImm ins) = Supervisor.csrSupervisorLevel →
      ∀ r, Supervisor.findCsr (Ins.iImm ins) = some r →
        Ensures (Supervisor.csrAccess Supervisor.dispatchTrap m ins (some r)) (AllCores P cores k))
    (h : Begun Supervisor.env m ins r) : AllCores P cores k r.1 := by
  have hframe := frame hP cores
  have hgeneral (r : Reg) (hr : r.General) : R r := by
    refine hR r ?_
    rintro (rfl | rfl | rfl) <;> exact absurd hr (by decide)
  have htrap (code v) :
      Ensures (Supervisor.env.dispatchTrap m code v) (AllCores P cores k) :=
    Supervisor.dispatchTrap_frameWith hframe hR hM hm code v
  cases h with
  | lr => exact hm.setCore (hP.setLr _ _ hm.core) m.vmem
  | sc => exact hm.setCore (hP.setLr _ _ hm.core) m.vmem
  | scRefused => exact hframe.setReg _ (hgeneral _ (Ins.general_rdReg ins)) hm
  | amo => exact hm
  | trap _ _ h => exact hframe.setReg _ (hgeneral _ Reg.general_pc) (htrap _ _ _ h)
  | other hop h =>
    refine vcoreDispatch_frameWith hframe hgeneral hm htrap ins (fun hsys => ?_) hop _ h
    refine Supervisor.vcoreSysType_frameWith hframe hR hM hm ins (fun _ _ _ => ?_)
      (haltCores hP hm) (hcsr hsys) ?_
    · exact Supervisor.emuSbiCall_frameWith hframe hgeneral hm fun _ => hsmExt hP hgeneral hm
    · intro _ _ m' h
      rwa [Supervisor.csrAccess_none h]

theorem accessed {p : Phase} {r : Sv32 × Phase} (hP : CoreFrame R M k P)
    (hR : ∀ r : Reg, r.General → R r) (hm : AllCores P cores k m) (h : p.Accessed m r) :
    AllCores P cores k r.1 := by
  have hframe := frame hP cores
  have hfinish (vmem ins v) : AllCores P cores k (m.finish vmem ins v) :=
    hframe.setReg _ (hR _ Reg.general_pc) (hframe.setReg _ (hR _ (Ins.general_rdReg ins))
      (hframe.setVmem vmem hm))
  cases h with
  | lr =>
    exact hframe.setReg _ (hR _ Reg.general_pc)
      (hm.setCore (hP.setLr _ m.core.llScFlag hm.core) m.vmem)
  | scStored | amoDone | casStored => exact hfinish _ _ _
  | scRetry | amoRead | casRetry => exact hm

theorem interrupts (hP : CoreFrame R M k P) (hR : ∀ r, ¬ Supervisor.Warl r → R r)
    (hM : M .supervisor) (hm : AllCores P cores k m) :
    Ensures (Supervisor.env.checkInterrupts m) (AllCores P cores k) :=
  Supervisor.checkInterrupts_frameWith (frame hP cores) hR hM hm

end AllCores

-- ---------------------------------------------------------------------------
-- Steps
-- ---------------------------------------------------------------------------

namespace Harts

variable {R : Reg → Prop} {M : ExecutionMode → Prop} {P : Nat → VCore → Prop}
variable {s s' : Harts} {i : Nat} {l : HartLabel}

def All (P : Nat → VCore → Prop) (s : Harts) : Prop := ∀ j < s.ctx.cores, P j (s.cthreads j).core

theorem All.machine (h : s.All P) (hi : i < s.ctx.cores) :
    AllCores P s.ctx.cores i (s.machine i) := by
  refine ⟨rfl, rfl, hi, fun j hj => ?_⟩
  have hP := h j hj
  rw [Machine.cthread]
  split
  · rename_i hji
    rw [hji] at hP
    rw [hji]
    exact hP
  · exact hP

theorem All.put {r : Sv32 × Phase} (h : AllCores P s.ctx.cores i r.1) : (s.put i r).All P := by
  intro j hj
  by_cases hji : j = i
  · rw [hji, put_core_self]
    exact h.core
  · have hP := h.each j hj
    rw [Machine.cthread, if_neg (by rw [h.hart]; exact hji)] at hP
    rwa [put_core_ne s r hji]

theorem All.step (hP : ∀ k, CoreFrame R M k P) (hR : ∀ r, ¬ Supervisor.Warl r → R r)
    (hM : M .supervisor) (h : s.All P) (hs : Step s l s')
    (hcsr : ∀ i ins, l = .begin i → (s.machine i).Fetches ins →
      Ins.opcodeType ins = OpcodeType.sysType → Ins.func ins ≠ 0 →
      (s.cthreads i).core.mode = .supervisor →
      Supervisor.getCsrPrivilege (Ins.iImm ins) = Supervisor.csrSupervisorLevel →
      ∀ r, Supervisor.findCsr (Ins.iImm ins) = some r →
        Ensures (Supervisor.csrAccess Supervisor.dispatchTrap (s.caller i) ins (some r))
          (AllCores P s.ctx.cores i)) : s'.All P := by
  have hgeneral (r : Reg) (hr : r.General) : R r := by
    refine hR r ?_
    rintro (rfl | rfl | rfl) <;> exact absurd hr (by decide)
  cases l with
  | begin i =>
    have hi := step_hart_lt hs rfl
    obtain ⟨-, ins, r, hfetch, hbegun, rfl⟩ := step_begin hs
    have hzero := (AllCores.frame (hP i) _).setReg 0 (hgeneral Reg.zero (by decide)) (h.machine hi)
    exact .put (AllCores.begun (hP i) hR hM hzero (hcsr i ins rfl hfetch) hbegun)
  | access i =>
    have hi := step_hart_lt hs rfl
    obtain ⟨r, haccess, rfl⟩ := step_access hs
    exact .put (AllCores.accessed (hP i) hgeneral (h.machine hi) haccess)
  | interrupts i =>
    have hi := step_hart_lt hs rfl
    obtain ⟨-, m, hm, rfl⟩ := step_interrupts hs
    exact .put (r := (m, .idle)) (AllCores.interrupts (hP i) hR hM (h.machine hi) m hm)
  | record =>
    have hctx := step_ctx hs
    intro j hj
    rw [hctx] at hj
    rw [(step_record hs).2.2 j]
    exact (hP j).setExit _ (h j hj)

theorem All.start {core0Init : VCoreInit} (hP : ∀ j init, P j (vcoreInit (some init)))
    (h : MainStart core0Init s) : s.All P := by
  intro j _
  have hj := h.table j
  unfold threadsMgrInit at hj
  split at hj <;>
    · rw [← Except.ok.inj hj]
      exact hP j _

end Harts

end SwitchV32
