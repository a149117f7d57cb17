import SwitchV32.Agree
import SwitchV32.Supervisor.TrapEntry
import SwitchV32.Cpu.Access

/-!
# Instructions and the exit flag

No instruction looks at the exit flag of its core. What one iteration does is
the same with the flag up, and it stays up, unless the instruction is an SBI
call by which the hart initialises its own record.
-/

namespace SwitchV32

/-- `s` is `m` with the exit flag up. The record of the running core has an outdated `core`, of
which nothing is said. -/
structure Machine.FlagUp (m s : Sv32) : Prop where
  core : s.core = { m.core with atomicExitLoop := true }
  vmem : s.vmem = m.vmem
  ctx : s.host.ctx = m.host.ctx
  hart : s.host.hart = m.host.hart
  others : ∀ j, j ≠ m.host.hart → s.host.cthreads j = m.host.cthreads j
  own : ∀ core, { s.host.cthreads m.host.hart with core } =
    { m.host.cthreads m.host.hart with core }

namespace Machine.FlagUp

variable {m s : Sv32}

theorem reg (h : m.FlagUp s) (r : Reg) : s.reg r = m.reg r := by
  rw [Machine.reg, h.core]
  rfl

theorem setReg (h : m.FlagUp s) (r : Reg) (v : U32) : (m.setReg r v).FlagUp (s.setReg r v) where
  core := by
    simp only [Machine.setReg, h.core]
    rfl
  vmem := h.vmem
  ctx := h.ctx
  hart := h.hart
  others := h.others
  own := h.own

theorem addPc (h : m.FlagUp s) (inc : U32) : (m.addPc inc).FlagUp (s.addPc inc) := by
  rw [Machine.addPc, Machine.addPc, h.reg]
  exact h.setReg _ _

theorem setVmem (h : m.FlagUp s) (vmem : Mem) :
    Machine.FlagUp { m with vmem } { s with vmem } :=
  ⟨h.core, rfl, h.ctx, h.hart, h.others, h.own⟩

theorem setMode (h : m.FlagUp s) (mode : ExecutionMode) :
    Machine.FlagUp { m with core := { m.core with mode } }
      { s with core := { s.core with mode } } :=
  ⟨by simp only [h.core], h.vmem, h.ctx, h.hart, h.others, h.own⟩

theorem cthread_self (h : m.FlagUp s) :
    s.cthread m.host.hart = (m.cthread m.host.hart).setExit true := by
  rw [Machine.cthread, Machine.cthread, if_pos h.hart.symm, if_pos rfl, h.own, h.core]
  rfl

theorem cthread_ne (h : m.FlagUp s) (hi : i ≠ m.host.hart) : s.cthread i = m.cthread i := by
  rw [Machine.cthread, Machine.cthread, if_neg (by rwa [h.hart]), if_neg hi, h.others i hi]

theorem putCthread_self (h : m.FlagUp s) (ct : Cthread) :
    (m.putCthread m.host.hart ct).FlagUp (s.putCthread m.host.hart (ct.setExit true)) where
  core := by simp only [Machine.putCthread, h.hart, ite_true, Cthread.setExit]
  vmem := h.vmem
  ctx := h.ctx
  hart := h.hart
  others j hj := by
    simp only [Machine.putCthread] at hj ⊢
    rw [Function.update_of_ne hj, Function.update_of_ne hj]
    exact h.others j hj
  own core := by simp only [Machine.putCthread, Function.update_self, Cthread.setExit]

theorem putCthread_ne (h : m.FlagUp s) (hi : i ≠ m.host.hart) (ct : Cthread) :
    (m.putCthread i ct).FlagUp (s.putCthread i ct) where
  core := by
    simp only [Machine.putCthread, h.hart, if_neg hi]
    exact h.core
  vmem := h.vmem
  ctx := h.ctx
  hart := h.hart
  others j hj := by
    simp only [Machine.putCthread, Function.update_apply] at hj ⊢
    split
    · rfl
    · exact h.others j hj
  own core := by
    simp only [Machine.putCthread, Function.update_of_ne hi.symm]
    exact h.own core

theorem onCthread (h : m.FlagUp s) (i : Nat) {f : Cthread → Cthread}
    (hf : i = m.host.hart → ∀ ct : Cthread, f (ct.setExit true) = (f ct).setExit true) :
    Agree Machine.FlagUp (m.onCthread i f) (s.onCthread i f) := by
  unfold Machine.onCthread
  rw [h.ctx]
  refine .ite (fun _ => .ok ?_) fun _ => .error _
  by_cases hi : i = m.host.hart
  · subst hi
    rw [h.cthread_self, hf rfl]
    exact h.putCthread_self _
  · rw [h.cthread_ne hi]
    exact h.putCthread_ne hi _

end Machine.FlagUp

theorem cthreadSignalHsm_setExit {signal : HsmSignal} (h : signal ≠ .start) (ct : Cthread) :
    cthreadSignalHsm signal (ct.setExit true) = (cthreadSignalHsm signal ct).setExit true := by
  have hexit : (signal != HsmSignal.start) = true := bne_iff_ne.mpr h
  cases hs : ct.state.debugging && signal.save ct.oldSignal <;>
    cases hl : signal.leave ct.state <;>
      simp only [cthreadSignalHsm, Cthread.setExit, hs, hl, hexit, ite_true, Bool.false_eq_true,
        ite_false]

theorem cthreadSignalHalt_setExit (ct : Cthread) :
    cthreadSignalHalt (ct.setExit true) = (cthreadSignalHalt ct).setExit true := by
  by_cases h : ct.state = .halted ∨ ct.state = .haltPending
  · simp only [cthreadSignalHalt, Cthread.setExit, h, ite_true]
  · simp only [cthreadSignalHalt, Cthread.setExit, h, ite_false]

-- ---------------------------------------------------------------------------
-- Traps and SBI calls
-- ---------------------------------------------------------------------------

namespace Supervisor

variable {m s : Sv32}

theorem savePrivilege_flagUp (h : m.FlagUp s) :
    (savePrivilege m).FlagUp (savePrivilege s) := by
  rw [savePrivilege_eq, savePrivilege_eq]
  exact h.setMode _

theorem dispatchTrap_flagUp (h : m.FlagUp s) (code v) :
    Agree Machine.FlagUp (dispatchTrap m code v) (dispatchTrap s code v) := by
  have hent : (enter m code).FlagUp (enter s code) := by
    rw [enter, enter, h.reg]
    exact (savePrivilege_flagUp (h.setReg _ _)).setReg _ _
  rw [dispatchTrap_eq, dispatchTrap_eq, h.reg]
  refine .ite (fun _ => .ok ((hent.setReg _ _).setReg _ _)) fun _ => ?_
  cases interruptTarget (m.reg Reg.stvec) code with
  | error e => exact .error e
  | ok target => exact .ok (hent.setReg _ _)

theorem baseExt_flagUp (h : m.FlagUp s) : (baseExt m).FlagUp (baseExt s) := by
  unfold baseExt
  rw [h.reg, h.reg]
  split
  all_goals first
    | exact (h.setReg _ _).setReg _ _
    | exact h.setReg _ _

structure SelfInit (m : Sv32) : Prop where
  hsm : m.reg Reg.a7 = hsmEid
  hart : (m.reg Reg.a0).toNat = m.host.hart
  call : m.reg Reg.a6 = 0 ∧ ¬ (cthreadGetHsmState (m.cthread m.host.hart) = .startPending ∨
      cthreadGetHsmState (m.cthread m.host.hart) = .started) ∨
    m.reg Reg.a6 = 3 ∧ m.reg Reg.a0 = hsmNonRetentiveSuspend
  startAddr : (m.reg Reg.a1).toNat < m.vmem.size

theorem hsmState_flagUp (h : m.FlagUp s) (i : Nat) :
    cthreadGetHsmState (s.cthread i) = cthreadGetHsmState (m.cthread i) := by
  by_cases hi : i = m.host.hart
  · subst hi
    rw [h.cthread_self]
    rfl
  · rw [h.cthread_ne hi]

theorem vcoreInitAt_flagUp (h : m.FlagUp s) {i : Nat} (hi : i ≠ m.host.hart) (init) :
    Agree (fun m₁ s₁ => m₁.FlagUp s₁ ∧ m₁.host.hart = m.host.hart) (Machine.vcoreInitAt m i init)
      (Machine.vcoreInitAt s i init) := by
  unfold Machine.vcoreInitAt Machine.onCthread
  rw [h.ctx]
  refine .ite (fun _ => .ok ⟨?_, rfl⟩) fun _ => .error _
  rw [h.cthread_ne hi]
  exact h.putCthread_ne hi _

theorem hsmExt_flagUp (h : m.FlagUp s) (hsm : m.reg Reg.a7 = hsmEid) (hself : ¬ SelfInit m) :
    Agree Machine.FlagUp (hsmExt m) (hsmExt s) := by
  have hset (m' s' : Sv32) (h : m'.FlagUp s') (r v) :
      Agree Machine.FlagUp (.ok (m'.setReg r v) : Except Stop Sv32) (.ok (s'.setReg r v)) :=
    .ok (h.setReg r v)
  unfold hsmExt
  simp only [h.reg, h.ctx, h.vmem, hsmState_flagUp h]
  have hidx : s.core.coreIdx = m.core.coreIdx := by rw [h.core]
  rw [hidx]
  split
  · rename_i ha6
    refine .ite (fun _ => hset _ _ h _ _) fun hid => .ite (fun _ => hset _ _ h _ _) fun hsize => ?_
    refine .ite (fun _ => hset _ _ h _ _) fun hstate => ?_
    have hne : (m.reg Reg.a0).toNat ≠ m.host.hart := fun heq =>
      hself ⟨hsm, heq, .inl ⟨ha6, by rwa [heq] at hstate⟩, Nat.lt_of_not_le hsize⟩
    refine .bind (vcoreInitAt_flagUp h hne _) fun m₁ s₁ ⟨h₁, hhart⟩ => ?_
    refine .bind (h₁.onCthread _ fun heq => absurd (heq.trans hhart) hne) fun m₂ s₂ h₂ => ?_
    exact hset _ _ h₂ _ _
  · refine .bind (h.onCthread _ fun _ => cthreadSignalHsm_setExit (by decide)) ?_
    exact fun m₁ s₁ h₁ => hset _ _ h₁ _ _
  · refine .ite (fun _ => hset _ _ h _ _) fun _ => ?_
    exact .ok ((h.setReg _ _).setReg _ _)
  · rename_i ha6
    refine .ite (fun _ => hset _ _ h _ _) fun hsize => .ite (fun _ => ?_) fun _ => ?_
    · refine .bind (h.onCthread _ fun _ => cthreadSignalHsm_setExit (by decide)) ?_
      exact fun m₁ s₁ h₁ => hset _ _ h₁ _ _
    · refine .ite (fun htype => ?_) fun _ => hset _ _ h _ _
      have hne : (m.reg Reg.a0).toNat ≠ m.host.hart := fun heq =>
        hself ⟨hsm, heq, .inr ⟨ha6, htype⟩, Nat.lt_of_not_le hsize⟩
      exact .bind (vcoreInitAt_flagUp h hne _) fun m₁ s₁ h₁ => hset _ _ h₁.1 _ _
  · exact hset _ _ h _ _

theorem emuSbiCall_flagUp (h : m.FlagUp s) (hself : ¬ SelfInit m) :
    Agree Machine.FlagUp (emuSbiCall m) (emuSbiCall s) := by
  unfold emuSbiCall
  rw [h.reg]
  split
  · exact .ok (baseExt_flagUp h)
  · exact hsmExt_flagUp h ‹_› hself
  · exact .ok (h.setReg _ _)

theorem threadsMgrHaltCores_flagUp (h : m.FlagUp s) :
    Agree Machine.FlagUp (threadsMgrHaltCores m) (threadsMgrHaltCores s) := by
  unfold threadsMgrHaltCores
  rw [h.ctx]
  exact .foldlM (fun m' s' i h' => h'.onCthread i fun _ => cthreadSignalHalt_setExit) _ h

-- ---------------------------------------------------------------------------
-- Instructions
-- ---------------------------------------------------------------------------

theorem addPc_flagUp (m s : Sv32) (h : m.FlagUp s) :
    Agree Machine.FlagUp (pure (m.addPc 4) : Except Stop Sv32) (pure (s.addPc 4)) :=
  .ok (h.addPc 4)

theorem csrAccess_flagUp (h : m.FlagUp s) (ins csr) :
    Agree Machine.FlagUp (csrAccess dispatchTrap m ins csr) (csrAccess dispatchTrap s ins csr) := by
  have htrap (code v) := dispatchTrap_flagUp h code v
  have hstvec (m₁ s₁ : Sv32) (h₁ : m₁.FlagUp s₁) :
      Agree Machine.FlagUp
        (do
          if Ins.iImm ins = CsrAddr.stvec then
            let r ← derefCsr csr
            if stvecMode (m₁.reg r) ≥ 2#32 then return m₁.setReg r (m₁.reg r &&& ~~~0x3#32)
            else return m₁
          else return m₁)
        (do
          if Ins.iImm ins = CsrAddr.stvec then
            let r ← derefCsr csr
            if stvecMode (s₁.reg r) ≥ 2#32 then return s₁.setReg r (s₁.reg r &&& ~~~0x3#32)
            else return s₁
          else return s₁) := by
    refine .ite (fun _ => .bind_eq fun r => ?_) fun _ => .ok h₁
    rw [h₁.reg]
    exact .ite (fun _ => .ok (h₁.setReg _ _)) fun _ => .ok h₁
  simp only [csrAccess, h.reg]
  refine .ite (fun _ => .ite (fun _ => htrap _ _) fun _ => .ite (fun _ => htrap _ _) fun _ => ?_)
    fun _ => ?_
  all_goals
    split
    · refine .bind_eq fun r => hstvec _ _ ?_
      have h₁ := h.setReg (Ins.rdReg ins) (m.reg r)
      rw [h₁.reg]
      exact h₁.setReg _ _
    · exact hstvec _ _ h

theorem vcoreSysType_flagUp (h : m.FlagUp s) (ins)
    (hself : Ins.func ins = 0 → Ins.iImm ins = 0 → m.core.mode = .supervisor → ¬ SelfInit m) :
    Agree Machine.FlagUp (vcoreSysType dispatchTrap m ins) (vcoreSysType dispatchTrap s ins) := by
  have htrap (code v) := dispatchTrap_flagUp h code v
  have hmode : s.core.mode = m.core.mode := by rw [h.core]
  simp only [vcoreSysType, hmode, h.ctx, h.reg]
  refine .ite (fun hfunc => .ite (fun himm => ?_) fun _ => ?_) fun _ => ?_
  · refine .ite (fun hm => .bind (emuSbiCall_flagUp h (hself hfunc himm hm)) addPc_flagUp)
      fun _ => ?_
    exact .bind (htrap _ _) addPc_flagUp
  · refine .ite (fun _ => ?_) fun _ => htrap _ _
    exact .ite (fun _ => threadsMgrHaltCores_flagUp h) fun _ => htrap _ _
  · refine .ite (fun _ => .ite (fun _ => htrap _ _) fun _ => ?_) fun _ => ?_
    · split
      · exact csrAccess_flagUp h _ _
      · exact htrap _ _
    · exact .ite (fun _ => csrAccess_flagUp h _ _) fun _ => htrap _ _

theorem amo_flagUp (h : m.FlagUp s) (ins op) :
    Agree Machine.FlagUp (m.amo ins op) (s.amo ins op) := by
  unfold Machine.amo
  rw [h.reg, h.reg, h.vmem]
  exact .bind_eq fun r => .ok (((h.setVmem _).setReg _ _).addPc 4)

theorem vcoreAType_flagUp (h : m.FlagUp s) (ins) :
    Agree Machine.FlagUp (vcoreAType env m ins) (vcoreAType env s ins) := by
  have hflag : s.core.llScFlag = m.core.llScFlag := by rw [h.core]
  have hres : s.core.reserved = m.core.reserved := by rw [h.core]
  have htrap : Agree Machine.FlagUp (env.dispatchTrap m .illIns ins)
      (env.dispatchTrap s .illIns ins) := dispatchTrap_flagUp h .illIns ins
  simp only [vcoreAType, h.reg, h.vmem, hflag, hres]
  split
  · refine .bind_eq fun reserved => .ok (.addPc ?_ 4)
    exact ⟨by simp only [h.core], rfl, h.ctx, h.hart, h.others, h.own⟩
  · refine .ite (fun _ => .bind_eq fun vmem => .ok (.addPc (.setReg ?_ _ _) 4)) fun _ => ?_
    · exact ⟨by simp only [h.core], rfl, h.ctx, h.hart, h.others, h.own⟩
    · exact .ok (h.setReg _ _)
  all_goals first
    | exact amo_flagUp h ins _
    | exact .bind htrap addPc_flagUp

theorem vcoreDispatch_flagUp (h : m.FlagUp s) (ins)
    (hself : Ins.opcodeType ins = OpcodeType.sysType → Ins.func ins = 0 → Ins.iImm ins = 0 →
      m.core.mode = .supervisor → ¬ SelfInit m) :
    Agree Machine.FlagUp (vcoreDispatch env m ins) (vcoreDispatch env s ins) := by
  have htrap (code v) : Agree Machine.FlagUp (env.dispatchTrap m code v)
      (env.dispatchTrap s code v) := dispatchTrap_flagUp h code v
  have hpc := addPc_flagUp
  simp only [vcoreDispatch]
  split
  · simp only [vcoreRType, h.reg]
    split
    · exact hpc _ _ (h.setReg _ _)
    · exact .bind (htrap _ _) hpc
  · simp only [vcoreIrType, h.reg]
    split
    · exact hpc _ _ (h.setReg _ _)
    · exact .bind (htrap _ _) hpc
  · simp only [vcoreIlType, h.reg, h.vmem]
    split
    · exact .bind_eq fun v => hpc _ _ (h.setReg _ v)
    · exact .bind (htrap _ _) hpc
  · simp only [vcoreSType, h.reg, h.vmem]
    split
    · exact .bind_eq fun vmem => hpc _ _ (h.setVmem vmem)
    · exact .bind (htrap _ _) hpc
  · simp only [vcoreBType, h.reg]
    split
    · exact .ok (h.addPc _)
    · exact .bind (htrap _ _) hpc
  · simp only [vcoreJType, h.reg]
    exact .ok ((h.setReg _ _).addPc _)
  · simp only [vcoreIjType, h.reg]
    have h₁ := h.setReg (Ins.rdReg ins) (m.reg Reg.pc + 4)
    rw [h₁.reg]
    exact .ok (h₁.setReg _ _)
  · exact .ok ((h.setReg _ _).addPc _)
  · simp only [vcoreAuipcType, h.reg]
    exact .ok ((h.setReg _ _).addPc _)
  · exact vcoreAType_flagUp h ins
  · exact vcoreSysType_flagUp h ins (hself ‹_›)
  · exact htrap _ _

end Supervisor

end SwitchV32
