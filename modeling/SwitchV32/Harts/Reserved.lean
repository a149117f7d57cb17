import SwitchV32.Supervisor.Frame
import SwitchV32.Harts.System

/-!
# What moves a reservation

`ll_sc_flag` and `reserved` are written by the hart's own `LR` and `SC`. All
else either leaves both alone or, when a hart is started over, clears the flag.
-/

namespace SwitchV32

-- ---------------------------------------------------------------------------
-- Reservations that are kept
-- ---------------------------------------------------------------------------

/-- The flag is not set and, while it is up, the value is not moved. -/
def VCore.KeepsLr (core core' : VCore) : Prop :=
  core'.llScFlag = true → core.llScFlag = true ∧ core'.reserved = core.reserved

theorem VCore.KeepsLr.refl (core : VCore) : core.KeepsLr core := fun h => ⟨h, rfl⟩

theorem VCore.KeepsLr.trans {core core' core'' : VCore} (h : core.KeepsLr core')
    (h' : core'.KeepsLr core'') : core.KeepsLr core'' := fun hf =>
  have ⟨hf', hr'⟩ := h' hf
  have ⟨hf, hr⟩ := h hf'
  ⟨hf, hr'.trans hr⟩

theorem VCore.KeepsLr.of_clear {core core' : VCore} (h : core'.llScFlag = false) :
    core.KeepsLr core' := fun h' => nomatch h.symm.trans h'

structure Machine.KeepsLr (m m' : Sv32) : Prop where
  core : m.core.KeepsLr m'.core
  others : ∀ j, j ≠ m.host.hart → (m.host.cthreads j).core.KeepsLr (m'.host.cthreads j).core
  hart : m'.host.hart = m.host.hart

namespace Machine.KeepsLr

variable {m m' m'' : Sv32}

theorem refl (m : Sv32) : m.KeepsLr m := ⟨.refl _, fun _ _ => .refl _, rfl⟩

theorem trans (h : m.KeepsLr m') (h' : m'.KeepsLr m'') : m.KeepsLr m'' where
  core := h.core.trans h'.core
  others j hj := (h.others j hj).trans (h'.others j (by rwa [h.hart]))
  hart := h'.hart.trans h.hart

theorem setReg (h : m.KeepsLr m') (r v) : m.KeepsLr (m'.setReg r v) := ⟨h.core, h.others, h.hart⟩

theorem addPc (h : m.KeepsLr m') (inc) : m.KeepsLr (m'.addPc inc) := h.setReg _ _

theorem frame (m : Sv32) : Machine.Frame m.KeepsLr where
  setReg r v h := h.setReg r v
  setVmem _ h := ⟨h.core, h.others, h.hart⟩
  setMode _ h := ⟨h.core, h.others, h.hart⟩

theorem onCthread (h : m.KeepsLr m') (i) {f : Cthread → Cthread}
    (hf : ∀ ct : Cthread, ct.core.KeepsLr (f ct).core) :
    Ensures (m'.onCthread i f) m.KeepsLr := by
  refine .ite (fun _ => .pure (h.trans ?_)) fun _ => .error
  refine ⟨?_, fun j hj => ?_, rfl⟩
  · simp only [Machine.putCthread]
    split
    · rename_i hi
      have hct : (m'.cthread i).core = m'.core := by rw [Machine.cthread, if_pos hi]
      rw [← hct]
      exact hf _
    · exact .refl _
  · simp only [Machine.putCthread]
    by_cases hji : j = i
    · subst hji
      have hct : m'.cthread j = m'.host.cthreads j := if_neg hj
      rw [Function.update_self, ← hct]
      exact hf _
    · rw [Function.update_of_ne hji]
      exact .refl _

end Machine.KeepsLr

theorem cthreadSignalHsm_keeps (signal : HsmSignal) (ct : Cthread) :
    ct.core.KeepsLr (cthreadSignalHsm signal ct).core := by
  rcases cthreadSignalHsm_cases signal ct with h | ⟨-, -, h⟩ | ⟨-, h⟩ <;> rw [h] <;> exact .refl _

theorem cthreadSignalHalt_keeps (ct : Cthread) : ct.core.KeepsLr (cthreadSignalHalt ct).core := by
  rcases cthreadSignalHalt_cases ct with ⟨-, h⟩ | ⟨-, -, h⟩ <;> rw [h] <;> exact .refl _

-- ---------------------------------------------------------------------------
-- Instructions
-- ---------------------------------------------------------------------------

section
variable {m : Sv32}

theorem dispatchTrap_keeps (m : Sv32) (code v) :
    Ensures (Supervisor.dispatchTrap m code v) m.KeepsLr :=
  Supervisor.dispatchTrap_frame (Machine.KeepsLr.frame m) (.refl m) code v

theorem env_dispatchTrap_keeps (code v) :
    Ensures (Supervisor.env.dispatchTrap m code v) m.KeepsLr := dispatchTrap_keeps m code v

theorem vcoreInitAt_keeps (i init) : Ensures (Supervisor.Machine.vcoreInitAt m i init) m.KeepsLr :=
  (Machine.KeepsLr.refl m).onCthread i fun _ => .of_clear rfl

theorem threadsMgrHaltCores_keeps : Ensures (threadsMgrHaltCores m) m.KeepsLr :=
  .foldlM (fun _ i h => h.onCthread i cthreadSignalHalt_keeps) _ (.refl m)

theorem hsmExt_keeps : Ensures (Supervisor.hsmExt m) m.KeepsLr := by
  have hdone (m' : Sv32) (h : m.KeepsLr m') (r v) :
      Ensures (.ok (m'.setReg r v) : Except Stop Sv32) m.KeepsLr := .pure (h.setReg r v)
  have hset := hdone m (.refl m)
  unfold Supervisor.hsmExt
  split
  · refine .ite (fun _ => hset _ _) fun _ => .ite (fun _ => hset _ _) fun _ => ?_
    refine .ite (fun _ => hset _ _) fun _ => ?_
    refine .bind (vcoreInitAt_keeps _ _) fun m' h => ?_
    exact .bind (h.onCthread _ (cthreadSignalHsm_keeps .start)) fun m'' h => hdone m'' h _ _
  · refine .bind ((Machine.KeepsLr.refl m).onCthread _ (cthreadSignalHsm_keeps .stop)) ?_
    exact fun m' h => hdone m' h _ _
  · refine .ite (fun _ => hset _ _) fun _ => ?_
    exact .pure (((Machine.KeepsLr.refl m).setReg _ _).setReg _ _)
  · refine .ite (fun _ => hset _ _) fun _ => .ite (fun _ => ?_) fun _ =>
      .ite (fun _ => ?_) fun _ => ?_
    · refine .bind ((Machine.KeepsLr.refl m).onCthread _ (cthreadSignalHsm_keeps .suspend)) ?_
      exact fun m' h => hdone m' h _ _
    · exact .bind (vcoreInitAt_keeps _ _) fun m' h => hdone m' h _ _
    · exact hset _ _
  · exact hset _ _

theorem emuSbiCall_keeps : Ensures (Supervisor.emuSbiCall m) m.KeepsLr :=
  Supervisor.emuSbiCall_frame (Machine.KeepsLr.frame m) (.refl m) fun _ => hsmExt_keeps

theorem vcoreSysType_keeps (ins) :
    Ensures (Supervisor.vcoreSysType Supervisor.dispatchTrap m ins) m.KeepsLr :=
  Supervisor.vcoreSysType_frame (Machine.KeepsLr.frame m) (.refl m) ins
    (fun _ _ _ => emuSbiCall_keeps) threadsMgrHaltCores_keeps

structure Env.KeepsLr (env : Env Platform) : Prop where
  dispatchTrap : ∀ m code v, Ensures (env.dispatchTrap m code v) m.KeepsLr
  vcoreSysType : ∀ m ins, Ensures (env.vcoreSysType m ins) m.KeepsLr
  checkInterrupts : ∀ m, Ensures (env.checkInterrupts m) m.KeepsLr

theorem vcoreDispatch_keeps {env : Env Platform} (henv : env.KeepsLr) (ins)
    (hop : Ins.opcodeType ins ≠ OpcodeType.aType) :
    Ensures (vcoreDispatch env m ins) m.KeepsLr :=
  vcoreDispatch_frame (Machine.KeepsLr.frame m) (.refl m) (henv.dispatchTrap m) ins
    (fun _ => henv.vcoreSysType m ins) hop

theorem checkInterrupts_keeps :
    Ensures (Supervisor.checkInterrupts Supervisor.dispatchTrap m) m.KeepsLr :=
  Supervisor.checkInterrupts_frame (Machine.KeepsLr.frame m) (.refl m)

theorem Supervisor.env_keeps : Supervisor.env.KeepsLr where
  dispatchTrap := dispatchTrap_keeps
  vcoreSysType _ ins := vcoreSysType_keeps ins
  checkInterrupts _ := checkInterrupts_keeps

theorem User.dispatchTrap_keeps (r : SyscallResult) (m code v) :
    Ensures (User.dispatchTrap (User.emuSystemCall r) m code v) m.KeepsLr := by
  unfold User.dispatchTrap
  split
  · exact .error
  · exact threadsMgrHaltCores_keeps
  · exact .pure ⟨.refl _, fun _ _ => .refl _, rfl⟩
  · exact .pure (.refl m)
  · exact .pure (.refl m)
  · exact .pure (.refl m)
  · exact .error

theorem User.env_keeps (r : SyscallResult) : (User.env (User.emuSystemCall r)).KeepsLr where
  dispatchTrap := User.dispatchTrap_keeps r
  vcoreSysType m ins := by
    have htrap := User.dispatchTrap_keeps r m
    simp only [User.env, User.vcoreSysType]
    refine .ite (fun _ => .bind (htrap _ _) fun m' h => .pure (h.addPc 4)) fun _ => ?_
    exact .ite (fun _ => htrap _ _) fun _ => htrap _ _
  checkInterrupts m := .pure (.refl m)

theorem Build.env_keeps (build : Build) (r : SyscallResult) :
    (build.env (User.emuSystemCall r)).KeepsLr := by
  cases build with
  | user => exact User.env_keeps r
  | supervisor => exact Supervisor.env_keeps

end

end SwitchV32
