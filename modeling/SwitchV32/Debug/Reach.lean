import SwitchV32.Debug.System
import SwitchV32.Cthread.StepReturns

/-!
# Reachable states under a debugger

What holds of the cores and of the stub after every run: where the core thread
of a halted core is, which debug thread waits, who makes a call, and that the
cores and breakpoints that the stub is about are there.
-/

namespace SwitchV32

namespace CoreSys

-- ---------------------------------------------------------------------------
-- One core
-- ---------------------------------------------------------------------------

/-- What holds of a core whatever becomes of its registers and its exit flag. -/
structure OutInv (s : CoreSys) : Prop where
  halted : s.ct.state = .halted → s.core = .fsm ∨ s.core = .waiting .halt
  /-- A step in progress is the one reason for another signal. -/
  signal : s.ct.state = .halted → s.debug ≠ .stepStepping → s.ct.signal = .halt
  oldSignal : ∃ mode : HsmSignal, s.ct.oldSignal = mode.toSignal

theorem Init.outInv (h : Init s) : OutInv s where
  halted := h.haltInv.halted
  signal := h.haltInv.signal
  oldSignal := h.stepInv.oldSignal

theorem OutInv.of_state (hne : s.ct.state ≠ .halted)
    (hold : ∃ mode : HsmSignal, s.ct.oldSignal = mode.toSignal) : OutInv s :=
  ⟨fun h => absurd h hne, fun h => absurd h hne, hold⟩

theorem OutInv.withCore (hi : OutInv s) (core : VCore) :
    OutInv { s with ct := { s.ct with core } } :=
  ⟨hi.halted, hi.signal, hi.oldSignal⟩

theorem OutInv.step (hi : OutInv s) (h : Step s l s') : OutInv s' := by
  have hold := h.oldSignal_mode hi.oldSignal
  cases h.outcome with
  | same => exact hi
  | saved => exact ⟨hi.halted, hi.signal, hold⟩
  | taken signal =>
    refine .of_state ?_ hold
    rcases signal.nextState_pending s.ct.state with h | h | h | h <;> simp [h]
  | halted | continued | start | blockStep => exact .of_state (by simp) hold
  | stepped => exact ⟨hi.halted, fun _ hne => absurd rfl hne, hold⟩
  | debugAbort _ hd | stepDone hd =>
    refine ⟨hi.halted, fun h _ => hi.signal h ?_, hold⟩
    simp [hd]
  | stepSeen _ hstate => exact .of_state (by simp [hstate]) hold
  | block hc =>
    -- of the signals that can be waited for, only `HALT_S` is acknowledged as `STATE_HALTED`
    cases hs : s.ct.signal with
    | halt => exact ⟨fun _ => .inr rfl, fun _ _ => hs, hold⟩
    | _ => exact .of_state (by simp [CthreadSignal.toState]) hold
  | unblock signal hc =>
    refine ⟨fun h => .inl ?_, hi.signal, hold⟩
    rcases hi.halted h with h | h <;> cases hc.symm.trans h
    rfl
  | again site hc | exited site hc | locked site hc | hotLoop hc | guest site core hc =>
    refine ⟨fun h => ?_, hi.signal, hold⟩
    rcases hi.halted h with h | h <;> cases hc.symm.trans h

/-- Only the debug thread, with a continue or a step, takes a core out of `STATE_HALTED`. -/
theorem OutInv.keeps_halted (hi : OutInv s) (h : Step s l s') (hstate : s.ct.state = .halted)
    (hd : s.debug ≠ .stepStepping) (hl : l ≠ .continue) : s'.ct.state = .halted := by
  have hsignal := hi.signal hstate hd
  cases h.outcome with
  | taken signal hleave =>
    cases hleave.symm.trans (leave_of_debugging (by rw [hstate]; rfl) signal)
  | halted h1 => exact absurd hstate h1
  | continued => exact absurd rfl hl
  | start _ hs | blockStep _ hs => cases hsignal.symm.trans hs
  | block => simp only [hsignal, CthreadSignal.toState]
  | _ => exact hstate

theorem Step.debug_step (h : Step s .step s') :
    s'.debug = .stepStepping ∨ s'.debug = .aborted := by
  cases h with
  | signalStep => exact .inl rfl
  | stepAbort => exact .inr rfl

theorem Step.debug_continue (h : Step s .continue s') : s'.debug = .idle ∨ s'.debug = .aborted := by
  cases h with
  | signalContinue _ hd => exact .inl hd
  | continueAbort => exact .inr rfl

theorem Step.debug_wake (h : Step s .stepWake s') : s'.InStep ∨ s'.debug = .idle := by
  cases h with
  | stepWake _ hd =>
    rcases hd with hd | hd <;> simp only [InStep, SwitchV32.stepWake, hd]
    · split
      · exact .inl (.inr rfl)
      · exact .inl (.inl rfl)
    · split
      · exact .inr rfl
      · exact .inl (.inr rfl)

end CoreSys

-- ---------------------------------------------------------------------------
-- Every reachable state
-- ---------------------------------------------------------------------------

def StubLoc.stepping : StubLoc → Option Nat
  | .inStep core _ _ => some core
  | _ => none

def StubLoc.Below (cores : Nat) : StubLoc → Prop
  | .breakpoint core act | .stepCheck core _ act | .stepCore core _ act | .inStep core _ act
  | .stepped core _ act => core < cores ∧ act.Below cores
  | .continueCheck core | .continueCore core => core < cores
  | _ => True

namespace DebugSys

structure Inv (s : DebugSys) : Prop where
  out : ∀ j, (s.node j).OutInv
  inStep : ∀ j, s.stub.stepping = some j → (s.node j).InStep
  idle : ∀ j, s.stub.stepping ≠ some j → s.stub ≠ .crashed → (s.node j).debug = .idle
  call : ∀ i, s.call i ≠ .hart .idle → i < s.cores ∧ ∃ site, (s.node i).core = .instr site
  target : ∀ i args, s.call i = .hart (.init args) ∨ s.call i = .hart (.signal args) →
    args.target < s.cores
  within : s.breakpoints.Within s.vmem
  selectedCore : s.selectedCore < s.cores
  below : s.stub.Below s.cores

theorem Start.inv {s : DebugSys} (h : s.Start) : s.Inv where
  out j := (h.node j).outInv
  inStep j hj := by
    rw [h.stub] at hj
    cases hj
  idle j _ _ := by
    obtain ⟨_, _, _, heq⟩ := (h.node j).eq
    rw [heq]
  call i hi := absurd (h.call i) hi
  target i args hi := by
    rw [h.call i] at hi
    rcases hi with hi | hi <;> cases hi
  within addr ha := by
    rw [h.breakpoints] at ha
    exact absurd ha Breakpoints.not_fullAt_reset
  selectedCore := h.selectedCore ▸ h.cores
  below := by
    rw [h.stub]
    trivial

section
variable {s s' : DebugSys} {l : DebugLabel}

theorem Inv.step_out (hi : s.Inv) (h : Step s l s') (j : Nat) : (s'.node j).OutInv := by
  cases h.node j with
  | same _ heq =>
    rw [heq]
    exact hi.out j
  | core hn | guest _ _ hn | asked _ _ _ _ _ hn | stub _ _ _ hn => exact (hi.out j).step hn
  | init _ _ _ _ heq | regs _ _ heq =>
    rw [heq]
    exact (hi.out j).withCore _

theorem Step.debug_eq (h : Step s l s') (hl : ∀ cl next, l = .stub → s.SignalMove j cl next →
    cl = .halt) : (s'.node j).debug = (s.node j).debug := by
  cases h.node j with
  | same _ heq => rw [heq]
  | core hn | guest _ _ hn => exact hn.debug_eq ⟨nofun, nofun, nofun⟩
  | asked _ _ _ _ hcl hn =>
    rcases hcl with rfl | ⟨signal, rfl⟩ <;> exact hn.debug_eq ⟨nofun, nofun, nofun⟩
  | stub _ _ hm hn =>
    cases hl _ _ rfl hm
    exact hn.debug_eq ⟨nofun, nofun, nofun⟩
  | init _ _ _ _ heq | regs _ _ heq => rw [heq]

theorem unlessAborted_cases (stub : StubLoc) (n : CoreSys) :
    (n.debug = .aborted ∧ unlessAborted stub n = .crashed) ∨
      (n.debug ≠ .aborted ∧ unlessAborted stub n = stub) := by
  unfold unlessAborted
  split
  · exact .inl ⟨‹_›, rfl⟩
  · exact .inr ⟨‹_›, rfl⟩

theorem Step.calling (h : Step s l s') (hcall : s'.call i ≠ .hart .idle) :
    (s.call i ≠ .hart .idle ∨ i < s.cores ∧ ∃ site, (s.node i).core = .instr site) ∧
      ∀ vmem, l ≠ .guest i vmem := by
  cases h with
  | guest j vmem =>
    simp only [setCall_call] at hcall
    split at hcall
    · exact absurd rfl hcall
    · rename_i hij
      refine ⟨.inl hcall, fun vmem heq => ?_⟩
      cases heq
      exact hij rfl
  | hartStart j site hj hcore | haltLock j site hj hcore =>
    simp only [setCall_call] at hcall
    split at hcall
    · subst ‹i = j›
      exact ⟨.inr ⟨hj, site, hcore⟩, by rintro _ ⟨⟩⟩
    · exact ⟨.inl hcall, by rintro _ ⟨⟩⟩
  | hsm j j' signal site hj hj' hcore =>
    simp only [setCall_call] at hcall
    split at hcall
    · subst ‹i = j›
      exact ⟨.inr ⟨hj, site, hcore⟩, by rintro _ ⟨⟩⟩
    · exact ⟨.inl hcall, by rintro _ ⟨⟩⟩
  | hartInit j hbefore | hartSignal j hbefore | haltNext j hbefore | haltUnlock j hbefore =>
    simp only [setCall_call] at hcall
    split at hcall
    · subst ‹i = j›
      exact ⟨.inl (by rw [hbefore]; rintro ⟨⟩), by rintro _ ⟨⟩⟩
    · exact ⟨.inl hcall, by rintro _ ⟨⟩⟩
  | packet hs hp =>
    refine ⟨.inl ?_, by rintro _ ⟨⟩⟩
    cases hp <;> exact hcall
  | core | vCont | interrupt | stubGoto | stubSignal => exact ⟨.inl hcall, by rintro _ ⟨⟩⟩

theorem Step.keeps_instr (h : Step s l s') (hc : (s.node i).core = .instr site)
    (hl : ∀ vmem, l ≠ .guest i vmem) : (s'.node i).core = .instr site := by
  cases h.node i with
  | same _ heq =>
    rw [heq]
    exact hc
  | guest vmem => exact absurd rfl (hl vmem)
  | core hn => exact hn.core_eq_instr hc nofun
  | asked _ _ _ _ hcl hn =>
    rcases hcl with rfl | ⟨signal, rfl⟩ <;> exact hn.core_eq_instr hc nofun
  | stub _ _ hm hn => exact hn.core_eq_instr hc (by cases hm <;> rintro ⟨⟩)
  | init _ _ _ _ heq | regs _ _ heq =>
    rw [heq]
    exact hc

theorem Step.cores_eq (h : Step s l s') : s'.cores = s.cores := by
  cases h with
  | packet _ hp => cases hp <;> rfl
  | _ => rfl

theorem Inv.step_call (hi : s.Inv) (h : Step s l s') (i : Nat) (hcall : s'.call i ≠ .hart .idle) :
    i < s'.cores ∧ ∃ site, (s'.node i).core = .instr site := by
  obtain ⟨hbefore, hl⟩ := h.calling hcall
  obtain ⟨hlt, site, hc⟩ := hbefore.elim (hi.call i) id
  exact ⟨h.cores_eq ▸ hlt, site, h.keeps_instr hc hl⟩

theorem hartStart_target (h : s.hartStart i = .init args ∨ s.hartStart i = .signal args) :
    args.target < s.cores := by
  simp only [hartStart, SwitchV32.hartStart] at h
  split at h
  · rcases h with h | h <;> cases h
  · split at h
    · rcases h with h | h <;> cases h
    · split at h <;> rcases h with h | h <;> cases h
      exact Nat.lt_of_not_le ‹_›

theorem Inv.step_target (hi : s.Inv) (h : Step s l s') (i : Nat) (args : HartArgs)
    (hcall : s'.call i = .hart (.init args) ∨ s'.call i = .hart (.signal args)) :
    args.target < s'.cores := by
  rw [h.cores_eq]
  cases h with
  | guest j | hartSignal j | hsm j | haltLock j | haltNext j | haltUnlock j =>
    simp only [setCall_call] at hcall
    split at hcall
    · rcases hcall with hcall | hcall <;> cases hcall
    · exact hi.target i args hcall
  | hartStart j =>
    simp only [setCall_call] at hcall
    split at hcall
    · exact hartStart_target (hcall.imp InsCall.hart.inj InsCall.hart.inj)
    · exact hi.target i args hcall
  | hartInit j hbefore =>
    simp only [setCall_call] at hcall
    split at hcall
    · subst ‹i = j›
      rcases hcall with hcall | hcall <;> cases hcall
      exact hi.target i args (.inl hbefore)
    · exact hi.target i args hcall
  | packet hs hp =>
    refine hi.target i args ?_
    cases hp <;> exact hcall
  | core | vCont | interrupt | stubGoto | stubSignal => exact hi.target i args hcall

theorem Inv.step_within (hi : s.Inv) (h : Step s l s') :
    s'.vmem.size = s.vmem.size ∧ s'.breakpoints.Within s'.vmem := by
  cases h with
  | guest j vmem hj hcall hsize => exact ⟨hsize, hi.within.of_size hsize⟩
  | stubGoto hm =>
    cases stubMove_goto hm with
    | removed _ _ _ hret | notFound _ _ _ hret => exact sadRemoveBreakpoint_within hi.within hret
    | inserted _ _ _ _ hret => exact sadInsertBreakpoint_within hi.within hret
    | _ => exact ⟨rfl, hi.within⟩
  | packet hs hp =>
    cases hp with
    | insertBreakpoint addr hret => exact sadInsertBreakpoint_within hi.within hret
    | removeBreakpoint addr hret => exact sadRemoveBreakpoint_within hi.within hret
    | writeMem vmem hsize => exact ⟨hsize, hi.within.of_size hsize⟩
    | writeRegs | selectCore | other => exact ⟨rfl, hi.within⟩
  | _ => exact ⟨rfl, hi.within⟩

theorem Inv.step_selectedCore (hi : s.Inv) (h : Step s l s') : s'.selectedCore < s'.cores := by
  cases h with
  | packet hs hp =>
    cases hp with
    | selectCore core hcore => exact hcore
    | _ => exact hi.selectedCore
  | _ => exact hi.selectedCore

theorem fromBreakpoint_below {act : VCont} (h : act.Below s.cores) (i : Nat) :
    (s.fromBreakpoint i act).Below s.cores := by
  cases act with
  | continueAll =>
    simp only [fromBreakpoint]
    split
    · exact ⟨‹_›, trivial⟩
    · trivial
  | continueCore | step => exact ⟨h, h⟩

theorem afterBreakpoint_below {act : VCont} (h : act.Below s.cores) (core ret) :
    (s.afterBreakpoint core act ret).Below s.cores := by
  cases act with
  | continueAll => exact fromBreakpoint_below h _
  | continueCore => exact h
  | step =>
    simp only [afterBreakpoint]
    split
    · exact ⟨h, h⟩
    · trivial

theorem unlessAborted_below {k : Nat} (stub : StubLoc) (h : stub.Below k) (n : CoreSys) :
    (unlessAborted stub n).Below k := by
  unfold unlessAborted
  split
  · trivial
  · exact h

theorem Inv.step_below (hi : s.Inv) (h : Step s l s') : s'.stub.Below s'.cores := by
  have hbelow := hi.below
  cases h with
  | stubGoto hm =>
    cases stubMove_goto hm with
    | removed core act hs | checked core _ act hs =>
      rw [hs] at hbelow
      exact hbelow
    | notFound core act hs | inserted core _ act hs =>
      rw [hs] at hbelow
      exact afterBreakpoint_below hbelow.2 _ _
    | continueChecked core hs =>
      rw [hs] at hbelow
      exact hbelow
    | _ => trivial
  | stubSignal hm _ =>
    cases stubMove_signal hm with
    | step pc act hs =>
      rw [hs] at hbelow
      exact unlessAborted_below (.inStep _ pc act) hbelow _
    | wake pc act hs =>
      rw [hs] at hbelow
      dsimp only
      split <;> exact hbelow
    | continueCore => exact unlessAborted_below .poll trivial _
    | continueAll => exact unlessAborted_below (.continueAll _) trivial _
    | halt => trivial
  | vCont action threadId =>
    dsimp only
    split
    · trivial
    · exact fromBreakpoint_below (vCont_below hi.selectedCore ‹_›) 0
  | packet hs hp => cases hp <;> exact hbelow
  | interrupt => trivial
  | _ => exact hbelow

theorem Step.stub_eq (h : Step s l s') (hl : l ≠ .stub ∧ l ≠ .interrupt ∧ ∀ a t, l ≠ .vCont a t) :
    s'.stub = s.stub := by
  cases h with
  | stubGoto | stubSignal => exact absurd rfl hl.1
  | interrupt => exact absurd rfl hl.2.1
  | vCont a t => exact absurd rfl (hl.2.2 a t)
  | packet _ hp => cases hp <;> rfl
  | _ => rfl

theorem fromBreakpoint_stepping (i act) : (s.fromBreakpoint i act).stepping = none := by
  cases act <;> simp only [fromBreakpoint] <;> try split
  all_goals rfl

theorem afterBreakpoint_stepping (core act ret) :
    (s.afterBreakpoint core act ret).stepping = none := by
  cases act with
  | continueAll => exact fromBreakpoint_stepping (core + 1) .continueAll
  | continueCore => rfl
  | step =>
    simp only [afterBreakpoint]
    split <;> rfl

theorem GotoMove.stepping {vmem : Mem} {t : Breakpoints} {stub : StubLoc}
    (h : s.GotoMove vmem t stub) :
    s.stub.stepping = none ∧ s.stub ≠ .crashed ∧ stub.stepping = none := by
  cases h with
  | notFound _ _ hs | inserted _ _ _ hs =>
    rw [hs]
    exact ⟨rfl, nofun, afterBreakpoint_stepping _ _ _⟩
  | crash core hs =>
    rcases hs with ⟨pc, act, hs⟩ | hs | ⟨hs, -⟩ <;> rw [hs] <;> exact ⟨rfl, nofun, rfl⟩
  | removed _ _ hs | checked _ _ _ hs | stepped _ _ hs | continueChecked _ hs | busy hs | lock hs
  | checkedNext _ hs | checkedAll _ hs | continued _ hs | poll hs | scanNext _ hs | again _ hs
  | scanned _ hs | haltLock hs | halted _ hs | sent _ hs =>
    rw [hs]
    exact ⟨rfl, nofun, rfl⟩

theorem Inv.step_inStep (hi : s.Inv) (h : Step s l s') (j : Nat)
    (hj : s'.stub.stepping = some j) : (s'.node j).InStep := by
  have h' := h
  cases h with
  | stubGoto hm => cases hj.symm.trans (stubMove_goto hm).stepping.2.2
  | stubSignal hm hn =>
    rename_i i cl next n
    dsimp only at hj
    cases stubMove_signal hm with
    | step pc act =>
      rcases unlessAborted_cases (.inStep i pc act) n with ⟨-, heq⟩ | ⟨hd, heq⟩ <;>
        rw [heq] at hj <;> cases hj
      simp only [setNode_node, if_true]
      exact .inl (hn.debug_step.resolve_right hd)
    | wake pc act =>
      dsimp only at hj
      split at hj <;> cases hj
      simp only [setNode_node, if_true]
      exact hn.debug_wake.resolve_right ‹_›
    | continueCore =>
      rcases unlessAborted_cases .poll n with ⟨-, heq⟩ | ⟨-, heq⟩ <;> rw [heq] at hj <;> cases hj
    | continueAll =>
      rcases unlessAborted_cases (.continueAll (i + 1)) n with ⟨-, heq⟩ | ⟨-, heq⟩ <;>
        rw [heq] at hj <;> cases hj
    | halt => cases hj
  | vCont action threadId hs =>
    dsimp only at hj
    split at hj
    · cases hj
    · cases hj.symm.trans (fromBreakpoint_stepping _ _)
  | interrupt => cases hj
  | _ =>
    have hstub := h'.stub_eq ⟨nofun, nofun, nofun⟩
    have hdebug := h'.debug_eq (j := j) (fun _ _ => nofun)
    rw [hstub] at hj
    have hin := hi.inStep j hj
    rw [CoreSys.InStep, ← hdebug] at hin
    exact hin

theorem SignalMove.stepping (h : s.SignalMove i cl next) (hj : s.stub.stepping = some j) :
    i = j ∧ cl = .stepWake := by
  cases h with
  | wake pc act hs =>
    rw [hs] at hj
    cases hj
    exact ⟨rfl, rfl⟩
  | step _ _ hs | continueCore hs | continueAll hs | halt hs =>
    rw [hs] at hj
    cases hj

theorem SignalMove.ne_crashed (h : s.SignalMove i cl next) : s.stub ≠ .crashed := by
  cases h with
  | wake _ _ hs | step _ _ hs | continueCore hs | continueAll hs | halt hs =>
    rw [hs]
    rintro ⟨⟩

theorem Inv.step_idle (hi : s.Inv) (h : Step s l s') (j : Nat) (hj : s'.stub.stepping ≠ some j)
    (hcrash : s'.stub ≠ .crashed) : (s'.node j).debug = .idle := by
  have h' := h
  cases h with
  | stubGoto hm =>
    obtain ⟨hnone, hne, -⟩ := (stubMove_goto hm).stepping
    exact hi.idle j (by rw [hnone]; rintro ⟨⟩) hne
  | stubSignal hm hn =>
    rename_i i cl next n
    have hmove := stubMove_signal hm
    simp only [setNode_node]
    split
    · subst ‹j = i›
      dsimp only at hj hcrash
      cases hmove with
      | step pc act =>
        rcases unlessAborted_cases (.inStep j pc act) n with ⟨-, heq⟩ | ⟨-, heq⟩
        · exact absurd heq hcrash
        · rw [heq] at hj
          exact absurd rfl hj
      | wake pc act =>
        dsimp only at hj
        split at hj
        · assumption
        · exact absurd rfl hj
      | continueCore =>
        rcases unlessAborted_cases .poll n with ⟨-, heq⟩ | ⟨hd, -⟩
        · exact absurd heq hcrash
        · exact hn.debug_continue.resolve_right hd
      | continueAll =>
        rcases unlessAborted_cases (.continueAll (j + 1)) n with ⟨-, heq⟩ | ⟨hd, -⟩
        · exact absurd heq hcrash
        · exact hn.debug_continue.resolve_right hd
      | halt hs =>
        rw [hn.debug_eq ⟨nofun, nofun, nofun⟩]
        exact hi.idle j (by rw [hs]; rintro ⟨⟩) (by rw [hs]; rintro ⟨⟩)
    · rename_i hji
      exact hi.idle j (fun hstep => hji (hmove.stepping hstep).1.symm) hmove.ne_crashed
  | vCont action threadId hs => exact hi.idle j (by rw [hs]; rintro ⟨⟩) (by rw [hs]; rintro ⟨⟩)
  | interrupt hs => exact hi.idle j (by rw [hs]; rintro ⟨⟩) (by rw [hs]; rintro ⟨⟩)
  | _ =>
    have hstub := h'.stub_eq ⟨nofun, nofun, nofun⟩
    have hdebug := h'.debug_eq (j := j) (fun _ _ => nofun)
    rw [hstub] at hj hcrash
    exact hdebug.trans (hi.idle j hj hcrash)

theorem Inv.step (hi : s.Inv) (h : Step s l s') : s'.Inv where
  out := hi.step_out h
  inStep := hi.step_inStep h
  idle := hi.step_idle h
  call := hi.step_call h
  target := hi.step_target h
  within := (hi.step_within h).2
  selectedCore := hi.step_selectedCore h
  below := hi.step_below h

theorem inv {s₀ : DebugSys} (h0 : s₀.Start) (h : Run s₀ t s) : s.Inv :=
  h.inv_all Inv (fun _ _ _ hi hs => hi.step hs) h0.inv

end

end DebugSys

end SwitchV32
