import SwitchV32.Debug.Reach

/-!
# The iteration of a step

`cthread_signal_step` from the side of the core thread: between the request and
the return of the call it ends one iteration of `vcore_run` if the core is on,
and none if it is off.
-/

namespace SwitchV32.CoreSys

/-- How many iterations the core has ended since it was asked for a step, by where the two threads
stand; `old` is its signal of before. -/
inductive Iteration (old : CthreadSignal) (x : CoreSys) : Nat → Prop
  | before (h : x.debug = .stepStepping ∨ x.core = .waiting .step) (hold : x.ct.oldSignal = old) :
    Iteration old x 0
  | during (hc : x.core = .instr .step) (hon : old = .start) : Iteration old x 0
  | after (hc : x.core = .test .step ∨ x.core = .left .step) (hon : old = .start) :
    Iteration old x 1
  | past (hd : x.debug = .stepHalted) (hc : x.core = .fsm ∨ x.core = .waiting .halt) :
    Iteration old x (if old = .start then 1 else 0)

variable {x x' : CoreSys} {old : CthreadSignal} {n : Nat}

theorem OutInv.stepPhase (hi : OutInv x) (h : Step x .step x') (hstate : x.ct.state = .halted) :
    StepPhase x' ∧ x'.debug = .stepStepping := by
  cases h with
  | signalStep _ _ hok =>
    obtain ⟨-, rfl⟩ := cthreadSignalStep_cases hok
    exact ⟨.asked rfl hstate rfl (hi.halted hstate), rfl⟩
  | stepAbort _ _ he =>
    rw [cthreadSignalStep, if_neg (not_not.mpr hstate)] at he
    cases he

theorem Iteration.eq_of_past (hit : Iteration old x n) (hd : x.debug = .stepHalted)
    (hc : x.core = .fsm ∨ x.core = .waiting .halt) : n = if old = .start then 1 else 0 := by
  cases hit with
  | before h =>
    rcases h with h | h
    · cases hd.symm.trans h
    · rcases hc with hc | hc <;> cases hc.symm.trans h
  | during hc' => rcases hc with hc | hc <;> cases hc.symm.trans hc'
  | after hc' => rcases hc with hc | hc <;> rcases hc' with hc' | hc' <;> cases hc.symm.trans hc'
  | past => rfl

theorem StepPhase.signal_halt (hp : StepPhase x) (hd : x.debug = .stepHalted) :
    x.ct.signal = .halt := by
  cases hp with
  | asked hd' | acknowledged hd' => cases hd.symm.trans hd'
  | runs _ _ hsignal | stopped _ _ hsignal => exact hsignal

theorem StepPhase.of_out (hp : StepPhase x) (hc : x.core.inRun = true ∨ x.core = .left .step) :
    x.debug = .stepHalted ∧ x.ct.core.atomicExitLoop = true := by
  cases hp with
  | runs hd _ _ hexit => exact ⟨hd, hexit⟩
  | asked _ _ _ hc' => rcases hc' with hc' | hc' <;> rw [hc'] at hc <;> simp [CoreLoc.inRun] at hc
  | acknowledged _ _ _ _ hc' | stopped _ _ _ hc' => rw [hc'] at hc; simp [CoreLoc.inRun] at hc

/-- Only a halt can come unseen, and none comes from an instruction. -/
theorem StepPhase.next (hp : StepPhase x) (h : Step x l x') (hin : InStep x')
    (hl : l = .halt → x.core.inRun = true) : StepPhase x' := by
  refine hp.step (fun hunseen => ?_) h hin
  have hout := hp.of_out (.inl (hl hunseen.1))
  cases hunseen.2.1.symm.trans hout.1

theorem Iteration.core (hp : StepPhase x) (hit : Iteration old x n) (h : Step x .core x') :
    Iteration old x' n := by
  have hdebug : x'.debug = x.debug := h.debug_eq ⟨nofun, nofun, nofun⟩
  have holdSignal : x'.ct.oldSignal = x.ct.oldSignal := h.oldSignal_eq nofun
  cases hit with
  | before hwhere hold =>
    rcases hp.debug with hd | hd
    · exact .before (.inl (hdebug.trans hd)) (holdSignal.trans hold)
    · have hc : x.core = .waiting .step := by
        refine hwhere.resolve_left fun hd' => ?_
        cases hd.symm.trans hd'
      cases h.outcome with
      | same _ hl => exact absurd rfl hl.1
      | debugAbort _ _ hl => rcases hl with hl | hl <;> cases hl
      | start hc' | blockStep hc' | again _ hc' | exited _ hc' | locked _ hc' | hotLoop hc' =>
        cases hc.symm.trans hc'
      | block hc' =>
        rcases hc' with ⟨hc', -⟩ | hc'
        · cases hc.symm.trans hc'
        · exact .before (.inr (hc'.symm.trans hc)) hold
      | unblock signal hc' =>
        cases hc.symm.trans hc'
        -- the one place where `old_signal` is looked at
        by_cases hon : x.ct.oldSignal = .start
        · exact .during (if_pos ⟨rfl, hon⟩) (hold.symm.trans hon)
        · have hn : (0 : Nat) = if old = .start then 1 else 0 := by
            rw [← hold, if_neg hon]
          rw [hn]
          exact .past hd (.inl (if_neg fun h => hon h.2))
  | during hc =>
    cases h with
    | fsm _ hc' | wake _ _ hc' | test _ _ hc' | lock _ _ hc' => cases hc.symm.trans hc'
  | after hc hon =>
    obtain ⟨hd, hexit⟩ := hp.of_out (hc.imp (fun hc => by rw [hc]; rfl) id)
    rcases hc with hc | hc
    · cases h with
      | fsm _ hc' | wake _ _ hc' | lock _ _ hc' => cases hc.symm.trans hc'
      | test site _ hc' =>
        cases hc.symm.trans hc'
        exact .after (.inr (if_pos hexit)) hon
    · cases h with
      | fsm _ hc' | wake _ _ hc' | test _ _ hc' => cases hc.symm.trans hc'
      | lock site _ hc' =>
        cases hc.symm.trans hc'
        have hn : (1 : Nat) = if old = .start then 1 else 0 := by rw [if_pos hon]
        rw [hn]
        exact .past hd (.inl rfl)
  | past hd hc =>
    have hsignal := hp.signal_halt hd
    refine .past (hdebug.trans hd) (.inr ?_)
    cases h with
    | fsm => simp only [goto, fsmSection, hsignal, waitSection, cthreadWaitOnSign_eq, ite_true]
    | wake signal _ hc' =>
      rcases hc with hc | hc <;> cases hc'.symm.trans hc
      simp only [goto, waitSection, cthreadWaitOnSign_eq, hsignal, ite_true]
    | test _ _ hc' | lock _ _ hc' => rcases hc with hc | hc <;> cases hc'.symm.trans hc

theorem Iteration.wake (hp : StepPhase x) (hit : Iteration old x n) (h : Step x .stepWake x') :
    (x'.InStep → Iteration old x' n) ∧
      (x'.debug = .idle → n = if old = .start then 1 else 0) := by
  cases h.outcome with
  | same =>
    refine ⟨fun _ => hit, fun hidle => ?_⟩
    rcases hp.debug with hd | hd <;> cases hidle.symm.trans hd
  | debugAbort _ _ hl => rcases hl with hl | hl <;> cases hl
  | stepSeen hd hstate =>
    refine ⟨fun _ => ?_, by rintro ⟨⟩⟩
    cases hp with
    | asked _ hhalted => cases hstate.symm.trans hhalted
    | acknowledged _ _ _ _ hc =>
      cases hit with
      | before _ hold => exact .before (.inr hc) hold
      | during hc' => cases hc.symm.trans hc'
      | after hc' | past _ hc' => rcases hc' with hc' | hc' <;> cases hc.symm.trans hc'
    | runs hd' | stopped hd' => cases hd.symm.trans hd'
  | stepDone hd hstate =>
    refine ⟨fun hin => (by rcases hin with hin | hin <;> cases hin), fun _ => ?_⟩
    cases hp with
    | asked hd' | acknowledged hd' => cases hd.symm.trans hd'
    | runs _ hrun => rcases hrun with hrun | hrun <;> cases hstate.symm.trans hrun
    | stopped _ _ _ hc => exact hit.eq_of_past hd (.inr hc)

theorem Iteration.eq_zero (hit : Iteration old x n) (hc : x.core = .instr site) : n = 0 := by
  cases hit with
  | before | during => rfl
  | after hin | past _ hin => rcases hin with hin | hin <;> cases hc.symm.trans hin

theorem Iteration.guest (hp : StepPhase x) (hit : Iteration old x n) (h : Step x .guest x') :
    old = .start ∧ n = 0 ∧ Iteration old x' 1 := by
  cases h with
  | guest site core _ hc =>
    cases hit with
    | before hwhere =>
      have hd := (hp.of_out (.inl (by rw [hc]; rfl))).1
      rcases hwhere with hwhere | hwhere
      · cases hd.symm.trans hwhere
      · cases hc.symm.trans hwhere
    | during hc' hon =>
      cases hc.symm.trans hc'
      exact ⟨hon, rfl, .after (.inl rfl) hon⟩
    | after hc' | past _ hc' => rcases hc' with hc' | hc' <;> cases hc.symm.trans hc'

theorem Iteration.asked (hp : StepPhase x) (hit : Iteration old x n) (hc : x.core = .instr site)
    (h : Step x l x') (hl : l = .halt ∨ ∃ signal, l = .hsm signal) : Iteration old x' n := by
  have hc' : x'.core = .instr site :=
    h.core_eq_instr hc (by rcases hl with rfl | ⟨_, rfl⟩ <;> nofun)
  cases hit with
  | before hwhere =>
    have hd := (hp.of_out (.inl (by rw [hc]; rfl))).1
    rcases hwhere with hwhere | hwhere
    · cases hd.symm.trans hwhere
    · cases hc.symm.trans hwhere
  | during hin hon => exact .during (hc'.trans (hc.symm.trans hin)) hon
  | after hin | past _ hin => rcases hin with hin | hin <;> cases hc.symm.trans hin

theorem StepPhase.on_of_instr (hp : StepPhase x) (h : Step x .core x')
    (hc : x'.core = .instr site) : x'.ct.oldSignal = .start := by
  rw [h.oldSignal_eq nofun]
  have hsignal : x.ct.signal = .step ∨ x.ct.signal = .halt := by
    cases hp with
    | asked _ _ hs | acknowledged _ _ hs => exact .inl hs
    | runs _ _ hs | stopped _ _ hs => exact .inr hs
  cases h.outcome with
  | same _ hl => exact absurd rfl hl.1
  | debugAbort _ _ hl => rcases hl with hl | hl <;> cases hl
  | start _ hs => rcases hsignal with h | h <;> cases hs.symm.trans h
  | again site hc' hexit =>
    have hout := hp.of_out (.inl (by rw [hc']; rfl))
    cases hexit.symm.trans hout.2
  | unblock signal =>
    dsimp only [afterWait] at hc
    split at hc
    · rename_i hon
      exact hon.2
    · cases hc
  | blockStep | block | exited | locked | hotLoop => cases hc

end SwitchV32.CoreSys
