import SwitchV32.Cthread.Exec
import SwitchV32.Cthread.Refines

/-!
# A step returns

The debug thread in `cthread_signal_step` waits for two states in turn. It is
answered whatever halts other threads request, but for one: a halt between the
acknowledgement of the step and the wake-up of the debug thread replaces
`STATE_STEPPING` before it is seen, and nothing will show it again.
-/

namespace SwitchV32.CoreSys

def InStep (s : CoreSys) : Prop := s.debug = .stepStepping ∨ s.debug = .stepHalted

/-- Both threads wait, the core thread for the end of a halt and the debug thread for a state
that no step of any thread brings about. -/
structure Deadlock (s : CoreSys) : Prop where
  debug : InStep s
  core : s.core = .waiting .halt
  signal : s.ct.signal = .halt
  never : ∀ t s', Run s t s' → s'.debug = s.debug

def HaltsUnseen (s : CoreSys) (l : CoreLabel) : Prop :=
  l = .halt ∧ s.debug = .stepStepping ∧ s.ct.state = .stepping

-- ---------------------------------------------------------------------------
-- The phases of a step
-- ---------------------------------------------------------------------------

inductive StepPhase (s : CoreSys) : Prop
  | asked (hd : s.debug = .stepStepping) (hstate : s.ct.state = .halted)
      (hsignal : s.ct.signal = .step) (hc : s.core = .fsm ∨ s.core = .waiting .halt)
  | acknowledged (hd : s.debug = .stepStepping) (hstate : s.ct.state = .stepping)
      (hsignal : s.ct.signal = .step) (hexit : s.ct.core.atomicExitLoop = true)
      (hc : s.core = .waiting .step)
  | runs (hd : s.debug = .stepHalted)
      (hstate : s.ct.state = .stepping ∨ s.ct.state = .haltPending)
      (hsignal : s.ct.signal = .halt) (hexit : s.ct.core.atomicExitLoop = true)
      (hc : s.core = .waiting .step ∨ s.core = .instr .step ∨ s.core = .test .step ∨
        s.core = .left .step ∨ s.core = .fsm)
  | stopped (hd : s.debug = .stepHalted) (hstate : s.ct.state = .halted)
      (hsignal : s.ct.signal = .halt) (hc : s.core = .waiting .halt)

structure StepInv (s : CoreSys) : Prop extends HaltInv s where
  oldSignal : ∃ mode : HsmSignal, s.ct.oldSignal = mode.toSignal
  phase : InStep s → StepPhase s

theorem Init.stepInv (h : Init s) : StepInv s where
  toHaltInv := h.haltInv
  oldSignal := h.savedInv.oldSignal
  phase := by
    obtain ⟨_, _, _, rfl⟩ := h.eq
    rintro (h | h) <;> cases h

theorem Step.oldSignal_mode (h : Step s l s')
    (hold : ∃ mode : HsmSignal, s.ct.oldSignal = mode.toSignal) :
    ∃ mode : HsmSignal, s'.ct.oldSignal = mode.toSignal := by
  cases h.outcome with
  | saved signal | taken signal => exact ⟨signal, rfl⟩
  | _ => exact hold

theorem StepPhase.debug (h : StepPhase s) : InStep s := by
  cases h with
  | asked hd | acknowledged hd => exact .inl hd
  | runs hd | stopped hd => exact .inr hd

theorem StepPhase.debugging (h : StepPhase s) : s.ct.state.debugging = true := by
  cases h with
  | asked _ hstate | acknowledged _ hstate | stopped _ hstate => rw [hstate]; rfl
  | runs _ hstate => rcases hstate with hstate | hstate <;> rw [hstate] <;> rfl

theorem leave_of_debugging {state : CthreadState} (h : state.debugging = true)
    (signal : HsmSignal) : signal.leave state = true := by
  cases state <;> cases h <;> cases signal <;> rfl

theorem StepPhase.saved (hp : StepPhase s) (oldSignal : CthreadSignal) :
    StepPhase { s with ct := { s.ct with oldSignal } } := by
  cases hp with
  | asked hd hstate hsignal hc => exact .asked hd hstate hsignal hc
  | acknowledged hd hstate hsignal hexit hc => exact .acknowledged hd hstate hsignal hexit hc
  | runs hd hstate hsignal hexit hc => exact .runs hd hstate hsignal hexit hc
  | stopped hd hstate hsignal hc => exact .stopped hd hstate hsignal hc

theorem StepPhase.halted (hp : StepPhase s) (hl : ¬ HaltsUnseen s .halt)
    (hne : s.ct.state ≠ .halted) :
    StepPhase { s with
      ct := { s.ct with
        signal := .halt, state := .haltPending
        core := { s.ct.core with atomicExitLoop := true } } } := by
  cases hp with
  | asked _ hstate | stopped _ hstate => exact absurd hstate hne
  | acknowledged hd hstate => exact absurd ⟨rfl, hd, hstate⟩ hl
  | runs hd hstate hsignal hexit hc => exact .runs hd (.inr rfl) rfl rfl hc

theorem StepPhase.seen (hp : StepPhase s) (hd : s.debug = .stepStepping)
    (hstate : s.ct.state = .stepping) :
    StepPhase { s with ct := { s.ct with signal := .halt }, debug := .stepHalted } := by
  cases hp with
  | asked _ hhalted => cases hstate.symm.trans hhalted
  | acknowledged _ _ _ hexit hc => exact .runs rfl (.inl hstate) rfl hexit (.inl hc)
  | runs hd' | stopped hd' => cases hd.symm.trans hd'

theorem StepPhase.blockStep (hp : StepPhase s) (hc : s.core = .fsm)
    (hsignal : s.ct.signal = .step) :
    StepPhase { s with
      ct := { s.ct with state := .stepping, core := { s.ct.core with atomicExitLoop := true } }
      core := .waiting .step } := by
  cases hp with
  | asked hd => exact .acknowledged hd rfl hsignal rfl rfl
  | acknowledged _ _ _ _ hc' => cases hc.symm.trans hc'
  | runs _ _ hs | stopped _ _ hs => cases hsignal.symm.trans hs

theorem StepPhase.block (hp : StepPhase s)
    (hc : s.core = .fsm ∧ s.ct.signal ≠ .start ∧ s.ct.signal ≠ .step ∨
      s.core = .waiting s.ct.signal) :
    StepPhase { s with
      ct := { s.ct with state := s.ct.signal.toState }, core := .waiting s.ct.signal } := by
  cases hp with
  | asked hd _ hsignal hc' =>
    rcases hc with ⟨-, -, hne⟩ | hc
    · exact absurd hsignal hne
    · rw [hsignal] at hc
      rcases hc' with hc' | hc' <;> cases hc.symm.trans hc'
  | acknowledged hd _ hsignal hexit hc' =>
    exact .acknowledged hd (by simp only [hsignal]; rfl) hsignal hexit (by simp only [hsignal])
  | runs hd _ hsignal | stopped hd _ hsignal =>
    exact .stopped hd (by simp only [hsignal]; rfl) hsignal (by simp only [hsignal])

theorem StepPhase.unblock (hp : StepPhase s) (hc : s.core = .waiting signal)
    (hsignal : s.ct.signal ≠ signal) : StepPhase { s with core := afterWait signal s.ct } := by
  cases hp with
  | asked hd hstate hs hc' =>
    refine .asked hd hstate hs (.inl ?_)
    rcases hc' with hc' | hc' <;> cases hc.symm.trans hc'
    rfl
  | acknowledged _ _ hs _ hc' | stopped _ _ hs hc' =>
    cases hc.symm.trans hc'
    exact absurd hs hsignal
  | runs hd hstate hs hexit hc' =>
    -- out of the wait for the step, to run one instruction or none
    have hafter : afterWait signal s.ct = .instr .step ∨ afterWait signal s.ct = .fsm := by
      rw [afterWait]
      split
      · exact .inl rfl
      · exact .inr rfl
    refine .runs hd hstate hs hexit ?_
    rcases hafter with hafter | hafter
    · exact .inr (.inl hafter)
    · exact .inr (.inr (.inr (.inr hafter)))

theorem StepPhase.runs_of_site (hp : StepPhase s)
    (hc : s.core = .instr site ∨ s.core = .test site ∨ s.core = .left site) :
    s.debug = .stepHalted ∧ (s.ct.state = .stepping ∨ s.ct.state = .haltPending) ∧
      s.ct.signal = .halt ∧ s.ct.core.atomicExitLoop = true ∧ site = .step := by
  cases hp with
  | runs hd hstate hs hexit hc' =>
    refine ⟨hd, hstate, hs, hexit, ?_⟩
    rcases hc' with hc' | hc' | hc' | hc' | hc' <;> rcases hc with hc | hc | hc <;>
      cases hc.symm.trans hc' <;> rfl
  | asked _ _ _ hc' =>
    rcases hc' with hc' | hc' <;> rcases hc with hc | hc | hc <;> cases hc.symm.trans hc'
  | acknowledged _ _ _ _ hc' | stopped _ _ _ hc' =>
    rcases hc with hc | hc | hc <;> cases hc.symm.trans hc'

/-- A step that is under way goes on or returns. -/
theorem StepPhase.step (hp : StepPhase s) (hl : ¬ HaltsUnseen s l) (h : Step s l s')
    (hs' : InStep s') : StepPhase s' := by
  have hnot : s.debug ≠ .idle := by rcases hp.debug with hd | hd <;> rw [hd] <;> rintro ⟨⟩
  cases h.outcome with
  | same => exact hp
  | saved signal => exact hp.saved signal.toSignal
  | taken signal hleave => cases hleave.symm.trans (leave_of_debugging hp.debugging signal)
  | halted hne => exact hp.halted hl hne
  | continued hd | stepped hd | debugAbort _ hd => exact absurd hd hnot
  | stepSeen hd hstate => exact hp.seen hd hstate
  | stepDone => rcases hs' with h | h <;> cases h
  | start hc hsignal =>
    cases hp with
    | asked _ _ hs | acknowledged _ _ hs | runs _ _ hs | stopped _ _ hs =>
      cases hsignal.symm.trans hs
  | blockStep hc hsignal => exact hp.blockStep hc hsignal
  | block hc => exact hp.block hc
  | unblock signal hc hsignal => exact hp.unblock hc hsignal
  | again site hc hexit' =>
    obtain ⟨-, -, -, hexit, -⟩ := hp.runs_of_site (.inr (.inl hc))
    cases hexit'.symm.trans hexit
  | exited site hc =>
    obtain ⟨hd, hstate, hs, hexit, rfl⟩ := hp.runs_of_site (.inr (.inl hc))
    exact .runs hd hstate hs hexit (.inr (.inr (.inr (.inl rfl))))
  | locked site hc =>
    obtain ⟨hd, hstate, hs, hexit, -⟩ := hp.runs_of_site (.inr (.inr hc))
    exact .runs hd hstate hs hexit (.inr (.inr (.inr (.inr rfl))))
  | hotLoop hc =>
    obtain ⟨-, -, -, -, hsite⟩ := hp.runs_of_site (.inr (.inr hc))
    cases hsite
  | guest site core hc hexit' =>
    obtain ⟨hd, hstate, hs, hexit, rfl⟩ := hp.runs_of_site (.inl hc)
    exact .runs hd hstate hs (hexit'.trans hexit) (.inr (.inr (.inl rfl)))

theorem StepPhase.begin (hi : HaltInv s) (hs : ¬ InStep s) (h : Step s l s') (hs' : InStep s') :
    StepPhase s' := by
  cases h.outcome with
  | stepped hd hstate => exact .asked rfl hstate rfl (hi.halted hstate)
  | stepSeen hd => exact absurd (.inl hd) hs
  | stepDone hd => exact absurd (.inr hd) hs
  | debugAbort => rcases hs' with h | h <;> cases h
  | _ => exact absurd hs' hs

theorem StepInv.step (hi : StepInv s) (hl : ¬ HaltsUnseen s l) (h : Step s l s') :
    StepInv s' where
  toHaltInv := hi.toHaltInv.step h
  oldSignal := h.oldSignal_mode hi.oldSignal
  phase hs' := by
    by_cases hs : InStep s
    · exact (hi.phase hs).step hl h hs'
    · exact .begin hi.toHaltInv hs h hs'

-- ---------------------------------------------------------------------------
-- The way back
-- ---------------------------------------------------------------------------

/-- The threads finish the step by themselves. -/
theorem StepPhase.settles (h : StepPhase s)
    (hold : ∃ mode : HsmSignal, s.ct.oldSignal = mode.toSignal) : Settles s := by
  obtain ⟨mode, hmode⟩ := hold
  obtain ⟨⟨state, signal, oldSignal, vcore⟩, core, debug⟩ := s
  cases hmode
  cases h with
  | asked hd hstate hsignal hc =>
    cases hd; cases hstate; cases hsignal
    exact Showing.settles (.stepAsked (a := ⟨mode, true⟩) vcore core rfl hc)
  | acknowledged hd hstate hsignal hexit hc =>
    cases hd; cases hstate; cases hsignal; cases hc
    exact Showing.settles_stepBlocked (a := ⟨mode, true⟩) hexit
  | runs hd hstate hsignal hexit hc =>
    cases hd; cases hsignal
    exact Showing.settles_stepRuns (a := ⟨mode, true⟩) hexit hc
  | stopped hd hstate hsignal hc =>
    cases hd; cases hstate; cases hsignal; cases hc
    exact Showing.settles (.stepDone (a := ⟨mode, true⟩) vcore rfl)

/-- In a run without an unseen halt there is no deadlock: a step that is under way can always be
finished by the core thread and the debug thread alone. -/
theorem step_returns {s₀ s : CoreSys} {t} (h0 : Init s₀) (hrun : Run s₀ t s)
    (ht : Lts.Every (¬ HaltsUnseen · ·) t) :
    ¬ Deadlock s ∧
      (InStep s → ∃ t' s', Run s t' s' ∧ Lts.Every Internal t' ∧ s'.debug = .idle) := by
  have hi := hrun.inv StepInv (fun _ _ _ hi hl hs => hi.step hl hs) ht h0.stepInv
  have hback (hs : InStep s) :
      ∃ t' s', Run s t' s' ∧ Lts.Every Internal t' ∧ s'.debug = .idle := by
    obtain ⟨s', ⟨t', hrun', ht'⟩, hq⟩ := (hi.phase hs).settles hi.oldSignal
    exact ⟨t', s', hrun', ht', hq.1⟩
  refine ⟨fun hdead => ?_, hback⟩
  obtain ⟨t', s', hrun', -, hidle⟩ := hback hdead.debug
  have hdebug := hdead.never t' s' hrun'
  rcases hdead.debug with hd | hd <;> rw [hd, hidle] at hdebug <;> cases hdebug

theorem step_returns_boot : ∃ t s, Run bootSys t s ∧ InStep s ∧ ¬ Deadlock s ∧
    ∃ t' s', Run s t' s' ∧ Lts.Every Internal t' ∧ s'.debug = .idle := by
  have hstep : Step bootSys .core (sysAt .halted .halt .start false (.waiting .halt)) :=
    .fsm (sysAt_alive nofun) rfl
  have hask : Step (sysAt .halted .halt .start false (.waiting .halt)) .step
      { sysAt .halted .step .start true (.waiting .halt) with debug := .stepStepping } :=
    .signalStep (sysAt_alive nofun) rfl rfl
  have hnot : Lts.Every (¬ HaltsUnseen · ·)
      [(bootSys, .core), (sysAt .halted .halt .start false (.waiting .halt), .step)] := by
    simp [HaltsUnseen]
  obtain ⟨hdead, hback⟩ := step_returns bootSys_init (.cons hstep (.one hask)) hnot
  exact ⟨_, _, .cons hstep (.one hask), .inl rfl, hdead, hback (.inl rfl)⟩

-- ---------------------------------------------------------------------------
-- The halt that is not seen
-- ---------------------------------------------------------------------------

/-- The debug thread waits for the acknowledgement of a signal that is gone. -/
structure Lost (s : CoreSys) : Prop where
  debug : s.debug = .stepStepping
  state : s.ct.state = .halted ∨ s.ct.state = .haltPending
  signal : s.ct.signal = .halt

theorem Lost.step (hi : Lost s) (h : Step s l s') : Lost s' := by
  have hnot : s.debug ≠ .idle := by rw [hi.debug]; rintro ⟨⟩
  cases h.outcome with
  | same => exact hi
  | saved => exact ⟨hi.debug, hi.state, hi.signal⟩
  | taken signal hleave =>
    have hdebug : s.ct.state.debugging = true := by
      rcases hi.state with h | h <;> rw [h] <;> rfl
    cases hleave.symm.trans (leave_of_debugging hdebug signal)
  | halted => exact ⟨hi.debug, .inr rfl, rfl⟩
  | continued hd | stepped hd | debugAbort _ hd => exact absurd hd hnot
  | stepSeen _ hstate => rcases hi.state with h | h <;> cases hstate.symm.trans h
  | stepDone hd => cases hi.debug.symm.trans hd
  | start _ hsignal | blockStep _ hsignal => cases hi.signal.symm.trans hsignal
  | block => exact ⟨hi.debug, .inl (by simp only [hi.signal]; rfl), hi.signal⟩
  | unblock | again | exited | locked | hotLoop => exact ⟨hi.debug, hi.state, hi.signal⟩
  | guest => exact ⟨hi.debug, hi.state, hi.signal⟩

theorem Lost.deadlock (hi : Lost s) (hc : s.core = .waiting .halt) : Deadlock s where
  debug := .inl hi.debug
  core := hc
  signal := hi.signal
  never _ _ hrun :=
    (hrun.inv_all Lost (fun _ _ _ hi hs => hi.step hs) hi).debug.trans hi.debug.symm

/-- A step of a core that is on; after the core thread has acknowledged it, and before the debug
thread wakes up, another hart halts all cores. -/
theorem step_deadlocks : ∃ s₀ t s, Init s₀ ∧ Run s₀ t s ∧ Deadlock s := by
  obtain ⟨t, s, hrun, hd, hstate, hsignal, hc⟩ := Lts.exists_run
    (fun s l => s.exec (vcoreInit none) l) (s := bootSys)
    [.core, .step, .core, .core, .halt, .core, .guest, .core, .core, .core]
    (Q := fun _ s => s.debug = .stepStepping ∧ s.ct.state = .halted ∧ s.ct.signal = .halt ∧
      s.core = .waiting .halt) (by decide)
  have hlost : Lost s := ⟨hd, .inl hstate, hsignal⟩
  exact ⟨bootSys, t, s, bootSys_init, hrun.mono fun _ _ _ => exec_step, hlost.deadlock hc⟩

end SwitchV32.CoreSys
