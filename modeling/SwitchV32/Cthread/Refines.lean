import SwitchV32.Cthread.Saved

/-!
# The record refines an HSM mode and a halted bit

What a core record is for: an HSM mode and, beside it, whether a debugger holds
the core. When every call is given time to settle, the record shows this
machine, with `old_signal` for the mode while the bit is set.
-/

namespace SwitchV32

-- ---------------------------------------------------------------------------
-- The abstract machine
-- ---------------------------------------------------------------------------

structure HsmDebug where
  mode : HsmSignal
  halted : Bool
  deriving DecidableEq, Repr

inductive Call
  | hsm (signal : HsmSignal)
  | halt
  | continue
  | step
  deriving DecidableEq, Repr

namespace HsmDebug

def moves (signal mode : HsmSignal) : Bool :=
  match signal with
  | .start => mode != .start
  | .stop | .suspend => mode == .start

def apply (a : HsmDebug) : Call → HsmDebug
  | .hsm signal => if moves signal a.mode then { a with mode := signal } else a
  | .halt => { a with halted := true }
  | .continue => { a with halted := false }
  | .step => a

def Legal : HsmDebug → List Call → Prop
  | _, [] => True
  | a, c :: cs => (c = .step → a.halted = true) ∧ Legal (a.apply c) cs

def signal (a : HsmDebug) : CthreadSignal := if a.halted then .halt else a.mode.toSignal

end HsmDebug

namespace CoreSys

-- ---------------------------------------------------------------------------
-- Rounds
-- ---------------------------------------------------------------------------

def Internal (_ : CoreSys) (l : CoreLabel) : Prop := l = .core ∨ l = .guest ∨ l = .stepWake

/-- Blocked in `cthread_wait_on_sign`, or in `vcore_run` with no reason to leave it. -/
def Quiescent (s : CoreSys) : Prop :=
  s.debug = .idle ∧
    (s.core = .waiting s.ct.signal ∨ s.core.inRun = true ∧ s.ct.core.atomicExitLoop = false)

def SettlesTo (s s' : CoreSys) : Prop :=
  (∃ t, Run s t s' ∧ Lts.Every Internal t) ∧ Quiescent s'

def callLabel : Call → CoreLabel
  | .hsm signal => .hsm signal
  | .halt => .halt
  | .continue => .continue
  | .step => .step

/-- Calls in turn, each followed by the threads until they are quiescent. -/
inductive Rounds (s₀ : CoreSys) : List Call → CoreSys → Prop
  | boot {s} (h : SettlesTo s₀ s) : Rounds s₀ [] s
  | call {cs s c s₁ s₂} (h : Rounds s₀ cs s) (hlegal : c = .step → s.ct.state = .halted)
      (hcall : Step s (callLabel c) s₁) (hsettles : SettlesTo s₁ s₂) : Rounds s₀ (cs ++ [c]) s₂

-- ---------------------------------------------------------------------------
-- Between two calls
-- ---------------------------------------------------------------------------

/-- On the way into the wait for `signal`, or there and acknowledged. -/
inductive ToWait (signal : CthreadSignal) (state : CthreadState) (exit : Bool) : CoreLoc → Prop
  | run (core : CoreLoc) (hcore : core = .instr .start ∨ core = .test .start ∨ core = .left .start)
      (hexit : exit = true) : ToWait signal state exit core
  | fsm : ToWait signal state exit .fsm
  | other (signal') (hstep : signal' ≠ .step) (hne : signal' ≠ signal) :
    ToWait signal state exit (.waiting signal')
  | there (hstate : state = signal.toState) : ToWait signal state exit (.waiting signal)

inductive Showing (a : HsmDebug) : CoreSys → Prop
  | waits (state vcore core) (hon : a.signal ≠ .start)
      (hcore : ToWait a.signal state vcore.atomicExitLoop core) :
    Showing a ⟨⟨state, a.signal, a.mode.toSignal, vcore⟩, core, .idle⟩
  | starts (state vcore core) (hon : a = ⟨.start, false⟩)
      (hcore : core = .fsm ∨ ∃ signal, signal ≠ .step ∧ signal ≠ .start ∧ core = .waiting signal) :
    Showing a ⟨⟨state, .start, .start, vcore⟩, core, .idle⟩
  | runs (vcore core) (hon : a = ⟨.start, false⟩)
      (hcore : core = .instr .start ∨ core = .test .start)
      (hexit : vcore.atomicExitLoop = false) :
    Showing a ⟨⟨.started, .start, .start, vcore⟩, core, .idle⟩
  | stepAsked (vcore core) (hon : a.halted = true) (hcore : core = .fsm ∨ core = .waiting .halt) :
    Showing a ⟨⟨.halted, .step, a.mode.toSignal, vcore⟩, core, .stepStepping⟩
  | stepBlocked (vcore) (hon : a.halted = true) (hexit : vcore.atomicExitLoop = true) :
    Showing a ⟨⟨.stepping, .step, a.mode.toSignal, vcore⟩, .waiting .step, .stepStepping⟩
  | stepRuns (vcore core) (hon : a.halted = true) (hexit : vcore.atomicExitLoop = true)
      (hcore : core = .waiting .step ∨ core = .instr .step ∨ core = .test .step ∨
        core = .left .step ∨ core = .fsm) :
    Showing a ⟨⟨.stepping, .halt, a.mode.toSignal, vcore⟩, core, .stepHalted⟩
  | stepDone (vcore) (hon : a.halted = true) :
    Showing a ⟨⟨.halted, .halt, a.mode.toSignal, vcore⟩, .waiting .halt, .stepHalted⟩

theorem signal_ne_step (a : HsmDebug) : a.signal ≠ .step := by
  obtain ⟨mode, halted⟩ := a
  cases halted <;> cases mode <;> exact nofun

theorem afterWait_of_ne {ct : Cthread} (h : signal ≠ .step) : afterWait signal ct = .fsm := by
  simp [afterWait, h]

-- ---------------------------------------------------------------------------
-- The core thread goes on
-- ---------------------------------------------------------------------------

theorem showing_core_waits {state : CthreadState} {vcore : VCore} {core : CoreLoc}
    (hon : a.signal ≠ .start) (hcore : ToWait a.signal state vcore.atomicExitLoop core)
    (h : Step ⟨⟨state, a.signal, a.mode.toSignal, vcore⟩, core, .idle⟩ .core s') :
    Showing a s' := by
  cases h.outcome with
  | same _ hl => exact absurd rfl hl.1
  | debugAbort _ _ hl => rcases hl with h | h <;> cases h
  | start hc hsignal => exact absurd hsignal hon
  | blockStep hc hsignal => exact absurd hsignal (signal_ne_step a)
  | block hc => exact .waits _ _ _ hon (.there rfl)
  | unblock signal hc hsignal =>
    cases hc
    have hstep : signal ≠ .step := by
      cases hcore with
      | run _ hcore => rcases hcore with h | h | h <;> cases h
      | other _ hstep => exact hstep
      | there => exact absurd rfl hsignal
    rw [afterWait_of_ne hstep]
    exact .waits _ _ _ hon .fsm
  | again site hc hexit =>
    cases hc
    cases hcore with
    | run _ _ hexit' => cases hexit.symm.trans hexit'
  | exited site hc hexit =>
    cases hc
    cases hcore with
    | run _ hcore =>
      rcases hcore with h | h | h <;> cases h
      exact .waits _ _ _ hon (.run _ (.inr (.inr rfl)) hexit)
  | locked => exact .waits _ _ _ hon .fsm
  | hotLoop hc hexit =>
    cases hc
    cases hcore with
    | run _ _ hexit' => cases hexit.symm.trans hexit'

theorem showing_core_starts {state : CthreadState} {vcore : VCore} {core : CoreLoc}
    (hon : a = ⟨.start, false⟩)
    (hcore : core = .fsm ∨ ∃ signal, signal ≠ .step ∧ signal ≠ .start ∧ core = .waiting signal)
    (h : Step ⟨⟨state, .start, .start, vcore⟩, core, .idle⟩ .core s') : Showing a s' := by
  cases h.outcome with
  | same _ hl => exact absurd rfl hl.1
  | debugAbort _ _ hl => rcases hl with h | h <;> cases h
  | start hc => exact .runs _ _ hon (.inl rfl) rfl
  | blockStep hc hsignal => cases hsignal
  | block hc =>
    rcases hc with ⟨-, hne, -⟩ | hc
    · exact absurd rfl hne
    · obtain rfl : core = .waiting .start := hc
      rcases hcore with h | ⟨_, _, hne, h⟩ <;> cases h
      exact absurd rfl hne
  | unblock signal hc =>
    cases hc
    rcases hcore with h | ⟨_, hne, _, h⟩ <;> cases h
    rw [afterWait_of_ne hne]
    exact .starts _ _ _ hon (.inl rfl)
  | again _ hc | exited _ hc | locked _ hc | hotLoop hc =>
    cases hc
    rcases hcore with h | ⟨_, _, _, h⟩ <;> cases h

theorem showing_core_runs {vcore : VCore} {core : CoreLoc} (hon : a = ⟨.start, false⟩)
    (hcore : core = .instr .start ∨ core = .test .start) (hexit : vcore.atomicExitLoop = false)
    (h : Step ⟨⟨.started, .start, .start, vcore⟩, core, .idle⟩ .core s') : Showing a s' := by
  cases h.outcome with
  | same _ hl => exact absurd rfl hl.1
  | debugAbort _ _ hl => rcases hl with h | h <;> cases h
  | again site hc =>
    cases hc
    rcases hcore with h | h <;> cases h
    exact .runs _ _ hon (.inl rfl) hexit
  | exited site hc hexit' => cases hexit.symm.trans hexit'
  | block hc =>
    rcases hc with ⟨-, hne, -⟩ | hc
    · exact absurd rfl hne
    · obtain rfl : core = .waiting .start := hc
      rcases hcore with h | h <;> cases h
  | start hc | blockStep hc | unblock _ hc | locked _ hc | hotLoop hc =>
    cases hc
    rcases hcore with h | h <;> cases h

theorem showing_core_stepAsked {vcore : VCore} {core : CoreLoc} (hon : a.halted = true)
    (hcore : core = .fsm ∨ core = .waiting .halt)
    (h : Step ⟨⟨.halted, .step, a.mode.toSignal, vcore⟩, core, .stepStepping⟩ .core s') :
    Showing a s' := by
  cases h.outcome with
  | same _ hl => exact absurd rfl hl.1
  | debugAbort _ _ hl => rcases hl with h | h <;> cases h
  | start _ hsignal => cases hsignal
  | blockStep => exact .stepBlocked _ hon rfl
  | block hc =>
    rcases hc with ⟨-, -, hne⟩ | hc
    · exact absurd rfl hne
    · obtain rfl : core = .waiting .step := hc
      rcases hcore with h | h <;> cases h
  | unblock signal hc =>
    cases hc
    rcases hcore with h | h <;> cases h
    exact .stepAsked _ _ hon (.inl rfl)
  | again _ hc | exited _ hc | locked _ hc | hotLoop hc =>
    cases hc
    rcases hcore with h | h <;> cases h

theorem showing_core_stepBlocked {vcore : VCore} (hon : a.halted = true)
    (hexit : vcore.atomicExitLoop = true)
    (h : Step ⟨⟨.stepping, .step, a.mode.toSignal, vcore⟩, .waiting .step, .stepStepping⟩ .core
      s') : Showing a s' := by
  cases h.outcome with
  | same _ hl => exact absurd rfl hl.1
  | debugAbort _ _ hl => rcases hl with h | h <;> cases h
  | block => exact .stepBlocked _ hon hexit
  | unblock signal hc hsignal =>
    cases hc
    exact absurd rfl hsignal
  | start hc | blockStep hc | again _ hc | exited _ hc | locked _ hc | hotLoop hc => cases hc

theorem showing_core_stepRuns {vcore : VCore} {core : CoreLoc} (hon : a.halted = true)
    (hexit : vcore.atomicExitLoop = true)
    (hcore : core = .waiting .step ∨ core = .instr .step ∨ core = .test .step ∨
      core = .left .step ∨ core = .fsm)
    (h : Step ⟨⟨.stepping, .halt, a.mode.toSignal, vcore⟩, core, .stepHalted⟩ .core s') :
    Showing a s' := by
  cases h.outcome with
  | same _ hl => exact absurd rfl hl.1
  | debugAbort _ _ hl => rcases hl with h | h <;> cases h
  | start _ hsignal | blockStep _ hsignal => cases hsignal
  | block => exact .stepDone _ hon
  | unblock signal hc =>
    cases hc
    rcases hcore with h | h | h | h | h <;> cases h
    simp only [afterWait]
    split
    · exact .stepRuns _ _ hon hexit (.inr (.inl rfl))
    · exact .stepRuns _ _ hon hexit (.inr (.inr (.inr (.inr rfl))))
  | again _ _ hexit' => cases hexit.symm.trans hexit'
  | exited site hc =>
    cases hc
    rcases hcore with h | h | h | h | h <;> cases h
    exact .stepRuns _ _ hon hexit (.inr (.inr (.inr (.inl rfl))))
  | locked => exact .stepRuns _ _ hon hexit (.inr (.inr (.inr (.inr rfl))))
  | hotLoop _ hexit' => cases hexit.symm.trans hexit'

theorem showing_core_stepDone {vcore : VCore} (hon : a.halted = true)
    (h : Step ⟨⟨.halted, .halt, a.mode.toSignal, vcore⟩, .waiting .halt, .stepHalted⟩ .core s') :
    Showing a s' := by
  cases h.outcome with
  | same _ hl => exact absurd rfl hl.1
  | debugAbort _ _ hl => rcases hl with h | h <;> cases h
  | block => exact .stepDone _ hon
  | unblock signal hc hsignal =>
    cases hc
    exact absurd rfl hsignal
  | start hc | blockStep hc | again _ hc | exited _ hc | locked _ hc | hotLoop hc => cases hc

theorem Showing.core (hi : Showing a s) (h : Step s .core s') : Showing a s' := by
  cases hi with
  | waits state vcore core hon hcore => exact showing_core_waits hon hcore h
  | starts state vcore core hon hcore => exact showing_core_starts hon hcore h
  | runs vcore core hon hcore hexit => exact showing_core_runs hon hcore hexit h
  | stepAsked vcore core hon hcore => exact showing_core_stepAsked hon hcore h
  | stepBlocked vcore hon hexit => exact showing_core_stepBlocked hon hexit h
  | stepRuns vcore core hon hexit hcore => exact showing_core_stepRuns hon hexit hcore h
  | stepDone vcore hon => exact showing_core_stepDone hon h

theorem Showing.guest (hi : Showing a s) (h : Step s .guest s') : Showing a s' := by
  cases h.outcome with
  | same _ hl => exact absurd rfl hl.2
  | debugAbort _ _ hl => rcases hl with h | h <;> cases h
  | guest site core' hc hexit' =>
    cases hi with
    | waits state vcore core hon hcore =>
      cases hc
      cases hcore with
      | run _ hcore hexit =>
        rcases hcore with h | h | h <;> cases h
        exact .waits _ _ _ hon (.run _ (.inr (.inl rfl)) (hexit'.trans hexit))
    | starts state vcore core hon hcore =>
      cases hc
      rcases hcore with h | ⟨_, _, _, h⟩ <;> cases h
    | runs vcore core hon hcore hexit =>
      cases hc
      rcases hcore with h | h <;> cases h
      exact .runs _ _ hon (.inr rfl) (hexit'.trans hexit)
    | stepAsked vcore core hon hcore =>
      cases hc
      rcases hcore with h | h <;> cases h
    | stepBlocked | stepDone => cases hc
    | stepRuns vcore core hon hexit hcore =>
      cases hc
      rcases hcore with h | h | h | h | h <;> cases h
      exact .stepRuns _ _ hon (hexit'.trans hexit) (.inr (.inr (.inl rfl)))

theorem Showing.stepWake (hi : Showing a s) (h : Step s .stepWake s') : Showing a s' := by
  cases h.outcome with
  | same => exact hi
  | debugAbort _ _ hl => rcases hl with h | h <;> cases h
  | stepSeen hd hstate =>
    cases hi with
    | stepBlocked vcore hon hexit => exact .stepRuns _ _ hon hexit (.inl rfl)
    | waits | starts | runs | stepRuns | stepDone => cases hd
    | stepAsked => cases hstate
  | stepDone hd hstate =>
    cases hi with
    | stepDone vcore hon =>
      have hsignal : a.signal = .halt := by simp [HsmDebug.signal, hon]
      have hshow := Showing.waits (a := a) .halted vcore (.waiting .halt) (by simp [hsignal])
        (by rw [hsignal]; exact .there rfl)
      rwa [hsignal] at hshow
    | waits | starts | runs | stepAsked | stepBlocked => cases hd
    | stepRuns => cases hstate

theorem Showing.run (hi : Showing a s) (h : Run s t s') (ht : Lts.Every Internal t) :
    Showing a s' := by
  refine h.inv (Showing a) (fun s l s' hi hl hs => ?_) ht hi
  rcases hl with rfl | rfl | rfl
  · exact hi.core hs
  · exact hi.guest hs
  · exact hi.stepWake hs

-- ---------------------------------------------------------------------------
-- At rest
-- ---------------------------------------------------------------------------

inductive Rest : HsmDebug → CoreSys → Prop
  | halted (mode : HsmSignal) (vcore) :
    Rest ⟨mode, true⟩ ⟨⟨.halted, .halt, mode.toSignal, vcore⟩, .waiting .halt, .idle⟩
  | off (mode : HsmSignal) (vcore) (hmode : mode ≠ .start) :
    Rest ⟨mode, false⟩
      ⟨⟨mode.toSignal.toState, mode.toSignal, mode.toSignal, vcore⟩, .waiting mode.toSignal, .idle⟩
  | on (vcore core) (hcore : core = .instr .start ∨ core = .test .start)
      (hexit : vcore.atomicExitLoop = false) :
    Rest ⟨.start, false⟩ ⟨⟨.started, .start, .start, vcore⟩, core, .idle⟩

theorem Showing.rest (hi : Showing a s) (hq : Quiescent s) : Rest a s := by
  obtain ⟨hd, hq⟩ := hq
  cases hi with
  | waits state vcore core hon hcore =>
    rcases hq with hq | ⟨hin, hexit⟩
    · obtain rfl : core = .waiting a.signal := hq
      cases hcore with
      | run _ hcore => rcases hcore with h | h | h <;> cases h
      | other _ _ hne => exact absurd rfl hne
      | there hstate =>
        subst hstate
        obtain ⟨mode, halted⟩ := a
        cases halted with
        | true => exact .halted mode vcore
        | false => exact .off mode vcore fun h => hon (by rw [h]; rfl)
    · cases hcore with
      | run _ _ hexit' => cases hexit.symm.trans hexit'
      | fsm | other | there => cases hin
  | starts state vcore core hon hcore =>
    rcases hcore with rfl | ⟨signal, -, hne, rfl⟩
    · rcases hq with hq | ⟨hin, -⟩
      · cases hq
      · cases hin
    · rcases hq with hq | ⟨hin, -⟩
      · exact absurd (CoreLoc.waiting.inj hq) hne
      · cases hin
  | runs vcore core hon hcore hexit =>
    subst hon
    exact .on vcore core hcore hexit
  | stepAsked | stepBlocked | stepRuns | stepDone => cases hd

theorem Rest.showing (hi : Rest a s) : Showing a s := by
  cases hi with
  | halted mode vcore => exact .waits (a := ⟨mode, true⟩) _ _ _ nofun (.there rfl)
  | off mode vcore hmode =>
    refine .waits (a := ⟨mode, false⟩) _ _ _ (fun h => hmode ?_) (.there rfl)
    exact HsmSignal.toSignal_inj h
  | on vcore core hcore hexit => exact .runs _ _ rfl hcore hexit

theorem Rest.hsm (hi : Rest a s) (h : Step s (.hsm signal) s') :
    Showing (a.apply (.hsm signal)) s' := by
  cases h with
  | hsm =>
    cases hi with
    | halted mode vcore =>
      cases signal <;> cases mode <;> exact (Rest.halted _ vcore).showing
    | off mode vcore hmode =>
      -- only a start is taken
      cases mode with
      | start => exact absurd rfl hmode
      | stop =>
        cases signal with
        | start => exact .starts _ _ _ rfl (.inr ⟨.stop, nofun, nofun, rfl⟩)
        | stop | suspend => exact (Rest.off .stop vcore nofun).showing
      | suspend =>
        cases signal with
        | start => exact .starts _ _ _ rfl (.inr ⟨.suspend, nofun, nofun, rfl⟩)
        | stop | suspend => exact (Rest.off .suspend vcore nofun).showing
    | on vcore core hcore hexit =>
      have hrun : core = .instr .start ∨ core = .test .start ∨ core = .left .start :=
        hcore.imp_right .inl
      cases signal with
      | start => exact .runs _ _ rfl hcore hexit
      | stop => exact .waits (a := ⟨.stop, false⟩) _ _ _ nofun (.run _ hrun rfl)
      | suspend => exact .waits (a := ⟨.suspend, false⟩) _ _ _ nofun (.run _ hrun rfl)

theorem Rest.halt (hi : Rest a s) (h : Step s .halt s') : Showing (a.apply .halt) s' := by
  cases h with
  | halt =>
    cases hi with
    | halted mode vcore => exact (Rest.halted mode vcore).showing
    | off mode vcore hmode =>
      cases mode with
      | start => exact absurd rfl hmode
      | stop => exact .waits (a := ⟨.stop, true⟩) _ _ _ nofun (.other _ nofun nofun)
      | suspend => exact .waits (a := ⟨.suspend, true⟩) _ _ _ nofun (.other _ nofun nofun)
    | on vcore core hcore hexit =>
      exact .waits (a := ⟨.start, true⟩) _ _ _ nofun (.run _ (hcore.imp_right .inl) rfl)

theorem Rest.signalContinue (hi : Rest a s) (h : Step s .continue s') :
    Showing (a.apply .continue) s' := by
  cases hi with
  | halted mode vcore =>
    cases h with
    | signalContinue _ _ h =>
      cases mode <;> cases h
      · exact .starts _ _ _ rfl (.inr ⟨.halt, nofun, nofun, rfl⟩)
      · exact .waits (a := ⟨.stop, false⟩) _ _ _ nofun (.other _ nofun nofun)
      · exact .waits (a := ⟨.suspend, false⟩) _ _ _ nofun (.other _ nofun nofun)
    | continueAbort _ _ h => cases mode <;> cases h
  | off mode vcore hmode =>
    cases h with
    | signalContinue _ _ h =>
      cases mode <;> cases h
      · exact absurd rfl hmode
      · exact (Rest.off .stop vcore nofun).showing
      · exact (Rest.off .suspend vcore nofun).showing
    | continueAbort _ _ h => cases mode <;> cases h
  | on vcore core hcore hexit =>
    cases h with
    | signalContinue _ _ h =>
      cases h
      exact .runs _ _ rfl hcore hexit
    | continueAbort _ _ h => cases h

theorem Rest.signalStep (hi : Rest a s) (hstate : s.ct.state = .halted) (h : Step s .step s') :
    Showing (a.apply .step) s' := by
  cases hi with
  | halted mode vcore =>
    cases h with
    | signalStep _ _ h =>
      cases h
      exact .stepAsked (a := ⟨mode, true⟩) _ _ rfl (.inr rfl)
    | stepAbort _ _ h => cases h
  | off mode vcore => cases mode <;> cases hstate
  | on => cases hstate

theorem Rest.call (hi : Rest a s) (hlegal : c = .step → s.ct.state = .halted)
    (h : Step s (callLabel c) s') : Showing (a.apply c) s' :=
  match c, hlegal, h with
  | .hsm _, _, h => hi.hsm h
  | .halt, _, h => hi.halt h
  | .continue, _, h => hi.signalContinue h
  | .step, hlegal, h => hi.signalStep (hlegal rfl) h

structure Shows (a : HsmDebug) (s : CoreSys) : Prop where
  halted : s.ct.state = .halted ↔ a.halted = true
  oldSignal : s.ct.oldSignal = a.mode.toSignal
  mode : a.halted = false → s.ct.state = a.mode.toSignal.toState

theorem Rest.shows (hi : Rest a s) : Shows a s := by
  cases hi with
  | halted mode vcore => exact ⟨iff_of_true rfl rfl, rfl, nofun⟩
  | off mode vcore hmode =>
    refine ⟨iff_of_false ?_ nofun, rfl, fun _ => rfl⟩
    cases mode <;> exact nofun
  | on => exact ⟨iff_of_false nofun nofun, rfl, fun _ => rfl⟩

-- ---------------------------------------------------------------------------
-- The threads come to rest
-- ---------------------------------------------------------------------------

def Settles (s : CoreSys) : Prop := ∃ s', SettlesTo s s'

theorem Quiescent.settles (h : Quiescent s) : Settles s := ⟨s, ⟨[], .nil, Lts.every_nil⟩, h⟩

theorem Settles.of_step (h : Settles s') (hs : Step s l s') (hl : Internal s l) : Settles s := by
  obtain ⟨s'', ⟨t, hrun, ht⟩, hq⟩ := h
  exact ⟨s'', ⟨(s, l) :: t, .cons hs hrun, Lts.every_cons.mpr ⟨hl, ht⟩⟩, hq⟩

theorem fsmSection_eq {ct : Cthread} (h1 : ct.signal ≠ .start) (h2 : ct.signal ≠ .step) :
    fsmSection ct = ({ ct with state := ct.signal.toState }, .waiting ct.signal) := by
  unfold fsmSection
  split
  · exact absurd ‹_› h1
  · exact absurd ‹_› h2
  · rw [waitSection, cthreadWaitOnSign_eq, if_pos rfl]

theorem waitSection_of_ne {ct : Cthread} (h : ct.signal ≠ signal) :
    waitSection signal ct = (ct, afterWait signal ct) := by
  rw [waitSection, cthreadWaitOnSign_eq, if_neg h]

section
variable {state : CthreadState} {signal oldSignal : CthreadSignal} {vcore : VCore}
variable {core : CoreLoc} {debug : DebugLoc}

theorem settles_fsm (h1 : signal ≠ .start) (h2 : signal ≠ .step) (hd : debug ≠ .aborted)
    (h : Settles ⟨⟨signal.toState, signal, oldSignal, vcore⟩, .waiting signal, debug⟩) :
    Settles ⟨⟨state, signal, oldSignal, vcore⟩, .fsm, debug⟩ := by
  have hs := Step.fsm (s := ⟨⟨state, signal, oldSignal, vcore⟩, .fsm, debug⟩) ⟨nofun, hd⟩ rfl
  rw [fsmSection_eq h1 h2] at hs
  exact h.of_step hs (.inl rfl)

theorem settles_waiting {signal' : CthreadSignal} (h1 : signal' ≠ .step) (h2 : signal ≠ signal')
    (hd : debug ≠ .aborted) (h : Settles ⟨⟨state, signal, oldSignal, vcore⟩, .fsm, debug⟩) :
    Settles ⟨⟨state, signal, oldSignal, vcore⟩, .waiting signal', debug⟩ := by
  have hs := Step.wake (s := ⟨⟨state, signal, oldSignal, vcore⟩, .waiting signal', debug⟩) signal'
    ⟨nofun, hd⟩ rfl
  rw [waitSection_of_ne h2, afterWait_of_ne h1] at hs
  exact h.of_step hs (.inl rfl)

theorem settles_run {site : RunSite} (hexit : vcore.atomicExitLoop = true) (hd : debug ≠ .aborted)
    (hcore : core = .instr site ∨ core = .test site ∨ core = .left site)
    (h : Settles ⟨⟨state, signal, oldSignal, vcore⟩, .fsm, debug⟩) :
    Settles ⟨⟨state, signal, oldSignal, vcore⟩, core, debug⟩ := by
  have hleft : Settles ⟨⟨state, signal, oldSignal, vcore⟩, .left site, debug⟩ := by
    have hs := Step.lock (s := ⟨⟨state, signal, oldSignal, vcore⟩, .left site, debug⟩) site
      ⟨by rintro ⟨⟩, hd⟩ rfl
    have hsec : leftSection site ⟨state, signal, oldSignal, vcore⟩ = .fsm := by
      cases site with
      | start => simp [leftSection, hexit]
      | step => rfl
    rw [hsec] at hs
    exact h.of_step hs (.inl rfl)
  have htest : Settles ⟨⟨state, signal, oldSignal, vcore⟩, .test site, debug⟩ := by
    have hs := Step.test (s := ⟨⟨state, signal, oldSignal, vcore⟩, .test site, debug⟩) site
      ⟨by rintro ⟨⟩, hd⟩ rfl
    simp only [hexit, ite_true] at hs
    exact hleft.of_step hs (.inl rfl)
  rcases hcore with rfl | rfl | rfl
  · exact htest.of_step
      (Step.guest (s := ⟨⟨state, signal, oldSignal, vcore⟩, .instr site, debug⟩) site vcore
        ⟨by rintro ⟨⟩, hd⟩ rfl rfl) (.inr (.inl rfl))
  · exact htest
  · exact hleft

end

theorem Showing.settles_waits {a : HsmDebug} {state vcore core} (hon : a.signal ≠ .start)
    (hcore : ToWait a.signal state vcore.atomicExitLoop core) :
    Settles ⟨⟨state, a.signal, a.mode.toSignal, vcore⟩, core, .idle⟩ := by
  have hfsm (state) : Settles ⟨⟨state, a.signal, a.mode.toSignal, vcore⟩, .fsm, .idle⟩ :=
    settles_fsm hon (signal_ne_step a) nofun (Quiescent.settles ⟨rfl, .inl rfl⟩)
  cases hcore with
  | run _ hcore hexit => exact settles_run hexit nofun hcore (hfsm _)
  | fsm => exact hfsm _
  | other signal hstep hne => exact settles_waiting hstep hne.symm nofun (hfsm _)
  | there => exact Quiescent.settles ⟨rfl, .inl rfl⟩

theorem Showing.settles_stepRuns {a : HsmDebug} {state vcore core}
    (hexit : vcore.atomicExitLoop = true)
    (hcore : core = .waiting .step ∨ core = .instr .step ∨ core = .test .step ∨
      core = .left .step ∨ core = .fsm) :
    Settles ⟨⟨state, .halt, a.mode.toSignal, vcore⟩, core, .stepHalted⟩ := by
  have hdone : Settles ⟨⟨.halted, .halt, a.mode.toSignal, vcore⟩, .waiting .halt, .stepHalted⟩ := by
    refine Settles.of_step (Quiescent.settles ⟨rfl, .inl rfl⟩)
      (Step.stepWake (s := ⟨_, _, .stepHalted⟩) ⟨nofun, nofun⟩ (.inr rfl)) (.inr (.inr rfl))
  have hfsm : Settles ⟨⟨state, .halt, a.mode.toSignal, vcore⟩, .fsm, .stepHalted⟩ :=
    settles_fsm nofun nofun nofun hdone
  have hrun {core} (h : core = .instr .step ∨ core = .test .step ∨ core = .left .step) :
      Settles ⟨⟨state, .halt, a.mode.toSignal, vcore⟩, core, .stepHalted⟩ :=
    settles_run hexit nofun h hfsm
  rcases hcore with rfl | rfl | rfl | rfl | rfl
  · -- the core runs one instruction only if it was on
    generalize a.mode = mode at *
    cases mode with
    | start => exact (hrun (.inl rfl)).of_step (.wake .step ⟨nofun, nofun⟩ rfl) (.inl rfl)
    | stop | suspend => exact hfsm.of_step (.wake .step ⟨nofun, nofun⟩ rfl) (.inl rfl)
  · exact hrun (.inl rfl)
  · exact hrun (.inr (.inl rfl))
  · exact hrun (.inr (.inr rfl))
  · exact hfsm

theorem Showing.settles_stepBlocked {a : HsmDebug} {vcore}
    (hexit : vcore.atomicExitLoop = true) :
    Settles ⟨⟨.stepping, .step, a.mode.toSignal, vcore⟩, .waiting .step, .stepStepping⟩ :=
  (settles_stepRuns hexit (.inl rfl)).of_step
    (.stepWake (s := ⟨_, _, .stepStepping⟩) ⟨nofun, nofun⟩ (.inl rfl)) (.inr (.inr rfl))

theorem Showing.settles (hi : Showing a s) : Settles s := by
  cases hi with
  | waits state vcore core hon hcore => exact settles_waits hon hcore
  | starts state vcore core hon hcore =>
    have hfsm : Settles ⟨⟨state, .start, .start, vcore⟩, .fsm, .idle⟩ :=
      Settles.of_step (Quiescent.settles ⟨rfl, .inr ⟨rfl, rfl⟩⟩) (.fsm ⟨nofun, nofun⟩ rfl)
        (.inl rfl)
    rcases hcore with rfl | ⟨signal, hstep, hne, rfl⟩
    · exact hfsm
    · exact settles_waiting hstep hne.symm nofun hfsm
  | runs vcore core hon hcore hexit =>
    refine Quiescent.settles ⟨rfl, .inr ⟨?_, hexit⟩⟩
    rcases hcore with rfl | rfl <;> rfl
  | stepAsked vcore core hon hcore =>
    have hfsm : Settles ⟨⟨.halted, .step, a.mode.toSignal, vcore⟩, .fsm, .stepStepping⟩ :=
      (settles_stepBlocked rfl).of_step (.fsm ⟨nofun, nofun⟩ rfl) (.inl rfl)
    rcases hcore with rfl | rfl
    · exact hfsm
    · exact settles_waiting nofun nofun nofun hfsm
  | stepBlocked vcore hon hexit => exact settles_stepBlocked hexit
  | stepRuns vcore core hon hexit hcore => exact settles_stepRuns hexit hcore
  | stepDone vcore hon =>
    exact Settles.of_step (Quiescent.settles ⟨rfl, .inl rfl⟩)
      (Step.stepWake (s := ⟨_, _, .stepHalted⟩) ⟨nofun, nofun⟩ (.inr rfl)) (.inr (.inr rfl))

-- ---------------------------------------------------------------------------
-- Refinement
-- ---------------------------------------------------------------------------

theorem Rest.enabled (hi : Rest a s) (hlegal : c = .step → a.halted = true) :
    ∃ s', Step s (callLabel c) s' := by
  have ha : s.Alive ∧ s.debug = .idle := by
    cases hi with
    | halted | off => exact ⟨⟨nofun, nofun⟩, rfl⟩
    | on _ core hcore => exact ⟨⟨by rcases hcore with rfl | rfl <;> exact nofun, nofun⟩, rfl⟩
  match c, hlegal with
  | .hsm signal, _ => exact ⟨_, .hsm ha.1 signal⟩
  | .halt, _ => exact ⟨_, .halt ha.1⟩
  | .continue, _ =>
    cases h : cthreadSignalContinue s.ct with
    | ok ct => exact ⟨_, .signalContinue ha.1 ha.2 h⟩
    | error e => exact ⟨_, .continueAbort ha.1 ha.2 h⟩
  | .step, _ =>
    cases h : cthreadSignalStep s.ct with
    | ok ct => exact ⟨_, .signalStep ha.1 ha.2 h⟩
    | error e => exact ⟨_, .stepAbort ha.1 ha.2 h⟩

theorem Rounds.rest (h : Rounds s₀ cs s) (h0 : Showing a s₀) :
    Rest (cs.foldl HsmDebug.apply a) s := by
  induction h with
  | boot h =>
    obtain ⟨⟨t, hrun, ht⟩, hq⟩ := h
    exact (h0.run hrun ht).rest hq
  | call h hlegal hcall hsettles ih =>
    obtain ⟨⟨t, hrun, ht⟩, hq⟩ := hsettles
    rw [List.foldl_append]
    exact ((ih.call hlegal hcall).run hrun ht).rest hq

theorem Rounds.extend (h : Rounds s₀ cs s) (hi : Rest a s) (hlegal : a.Legal cs') :
    ∃ s', Rounds s₀ (cs ++ cs') s' := by
  induction cs' generalizing cs s a with
  | nil => exact ⟨s, by rwa [List.append_nil]⟩
  | cons c cs' ih =>
    obtain ⟨s₁, hcall⟩ := hi.enabled hlegal.1
    have hstate : c = .step → s.ct.state = .halted := fun hc => hi.shows.halted.mpr (hlegal.1 hc)
    have hshow := hi.call hstate hcall
    obtain ⟨s₂, hsettles⟩ := hshow.settles
    obtain ⟨⟨t, hrun, ht⟩, hq⟩ := hsettles
    obtain ⟨s', h'⟩ := ih (.call h hstate hcall ⟨⟨t, hrun, ht⟩, hq⟩)
      ((hshow.run hrun ht).rest hq) hlegal.2
    exact ⟨s', by rwa [List.append_assoc] at h'⟩

/-- The record refines the machine over every sequence of calls, and every legal sequence can be
made: the threads come to rest after each call. -/
theorem rounds_refine (state : CthreadState) (init : Option VCoreInit) (ct : Cthread)
    (hinit : cthreadInit state init = .ok ct) :
    ∃ mode : HsmSignal, state = mode.toSignal.toState ∧
      (∀ cs s, Rounds ⟨ct, .fsm, .idle⟩ cs s → Shows (cs.foldl HsmDebug.apply ⟨mode, true⟩) s) ∧
      ∀ cs, HsmDebug.Legal ⟨mode, true⟩ cs → ∃ s, Rounds ⟨ct, .fsm, .idle⟩ cs s := by
  obtain ⟨mode, hstate, hct⟩ : ∃ mode : HsmSignal, state = mode.toSignal.toState ∧
      ct = ⟨.halted, .halt, mode.toSignal, vcoreInit init⟩ := by
    cases state <;> cases hinit
    · exact ⟨.start, rfl, rfl⟩
    · exact ⟨.stop, rfl, rfl⟩
    · exact ⟨.suspend, rfl, rfl⟩
  subst hct
  have h0 : Showing ⟨mode, true⟩ ⟨⟨.halted, .halt, mode.toSignal, vcoreInit init⟩, .fsm, .idle⟩ :=
    .waits (a := ⟨mode, true⟩) _ _ _ nofun .fsm
  refine ⟨mode, hstate, fun cs s h => (h.rest h0).shows, fun cs hlegal => ?_⟩
  obtain ⟨s, hsettles⟩ := h0.settles
  exact Rounds.extend (.boot hsettles) (Rounds.rest (.boot hsettles) h0) hlegal

theorem rounds_refine_stopped :
    ∃ mode : HsmSignal, CthreadState.stopped = mode.toSignal.toState ∧
      (∀ cs s, Rounds ⟨⟨.halted, .halt, .stop, vcoreInit none⟩, .fsm, .idle⟩ cs s →
        Shows (cs.foldl HsmDebug.apply ⟨mode, true⟩) s) ∧
      ∀ cs, HsmDebug.Legal ⟨mode, true⟩ cs →
        ∃ s, Rounds ⟨⟨.halted, .halt, .stop, vcoreInit none⟩, .fsm, .idle⟩ cs s :=
  rounds_refine .stopped none _ rfl

end CoreSys

end SwitchV32
