import SwitchV32.Cthread.Saved
import SwitchV32.Hsm.System

/-!
# The state that HSM is shown

What `cthread_get_hsm_state` answers in the states of a run. It hides three of
the four debugging states behind `old_signal`; `STATE_CONTINUE_PENDING` is shown
as it is. A start that is kept there, behind a continue that goes back to a
stop, is pending while the core shows itself stopped.
-/

namespace SwitchV32.CoreSys

def Starts (s : CoreSys) (l : CoreLabel) : Prop :=
  l = .core ∧ s.core = .fsm ∧ s.ct.signal = .start

/-- A start was kept or taken, no later request has replaced it and the core has not started. -/
def StartPending (t : List (CoreSys × CoreLabel)) : Prop :=
  ∃ t₁ s₁ t₂, t = t₁ ++ (s₁, .hsm .start) :: t₂ ∧ Requests s₁ (.hsm .start) ∧
    Lts.Every (fun s l => ¬ Requests s l ∧ ¬ Starts s l) t₂

/-- What the guest may rely on in the state `s` that the history `t` leads to. -/
structure ShowsHsm (t : List (CoreSys × CoreLabel)) (s : CoreSys) : Prop where
  standard : (cthreadGetHsmState s.ct).val.toNat ≤ 6
  pending : cthreadGetHsmState s.ct = .stopped ∨ cthreadGetHsmState s.ct = .suspended →
    ¬ StartPending t
  /-- `hart_start` leaves a core alone that a continue is about to resume. -/
  resuming : s.ct.state = .continuePending → s.ct.signal = .start →
    ∀ cores size cthread core args, cthread args.target = s.ct →
      hartStart cores size cthread core ≠ .init args

/-- A start that is kept too late for a continue that goes back to another mode. -/
def StartsLate (s : CoreSys) (l : CoreLabel) : Prop :=
  l = .hsm .start ∧ s.ct.state = .continuePending ∧ s.ct.signal ≠ .start ∧
    HsmSignal.start.save s.ct.oldSignal = true

instance (s l) : Decidable (StartsLate s l) := inferInstanceAs (Decidable (_ ∧ _))

-- ---------------------------------------------------------------------------
-- The invariant
-- ---------------------------------------------------------------------------

structure ShownInv (s : CoreSys) : Prop where
  oldSignal : ∃ mode : HsmSignal, s.ct.oldSignal = mode.toSignal
  signal : s.ct.signal = .stop ∨ s.ct.signal = .suspend → s.ct.oldSignal ≠ .start
  settled : s.ct.state = .stopped ∨ s.ct.state = .suspended → s.ct.oldSignal ≠ .start
  debugging : s.ct.state = .halted ∨ s.ct.state = .haltPending ∨ s.ct.state = .stepping →
    s.ct.signal = .halt ∨ s.ct.signal = .step

theorem Init.shownInv (h : Init s) : ShownInv s := by
  obtain ⟨oldSignal, hold, init, rfl⟩ := h.eq
  refine ⟨?_, by simp, by simp, fun _ => .inl rfl⟩
  obtain rfl | rfl | rfl := hold
  · exact ⟨.start, rfl⟩
  · exact ⟨.stop, rfl⟩
  · exact ⟨.suspend, rfl⟩

theorem ShownInv.step (hi : ShownInv s) (hl : ¬ StartsLate s l) (h : Step s l s') :
    ShownInv s' := by
  cases h.outcome with
  | same => exact hi
  | saved signal hstate hsave =>
    have hsettled : ¬ (s.ct.state = .stopped ∨ s.ct.state = .suspended) := by
      rintro (hs | hs) <;> rw [hs] at hstate <;> cases hstate
    refine ⟨⟨signal, rfl⟩, fun hsignal => ?_, fun h => absurd h hsettled, hi.debugging⟩
    cases signal with
    | stop | suspend => simp [HsmSignal.toSignal]
    | start =>
      -- only the late one finds the signal of a mode
      have hmode : ¬ (s.ct.signal = .halt ∨ s.ct.signal = .step) := by
        rintro (h | h) <;> rw [h] at hsignal <;> simp at hsignal
      refine absurd ⟨rfl, ?_, ?_, hsave⟩ hl
      · cases hs : s.ct.state <;> rw [hs] at hstate <;> try cases hstate
        · exact absurd (hi.debugging (.inl hs)) hmode
        · exact absurd (hi.debugging (.inr (.inr hs))) hmode
        · exact absurd (hi.debugging (.inr (.inl hs))) hmode
      · rintro h
        rw [h] at hsignal
        simp at hsignal
  | taken signal =>
    refine ⟨⟨signal, rfl⟩, ?_, ?_, ?_⟩
    · cases signal <;> simp [HsmSignal.toSignal]
    · rintro hs
      obtain h | h | h | h := signal.nextState_pending s.ct.state <;> simp [h] at hs
    · rintro hs
      obtain h | h | h | h := signal.nextState_pending s.ct.state <;> simp [h] at hs
  | halted => exact ⟨hi.oldSignal, by simp, by simp, fun _ => .inl rfl⟩
  | continued =>
    refine ⟨hi.oldSignal, ?_, by simp, by simp⟩
    rintro (h | h) hold <;> cases hold.symm.trans h
  | stepped hd hstate =>
    refine ⟨hi.oldSignal, by simp, ?_, fun _ => .inr rfl⟩
    rintro (h | h) <;> cases hstate.symm.trans h
  | debugAbort | stepDone | unblock | again | exited | locked | hotLoop | guest =>
    exact ⟨hi.oldSignal, hi.signal, hi.settled, hi.debugging⟩
  | stepSeen hd hstate =>
    refine ⟨hi.oldSignal, by simp, ?_, fun _ => .inl rfl⟩
    rintro (h | h) <;> cases hstate.symm.trans h
  | start hc hsignal =>
    exact ⟨hi.oldSignal, hi.signal, by simp, by simp⟩
  | blockStep hc hsignal =>
    exact ⟨hi.oldSignal, hi.signal, by simp, fun _ => .inr hsignal⟩
  | block hc =>
    refine ⟨hi.oldSignal, hi.signal, fun h => hi.signal ?_, fun h => ?_⟩
    · cases hs : s.ct.signal <;> simp [hs, CthreadSignal.toState] at h ⊢
    · cases hs : s.ct.signal <;> simp [hs, CthreadSignal.toState] at h ⊢

-- ---------------------------------------------------------------------------
-- What is shown
-- ---------------------------------------------------------------------------

theorem Step.takes (h : Step s (.hsm signal) s') (hleave : signal.leave s.ct.state = false) :
    s'.ct.oldSignal = signal.toSignal := by
  cases h with
  | hsm => simp [cthreadSignalHsm, hleave]

theorem StartPending.oldSignal (h : StartPending t) (hrun : Run s₀ t s) :
    s.ct.oldSignal = .start := by
  obtain ⟨t₁, s₁, t₂, ht, hreq, hafter⟩ := h
  obtain ⟨-, s₂, hstep, hrun'⟩ := hrun.split ht
  have hkept : s₂.ct.oldSignal = .start := by
    obtain ⟨signal, heq, hreq⟩ := hreq
    cases heq
    obtain hsaves | hleave := hreq
    · exact hstep.saves hsaves
    · exact hstep.takes hleave
  exact (Run.oldSignal hrun' fun e he => (hafter e he).1).trans hkept

theorem ShownInv.getHsmState (hi : ShownInv s) (hs : s.ct.state ≠ .continuePending) :
    (cthreadGetHsmState s.ct).val.toNat ≤ 6 ∧
      (cthreadGetHsmState s.ct = .stopped ∨ cthreadGetHsmState s.ct = .suspended →
        s.ct.oldSignal ≠ .start) := by
  obtain ⟨mode, hold⟩ := hi.oldSignal
  have hmode : mode.toSignal.toState.val.toNat ≤ 6 ∧
      (mode.toSignal.toState = .stopped ∨ mode.toSignal.toState = .suspended →
        mode.toSignal ≠ .start) := by
    cases mode <;> decide
  have hsettled := hi.settled
  unfold cthreadGetHsmState
  split
  case h_1 | h_2 | h_3 => rwa [hold]
  case h_4 h1 h2 h3 =>
    refine ⟨?_, hsettled⟩
    cases h : s.ct.state with
    | halted => exact absurd h h1
    | stepping => exact absurd h h2
    | haltPending => exact absurd h h3
    | continuePending => exact absurd h hs
    | _ => decide

theorem ShowsHsm.not_continuePending (h : ShowsHsm t s) : s.ct.state ≠ .continuePending := by
  intro hs
  have hstate : cthreadGetHsmState s.ct = .continuePending := by simp [cthreadGetHsmState, hs]
  have hle := h.standard
  rw [hstate] at hle
  exact absurd hle (by decide)

/-- In a run without starts that are kept too late, the states outside `STATE_CONTINUE_PENDING` and
no others are shown as HSM has it. -/
theorem showsHsm_iff {s₀ s : CoreSys} {t} (h0 : Init s₀) (hrun : Run s₀ t s)
    (ht : Lts.Every (¬ StartsLate · ·) t) : ShowsHsm t s ↔ s.ct.state ≠ .continuePending := by
  refine ⟨ShowsHsm.not_continuePending, fun hs => ?_⟩
  have hi : ShownInv s :=
    hrun.inv ShownInv (fun _ _ _ hi hl h => ShownInv.step hi hl h) ht h0.shownInv
  obtain ⟨hstandard, hsettled⟩ := hi.getHsmState hs
  exact ⟨hstandard, fun h hp => hsettled h (hp.oldSignal hrun), fun h => absurd h hs⟩

def stoppedSys : CoreSys := sysAt .halted .halt .stop false .fsm

/-- A start that comes while a stopped core is halted is pending, and the core shows itself
started; after the continue it is still pending, and the state of the continue is shown. -/
theorem showsHsm_iff_boot : ∃ t s s', Run stoppedSys t s ∧ s.ct.state = .halted ∧
    StartPending t ∧ cthreadGetHsmState s.ct = .started ∧ ShowsHsm t s ∧
    Step s .continue s' ∧ StartPending (t ++ [(s, .continue)]) ∧
    ¬ ShowsHsm (t ++ [(s, .continue)]) s' := by
  have h1 : Step stoppedSys .core (sysAt .halted .halt .stop false (.waiting .halt)) :=
    .fsm (sysAt_alive (by rintro ⟨⟩)) rfl
  have h2 : Step (sysAt .halted .halt .stop false (.waiting .halt)) (.hsm .start)
      (sysAt .halted .halt .start false (.waiting .halt)) :=
    .hsm (s := sysAt .halted .halt .stop false (.waiting .halt)) (sysAt_alive (by rintro ⟨⟩)) .start
  have h3 : Step (sysAt .halted .halt .start false (.waiting .halt)) .core
      (sysAt .halted .halt .start false (.waiting .halt)) :=
    .wake .halt (sysAt_alive (by rintro ⟨⟩)) rfl
  have h4 : Step (sysAt .halted .halt .start false (.waiting .halt)) .continue
      (sysAt .continuePending .start .start false (.waiting .halt)) :=
    .signalContinue (sysAt_alive (by rintro ⟨⟩)) rfl rfl
  have hrun := Lts.Run.cons h1 (.cons h2 (.one h3))
  have hinit : Init stoppedSys := ⟨.stopped, none, _, rfl, rfl⟩
  have hreq : Requests (sysAt .halted .halt .stop false (.waiting .halt)) (.hsm .start) :=
    ⟨.start, rfl, .inl ⟨rfl, rfl⟩⟩
  have hquiet (s : CoreSys) (l : CoreLabel) (hl : ∀ signal, l ≠ .hsm signal)
      (hs : s.core ≠ .fsm) : ¬ Requests s l ∧ ¬ Starts s l :=
    ⟨fun ⟨_, h, _⟩ => hl _ h, fun h => hs h.2.1⟩
  have hcore := hquiet (sysAt .halted .halt .start false (.waiting .halt)) .core
    (by rintro _ ⟨⟩) (by rintro ⟨⟩)
  have hcontinue := hquiet (sysAt .halted .halt .start false (.waiting .halt)) .continue
    (by rintro _ ⟨⟩) (by rintro ⟨⟩)
  refine ⟨_, _, _, hrun, rfl, ⟨[_], _, [_], rfl, hreq, ?_⟩, rfl, ?_, h4,
    ⟨[_], _, [_, _], rfl, hreq, ?_⟩, ?_⟩
  · exact Lts.every_cons.mpr ⟨hcore, Lts.every_nil⟩
  · exact (showsHsm_iff hinit hrun (by decide)).mpr (by rintro ⟨⟩)
  · exact Lts.every_cons.mpr ⟨hcore, Lts.every_cons.mpr ⟨hcontinue, Lts.every_nil⟩⟩
  · exact fun h => (showsHsm_iff hinit (hrun.snoc h4) (by decide)).mp h rfl

/-- Right after a continue the answer is 11, and `hart_start` begins with a core that the continue
is about to resume. A start that comes to a stopped core then is pending behind a core that shows
itself stopped. -/
theorem showsHsm_fails :
    (∃ t s, Run bootSys t s ∧ s.ct.state = .continuePending ∧ s.ct.signal = .start ∧
      (cthreadGetHsmState s.ct).val = 11 ∧ (∃ args, hartStart 1 4096 (fun _ => s.ct)
        ((vcoreInit none).setReg Reg.a7 0) = .init args) ∧ ¬ ShowsHsm t s) ∧
    ∃ t s, Run stoppedSys t s ∧ cthreadGetHsmState s.ct = .stopped ∧ StartPending t := by
  constructor
  · have h1 : Step bootSys .core (sysAt .halted .halt .start false (.waiting .halt)) :=
      .fsm (sysAt_alive (by rintro ⟨⟩)) rfl
    have h2 : Step (sysAt .halted .halt .start false (.waiting .halt)) .continue
        (sysAt .continuePending .start .start false (.waiting .halt)) :=
      .signalContinue (sysAt_alive (by rintro ⟨⟩)) rfl rfl
    exact ⟨_, _, .cons h1 (.one h2), rfl, rfl, rfl, ⟨_, rfl⟩, fun h => h.not_continuePending rfl⟩
  · have h1 : Step stoppedSys .core (sysAt .halted .halt .stop false (.waiting .halt)) :=
      .fsm (sysAt_alive (by rintro ⟨⟩)) rfl
    have h2 : Step (sysAt .halted .halt .stop false (.waiting .halt)) .continue
        (sysAt .continuePending .stop .stop true (.waiting .halt)) :=
      .signalContinue (sysAt_alive (by rintro ⟨⟩)) rfl rfl
    have h3 : Step (sysAt .continuePending .stop .stop true (.waiting .halt)) (.hsm .start)
        (sysAt .continuePending .stop .start true (.waiting .halt)) :=
      .hsm (sysAt_alive (by rintro ⟨⟩)) .start
    have h4 : Step (sysAt .continuePending .stop .start true (.waiting .halt)) .core
        (sysAt .continuePending .stop .start true .fsm) :=
      .wake .halt (sysAt_alive (by rintro ⟨⟩)) rfl
    have h5 : Step (sysAt .continuePending .stop .start true .fsm) .core
        (sysAt .stopped .stop .start true (.waiting .stop)) :=
      .fsm (sysAt_alive (by rintro ⟨⟩)) rfl
    refine ⟨_, _, .cons h1 (.cons h2 (.cons h3 (.cons h4 (.one h5)))), rfl, ?_⟩
    refine ⟨[_, _], _, [_, _], rfl, ⟨.start, rfl, .inl ⟨rfl, rfl⟩⟩, ?_⟩
    have hcore (s : CoreSys) : ¬ Requests s .core := by rintro ⟨_, ⟨⟩, -⟩
    rw [Lts.every_cons, Lts.every_cons]
    refine ⟨⟨hcore _, ?_⟩, ⟨hcore _, ?_⟩, Lts.every_nil⟩
    · rintro ⟨-, ⟨⟩, -⟩
    · rintro ⟨-, -, ⟨⟩⟩

end SwitchV32.CoreSys
