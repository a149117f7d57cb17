import SwitchV32.Cthread.Halt

/-!
# Saved requests

An HSM request that finds the core in a debugging state is kept in `old_signal`
for the continue that ends debugging. The continue copies it into `signal` when
it is accepted; a request that is kept after that, in `STATE_CONTINUE_PENDING`,
is read by no one.
-/

namespace SwitchV32

theorem HsmSignal.toSignal_inj {signal signal' : HsmSignal}
    (h : signal.toSignal = signal'.toSignal) : signal = signal' := by
  cases signal <;> cases signal' <;> first | rfl | cases h

theorem HsmSignal.ne_debugging {mode : HsmSignal} {signal : CthreadSignal}
    (h : signal = .halt ∨ signal = .step) : signal ≠ mode.toSignal := by
  rintro rfl
  cases mode <;> rcases h with h | h <;> cases h

namespace CoreSys

def Settled (s : CoreSys) (mode : HsmSignal) : Prop := s.ct.state = mode.toSignal.toState

def Saves (s : CoreSys) (signal : HsmSignal) : Prop :=
  s.ct.state.debugging = true ∧ signal.save s.ct.oldSignal = true

/-- A request that is kept too late for the continue that is under way. -/
def SavesLate (s : CoreSys) (l : CoreLabel) : Prop :=
  ∃ signal, l = .hsm signal ∧ s.ct.state = .continuePending ∧
    signal.save s.ct.oldSignal = true

/-- A request that is kept or taken, and so replaces the one before. -/
def Requests (s : CoreSys) (l : CoreLabel) : Prop :=
  ∃ signal, l = .hsm signal ∧ (Saves s signal ∨ signal.leave s.ct.state = false)

-- ---------------------------------------------------------------------------
-- The invariant
-- ---------------------------------------------------------------------------

structure SavedInv (s : CoreSys) : Prop where
  oldSignal : ∃ mode : HsmSignal, s.ct.oldSignal = mode.toSignal
  /-- Outside debugging the signal is the saved one. -/
  signal : ∀ mode : HsmSignal, s.ct.signal = mode.toSignal → s.ct.oldSignal = mode.toSignal
  settled : ∀ mode, Settled s mode → s.ct.signal = mode.toSignal
  /-- In the debugging states but the last the signal is a debugging one. -/
  debugging : s.ct.state = .halted ∨ s.ct.state = .haltPending ∨ s.ct.state = .stepping →
    s.ct.signal = .halt ∨ s.ct.signal = .step

theorem SavedInv.of_state {mode : HsmSignal} (hold : s.ct.oldSignal = mode.toSignal)
    (hsignal : s.ct.signal = mode.toSignal)
    (hstate : s.ct.state = .startPending ∨ s.ct.state = .resumePending ∨
      s.ct.state = .stopPending ∨ s.ct.state = .suspendPending ∨ s.ct.state = .continuePending) :
    SavedInv s where
  oldSignal := ⟨mode, hold⟩
  signal mode' h := by rw [hold, ← hsignal, h]
  settled mode' h := by
    rw [Settled] at h
    rw [h] at hstate
    cases mode' <;> simp [HsmSignal.toSignal, CthreadSignal.toState] at hstate
  debugging h := by rcases h with h | h | h <;> simp [h] at hstate

theorem Init.savedInv (h : Init s) : SavedInv s := by
  obtain ⟨oldSignal, hold, init, rfl⟩ := h.eq
  refine ⟨?_, fun mode h => ?_, fun mode h => ?_, fun _ => .inl rfl⟩
  · rcases hold with rfl | rfl | rfl
    · exact ⟨.start, rfl⟩
    · exact ⟨.stop, rfl⟩
    · exact ⟨.suspend, rfl⟩
  · cases mode <;> cases h
  · cases mode <;> cases h

theorem SavedInv.step (hi : SavedInv s) (hl : ¬ SavesLate s l) (h : Step s l s') :
    SavedInv s' := by
  cases h.outcome with
  | same => exact hi
  | saved signal hstate hsave =>
    have hdebug : s.ct.signal = .halt ∨ s.ct.signal = .step := by
      apply hi.debugging
      cases hs : s.ct.state <;> rw [hs] at hstate <;> try cases hstate
      · exact .inl rfl
      · exact .inr (.inr rfl)
      · exact .inr (.inl rfl)
      · exact absurd ⟨signal, rfl, hs, hsave⟩ hl
    exact ⟨⟨signal, rfl⟩, fun _ h => absurd h (HsmSignal.ne_debugging hdebug), hi.settled,
      hi.debugging⟩
  | taken signal =>
    refine SavedInv.of_state (show signal.toSignal = signal.toSignal from rfl) rfl ?_
    rcases signal.nextState_pending s.ct.state with h | h | h | h <;> simp [h]
  | halted =>
    refine ⟨hi.oldSignal, fun mode h => ?_, fun mode h => ?_, fun _ => .inl rfl⟩ <;>
      cases mode <;> cases h
  | continued =>
    obtain ⟨mode, hold⟩ := hi.oldSignal
    exact SavedInv.of_state hold hold (.inr (.inr (.inr (.inr rfl))))
  | stepped hd hstate =>
    refine ⟨hi.oldSignal, fun mode h => ?_, fun mode h => ?_, fun _ => .inr rfl⟩
    · cases mode <;> cases h
    · cases mode <;> cases hstate.symm.trans h
  | debugAbort | stepDone | unblock | again | exited | locked | hotLoop | guest =>
    exact ⟨hi.oldSignal, hi.signal, hi.settled, hi.debugging⟩
  | stepSeen hd hstate =>
    refine ⟨hi.oldSignal, fun mode h => ?_, fun mode h => ?_, fun _ => .inl rfl⟩
    · cases mode <;> cases h
    · cases mode <;> cases hstate.symm.trans h
  | start hc hsignal =>
    refine ⟨hi.oldSignal, hi.signal, fun mode h => ?_, fun h => ?_⟩
    · cases mode <;> first | exact hsignal | cases h
    · rcases h with h | h | h <;> cases h
  | blockStep hc hsignal =>
    refine ⟨hi.oldSignal, hi.signal, fun mode h => ?_, fun _ => .inr hsignal⟩
    cases mode <;> cases h
  | block hc =>
    -- the acknowledged state is that of the signal
    refine ⟨hi.oldSignal, hi.signal, fun mode h => ?_, fun h => ?_⟩
    · simp only [Settled] at h ⊢
      cases hs : s.ct.signal <;> rw [hs] at h <;> cases mode <;> first | rfl | cases h
    · cases hs : s.ct.signal with
      | halt => exact .inl rfl
      | step => exact .inr rfl
      | _ => simp [hs, CthreadSignal.toState] at h

theorem Step.oldSignal (h : Step s l s') (hl : ¬ Requests s l) :
    s'.ct.oldSignal = s.ct.oldSignal := by
  cases h.outcome with
  | saved signal hstate hsave => exact absurd ⟨signal, rfl, .inl ⟨hstate, hsave⟩⟩ hl
  | taken signal hleave => exact absurd ⟨signal, rfl, .inr hleave⟩ hl
  | _ => rfl

theorem Run.oldSignal (h : Run s t s') (ht : Lts.Every (¬ Requests · ·) t) :
    s'.ct.oldSignal = s.ct.oldSignal :=
  h.inv (fun s' => s'.ct.oldSignal = s.ct.oldSignal)
    (fun _ _ _ hi hl hs => (hs.oldSignal hl).trans hi) ht rfl

theorem Step.saves (h : Step s (.hsm signal) s') (hs : Saves s signal) :
    s'.ct.oldSignal = signal.toSignal := by
  cases h with
  | hsm =>
    have hleave : signal.leave s.ct.state = true := by
      have hstate := hs.1
      cases signal <;> cases h : s.ct.state <;> rw [h] at hstate <;> first | rfl | cases hstate
    simp only [cthreadSignalHsm, hs.1, hs.2, hleave, Bool.and_self, ite_true]

/-- In a run without late saves a settled core is in the mode that `old_signal` names, and a
saved request that no later one replaces is the mode in which the core settles. -/
theorem saved_holds {s₀ s : CoreSys} {t} (h0 : Init s₀) (hrun : Run s₀ t s)
    (ht : Lts.Every (¬ SavesLate · ·) t) :
    (∀ mode, Settled s mode → s.ct.oldSignal = mode.toSignal) ∧
    ∀ signal s₁ t' s₂, Saves s signal → s.ct.state ≠ .continuePending →
      Step s (.hsm signal) s₁ → Run s₁ t' s₂ → Lts.Every (¬ SavesLate · ·) t' →
      Lts.Every (¬ Requests · ·) t' → ∀ mode, Settled s₂ mode → mode = signal := by
  have hkeep {s l s'} (hi : SavedInv s) (hl : ¬ SavesLate s l) (h : Step s l s') :=
    hi.step hl h
  have hi := hrun.inv SavedInv (fun _ _ _ => hkeep) ht h0.savedInv
  refine ⟨fun mode h => hi.signal mode (hi.settled mode h), ?_⟩
  intro signal s₁ t' s₂ hsaves hstate hstep hrun' hlate hreq mode hsettled
  have hearly : ¬ SavesLate s (.hsm signal) := fun ⟨_, _, h, _⟩ => hstate h
  have hend := hrun'.inv SavedInv (fun _ _ _ => hkeep) hlate (hi.step hearly hstep)
  have hold : s₂.ct.oldSignal = signal.toSignal :=
    (Run.oldSignal hrun' hreq).trans (hstep.saves hsaves)
  have hmode := hend.signal mode (hend.settled mode hsettled)
  exact HsmSignal.toSignal_inj (hmode.symm.trans hold)

/-- A stop that comes while a started core is halted is what the core settles in after the
continue. -/
theorem saved_holds_boot : ∃ t s s₁ t₁ s₂, Run bootSys t s ∧ s.ct.state = .halted ∧
    Saves s .stop ∧ Step s (.hsm .stop) s₁ ∧ Run s₁ t₁ s₂ ∧
    t₁.map Prod.snd = [.continue, .core, .core] ∧ Settled s₂ .stop ∧
    s₂.ct.oldSignal = HsmSignal.stop.toSignal ∧ ∀ mode, Settled s₂ mode → mode = .stop := by
  have h1 : Step bootSys .core (sysAt .halted .halt .start false (.waiting .halt)) :=
    .fsm (sysAt_alive nofun) rfl
  have h2 : Step (sysAt .halted .halt .start false (.waiting .halt)) (.hsm .stop)
      (sysAt .halted .halt .stop false (.waiting .halt)) :=
    .hsm (s := sysAt .halted .halt .start false (.waiting .halt)) (sysAt_alive nofun) .stop
  have h3 : Step (sysAt .halted .halt .stop false (.waiting .halt)) .continue
      (sysAt .continuePending .stop .stop true (.waiting .halt)) :=
    .signalContinue (sysAt_alive nofun) rfl rfl
  have h4 : Step (sysAt .continuePending .stop .stop true (.waiting .halt)) .core
      (sysAt .continuePending .stop .stop true .fsm) := .wake .halt (sysAt_alive nofun) rfl
  have h5 : Step (sysAt .continuePending .stop .stop true .fsm) .core
      (sysAt .stopped .stop .stop true (.waiting .stop)) := .fsm (sysAt_alive nofun) rfl
  have hrun₁ := Lts.Run.one h1
  have hrun₂ := Lts.Run.cons h3 (.cons h4 (.one h5))
  have hearly (s : CoreSys) (hs : s.ct.state ≠ .continuePending) : ¬ SavesLate s (.hsm .stop) :=
    fun ⟨_, _, h, _⟩ => hs h
  have hother (s : CoreSys) (l : CoreLabel) (hl : ∀ signal, l ≠ .hsm signal) :
      ¬ SavesLate s l ∧ ¬ Requests s l :=
    ⟨fun ⟨_, h, _⟩ => hl _ h, fun ⟨_, h, _⟩ => hl _ h⟩
  have hcore (s : CoreSys) := hother s .core nofun
  have hcontinue (s : CoreSys) := hother s .continue nofun
  have hsettled : Settled (sysAt .stopped .stop .stop true (.waiting .stop)) .stop := rfl
  obtain ⟨-, hmode⟩ := saved_holds bootSys_init hrun₁ (by simp [hcore])
  obtain ⟨hold, -⟩ := saved_holds bootSys_init ((hrun₁.snoc h2).append hrun₂)
    (by simp [hcore, hcontinue, hearly, sysAt])
  have hsaves : Saves (sysAt .halted .halt .start false (.waiting .halt)) .stop := ⟨rfl, rfl⟩
  exact ⟨_, _, _, _, _, hrun₁, rfl, hsaves, h2, hrun₂, rfl, hsettled, hold .stop hsettled,
    hmode .stop _ _ _ hsaves nofun h2 hrun₂ (by simp [hcore, hcontinue])
      (by simp [hcore, hcontinue])⟩

/-- Continued from a halt; a stop comes before the core thread wakes up. It is kept, and the
core starts. -/
theorem saved_fails : ∃ s₀ t s, Init s₀ ∧ Run s₀ t s ∧ Settled s .start ∧
    s.ct.oldSignal = HsmSignal.stop.toSignal := by
  have h1 : Step bootSys .core (sysAt .halted .halt .start false (.waiting .halt)) :=
    .fsm (sysAt_alive nofun) rfl
  have h2 : Step (sysAt .halted .halt .start false (.waiting .halt)) .continue
      (sysAt .continuePending .start .start false (.waiting .halt)) :=
    .signalContinue (sysAt_alive nofun) rfl rfl
  have h3 : Step (sysAt .continuePending .start .start false (.waiting .halt)) (.hsm .stop)
      (sysAt .continuePending .start .stop false (.waiting .halt)) :=
    .hsm (s := sysAt .continuePending .start .start false (.waiting .halt))
      (sysAt_alive nofun) .stop
  have h4 : Step (sysAt .continuePending .start .stop false (.waiting .halt)) .core
      (sysAt .continuePending .start .stop false .fsm) := .wake .halt (sysAt_alive nofun) rfl
  have h5 : Step (sysAt .continuePending .start .stop false .fsm) .core
      (sysAt .started .start .stop false (.instr .start)) := .fsm (sysAt_alive nofun) rfl
  exact ⟨bootSys, _, _, bootSys_init, .cons h1 (.cons h2 (.cons h3 (.cons h4 (.one h5)))), rfl, rfl⟩

end CoreSys

end SwitchV32
