import SwitchV32.Cthread.StepReturns

/-!
# No wake-up is lost

The same threads with condition variables that wake a thread only when they are
signalled. A signal that finds nobody waiting is gone, so a section that changes
what a blocked thread waits for has to signal its condition. All of them do:
a thread that stays blocked has nothing to see. The core thread and the debug
thread are blocked together only after a halt that the debug thread did not see.
-/

namespace SwitchV32

-- ---------------------------------------------------------------------------
-- Signals of the conditions
-- ---------------------------------------------------------------------------

def CoreLoc.isWaiting : CoreLoc → Bool
  | .waiting _ => true
  | _ => false

def DebugLoc.isWaiting : DebugLoc → Bool
  | .stepStepping | .stepHalted => true
  | _ => false

namespace CoreSys

def condSignal (s : CoreSys) : CoreLabel → Bool
  | .hsm signal => !signal.leave s.ct.state
  | .halt => s.ct.state != .halted && s.ct.state != .haltPending
  | .continue =>
    (s.ct.state == .halted || s.ct.state == .haltPending) &&
      (s.ct.oldSignal != .halt && s.ct.oldSignal != .step)
  | .step => s.ct.state == .halted
  | .stepWake => s.debug == .stepStepping && s.ct.state == .stepping
  | .core | .guest => false

def condState (s : CoreSys) : CoreLabel → Bool
  | .core =>
    match s.core with
    -- `cthread_enter_state` signals always, `cthread_wait_on_sign` for a state that is new
    | .fsm => s.ct.signal == .start || s.ct.state != s.ct.signal.toState
    | .waiting signal => s.ct.signal == signal && s.ct.state != signal.toState
    | _ => false
  | _ => false

end CoreSys

/-- The threads, and which of them have been woken since they blocked. -/
structure WakeSys where
  sys : CoreSys
  coreWoken : Bool
  debugWoken : Bool

namespace WakeSys

def CoreBlocked (s : WakeSys) : Prop := s.sys.core.isWaiting = true ∧ s.coreWoken = false

def DebugBlocked (s : WakeSys) : Prop := s.sys.debug.isWaiting = true ∧ s.debugWoken = false

/-- After a step that leads to `n`. A thread that took the step itself is blocked again if it
waits, one that waits is woken by a signal of its condition. -/
def wake (s : WakeSys) (l : CoreLabel) (n : CoreSys) : WakeSys where
  sys := n
  coreWoken := l != .core && (s.coreWoken || s.sys.core.isWaiting && s.sys.condSignal l)
  debugWoken := l != .step && l != .stepWake &&
    (s.debugWoken || s.sys.debug.isWaiting && s.sys.condState l)

inductive Step : WakeSys → CoreLabel → WakeSys → Prop
  | step {s : WakeSys} {l : CoreLabel} {n : CoreSys} (h : CoreSys.Step s.sys l n)
      (hcore : l = .core → ¬ s.CoreBlocked) (hdebug : l = .stepWake → ¬ s.DebugBlocked) :
    Step s l (s.wake l n)

abbrev Run := Lts.Run Step

structure Start (s : WakeSys) : Prop where
  init : s.sys.Init
  coreWoken : s.coreWoken = false
  debugWoken : s.debugWoken = false

variable {s₀ s s' : WakeSys} {l : CoreLabel} {t : List (WakeSys × CoreLabel)}

theorem Step.sys (h : Step s l s') : CoreSys.Step s.sys l s'.sys := by
  cases h with
  | step h => exact h

/-- Without spurious wake-ups there are no new runs. -/
theorem run_sys (h : Run s₀ t s) : CoreSys.Run s₀.sys (t.map fun e => (e.1.sys, e.2)) s.sys :=
  h.map WakeSys.sys id fun _ _ _ hs => hs.sys

-- ---------------------------------------------------------------------------
-- What a blocked thread waits for
-- ---------------------------------------------------------------------------

def Acknowledged (s : CoreSys) : Prop :=
  s.core = .waiting s.ct.signal ∧ s.ct.state = s.ct.signal.toState

def Unanswered (s : CoreSys) : Prop :=
  (s.debug = .stepStepping → s.ct.state ≠ .stepping) ∧
    (s.debug = .stepHalted → s.ct.state ≠ .halted)

structure WakeInv (s : WakeSys) : Prop where
  core : s.CoreBlocked → Acknowledged s.sys
  debug : s.DebugBlocked → Unanswered s.sys

/-- A section that changes what is acknowledged signals `cond_signal`. -/
theorem Acknowledged.step {s n : CoreSys} (hi : Acknowledged s) (h : CoreSys.Step s l n)
    (hl : l ≠ .core) (hsignal : s.condSignal l = false) : Acknowledged n := by
  cases h.outcome with
  | same => exact hi
  | saved | debugAbort | stepDone => exact ⟨hi.1, hi.2⟩
  | taken signal hleave => simp [CoreSys.condSignal, hleave] at hsignal
  | halted h1 h2 => simp [CoreSys.condSignal, h1, h2] at hsignal
  | continued _ hstate h1 h2 => simp [CoreSys.condSignal, hstate, h1, h2] at hsignal
  | stepped _ hstate => simp [CoreSys.condSignal, hstate] at hsignal
  | stepSeen hd hstate => simp [CoreSys.condSignal, hd, hstate] at hsignal
  | guest site core hc => cases hi.1.symm.trans hc
  | _ => exact absurd rfl hl

theorem acknowledged_of_core {s n : CoreSys} (h : CoreSys.Step s .core n)
    (hw : n.core.isWaiting = true) : Acknowledged n := by
  cases h.outcome with
  | same _ hl => exact absurd rfl hl.1
  | blockStep hc hsignal => exact ⟨by simp [hsignal], by simp [hsignal, CthreadSignal.toState]⟩
  | block => exact ⟨rfl, rfl⟩
  | unblock signal =>
    simp only [afterWait] at hw
    split at hw <;> cases hw
  | debugAbort _ _ hl => rcases hl with hl | hl <;> cases hl
  | _ => cases hw

/-- A section that brings about a state signals `cond_state`. -/
theorem Unanswered.step {s n : CoreSys} (hi : Unanswered s) (h : CoreSys.Step s l n)
    (hl : l ≠ .step ∧ l ≠ .stepWake) (hw : s.debug.isWaiting = true)
    (hstate : s.condState l = false) : Unanswered n := by
  have hidle : s.debug ≠ .idle := by
    intro hd
    rw [hd] at hw
    cases hw
  cases h.outcome with
  | same => exact hi
  | saved | unblock | again | exited | locked | hotLoop | guest => exact ⟨hi.1, hi.2⟩
  | taken signal =>
    rcases signal.nextState_pending s.ct.state with h | h | h | h <;>
      exact ⟨fun _ => by simp [h], fun _ => by simp [h]⟩
  | halted => exact ⟨fun _ => by simp, fun _ => by simp⟩
  | continued hd | debugAbort _ hd => exact absurd hd hidle
  | stepped => exact absurd rfl hl.1
  | stepSeen | stepDone => exact absurd rfl hl.2
  | start hc hsignal => simp [CoreSys.condState, hc, hsignal] at hstate
  | blockStep hc hsignal =>
    -- the state was there before
    have hsame : s.ct.state = .stepping := by
      simpa [CoreSys.condState, hc, hsignal, CthreadSignal.toState] using hstate
    exact ⟨fun h => by simpa [hsame] using hi.1 h, fun _ => by simp⟩
  | block hc =>
    have hsame : s.ct.state = s.ct.signal.toState := by
      rcases hc with ⟨hc, hne, -⟩ | hc
      · simpa [CoreSys.condState, hc, hne] using hstate
      · simpa [CoreSys.condState, hc] using hstate
    exact ⟨fun h => by simpa [hsame] using hi.1 h, fun h => by simpa [hsame] using hi.2 h⟩

theorem unanswered_of_debug {s n : CoreSys} (h : CoreSys.Step s l n)
    (hl : l = .step ∨ l = .stepWake) : Unanswered n := by
  rcases hl with rfl | rfl
  · cases h with
    | signalStep _ _ h =>
      obtain ⟨hstate, rfl⟩ := cthreadSignalStep_cases h
      exact ⟨fun _ => by simp [hstate], fun h => nomatch h⟩
    | stepAbort => exact ⟨fun h => (nomatch h), fun h => nomatch h⟩
  · cases h with
    | stepWake _ hd =>
      rcases hd with hd | hd <;> simp only [Unanswered, SwitchV32.stepWake, hd] <;> split <;>
        simp_all

theorem core_of_waiting {s n : CoreSys} (h : CoreSys.Step s l n) (hl : l ≠ .core)
    (hw : n.core.isWaiting = true) : s.core = n.core := by
  cases h.outcome with
  | start | blockStep | block | unblock | again | exited | locked | hotLoop => exact absurd rfl hl
  | guest => cases hw
  | _ => rfl

theorem debug_of_waiting {s n : CoreSys} (h : CoreSys.Step s l n)
    (hl : l ≠ .step ∧ l ≠ .stepWake) (hw : n.debug.isWaiting = true) : s.debug = n.debug := by
  cases h.outcome with
  | stepped => exact absurd rfl hl.1
  | stepSeen | stepDone => exact absurd rfl hl.2
  | debugAbort => cases hw
  | _ => rfl

theorem WakeInv.step (hi : WakeInv s) (h : Step s l s') : WakeInv s' := by
  cases h with
  | step h =>
    constructor
    · rintro ⟨hw, hwoken⟩
      by_cases hl : l = .core
      · subst hl
        exact acknowledged_of_core h hw
      · have hcore := core_of_waiting h hl hw
        simp only [wake, ← hcore] at hw hwoken
        have hquiet : s.coreWoken = false ∧ s.sys.condSignal l = false := by
          simpa [hl, hw] using hwoken
        exact (hi.core ⟨hw, hquiet.1⟩).step h hl hquiet.2
    · rintro ⟨hw, hwoken⟩
      by_cases hl : l = .step ∨ l = .stepWake
      · exact unanswered_of_debug h hl
      · have hl := not_or.mp hl
        have hdebug := debug_of_waiting h hl hw
        simp only [wake, ← hdebug] at hw hwoken
        have hquiet : s.debugWoken = false ∧ s.sys.condState l = false := by
          simpa [hl.1, hl.2, hw] using hwoken
        exact (hi.debug ⟨hw, hquiet.1⟩).step h hl hw hquiet.2

theorem Start.wakeInv (h : Start s) : WakeInv s := by
  obtain ⟨_, _, _, hsys⟩ := h.init.eq
  constructor <;> rintro ⟨hw, -⟩ <;> rw [hsys] at hw <;> cases hw

-- ---------------------------------------------------------------------------
-- Who is blocked, and why
-- ---------------------------------------------------------------------------

/-- A step is under way as it should be, or the halt that the debug thread did not see has
happened. -/
theorem stepInv_or_lost {s n : CoreSys} (hi : CoreSys.StepInv s ∨ CoreSys.Lost s)
    (h : CoreSys.Step s l n) : CoreSys.StepInv n ∨ CoreSys.Lost n := by
  rcases hi with hi | hi
  · by_cases hl : CoreSys.HaltsUnseen s l
    · obtain ⟨rfl, hd, hstate⟩ := hl
      cases h with
      | halt =>
        refine .inr ⟨hd, .inr ?_, ?_⟩ <;> simp [cthreadSignalHalt, hstate]
    · exact .inl (hi.step hl h)
  · exact .inr (hi.step h)

/-- A step that is under way and not lost keeps one of the threads awake. -/
theorem awake_of_stepInv (hi : WakeInv s) (hstep : CoreSys.StepInv s.sys)
    (hcore : s.CoreBlocked) (hdebug : s.DebugBlocked) : False := by
  have hin : CoreSys.InStep s.sys := by
    have hw := hdebug.1
    unfold DebugLoc.isWaiting at hw
    split at hw
    · exact .inl ‹_›
    · exact .inr ‹_›
    · cases hw
  obtain ⟨hc, hstate⟩ := hi.core hcore
  obtain ⟨hstepping, hhalted⟩ := hi.debug hdebug
  cases hstep.phase hin with
  | asked hd hstate' hsignal =>
    rw [hstate', hsignal] at hstate
    cases hstate
  | acknowledged hd hstate' => exact hstepping hd hstate'
  | runs hd _ hsignal =>
    rw [hsignal] at hstate
    exact hhalted hd hstate
  | stopped hd hstate' => exact hhalted hd hstate'

/-- A core thread that stays blocked has acknowledged the last signal, and a debug thread that
stays blocked has not been answered. Both are blocked only in the deadlock that a halt leaves
behind which the debug thread did not see. -/
theorem no_lost_wakeup (h0 : Start s₀) (hrun : Run s₀ t s) :
    (s.CoreBlocked → Acknowledged s.sys) ∧ (s.DebugBlocked → Unanswered s.sys) ∧
      (s.CoreBlocked → s.DebugBlocked →
        CoreSys.Deadlock s.sys ∧ ∃ e ∈ t, CoreSys.HaltsUnseen e.1.sys e.2) := by
  have hi := hrun.inv_all WakeInv (fun _ _ _ hi hs => hi.step hs) h0.wakeInv
  refine ⟨hi.core, hi.debug, fun hcore hdebug => ⟨?_, ?_⟩⟩
  · have hsys := (run_sys hrun).inv_all (fun s => CoreSys.StepInv s ∨ CoreSys.Lost s)
      (fun _ _ _ hi hs => stepInv_or_lost hi hs) (.inl h0.init.stepInv)
    rcases hsys with hstep | hlost
    · exact (awake_of_stepInv hi hstep hcore hdebug).elim
    · obtain ⟨hc, -⟩ := hi.core hcore
      exact hlost.deadlock (hlost.signal ▸ hc)
  · by_contra hnone
    have hseen : Lts.Every (¬ CoreSys.HaltsUnseen · ·) (t.map fun e => (e.1.sys, e.2)) := by
      rintro e he hunseen
      obtain ⟨e', he', rfl⟩ := List.mem_map.mp he
      exact hnone ⟨e', he', hunseen⟩
    have hstep := (run_sys hrun).inv CoreSys.StepInv (fun _ _ _ hi hl hs => hi.step hl hs) hseen
      h0.init.stepInv
    exact awake_of_stepInv hi hstep hcore hdebug

-- ---------------------------------------------------------------------------
-- A run by computation
-- ---------------------------------------------------------------------------

instance (s : WakeSys) : Decidable s.CoreBlocked := inferInstanceAs (Decidable (_ ∧ _))

instance (s : WakeSys) : Decidable s.DebugBlocked := inferInstanceAs (Decidable (_ ∧ _))

def exec (core : VCore) (s : WakeSys) (l : CoreLabel) : Option WakeSys :=
  if (l = .core → ¬ s.CoreBlocked) ∧ (l = .stepWake → ¬ s.DebugBlocked) then
    (s.sys.exec core l).map (s.wake l)
  else none

theorem exec_step {core : VCore} (h : s.exec core l = some s') : Step s l s' := by
  simp only [exec] at h
  split at h
  · rename_i hblocked
    obtain ⟨n, hn, rfl⟩ := Option.map_eq_some_iff.mp h
    exact .step (CoreSys.exec_step hn) hblocked.1 hblocked.2
  · cases h

def bootWake : WakeSys := ⟨CoreSys.bootSys, false, false⟩

/-- The halt comes between the acknowledgement of a step and the wake-up of the debug thread,
which then blocks for good. -/
theorem no_lost_wakeup_boot : ∃ t s, Run bootWake t s ∧ s.CoreBlocked ∧ s.DebugBlocked ∧
    Acknowledged s.sys ∧ CoreSys.Deadlock s.sys := by
  obtain ⟨t, s, hrun, hcore, hdebug⟩ := Lts.exists_run
    (fun s l => s.exec (vcoreInit none) l) (s := bootWake)
    [.core, .step, .core, .core, .halt, .core, .guest, .core, .core, .core, .stepWake]
    (Q := fun _ s => s.CoreBlocked ∧ s.DebugBlocked) (by decide)
  have hrun := hrun.mono fun _ _ _ => exec_step
  obtain ⟨hack, -, hdead⟩ := no_lost_wakeup ⟨CoreSys.bootSys_init, rfl, rfl⟩ hrun
  exact ⟨t, s, hrun, hcore, hdebug, hack hcore, (hdead hcore hdebug).1⟩

end WakeSys

end SwitchV32
