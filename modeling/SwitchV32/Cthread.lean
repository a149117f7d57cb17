import SwitchV32.Core

/-!
# Core threads

The record of `cthread.h` and the mutex-held sections of `cthread.c`, each as
one function on the record. The condition variables only wake threads, which
then look at the record again, so they are not part of it.
-/

namespace SwitchV32

inductive CthreadState
  | started | stopped | startPending | stopPending | suspended | suspendPending
  | resumePending | halted | stepping | haltPending | continuePending
  deriving DecidableEq, Repr

/-- The value of the enumerator; the first seven are those of SBI HSM. -/
def CthreadState.val : CthreadState → U32
  | .started => 0
  | .stopped => 1
  | .startPending => 2
  | .stopPending => 3
  | .suspended => 4
  | .suspendPending => 5
  | .resumePending => 6
  | .halted => 7
  | .stepping => 8
  | .haltPending => 10
  | .continuePending => 11

inductive CthreadSignal
  | start | stop | suspend | halt | step
  deriving DecidableEq, Repr

def CthreadSignal.toState : CthreadSignal → CthreadState
  | .start => .started
  | .stop => .stopped
  | .suspend => .suspended
  | .halt => .halted
  | .step => .stepping

structure Cthread where
  state : CthreadState
  /-- Sent to the core to run, stop or step it. -/
  signal : CthreadSignal
  /-- Restored when debugging ends. -/
  oldSignal : CthreadSignal
  core : VCore

@[simp] def Cthread.setExit (ct : Cthread) (b : Bool) : Cthread :=
  { ct with core := { ct.core with atomicExitLoop := b } }

-- ---------------------------------------------------------------------------
-- HSM signals
-- ---------------------------------------------------------------------------

inductive HsmSignal
  | start | stop | suspend
  deriving DecidableEq, Repr

def HsmSignal.toSignal : HsmSignal → CthreadSignal
  | .start => .start
  | .stop => .stop
  | .suspend => .suspend

def HsmSignal.save (signal : HsmSignal) (oldSignal : CthreadSignal) : Bool :=
  match signal with
  | .start => oldSignal == .stop || oldSignal == .suspend
  | .stop | .suspend => oldSignal == .start

def HsmSignal.leave (signal : HsmSignal) (state : CthreadState) : Bool :=
  match signal with
  | .start => state != .stopped && state != .suspended
  | .stop | .suspend => state != .started

def HsmSignal.nextState (signal : HsmSignal) (state : CthreadState) : CthreadState :=
  match signal with
  | .start => if state = .stopped then .startPending else .resumePending
  | .stop => .stopPending
  | .suspend => .suspendPending

theorem HsmSignal.nextState_pending (signal : HsmSignal) (state : CthreadState) :
    signal.nextState state = .startPending ∨ signal.nextState state = .resumePending ∨
      signal.nextState state = .stopPending ∨ signal.nextState state = .suspendPending := by
  cases signal <;> simp only [HsmSignal.nextState] <;> try split
  all_goals simp

def CthreadState.debugging : CthreadState → Bool
  | .halted | .haltPending | .continuePending | .stepping => true
  | _ => false

def cthreadSignalHsm (signal : HsmSignal) (ct : Cthread) : Cthread :=
  let state := ct.state
  -- when concurring with debugging just buffer the signal for later
  -- if the old state could accept the signal
  let saved : Cthread :=
    if state.debugging && signal.save ct.oldSignal then { ct with oldSignal := signal.toSignal }
    else ct
  if signal.leave state then saved
  else
    { saved with
      signal := signal.toSignal, oldSignal := signal.toSignal, state := signal.nextState state
    }.setExit (signal != HsmSignal.start)

def cthreadSignalStart (ct : Cthread) : Cthread := cthreadSignalHsm .start ct
def cthreadSignalStop (ct : Cthread) : Cthread := cthreadSignalHsm .stop ct
def cthreadSignalSuspend (ct : Cthread) : Cthread := cthreadSignalHsm .suspend ct

-- ---------------------------------------------------------------------------
-- Debug signals
-- ---------------------------------------------------------------------------

def cthreadSignalContinue (ct : Cthread) : Except Stop Cthread :=
  if ct.state ≠ .halted ∧ ct.state ≠ .haltPending then .ok ct
  else if ct.oldSignal = .halt ∨ ct.oldSignal = .step then .error .abort
  else
    .ok ({ ct with signal := ct.oldSignal, state := .continuePending }.setExit
      (ct.oldSignal != CthreadSignal.start))

def cthreadSignalHalt (ct : Cthread) : Cthread :=
  if ct.state = .halted ∨ ct.state = .haltPending then ct
  else { ct with signal := .halt, state := .haltPending }.setExit true

/-- `cthread_signal_step` up to its first wait. -/
def cthreadSignalStep (ct : Cthread) : Except Stop Cthread :=
  if ct.state ≠ .halted then .error .abort
  else .ok ({ ct with signal := .step }.setExit true)

def cthreadGetHsmState (ct : Cthread) : CthreadState :=
  match ct.state with
  | .halted | .stepping | .haltPending => ct.oldSignal.toState
  | state => state

-- ---------------------------------------------------------------------------
-- The core thread
-- ---------------------------------------------------------------------------

def cthreadEnterState (enteringState : CthreadState) (ct : Cthread) : Cthread :=
  { ct with state := enteringState }

/-- One turn of the loop of `cthread_wait_on_sign`, with the mutex held: the record that it waits
with, or `none` where the loop ends. -/
def cthreadWaitOnSign (signal : CthreadSignal) (ct : Cthread) : Option Cthread :=
  if ct.signal = signal then
    some (if ct.state ≠ signal.toState then { ct with state := signal.toState } else ct)
  else none

-- ---------------------------------------------------------------------------
-- What the sections do
-- ---------------------------------------------------------------------------

theorem cthreadSignalHsm_cases (signal : HsmSignal) (ct : Cthread) :
    cthreadSignalHsm signal ct = ct ∨
    (ct.state.debugging = true ∧ signal.save ct.oldSignal = true ∧
      cthreadSignalHsm signal ct = { ct with oldSignal := signal.toSignal }) ∨
    (signal.leave ct.state = false ∧ cthreadSignalHsm signal ct =
      { ct with
        signal := signal.toSignal, oldSignal := signal.toSignal,
        state := signal.nextState ct.state
        core := { ct.core with atomicExitLoop := signal != HsmSignal.start } }) := by
  simp only [cthreadSignalHsm]
  cases hs : ct.state.debugging && signal.save ct.oldSignal with
  | true =>
    have hleave : signal.leave ct.state = true := by
      cases signal <;> cases h : ct.state <;> simp_all [CthreadState.debugging, HsmSignal.leave]
    simp only [Bool.and_eq_true] at hs
    simp [hleave, hs]
  | false =>
    cases hl : signal.leave ct.state with
    | true => simp
    | false => simp

theorem cthreadSignalHalt_cases (ct : Cthread) :
    ((ct.state = .halted ∨ ct.state = .haltPending) ∧ cthreadSignalHalt ct = ct) ∨
    (ct.state ≠ .halted ∧ ct.state ≠ .haltPending ∧ cthreadSignalHalt ct =
      { ct with
        signal := .halt, state := .haltPending
        core := { ct.core with atomicExitLoop := true } }) := by
  unfold cthreadSignalHalt
  split
  · rename_i h
    exact .inl ⟨h, rfl⟩
  · rename_i h
    exact .inr ⟨fun h' => h (.inl h'), fun h' => h (.inr h'), rfl⟩

theorem cthreadSignalContinue_cases (h : cthreadSignalContinue ct = .ok ct') :
    (ct.state ≠ .halted ∧ ct.state ≠ .haltPending ∧ ct' = ct) ∨
    ((ct.state = .halted ∨ ct.state = .haltPending) ∧ ct.oldSignal ≠ .halt ∧
      ct.oldSignal ≠ .step ∧ ct' =
      { ct with
        signal := ct.oldSignal, state := .continuePending
        core := { ct.core with atomicExitLoop := ct.oldSignal != CthreadSignal.start } }) := by
  unfold cthreadSignalContinue at h
  split at h
  · rename_i hstate
    cases h
    exact .inl ⟨hstate.1, hstate.2, rfl⟩
  · rename_i hstate
    split at h
    · cases h
    · rename_i hold
      cases h
      refine .inr ⟨?_, fun h => hold (.inl h), fun h => hold (.inr h), rfl⟩
      by_contra hne
      exact hstate ⟨fun h => hne (.inl h), fun h => hne (.inr h)⟩

theorem cthreadSignalStep_cases (h : cthreadSignalStep ct = .ok ct') :
    ct.state = .halted ∧ ct' =
      { ct with signal := .step, core := { ct.core with atomicExitLoop := true } } := by
  unfold cthreadSignalStep at h
  split at h
  · cases h
  · rename_i hstate
    cases h
    exact ⟨not_not.mp hstate, rfl⟩

theorem cthreadWaitOnSign_eq (signal : CthreadSignal) (ct : Cthread) :
    cthreadWaitOnSign signal ct =
      if ct.signal = signal then some { ct with state := signal.toState } else none := by
  unfold cthreadWaitOnSign
  split
  · split
    · rfl
    · rename_i h
      rw [← not_not.mp h]
  · rfl

-- ---------------------------------------------------------------------------
-- Creation
-- ---------------------------------------------------------------------------

def cthreadInit (state : CthreadState) (init : Option VCoreInit) : Except Stop Cthread :=
  match state with
  | .started => .ok ⟨.halted, .halt, .start, vcoreInit init⟩
  | .stopped => .ok ⟨.halted, .halt, .stop, vcoreInit init⟩
  | .suspended => .ok ⟨.halted, .halt, .suspend, vcoreInit init⟩
  | _ => .error (.exit 1)

end SwitchV32
