import SwitchV32.Cthread.System

/-!
# Steps of a core thread by computation

The step relation of `Cthread.System` as a function, for runs that are computed.
An instruction is given by the core that it leaves.
-/

namespace SwitchV32.CoreSys

instance decidableAlive (s : CoreSys) : Decidable s.Alive :=
  inferInstanceAs (Decidable (s.core ≠ .aborted ∧ s.debug ≠ .aborted))

/-- A debug call that returns or waits as `debug` says, or fails its assertion. -/
def debugCall (s : CoreSys) (r : Except Stop Cthread) (debug : DebugLoc) : CoreSys :=
  match r with
  | .ok ct => { s with ct, debug }
  | .error _ => { s with debug := .aborted }

def execCore (s : CoreSys) : Option CoreSys :=
  match s.core with
  | .fsm => some (s.goto (fsmSection s.ct))
  | .waiting signal => some (s.goto (waitSection signal s.ct))
  | .test site => some (s.goto (s.ct, if s.ct.core.atomicExitLoop then .left site else .instr site))
  | .left site => some (s.goto (s.ct, leftSection site s.ct))
  | .instr _ | .aborted => none

def execAlive (s : CoreSys) (core : VCore) : CoreLabel → Option CoreSys
  | .hsm signal => some { s with ct := cthreadSignalHsm signal s.ct }
  | .halt => some { s with ct := cthreadSignalHalt s.ct }
  | .continue =>
    if s.debug = .idle then some (s.debugCall (cthreadSignalContinue s.ct) .idle) else none
  | .step =>
    if s.debug = .idle then some (s.debugCall (cthreadSignalStep s.ct) .stepStepping) else none
  | .stepWake =>
    if s.debug = .stepStepping ∨ s.debug = .stepHalted then
      some { s with ct := (SwitchV32.stepWake s.ct s.debug).1
                    debug := (SwitchV32.stepWake s.ct s.debug).2 }
    else none
  | .core => s.execCore
  | .guest =>
    match s.core with
    | .instr site =>
      let core := { core with atomicExitLoop := s.ct.core.atomicExitLoop }
      some (s.goto ({ s.ct with core }, .test site))
    | _ => none

def exec (s : CoreSys) (core : VCore) (l : CoreLabel) : Option CoreSys :=
  if s.Alive then s.execAlive core l else none

theorem execCore_step (ha : s.Alive) (h : s.execCore = some s') : Step s .core s' := by
  unfold execCore at h
  split at h <;> cases h
  · exact .fsm ha ‹_›
  · exact .wake _ ha ‹_›
  · exact .test _ ha ‹_›
  · exact .lock _ ha ‹_›

theorem exec_step {core : VCore} (h : s.exec core l = some s') : Step s l s' := by
  unfold exec at h
  split at h
  · rename_i ha
    cases l with
    | hsm signal =>
      cases h
      exact .hsm ha signal
    | halt =>
      cases h
      exact .halt ha
    | «continue» =>
      simp only [execAlive] at h
      split at h <;> cases h
      rename_i hd
      cases hct : cthreadSignalContinue s.ct with
      | ok ct =>
        have heq : s.debugCall (.ok ct) .idle = { s with ct } := by rw [debugCall, hd]
        rw [heq]
        exact .signalContinue ha hd hct
      | error e => exact .continueAbort ha hd hct
    | step =>
      simp only [execAlive] at h
      split at h <;> cases h
      rename_i hd
      cases hct : cthreadSignalStep s.ct with
      | ok ct => exact .signalStep ha hd hct
      | error e => exact .stepAbort ha hd hct
    | stepWake =>
      simp only [execAlive] at h
      split at h <;> cases h
      exact .stepWake ha ‹_›
    | core => exact execCore_step ha h
    | guest =>
      simp only [execAlive] at h
      split at h <;> cases h
      exact .guest _ _ ha ‹_› rfl
  · cases h

end SwitchV32.CoreSys
