import SwitchV32.Cthread
import SwitchV32.Lts

/-!
# One core thread and its callers

The interleavings of `cthread.c` around one record: the core thread in
`cthread_fsm` and `vcore_run`, any callers of the HSM and halt signals, and one
debug thread. A step is a section that runs with the mutex held, one guest
instruction, or one exit test of `vcore_run`. A thread in a condition wait may
wake up at any time, as the standard allows, and then looks at the record again.
-/

namespace SwitchV32

inductive RunSite
  | start | step
  deriving DecidableEq, Repr

inductive CoreLoc
  /-- before the lock at the top of `cthread_fsm` -/
  | fsm
  /-- in the wait of `cthread_wait_on_sign(signal)` -/
  | waiting (signal : CthreadSignal)
  /-- in `vcore_run`, before an instruction -/
  | instr (site : RunSite)
  /-- in `vcore_run`, before the exit test -/
  | test (site : RunSite)
  /-- out of `vcore_run`, before the lock that follows -/
  | left (site : RunSite)
  /-- failed the assertion of the hot loop -/
  | aborted
  deriving DecidableEq, Repr

def CoreLoc.inRun : CoreLoc → Bool
  | .instr _ | .test _ => true
  | _ => false

inductive DebugLoc
  | idle
  /-- in the wait of `cthread_signal_step` for `STATE_STEPPING` -/
  | stepStepping
  /-- in its wait for `STATE_HALTED` -/
  | stepHalted
  /-- failed an assertion of a debug signal -/
  | aborted
  deriving DecidableEq, Repr

structure CoreSys where
  ct : Cthread
  core : CoreLoc
  debug : DebugLoc

-- ---------------------------------------------------------------------------
-- Sections of the threads
-- ---------------------------------------------------------------------------

/-- After the loop of `cthread_wait_on_sign`: only `STEP_S` goes on to run, if the core was on. -/
def afterWait (signal : CthreadSignal) (ct : Cthread) : CoreLoc :=
  if signal = .step ∧ ct.oldSignal = .start then .instr .step else .fsm

def waitSection (signal : CthreadSignal) (ct : Cthread) : Cthread × CoreLoc :=
  match cthreadWaitOnSign signal ct with
  | some ct => (ct, .waiting signal)
  | none => (ct, afterWait signal ct)

/-- `cthread_fsm` from its first lock to where it lets go of the mutex. -/
def fsmSection (ct : Cthread) : Cthread × CoreLoc :=
  match ct.signal with
  | .start => (cthreadEnterState .started (ct.setExit false), .instr .start)
  | .step => waitSection .step (ct.setExit true)
  | signal => waitSection signal ct

/-- The lock after `vcore_run`; only the branch of `START_S` has the assertion. -/
def leftSection (site : RunSite) (ct : Cthread) : CoreLoc :=
  match site with
  | .start => if ct.core.atomicExitLoop then .fsm else .aborted
  | .step => .fsm

/-- The debug thread after a wake-up in `cthread_signal_step`. -/
def stepWake (ct : Cthread) (debug : DebugLoc) : Cthread × DebugLoc :=
  match debug with
  | .stepStepping =>
    if ct.state = .stepping then ({ ct with signal := .halt }, .stepHalted)
    else (ct, .stepStepping)
  | .stepHalted => (ct, if ct.state = .halted then .idle else .stepHalted)
  | debug => (ct, debug)

-- ---------------------------------------------------------------------------
-- Steps
-- ---------------------------------------------------------------------------

inductive CoreLabel
  | hsm (signal : HsmSignal)
  | halt
  | continue
  | step
  /-- the debug thread wakes up -/
  | stepWake
  /-- the core thread runs a section or an exit test -/
  | core
  /-- the core thread executes an instruction -/
  | guest
  deriving DecidableEq, Repr

/-- A failed assertion ends the process. -/
def CoreSys.Alive (s : CoreSys) : Prop := s.core ≠ .aborted ∧ s.debug ≠ .aborted

def CoreSys.goto (s : CoreSys) (r : Cthread × CoreLoc) : CoreSys :=
  { s with ct := r.1, core := r.2 }

inductive CoreSys.Step : CoreSys → CoreLabel → CoreSys → Prop
  | hsm (ha : s.Alive) (signal) :
    Step s (.hsm signal) { s with ct := cthreadSignalHsm signal s.ct }
  | halt (ha : s.Alive) : Step s .halt { s with ct := cthreadSignalHalt s.ct }
  | signalContinue {ct : Cthread} (ha : s.Alive) (hd : s.debug = .idle)
      (h : cthreadSignalContinue s.ct = .ok ct) : Step s .continue { s with ct }
  | continueAbort (ha : s.Alive) (hd : s.debug = .idle)
      (h : cthreadSignalContinue s.ct = .error e) :
    Step s .continue { s with debug := .aborted }
  | signalStep {ct : Cthread} (ha : s.Alive) (hd : s.debug = .idle)
      (h : cthreadSignalStep s.ct = .ok ct) : Step s .step { s with ct, debug := .stepStepping }
  | stepAbort (ha : s.Alive) (hd : s.debug = .idle) (h : cthreadSignalStep s.ct = .error e) :
    Step s .step { s with debug := .aborted }
  | stepWake (ha : s.Alive) (hd : s.debug = .stepStepping ∨ s.debug = .stepHalted) :
    Step s .stepWake { s with ct := (stepWake s.ct s.debug).1, debug := (stepWake s.ct s.debug).2 }
  | fsm (ha : s.Alive) (hc : s.core = .fsm) : Step s .core (s.goto (fsmSection s.ct))
  | wake (signal) (ha : s.Alive) (hc : s.core = .waiting signal) :
    Step s .core (s.goto (waitSection signal s.ct))
  | test (site) (ha : s.Alive) (hc : s.core = .test site) :
    Step s .core
      (s.goto (s.ct, if s.ct.core.atomicExitLoop then .left site else .instr site))
  | lock (site) (ha : s.Alive) (hc : s.core = .left site) :
    Step s .core (s.goto (s.ct, leftSection site s.ct))
  /-- An instruction may change the core's record, but not the exit flag. -/
  | guest (site) (core : VCore) (ha : s.Alive) (hc : s.core = .instr site)
      (hexit : core.atomicExitLoop = s.ct.core.atomicExitLoop) :
    Step s .guest (s.goto ({ s.ct with core }, .test site))

-- ---------------------------------------------------------------------------
-- What a step does
-- ---------------------------------------------------------------------------

/-- The outcomes of a step, each with what it is conditional on. -/
inductive CoreSys.Outcome (s : CoreSys) : CoreLabel → CoreSys → Prop
  /-- a request that is ignored, a wake-up of the debug thread that changes nothing -/
  | same (l) (hl : l ≠ .core ∧ l ≠ .guest) : Outcome s l s
  | saved (signal : HsmSignal) (hstate : s.ct.state.debugging = true)
      (hsave : signal.save s.ct.oldSignal = true) :
    Outcome s (.hsm signal) { s with ct := { s.ct with oldSignal := signal.toSignal } }
  | taken (signal : HsmSignal) (hleave : signal.leave s.ct.state = false) :
    Outcome s (.hsm signal)
      { s with ct :=
        { s.ct with
          signal := signal.toSignal, oldSignal := signal.toSignal,
          state := signal.nextState s.ct.state
          core := { s.ct.core with atomicExitLoop := signal != HsmSignal.start } } }
  | halted (h1 : s.ct.state ≠ .halted) (h2 : s.ct.state ≠ .haltPending) :
    Outcome s .halt
      { s with ct :=
        { s.ct with
          signal := .halt, state := .haltPending
          core := { s.ct.core with atomicExitLoop := true } } }
  | continued (hd : s.debug = .idle) (hstate : s.ct.state = .halted ∨ s.ct.state = .haltPending)
      (h1 : s.ct.oldSignal ≠ .halt) (h2 : s.ct.oldSignal ≠ .step) :
    Outcome s .continue
      { s with ct :=
        { s.ct with
          signal := s.ct.oldSignal, state := .continuePending
          core := { s.ct.core with atomicExitLoop := s.ct.oldSignal != CthreadSignal.start } } }
  | stepped (hd : s.debug = .idle) (hstate : s.ct.state = .halted) :
    Outcome s .step
      { s with
        ct := { s.ct with signal := .step, core := { s.ct.core with atomicExitLoop := true } }
        debug := .stepStepping }
  | debugAbort (l) (hd : s.debug = .idle) (hl : l = .continue ∨ l = .step) :
    Outcome s l { s with debug := .aborted }
  | stepSeen (hd : s.debug = .stepStepping) (hstate : s.ct.state = .stepping) :
    Outcome s .stepWake { s with ct := { s.ct with signal := .halt }, debug := .stepHalted }
  | stepDone (hd : s.debug = .stepHalted) (hstate : s.ct.state = .halted) :
    Outcome s .stepWake { s with debug := .idle }
  | start (hc : s.core = .fsm) (hsignal : s.ct.signal = .start) :
    Outcome s .core
      { s with
        ct := { s.ct with state := .started, core := { s.ct.core with atomicExitLoop := false } }
        core := .instr .start }
  | blockStep (hc : s.core = .fsm) (hsignal : s.ct.signal = .step) :
    Outcome s .core
      { s with
        ct := { s.ct with state := .stepping, core := { s.ct.core with atomicExitLoop := true } }
        core := .waiting .step }
  | block (hc : s.core = .fsm ∧ s.ct.signal ≠ .start ∧ s.ct.signal ≠ .step ∨
        s.core = .waiting s.ct.signal) :
    Outcome s .core
      { s with ct := { s.ct with state := s.ct.signal.toState }, core := .waiting s.ct.signal }
  | unblock (signal) (hc : s.core = .waiting signal) (hsignal : s.ct.signal ≠ signal) :
    Outcome s .core { s with core := afterWait signal s.ct }
  | again (site) (hc : s.core = .test site) (hexit : s.ct.core.atomicExitLoop = false) :
    Outcome s .core { s with core := .instr site }
  | exited (site) (hc : s.core = .test site) (hexit : s.ct.core.atomicExitLoop = true) :
    Outcome s .core { s with core := .left site }
  | locked (site) (hc : s.core = .left site)
      (hexit : site = .start → s.ct.core.atomicExitLoop = true) :
    Outcome s .core { s with core := .fsm }
  | hotLoop (hc : s.core = .left .start) (hexit : s.ct.core.atomicExitLoop = false) :
    Outcome s .core { s with core := .aborted }
  | guest (site) (core : VCore) (hc : s.core = .instr site)
      (hexit : core.atomicExitLoop = s.ct.core.atomicExitLoop) :
    Outcome s .guest { s with ct := { s.ct with core }, core := .test site }

theorem CoreSys.Step.outcome (h : CoreSys.Step s l s') : s.Outcome l s' := by
  obtain ⟨ct, core, debug⟩ := s
  cases h with
  | hsm ha signal =>
    rcases cthreadSignalHsm_cases signal ct with h | ⟨h1, h2, h⟩ | ⟨h1, h⟩
    · simp only [h]
      exact .same _ ⟨nofun, nofun⟩
    · simp only [h]
      exact .saved signal h1 h2
    · simp only [h]
      exact .taken signal h1
  | halt =>
    rcases cthreadSignalHalt_cases ct with ⟨-, h⟩ | ⟨h1, h2, h⟩
    · simp only [h]
      exact .same _ ⟨nofun, nofun⟩
    · simp only [h]
      exact .halted h1 h2
  | signalContinue _ hd h =>
    rcases cthreadSignalContinue_cases h with ⟨-, -, rfl⟩ | ⟨h1, h2, h3, rfl⟩
    · exact .same _ ⟨nofun, nofun⟩
    · exact .continued hd h1 h2 h3
  | continueAbort _ hd => exact .debugAbort _ hd (.inl rfl)
  | stepAbort _ hd => exact .debugAbort _ hd (.inr rfl)
  | signalStep _ hd h =>
    obtain ⟨h1, rfl⟩ := cthreadSignalStep_cases h
    exact .stepped hd h1
  | stepWake _ hd =>
    rcases hd with hd | hd <;> cases hd <;> simp only [SwitchV32.stepWake]
    · split
      · exact .stepSeen rfl ‹_›
      · exact .same _ ⟨nofun, nofun⟩
    · split
      · exact .stepDone rfl ‹_›
      · exact .same _ ⟨nofun, nofun⟩
  | fsm _ hc =>
    cases hc
    simp only [goto, fsmSection, waitSection, cthreadWaitOnSign_eq]
    split
    · exact .start rfl ‹_›
    · rename_i hs
      obtain ⟨state, signal, oldSignal, vcore⟩ := ct
      cases hs
      exact .blockStep rfl rfl
    · simp only [ite_true]
      exact .block (.inl ⟨rfl, ‹_›, ‹_›⟩)
  | wake signal _ hc =>
    cases hc
    simp only [goto, waitSection, cthreadWaitOnSign_eq]
    by_cases hs : ct.signal = signal
    · subst hs
      simp only [ite_true]
      exact .block (.inr rfl)
    · simp only [hs, ite_false]
      exact .unblock signal rfl hs
  | test site _ hc =>
    cases hc
    cases he : ct.core.atomicExitLoop with
    | true => exact .exited site rfl he
    | false => exact .again site rfl he
  | lock site _ hc =>
    cases hc
    cases site with
    | start =>
      cases he : ct.core.atomicExitLoop with
      | true => simpa only [goto, leftSection, he] using .locked .start rfl fun _ => he
      | false => simpa only [goto, leftSection, he] using .hotLoop rfl he
    | step => exact .locked .step rfl fun h => nomatch h
  | guest site core _ hc hexit =>
    cases hc
    exact .guest site core rfl hexit

-- ---------------------------------------------------------------------------
-- What a step leaves alone
-- ---------------------------------------------------------------------------

def VCore.leaving (core : VCore) : VCore := { core with atomicExitLoop := true }

theorem VCore.leaving_eq {core : VCore} (h : core.atomicExitLoop = true) : core.leaving = core := by
  rw [leaving, ← h]

theorem VCore.regs_of_leaving {core core' : VCore} (h : core.leaving = core'.leaving) :
    core.regs = core'.regs := by
  have hregs : core.leaving.regs = core'.leaving.regs := by rw [h]
  exact hregs

theorem CoreSys.Step.leaving (h : CoreSys.Step s l s') (hl : l ≠ .guest) :
    s'.ct.core.leaving = s.ct.core.leaving := by
  cases h.outcome with
  | guest => exact absurd rfl hl
  | _ => rfl

theorem CoreSys.Step.regs (h : CoreSys.Step s l s') (hl : l ≠ .guest) :
    s'.ct.core.regs = s.ct.core.regs :=
  VCore.regs_of_leaving (h.leaving hl)

theorem CoreSys.Step.oldSignal_eq (h : CoreSys.Step s l s') (hl : ∀ signal, l ≠ .hsm signal) :
    s'.ct.oldSignal = s.ct.oldSignal := by
  cases h.outcome with
  | saved signal | taken signal => exact absurd rfl (hl signal)
  | _ => rfl

theorem CoreSys.Step.debug_eq (h : CoreSys.Step s l s')
    (hl : l ≠ .continue ∧ l ≠ .step ∧ l ≠ .stepWake) : s'.debug = s.debug := by
  cases h with
  | signalContinue | continueAbort => exact absurd rfl hl.1
  | signalStep | stepAbort => exact absurd rfl hl.2.1
  | stepWake => exact absurd rfl hl.2.2
  | _ => rfl

theorem CoreSys.Step.core_eq_instr (h : CoreSys.Step s l s') (hc : s.core = .instr site)
    (hl : l ≠ .guest) : s'.core = .instr site := by
  cases h with
  | fsm _ hc' | wake _ _ hc' | test _ _ hc' | lock _ _ hc' => cases hc.symm.trans hc'
  | guest => exact absurd rfl hl
  | _ => exact hc

-- ---------------------------------------------------------------------------
-- Runs
-- ---------------------------------------------------------------------------

/-- Just created, before the core thread takes its first lock. -/
def CoreSys.Init (s : CoreSys) : Prop :=
  ∃ state init ct, cthreadInit state init = .ok ct ∧ s = ⟨ct, .fsm, .idle⟩

theorem CoreSys.Init.eq (h : CoreSys.Init s) :
    ∃ oldSignal, (oldSignal = .start ∨ oldSignal = .stop ∨ oldSignal = .suspend) ∧
      ∃ init, s = ⟨⟨.halted, .halt, oldSignal, vcoreInit init⟩, .fsm, .idle⟩ := by
  obtain ⟨state, init, ct, hct, rfl⟩ := h
  cases state <;> cases hct
  · exact ⟨.start, .inl rfl, init, rfl⟩
  · exact ⟨.stop, .inr (.inl rfl), init, rfl⟩
  · exact ⟨.suspend, .inr (.inr rfl), init, rfl⟩

abbrev CoreSys.Run (s₀ : CoreSys) (t : List (CoreSys × CoreLabel)) (s : CoreSys) : Prop :=
  Lts.Run CoreSys.Step s₀ t s

end SwitchV32
