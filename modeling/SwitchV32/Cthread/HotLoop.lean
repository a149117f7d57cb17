import SwitchV32.Cthread.Halt

/-!
# The assertion of the hot loop

The core thread tests the exit flag outside the mutex and asserts it after
locking. Only a continue clears the flag in between: one that is accepted in
`STATE_HALT_PENDING`, while the core has left the loop and not yet locked.
-/

namespace SwitchV32.CoreSys

/-- A continue that turns the flag off behind a core thread on its way to the lock. -/
structure ClearsBehind (s : CoreSys) (l : CoreLabel) : Prop where
  label : l = .continue
  state : s.ct.state = .haltPending
  oldSignal : s.ct.oldSignal = .start
  core : s.core = .left .start

/-- `HaltInv` with the two states in which a start clears the flag. -/
structure HotLoopInv (s : CoreSys) : Prop extends HaltInv s where
  stopped : s.ct.state = .stopped → s.core = .waiting .stop ∧ s.ct.signal = .stop
  suspended : s.ct.state = .suspended → s.core = .waiting .suspend ∧ s.ct.signal = .suspend
  left : s.core = .left .start → s.ct.core.atomicExitLoop = true
  core : s.core ≠ .aborted

theorem Init.hotLoopInv (h : Init s) : HotLoopInv s := by
  have hi := h.haltInv
  obtain ⟨oldSignal, hold, init, rfl⟩ := h.eq
  exact ⟨hi, (nomatch ·), (nomatch ·), (nomatch ·), (nomatch ·)⟩

theorem HotLoopInv.step (hi : HotLoopInv s) (hl : ¬ ClearsBehind s l) (h : Step s l s') :
    HotLoopInv s' := by
  have hinv := hi.toHaltInv.step h
  cases h.outcome with
  | same => exact hi
  | saved => exact ⟨hinv, hi.stopped, hi.suspended, hi.left, hi.core⟩
  | taken signal hleave =>
    refine ⟨hinv, ?_, ?_, fun hc => ?_, hi.core⟩
    · rcases signal.nextState_pending s.ct.state with h | h | h | h <;> simp [h]
    · rcases signal.nextState_pending s.ct.state with h | h | h | h <;> simp [h]
    · cases signal with
      | start =>
        -- a start is taken from a thread that waits
        exfalso
        cases hs : s.ct.state <;> rw [hs] at hleave <;> cases hleave
        · cases hc.symm.trans (hi.stopped hs).1
        · cases hc.symm.trans (hi.suspended hs).1
      | stop | suspend => rfl
  | halted => exact ⟨hinv, by rintro ⟨⟩, by rintro ⟨⟩, fun _ => rfl, hi.core⟩
  | continued hd hstate =>
    refine ⟨hinv, by rintro ⟨⟩, by rintro ⟨⟩, fun hc => ?_, hi.core⟩
    rcases hstate with hs | hs
    · rcases hi.halted hs with h | h <;> cases hc.symm.trans h
    · have hold : s.ct.oldSignal ≠ .start := fun hold => hl ⟨rfl, hs, hold, hc⟩
      simp [hold]
  | stepped hd hstate =>
    refine ⟨hinv, fun hs => ?_, fun hs => ?_, fun _ => rfl, hi.core⟩ <;>
      cases hstate.symm.trans hs
  | debugAbort | stepDone => exact ⟨hinv, hi.stopped, hi.suspended, hi.left, hi.core⟩
  | stepSeen hd hstate =>
    refine ⟨hinv, fun hs => ?_, fun hs => ?_, hi.left, hi.core⟩ <;> cases hstate.symm.trans hs
  | start | blockStep =>
    exact ⟨hinv, by rintro ⟨⟩, by rintro ⟨⟩, by rintro ⟨⟩, by rintro ⟨⟩⟩
  | block hc =>
    refine ⟨hinv, fun hs => ?_, fun hs => ?_, by rintro ⟨⟩, by rintro ⟨⟩⟩ <;>
      cases hsignal : s.ct.signal <;> simp_all [CthreadSignal.toState]
  | unblock signal hc hsignal =>
    refine ⟨hinv, fun hs => ?_, fun hs => ?_, fun h => ?_, fun h => ?_⟩
    · obtain ⟨h1, h2⟩ := hi.stopped hs
      cases hc.symm.trans h1
      exact absurd h2 hsignal
    · obtain ⟨h1, h2⟩ := hi.suspended hs
      cases hc.symm.trans h1
      exact absurd h2 hsignal
    · simp only [afterWait] at h
      split at h <;> cases h
    · simp only [afterWait] at h
      split at h <;> cases h
  | exited site hc hexit =>
    refine ⟨hinv, fun hs => ?_, fun hs => ?_, fun _ => hexit, by rintro ⟨⟩⟩
    · cases hc.symm.trans (hi.stopped hs).1
    · cases hc.symm.trans (hi.suspended hs).1
  | again site hc | locked site hc | guest site core hc =>
    refine ⟨hinv, fun hs => ?_, fun hs => ?_, by rintro ⟨⟩, by rintro ⟨⟩⟩
    · cases hc.symm.trans (hi.stopped hs).1
    · cases hc.symm.trans (hi.suspended hs).1
  | hotLoop hc hexit => cases hexit.symm.trans (hi.left hc)

/-- In a run without such a continue the flag is up whenever the core thread comes back to the
mutex, so that the assertion never fails. -/
theorem hotLoop_holds {s₀ s : CoreSys} {t} (h0 : Init s₀) (hrun : Run s₀ t s)
    (ht : Lts.Every (¬ ClearsBehind · ·) t) :
    s.core ≠ .aborted ∧ (s.core = .left .start → s.ct.core.atomicExitLoop = true) := by
  have hi := hrun.inv HotLoopInv (fun _ _ _ hi hl hs => hi.step hl hs) ht h0.hotLoopInv
  exact ⟨hi.core, hi.left⟩

/-- Halted and continued while the core is in an instruction, and halted again: the core comes back
to the mutex with the flag up, and goes on to the wait. -/
theorem hotLoop_holds_boot : ∃ t s s', Run bootSys t s ∧ (t.map Prod.snd).count .halt = 2 ∧
    (t.map Prod.snd).count .continue = 2 ∧ s.core = .left .start ∧
    s.ct.core.atomicExitLoop = true ∧ Step s .core s' ∧ s'.core = .fsm ∧ s'.core ≠ .aborted := by
  have h1 : Step bootSys .core (sysAt .halted .halt .start false (.waiting .halt)) :=
    .fsm (sysAt_alive nofun) rfl
  have h2 : Step (sysAt .halted .halt .start false (.waiting .halt)) .continue
      (sysAt .continuePending .start .start false (.waiting .halt)) :=
    .signalContinue (sysAt_alive nofun) rfl rfl
  have h3 : Step (sysAt .continuePending .start .start false (.waiting .halt)) .core
      (sysAt .continuePending .start .start false .fsm) := .wake .halt (sysAt_alive nofun) rfl
  have h4 : Step (sysAt .continuePending .start .start false .fsm) .core
      (sysAt .started .start .start false (.instr .start)) := .fsm (sysAt_alive nofun) rfl
  have h5 : Step (sysAt .started .start .start false (.instr .start)) .halt
      (sysAt .haltPending .halt .start true (.instr .start)) := .halt (sysAt_alive nofun)
  have h6 : Step (sysAt .haltPending .halt .start true (.instr .start)) .continue
      (sysAt .continuePending .start .start false (.instr .start)) :=
    .signalContinue (sysAt_alive nofun) rfl rfl
  have h7 : Step (sysAt .continuePending .start .start false (.instr .start)) .halt
      (sysAt .haltPending .halt .start true (.instr .start)) := .halt (sysAt_alive nofun)
  have h8 : Step (sysAt .haltPending .halt .start true (.instr .start)) .guest
      (sysAt .haltPending .halt .start true (.test .start)) :=
    .guest .start { vcoreInit none with atomicExitLoop := true } (sysAt_alive nofun) rfl rfl
  have h9 : Step (sysAt .haltPending .halt .start true (.test .start)) .core
      (sysAt .haltPending .halt .start true (.left .start)) := .test .start (sysAt_alive nofun) rfl
  have h10 : Step (sysAt .haltPending .halt .start true (.left .start)) .core
      (sysAt .haltPending .halt .start true .fsm) := .lock .start (sysAt_alive nofun) rfl
  have hrun := Lts.Run.cons h1 (.cons h2 (.cons h3 (.cons h4 (.cons h5 (.cons h6 (.cons h7
    (.cons h8 (.one h9))))))))
  -- the continues come to a core that has not left the loop
  have hbefore {s : CoreSys} (hs : s.core ≠ .left .start) : ¬ ClearsBehind s .continue :=
    fun h => hs h.core
  have hother {s : CoreSys} {l : CoreLabel} (hl : l ≠ .continue) : ¬ ClearsBehind s l :=
    fun h => hl h.label
  obtain ⟨-, hflag⟩ := hotLoop_holds bootSys_init hrun (by simp [hbefore, hother, sysAt])
  obtain ⟨hcore, -⟩ :=
    hotLoop_holds bootSys_init (hrun.snoc h10) (by simp [hbefore, hother, sysAt])
  exact ⟨_, _, _, hrun, rfl, rfl, rfl, hflag rfl, h10, rfl, hcore⟩

/-- Started, then halted: the core sees the flag and leaves the loop, a continue comes before it
locks, and the assertion fails. -/
theorem hotLoop_fails : ∃ s₀ t s, Init s₀ ∧ Run s₀ t s ∧ s.core = .aborted := by
  have h1 : Step bootSys .core (sysAt .halted .halt .start false (.waiting .halt)) :=
    .fsm (sysAt_alive nofun) rfl
  have h2 : Step (sysAt .halted .halt .start false (.waiting .halt)) .continue
      (sysAt .continuePending .start .start false (.waiting .halt)) :=
    .signalContinue (sysAt_alive nofun) rfl rfl
  have h3 : Step (sysAt .continuePending .start .start false (.waiting .halt)) .core
      (sysAt .continuePending .start .start false .fsm) := .wake .halt (sysAt_alive nofun) rfl
  have h4 : Step (sysAt .continuePending .start .start false .fsm) .core
      (sysAt .started .start .start false (.instr .start)) := .fsm (sysAt_alive nofun) rfl
  have h5 : Step (sysAt .started .start .start false (.instr .start)) .guest
      (sysAt .started .start .start false (.test .start)) :=
    .guest .start { vcoreInit none with atomicExitLoop := false } (sysAt_alive nofun) rfl rfl
  have h6 : Step (sysAt .started .start .start false (.test .start)) .halt
      (sysAt .haltPending .halt .start true (.test .start)) := .halt (sysAt_alive nofun)
  have h7 : Step (sysAt .haltPending .halt .start true (.test .start)) .core
      (sysAt .haltPending .halt .start true (.left .start)) := .test .start (sysAt_alive nofun) rfl
  have h8 : Step (sysAt .haltPending .halt .start true (.left .start)) .continue
      (sysAt .continuePending .start .start false (.left .start)) :=
    .signalContinue (sysAt_alive nofun) rfl rfl
  have h9 : Step (sysAt .continuePending .start .start false (.left .start)) .core
      (sysAt .continuePending .start .start false .aborted) :=
    .lock .start (sysAt_alive nofun) rfl
  exact ⟨bootSys, _, _, bootSys_init,
    .cons h1 (.cons h2 (.cons h3 (.cons h4 (.cons h5 (.cons h6 (.cons h7 (.cons h8 (.one h9)))))))),
    rfl⟩

end SwitchV32.CoreSys
