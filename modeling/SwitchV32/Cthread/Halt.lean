import SwitchV32.Cthread.System

/-!
# A halt is never lost

While the record says `STATE_HALTED` the core thread is outside `vcore_run`,
and a halt that was requested stays in force until a continue or a step is
accepted, whatever the other harts ask for.
-/

namespace SwitchV32.CoreSys

-- ---------------------------------------------------------------------------
-- Every reachable state
-- ---------------------------------------------------------------------------

structure HaltInv (s : CoreSys) : Prop where
  halted : s.ct.state = .halted → s.core = .fsm ∨ s.core = .waiting .halt
  /-- A step in progress is the one reason for another signal. -/
  signal : s.ct.state = .halted → s.debug ≠ .stepStepping → s.ct.signal = .halt
  pending : s.ct.state = .haltPending →
    s.ct.signal = .halt ∧ s.ct.core.atomicExitLoop = true

theorem HaltInv.of_state (h1 : s.ct.state ≠ .halted) (h2 : s.ct.state ≠ .haltPending) :
    HaltInv s :=
  ⟨fun h => absurd h h1, fun h => absurd h h1, fun h => absurd h h2⟩

theorem Init.haltInv (h : Init s) : HaltInv s := by
  obtain ⟨oldSignal, hold, init, rfl⟩ := h.eq
  exact ⟨fun _ => .inl rfl, fun _ _ => rfl, fun h => nomatch h⟩

theorem HaltInv.step (hi : HaltInv s) (h : Step s l s') : HaltInv s' := by
  cases h.outcome with
  | same => exact hi
  | saved => exact ⟨hi.halted, hi.signal, hi.pending⟩
  | taken signal =>
    rcases signal.nextState_pending s.ct.state with h | h | h | h <;>
      exact .of_state (by simp [h]) (by simp [h])
  | halted => exact ⟨(nomatch ·), (nomatch ·), fun _ => ⟨rfl, rfl⟩⟩
  | continued => exact .of_state (by simp) (by simp)
  | stepped hd hstate =>
    exact ⟨hi.halted, fun _ hne => absurd rfl hne, fun h => nomatch hstate.symm.trans h⟩
  | debugAbort l hd =>
    refine ⟨hi.halted, fun h _ => hi.signal h ?_, hi.pending⟩
    simp [hd]
  | stepSeen hd hstate => exact .of_state (by simp [hstate]) (by simp [hstate])
  | stepDone hd hstate =>
    refine ⟨hi.halted, fun h _ => hi.signal h ?_, hi.pending⟩
    simp [hd]
  | start => exact .of_state (by simp) (by simp)
  | blockStep => exact .of_state (by simp) (by simp)
  | block hc =>
    -- of the signals that can be waited for, only `HALT_S` is acknowledged as `STATE_HALTED`
    cases hs : s.ct.signal with
    | halt => exact ⟨fun _ => .inr rfl, fun _ _ => hs, fun h => nomatch h⟩
    | _ => exact .of_state (by simp [CthreadSignal.toState]) (by simp [CthreadSignal.toState])
  | unblock signal hc =>
    refine ⟨fun h => .inl ?_, hi.signal, hi.pending⟩
    rcases hi.halted h with h | h <;> cases hc.symm.trans h
    rfl
  | again site hc | exited site hc | locked site hc | hotLoop hc =>
    refine ⟨fun h => ?_, hi.signal, hi.pending⟩
    rcases hi.halted h with h | h <;> cases hc.symm.trans h
  | guest site core hc hexit =>
    refine ⟨fun h => ?_, hi.signal, fun h => ⟨(hi.pending h).1, hexit.trans (hi.pending h).2⟩⟩
    rcases hi.halted h with h | h <;> cases hc.symm.trans h

theorem haltInv (h0 : Init s₀) (h : Run s₀ t s) : HaltInv s :=
  h.inv_all HaltInv (fun _ _ _ hi hs => hi.step hs) h0.haltInv

theorem HaltInv.not_inRun (hi : HaltInv s) (h : s.ct.state = .halted) : s.core.inRun = false := by
  rcases hi.halted h with h | h <;> rw [h] <;> rfl

-- ---------------------------------------------------------------------------
-- From a halt on
-- ---------------------------------------------------------------------------

def EndsHalt (s : CoreSys) (l : CoreLabel) : Prop :=
  (l = .continue ∧ (s.ct.state = .halted ∨ s.ct.state = .haltPending)) ∨
  (l = .step ∧ s.ct.state = .halted)

structure Halting (s : CoreSys) : Prop extends HaltInv s where
  state : s.ct.state = .halted ∨ s.ct.state = .haltPending
  debug : s.debug ≠ .stepStepping

theorem HaltInv.step_halt (hi : HaltInv s) (hd : s.debug = .idle) (h : Step s .halt s') :
    Halting s' := by
  refine ⟨hi.step h, ?_, ?_⟩
  · cases h with
    | halt =>
      rcases cthreadSignalHalt_cases s.ct with ⟨h, heq⟩ | ⟨-, -, heq⟩
      · simp only [heq, h]
      · simp only [heq, or_true]
  · cases h with
    | halt => simp [hd]

theorem Halting.step (hi : Halting s) (hl : ¬ EndsHalt s l) (h : Step s l s') :
    Halting s' ∧ (s.ct.state = .halted → s'.ct.state = .halted) := by
  have hinv := hi.toHaltInv.step h
  cases h.outcome with
  | same => exact ⟨hi, id⟩
  | saved => exact ⟨⟨hinv, hi.state, hi.debug⟩, id⟩
  | taken signal hleave =>
    -- HSM requests are not taken in either state
    exfalso
    rcases hi.state with h | h <;> rw [h] at hleave <;> cases signal <;> cases hleave
  | halted h1 h2 => exact absurd hi.state (not_or.mpr ⟨h1, h2⟩)
  | continued _ hstate => exact absurd (.inl ⟨rfl, hstate⟩) hl
  | stepped _ hstate => exact absurd (.inr ⟨rfl, hstate⟩) hl
  | debugAbort => exact ⟨⟨hinv, hi.state, (nomatch ·)⟩, id⟩
  | stepSeen hd => exact absurd hd hi.debug
  | stepDone => exact ⟨⟨hinv, hi.state, (nomatch ·)⟩, id⟩
  | start hc hsignal | blockStep hc hsignal =>
    -- the signal is still `HALT_S`
    exfalso
    rcases hi.state with h | h
    · cases hsignal.symm.trans (hi.signal h hi.debug)
    · cases hsignal.symm.trans (hi.pending h).1
  | block hc =>
    have hsignal : s.ct.signal = .halt := by
      rcases hi.state with h | h
      · exact hi.signal h hi.debug
      · exact (hi.pending h).1
    refine ⟨⟨hinv, .inl ?_, hi.debug⟩, fun _ => ?_⟩ <;> simp only [hsignal] <;> rfl
  | unblock | again | exited | locked | hotLoop | guest =>
    exact ⟨⟨hinv, hi.state, hi.debug⟩, id⟩

theorem Halting.run (hi : Halting s) (h : Run s t s') (ht : Lts.Every (¬ EndsHalt · ·) t) :
    Halting s' ∧ (s.ct.state = .halted → s'.ct.state = .halted) := by
  induction h with
  | nil => exact ⟨hi, id⟩
  | snoc _ hs ih =>
    rw [Lts.every_append, Lts.every_cons] at ht
    obtain ⟨hmid, hkeep⟩ := ih ht.1
    obtain ⟨hend, hkeep'⟩ := hmid.step ht.2.1 hs
    exact ⟨hend, fun h => hkeep' (hkeep h)⟩

/-- In every reachable state: a halted core is outside `vcore_run`, it stays there until a
continue or a step is accepted, and until then a requested halt keeps its signal and, inside
`vcore_run`, the exit flag. -/
theorem halt_holds {s₀ s : CoreSys} {t} (h0 : Init s₀) (hrun : Run s₀ t s) :
    (s.ct.state = .halted → s.core.inRun = false) ∧
    (s.ct.state = .halted → s.debug ≠ .stepStepping → ∀ t' s', Run s t' s' →
      Lts.Every (¬ EndsHalt · ·) t' → s'.core.inRun = false) ∧
    (s.debug = .idle → ∀ s₁ t' s₂, Step s .halt s₁ → Run s₁ t' s₂ →
      Lts.Every (¬ EndsHalt · ·) t' →
      s₂.ct.signal = .halt ∧ (s₂.core.inRun = true → s₂.ct.core.atomicExitLoop = true)) := by
  have hi := haltInv h0 hrun
  refine ⟨hi.not_inRun, fun hstate hd t' s' h ht => ?_, fun hd s₁ t' s₂ hs h ht => ?_⟩
  · obtain ⟨hend, hkeep⟩ := Halting.run ⟨hi, .inl hstate, hd⟩ h ht
    exact hend.not_inRun (hkeep hstate)
  · obtain ⟨hend, -⟩ := (hi.step_halt hd hs).run h ht
    rcases hend.state with hstate | hstate
    · refine ⟨hend.signal hstate hend.debug, fun hin => ?_⟩
      rw [hend.not_inRun hstate] at hin
      cases hin
    · exact ⟨(hend.pending hstate).1, fun _ => (hend.pending hstate).2⟩

def sysAt (state : CthreadState) (signal oldSignal : CthreadSignal) (atomicExitLoop : Bool)
    (core : CoreLoc) : CoreSys :=
  ⟨⟨state, signal, oldSignal, { vcoreInit none with atomicExitLoop }⟩, core, .idle⟩

theorem sysAt_alive {state signal oldSignal exit} {core : CoreLoc} (h : core ≠ .aborted) :
    (sysAt state signal oldSignal exit core).Alive :=
  ⟨h, (nomatch ·)⟩

def bootSys : CoreSys := sysAt .halted .halt .start false .fsm

theorem bootSys_init : Init bootSys := ⟨.started, none, _, rfl, rfl⟩

/-- Started, and halted in an instruction: the stop that comes before the instruction ends does not
replace the halt. The core thread then leaves the loop and waits, and wakes up for nothing. -/
theorem halt_holds_boot : ∃ t s s₁ t₁ s₂ t₂ s₃ t₃ s₄, Run bootSys t s ∧ s.core = .instr .start ∧
    Step s .halt s₁ ∧ Run s₁ t₁ s₂ ∧ t₁.map Prod.snd = [.hsm .stop, .guest] ∧
    s₂.core.inRun = true ∧ s₂.ct.signal = .halt ∧ s₂.ct.core.atomicExitLoop = true ∧
    Run s₂ t₂ s₃ ∧ s₃.ct.state = .halted ∧ Run s₃ t₃ s₄ ∧
    t₃.map Prod.snd = [.core, .hsm .start] ∧ s₄.core.inRun = false := by
  have h1 : Step bootSys .core (sysAt .halted .halt .start false (.waiting .halt)) :=
    .fsm (sysAt_alive nofun) rfl
  have h2 : Step (sysAt .halted .halt .start false (.waiting .halt)) .continue
      (sysAt .continuePending .start .start false (.waiting .halt)) :=
    .signalContinue (sysAt_alive nofun) rfl rfl
  have h3 : Step (sysAt .continuePending .start .start false (.waiting .halt)) .core
      (sysAt .continuePending .start .start false .fsm) := .wake .halt (sysAt_alive nofun) rfl
  have h4 : Step (sysAt .continuePending .start .start false .fsm) .core
      (sysAt .started .start .start false (.instr .start)) := .fsm (sysAt_alive nofun) rfl
  have hboot := Lts.Run.cons h1 (.cons h2 (.cons h3 (.one h4)))
  have hhalt : Step (sysAt .started .start .start false (.instr .start)) .halt
      (sysAt .haltPending .halt .start true (.instr .start)) := .halt (sysAt_alive nofun)
  have h5 : Step (sysAt .haltPending .halt .start true (.instr .start)) (.hsm .stop)
      (sysAt .haltPending .halt .stop true (.instr .start)) :=
    .hsm (s := sysAt .haltPending .halt .start true (.instr .start)) (sysAt_alive nofun) .stop
  have h6 : Step (sysAt .haltPending .halt .stop true (.instr .start)) .guest
      (sysAt .haltPending .halt .stop true (.test .start)) :=
    .guest .start { vcoreInit none with atomicExitLoop := true } (sysAt_alive nofun) rfl rfl
  have h7 : Step (sysAt .haltPending .halt .stop true (.test .start)) .core
      (sysAt .haltPending .halt .stop true (.left .start)) := .test .start (sysAt_alive nofun) rfl
  have h8 : Step (sysAt .haltPending .halt .stop true (.left .start)) .core
      (sysAt .haltPending .halt .stop true .fsm) := .lock .start (sysAt_alive nofun) rfl
  have h9 : Step (sysAt .haltPending .halt .stop true .fsm) .core
      (sysAt .halted .halt .stop true (.waiting .halt)) := .fsm (sysAt_alive nofun) rfl
  have h10 : Step (sysAt .halted .halt .stop true (.waiting .halt)) .core
      (sysAt .halted .halt .stop true (.waiting .halt)) := .wake .halt (sysAt_alive nofun) rfl
  have h11 : Step (sysAt .halted .halt .stop true (.waiting .halt)) (.hsm .start)
      (sysAt .halted .halt .start true (.waiting .halt)) :=
    .hsm (s := sysAt .halted .halt .stop true (.waiting .halt)) (sysAt_alive nofun) .start
  have hended := Lts.Run.cons h7 (.cons h8 (.one h9))
  have hquiet {s s' : CoreSys} (l l' : CoreLabel) (hl : l ≠ .continue ∧ l ≠ .step)
      (hl' : l' ≠ .continue ∧ l' ≠ .step) : Lts.Every (¬ EndsHalt · ·) [(s, l), (s', l')] := by
    simp [EndsHalt, hl, hl']
  obtain ⟨-, -, hpending⟩ := halt_holds bootSys_init hboot
  obtain ⟨hsignal, hexit⟩ := hpending rfl _ _ _ hhalt (.cons h5 (.one h6))
    (hquiet _ _ ⟨nofun, nofun⟩ ⟨nofun, nofun⟩)
  have hrun := (hboot.snoc hhalt).append ((Lts.Run.cons h5 (.one h6)).append hended)
  obtain ⟨-, hstays, -⟩ := halt_holds bootSys_init hrun
  exact ⟨_, _, _, _, _, _, _, _, _, hboot, rfl, hhalt, .cons h5 (.one h6), rfl, rfl, hsignal,
    hexit rfl, hended, rfl, .cons h10 (.one h11), rfl,
    hstays rfl nofun _ _ (.cons h10 (.one h11)) (hquiet _ _ ⟨nofun, nofun⟩ ⟨nofun, nofun⟩)⟩

end SwitchV32.CoreSys
