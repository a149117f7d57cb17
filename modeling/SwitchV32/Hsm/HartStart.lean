import SwitchV32.Hsm.System
import SwitchV32.Cthread.Halt

/-!
# Starting a hart

What `hart_start` does to its target. The state that it reads is old when it
acts on it: the target may be on its way out of `vcore_run`, or back in, when
its `VCore` is initialised, and the start is then refused without notice. Where
the record shows that the core thread is away, and still can take the start at
the end, the call does what it reports.
-/

namespace SwitchV32

/-- The core thread is outside `vcore_run` while its record shows one of these. -/
def CthreadState.away : CthreadState → Bool
  | .stopped | .suspended | .startPending | .resumePending | .halted => true
  | _ => false

namespace CoreSys

-- ---------------------------------------------------------------------------
-- A core that is away
-- ---------------------------------------------------------------------------

structure AwayInv (s : CoreSys) : Prop extends HaltInv s where
  stopped : s.ct.state = .stopped → s.core = .waiting .stop ∧ s.ct.signal = .stop
  suspended : s.ct.state = .suspended → s.core = .waiting .suspend ∧ s.ct.signal = .suspend
  starting : s.ct.state = .startPending ∨ s.ct.state = .resumePending →
    (s.core = .fsm ∨ s.core = .waiting .stop ∨ s.core = .waiting .suspend) ∧ s.ct.signal = .start
  started : s.ct.state = .started → s.ct.signal = .start
  oldSignal : ∃ mode : HsmSignal, s.ct.oldSignal = mode.toSignal

theorem AwayInv.not_inRun (hi : AwayInv s) (h : s.ct.state.away = true) :
    s.core.inRun = false := by
  cases hs : s.ct.state with
  | halted => exact hi.toHaltInv.not_inRun hs
  | stopped =>
    rw [(hi.stopped hs).1]
    rfl
  | suspended =>
    rw [(hi.suspended hs).1]
    rfl
  | startPending =>
    rcases (hi.starting (.inl hs)).1 with hc | hc | hc <;> rw [hc] <;> rfl
  | resumePending =>
    rcases (hi.starting (.inr hs)).1 with hc | hc | hc <;> rw [hc] <;> rfl
  | _ => simp [hs, CthreadState.away] at h

theorem AwayInv.of_state (hi : HaltInv s)
    (hstate : s.ct.state = .stopPending ∨ s.ct.state = .suspendPending ∨
      s.ct.state = .haltPending ∨ s.ct.state = .continuePending ∨ s.ct.state = .stepping ∨
      s.ct.state = .halted)
    (hold : ∃ mode : HsmSignal, s.ct.oldSignal = mode.toSignal) : AwayInv s where
  toHaltInv := hi
  stopped h := by simp [h] at hstate
  suspended h := by simp [h] at hstate
  starting h := by rcases h with h | h <;> simp [h] at hstate
  started h := by simp [h] at hstate
  oldSignal := hold

theorem Init.awayInv (h : Init s) : AwayInv s := by
  have hhalt := h.haltInv
  obtain ⟨oldSignal, hold, init, rfl⟩ := h.eq
  refine .of_state hhalt (by simp) ?_
  rcases hold with rfl | rfl | rfl
  · exact ⟨.start, rfl⟩
  · exact ⟨.stop, rfl⟩
  · exact ⟨.suspend, rfl⟩

theorem AwayInv.step (hi : AwayInv s) (h : Step s l s') : AwayInv s' := by
  have hhalt := hi.toHaltInv.step h
  cases h.outcome with
  | same => exact hi
  | saved signal =>
    exact ⟨hhalt, hi.stopped, hi.suspended, hi.starting, hi.started, ⟨signal, rfl⟩⟩
  | taken signal hleave =>
    cases signal with
    | start =>
      -- only a core that waits takes a start
      have hstate : s.ct.state = .stopped ∨ s.ct.state = .suspended := by
        simp only [HsmSignal.leave, Bool.and_eq_false_iff, bne_eq_false_iff_eq] at hleave
        exact hleave
      have hwait : s.core = .fsm ∨ s.core = .waiting .stop ∨ s.core = .waiting .suspend :=
        hstate.elim (fun h => .inr (.inl (hi.stopped h).1)) fun h => .inr (.inr (hi.suspended h).1)
      have hnext : HsmSignal.start.nextState s.ct.state = .startPending ∨
          HsmSignal.start.nextState s.ct.state = .resumePending := by
        rcases hstate with h | h <;> simp [HsmSignal.nextState, h]
      refine ⟨hhalt, fun h => ?_, fun h => ?_, fun _ => ⟨hwait, rfl⟩, fun _ => rfl, ⟨.start, rfl⟩⟩
      all_goals rcases hnext with hnext | hnext <;> cases hnext.symm.trans h
    | stop => exact .of_state hhalt (.inl rfl) ⟨.stop, rfl⟩
    | suspend => exact .of_state hhalt (.inr (.inl rfl)) ⟨.suspend, rfl⟩
  | halted => exact .of_state hhalt (by simp) hi.oldSignal
  | continued => exact .of_state hhalt (by simp) hi.oldSignal
  | stepped _ hstate => exact .of_state hhalt (by simp [hstate]) hi.oldSignal
  | stepSeen _ hstate => exact .of_state hhalt (by simp [hstate]) hi.oldSignal
  | debugAbort | stepDone =>
    exact ⟨hhalt, hi.stopped, hi.suspended, hi.starting, hi.started, hi.oldSignal⟩
  | start _ hsignal =>
    exact ⟨hhalt, by rintro ⟨⟩, by rintro ⟨⟩, fun h => by simp at h, fun _ => hsignal, hi.oldSignal⟩
  | blockStep => exact .of_state hhalt (by simp) hi.oldSignal
  | block hc =>
    -- the acknowledged state is that of the signal
    cases hs : s.ct.signal with
    | start =>
      refine ⟨by simpa only [hs] using hhalt, by rintro ⟨⟩, by rintro ⟨⟩, fun h => ?_, fun _ => hs,
        hi.oldSignal⟩
      simp [CthreadSignal.toState] at h
    | stop =>
      refine ⟨by simpa only [hs] using hhalt, fun _ => ⟨rfl, hs⟩, by rintro ⟨⟩, fun h => ?_,
        by rintro ⟨⟩, hi.oldSignal⟩
      simp [CthreadSignal.toState] at h
    | suspend =>
      refine ⟨by simpa only [hs] using hhalt, by rintro ⟨⟩, fun _ => ⟨rfl, hs⟩, fun h => ?_,
        by rintro ⟨⟩, hi.oldSignal⟩
      simp [CthreadSignal.toState] at h
    | halt | step =>
      exact .of_state (by simpa only [hs] using hhalt) (by simp [CthreadSignal.toState])
        hi.oldSignal
  | unblock signal hc hsignal =>
    refine ⟨hhalt, fun h => ?_, fun h => ?_, fun h => ⟨.inl ?_, (hi.starting h).2⟩, hi.started,
      hi.oldSignal⟩
    · obtain ⟨hwait, hstop⟩ := hi.stopped h
      cases hc.symm.trans hwait
      exact absurd hstop hsignal
    · obtain ⟨hwait, hsuspend⟩ := hi.suspended h
      cases hc.symm.trans hwait
      exact absurd hsuspend hsignal
    · rcases (hi.starting h).1 with hwait | hwait | hwait <;> cases hc.symm.trans hwait <;> rfl
  | again site hc | exited site hc | locked site hc | hotLoop hc | guest site core hc =>
    refine ⟨hhalt, fun h => ?_, fun h => ?_, fun h => ?_, hi.started, hi.oldSignal⟩
    · cases hc.symm.trans (hi.stopped h).1
    · cases hc.symm.trans (hi.suspended h).1
    · rcases (hi.starting h).1 with hwait | hwait | hwait <;> cases hc.symm.trans hwait

theorem AwayInv.withCore (hi : AwayInv s) (h : s.ct.state.away = true) (core : VCore) :
    AwayInv { s with ct := { s.ct with core } } where
  halted := hi.halted
  signal := hi.signal
  pending hp := by simp [show s.ct.state = .haltPending from hp, CthreadState.away] at h
  stopped := hi.stopped
  suspended := hi.suspended
  starting := hi.starting
  started := hi.started
  oldSignal := hi.oldSignal

-- ---------------------------------------------------------------------------
-- The start that is signalled
-- ---------------------------------------------------------------------------

/-- The signal that the core will act on: the saved one while it is halted. -/
def pendingRequest (ct : Cthread) : CthreadSignal :=
  match ct.state with
  | .halted | .stepping | .haltPending => ct.oldSignal
  | _ => ct.signal

def TakesStart (ct : Cthread) : Prop :=
  ct.state ≠ .stopPending ∧ ct.state ≠ .suspendPending ∧
    (ct.state = .continuePending → ct.signal = .start)

instance decidableTakesStart (ct : Cthread) : Decidable (TakesStart ct) :=
  inferInstanceAs (Decidable (_ ∧ _ ∧ _))

theorem AwayInv.pendingRequest_start (hi : AwayInv s) (h : TakesStart s.ct) :
    pendingRequest (cthreadSignalStart s.ct) = .start := by
  obtain ⟨⟨state, signal, oldSignal, core⟩, loc, debug⟩ := s
  obtain ⟨mode, rfl⟩ := hi.oldSignal
  cases state with
  | halted | stepping | haltPending => cases mode <;> rfl
  | stopped | suspended => rfl
  | started =>
    cases hi.started rfl
    rfl
  | startPending =>
    cases (hi.starting (.inl rfl)).2
    rfl
  | resumePending =>
    cases (hi.starting (.inr rfl)).2
    rfl
  | continuePending =>
    cases h.2.2 rfl
    cases mode <;> rfl
  | stopPending => exact absurd rfl h.1
  | suspendPending => exact absurd rfl h.2.1

end CoreSys

-- ---------------------------------------------------------------------------
-- Calls in time
-- ---------------------------------------------------------------------------

def HartCall.between : HartCall → Option HartArgs
  | .signal args => some args
  | _ => none

def HartCall.starting : HartCall → Option HartArgs
  | .init args => some args
  | _ => none

namespace HsmSys

/-- A target is initialised while its record shows that it is away and no other call has
initialised it with other arguments and not yet signalled; it takes the start; and it executes
nothing in between. -/
def InTime (s : HsmSys) : HsmLabel → Prop
  | .node j l => l = .guest → ∀ k < s.cores, ∀ args ∈ (s.call k).between, args.target ≠ j
  | .hartStart _ => True
  | .hartInit i => ∀ args ∈ (s.call i).starting,
      (s.node args.target).ct.state.away = true ∧
      ∀ k < s.cores, ∀ args' ∈ (s.call k).between, args'.target = args.target → args' = args
  | .hartSignal i => ∀ args ∈ (s.call i).between, CoreSys.TakesStart (s.node args.target).ct

structure HartStartOk (s : HsmSys) (l : HsmLabel) (s' : HsmSys) : Prop where
  /-- The target's core thread is outside `vcore_run` when its `VCore` is initialised. -/
  outside : ∀ i args, l = .hartInit i → s.call i = .init args →
    (s.node args.target).core.inRun = false
  /-- Success is returned by a target that is set up and asked to start. -/
  success : ∀ i, s.call i ≠ .done Supervisor.SbiError.success →
    s'.call i = .done Supervisor.SbiError.success → ∃ args, s.call i = .signal args ∧
      args.Holds (s'.node args.target).ct.core ∧
      CoreSys.pendingRequest (s'.node args.target).ct = .start
  /-- An error is returned at once. -/
  error : ∀ i code, s.call i ≠ .done code → s'.call i = .done code →
    code ≠ Supervisor.SbiError.success → l = .hartStart i ∧ s'.node = s.node

-- ---------------------------------------------------------------------------
-- Runs of calls in time
-- ---------------------------------------------------------------------------

structure StartInv (s : HsmSys) : Prop where
  node : ∀ j, (s.node j).AwayInv
  /-- Between its `vcore_init` and its signal the target is as the call has left it. -/
  between : ∀ k args, s.call k = .signal args → args.Holds (s.node args.target).ct.core
  active : ∀ k args, s.call k = .init args ∨ s.call k = .signal args → k < s.cores

theorem hartStart_ne_signal (cores memorySize : Nat) (cthread : Nat → Cthread) (core : VCore)
    (args : HartArgs) : SwitchV32.hartStart cores memorySize cthread core ≠ .signal args := by
  dsimp only [SwitchV32.hartStart]
  split
  · rintro ⟨⟩
  · split
    · rintro ⟨⟩
    · split <;> rintro ⟨⟩

theorem hartStart_ne_success (cores memorySize : Nat) (cthread : Nat → Cthread) (core : VCore) :
    SwitchV32.hartStart cores memorySize cthread core ≠ .done Supervisor.SbiError.success := by
  dsimp only [SwitchV32.hartStart]
  split
  · simp [Supervisor.SbiError.invalidParam, Supervisor.SbiError.success]
  · split
    · simp [Supervisor.SbiError.invalidAddress, Supervisor.SbiError.success]
    · split
      · simp [Supervisor.SbiError.alreadyAvailable, Supervisor.SbiError.success]
      · rintro ⟨⟩

theorem update_cases {α : Type} {f : Nat → α} {a b : α} {i k : Nat}
    (h : Function.update f i a k = b) : (k = i ∧ a = b) ∨ (k ≠ i ∧ f k = b) := by
  by_cases hki : k = i
  · rw [hki, Function.update_self] at h
    exact .inl ⟨hki, h⟩
  · rw [Function.update_of_ne hki] at h
    exact .inr ⟨hki, h⟩

theorem Start.startInv (h : Start s) : StartInv s where
  node j := (h.node j).awayInv
  between k args hk := by simp [h.call k] at hk
  active k args hk := by simp [h.call k] at hk

theorem StartInv.node_step (hi : StartInv s) (hl : InTime s (.node j l)) (hj : j < s.cores)
    (h : CoreSys.Step (s.node j) l n) :
    StartInv
      { s with
        node := Function.update s.node j n
        call := if l = .guest then Function.update s.call j .idle else s.call } := by
  have hcall {k c} (hk : (if l = .guest then Function.update s.call j .idle else s.call) k = c)
      (hc : c ≠ .idle) : s.call k = c ∧ (l = .guest → k ≠ j) := by
    split at hk
    · rcases update_cases hk with ⟨-, hk⟩ | ⟨hkj, hk⟩
      · exact absurd hk.symm hc
      · exact ⟨hk, fun _ => hkj⟩
    · exact ⟨hk, fun h => absurd h ‹_›⟩
  refine ⟨fun j' => ?_, fun k args hk => ?_, fun k args hk => ?_⟩
  · by_cases hj' : j' = j
    · subst hj'
      simpa only [Function.update_self] using (hi.node j').step h
    · simpa only [Function.update_of_ne hj'] using hi.node j'
  · obtain ⟨hk, -⟩ := hcall hk nofun
    have hholds := hi.between k args hk
    by_cases ht : args.target = j
    · have hne : l ≠ .guest := by
        intro hguest
        exact hl hguest k (hi.active k args (.inr hk)) args (by rw [hk]; rfl) ht
      simp only [ht, Function.update_self]
      rw [ht] at hholds
      exact hholds.of_regs (h.regs hne)
    · simpa only [Function.update_of_ne ht] using hholds
  · rcases hk with hk | hk
    · exact hi.active k args (.inl (hcall hk nofun).1)
    · exact hi.active k args (.inr (hcall hk nofun).1)

theorem StartInv.step (hi : StartInv s) (hl : InTime s l) (h : Step s l s') : StartInv s' := by
  cases h with
  | node j l hj _ hstep => exact hi.node_step hl hj hstep
  | hartStart i site hlt hcore hcall =>
    refine ⟨hi.node, fun k args hk => ?_, fun k args hk => ?_⟩
    · rcases update_cases hk with ⟨-, hk⟩ | ⟨-, hk⟩
      · exact absurd hk (hartStart_ne_signal _ _ _ _ args)
      · exact hi.between k args hk
    · by_cases hki : k = i
      · rw [hki]
        exact hlt
      · simp only [Function.update_of_ne hki] at hk
        exact hi.active k args hk
  | @hartInit i args hcall _ =>
    obtain ⟨haway, hsole⟩ := hl args (by rw [hcall]; rfl)
    refine ⟨fun j => ?_, fun k args' hk => ?_, fun k args' hk => ?_⟩
    · by_cases hj : j = args.target
      · subst hj
        simpa only [onCt, Function.update_self] using (hi.node args.target).withCore haway _
      · simpa only [onCt, Function.update_of_ne hj] using hi.node j
    · by_cases ht : args'.target = args.target
      · -- another call that is as far has the same arguments
        have hargs : args' = args := by
          rcases update_cases hk with ⟨-, hk⟩ | ⟨-, hk⟩
          · cases hk
            rfl
          · exact hsole k (hi.active k args' (.inr hk)) args' (by rw [hk]; rfl) ht
        subst hargs
        simpa only [onCt, Function.update_self] using args'.holds_init
      · rcases update_cases hk with ⟨-, hk⟩ | ⟨-, hk⟩
        · cases hk
          exact absurd rfl ht
        · simpa only [onCt, Function.update_of_ne ht] using hi.between k args' hk
    · by_cases hki : k = i
      · rw [hki]
        exact hi.active i args (.inl hcall)
      · simp only [Function.update_of_ne hki] at hk
        exact hi.active k args' hk
  | @hartSignal i args hcall ha =>
    have hstep : CoreSys.Step (s.node args.target) (.hsm .start)
        { s.node args.target with ct := cthreadSignalStart (s.node args.target).ct } :=
      .hsm ha .start
    refine ⟨fun j => ?_, fun k args' hk => ?_, fun k args' hk => ?_⟩
    · by_cases hj : j = args.target
      · subst hj
        simpa only [onCt, Function.update_self] using (hi.node args.target).step hstep
      · simpa only [onCt, Function.update_of_ne hj] using hi.node j
    · rcases update_cases hk with ⟨-, hk⟩ | ⟨-, hk⟩
      · cases hk
      · have hholds := hi.between k args' hk
        by_cases ht : args'.target = args.target
        · rw [ht] at hholds
          simp only [onCt, ht, Function.update_self]
          exact hholds.of_regs (hstep.regs nofun)
        · simpa only [onCt, Function.update_of_ne ht] using hholds
    · by_cases hki : k = i
      · rw [hki]
        exact hi.active i args (.inr hcall)
      · simp only [Function.update_of_ne hki] at hk
        exact hi.active k args' hk

/-- In a run of calls in time, every step of a call does what it reports. -/
theorem hartStart_holds {s₀ s s' : HsmSys} {t} {l : HsmLabel} (h0 : Start s₀) (hrun : Run s₀ t s)
    (ht : Lts.Every InTime t) (hl : InTime s l) (h : Step s l s') : HartStartOk s l s' := by
  have hi := hrun.inv StartInv (fun _ _ _ hi hl h => hi.step hl h) ht h0.startInv
  have hi' := hi.step hl h
  cases h with
  | node j l hj hcall hstep =>
    -- a call ends, if anything
    have hcalls {k code} (hne : s.call k ≠ .done code)
        (hk : (if l = .guest then Function.update s.call j .idle else s.call) k = .done code) :
        False := by
      split at hk
      · rcases update_cases hk with ⟨-, hk⟩ | ⟨-, hk⟩
        · cases hk
        · exact hne hk
      · exact hne hk
    refine ⟨?_, fun i hne hk => (hcalls hne hk).elim, fun i code hne hk => (hcalls hne hk).elim⟩
    rintro _ _ ⟨⟩
  | hartStart i site hlt hcore hcall =>
    refine ⟨by rintro _ _ ⟨⟩, fun k hne hk => ?_, fun k code hne hk _ => ?_⟩
    · rcases update_cases hk with ⟨-, hk⟩ | ⟨-, hk⟩
      · exact absurd hk (hartStart_ne_success _ _ _ _)
      · exact absurd hk hne
    · rcases update_cases hk with ⟨rfl, -⟩ | ⟨-, hk⟩
      · exact ⟨rfl, rfl⟩
      · exact absurd hk hne
  | @hartInit i args hcall _ =>
    refine ⟨fun i' args' hi' hcall' => ?_, fun k hne hk => ?_, fun k code hne hk _ => ?_⟩
    · exact (hi.node args'.target).not_inRun (hl args' (by cases hi'; rw [hcall']; rfl)).1
    · rcases update_cases hk with ⟨-, hk⟩ | ⟨-, hk⟩
      · cases hk
      · exact absurd hk hne
    · rcases update_cases hk with ⟨-, hk⟩ | ⟨-, hk⟩
      · cases hk
      · exact absurd hk hne
  | @hartSignal i args hcall ha =>
    refine ⟨by rintro _ _ ⟨⟩, fun k hne hk => ?_, fun k code hne hk hcode => ?_⟩
    · rcases update_cases hk with ⟨rfl, -⟩ | ⟨-, hk⟩
      · have htakes := hl args (by rw [hcall]; rfl)
        have hnode : s.onCt args.target cthreadSignalStart args.target =
            { s.node args.target with ct := cthreadSignalStart (s.node args.target).ct } := by
          rw [onCt, Function.update_self]
        refine ⟨args, hcall, ?_, ?_⟩
        · simp only [hnode]
          exact (hi.between _ args hcall).of_regs ((CoreSys.Step.hsm ha .start).regs nofun)
        · simp only [hnode]
          exact (hi.node args.target).pendingRequest_start htakes
      · exact absurd hk hne
    · rcases update_cases hk with ⟨-, hk⟩ | ⟨-, hk⟩
      · cases hk
        exact absurd rfl hcode
      · exact absurd hk hne

-- ---------------------------------------------------------------------------
-- Two harts
-- ---------------------------------------------------------------------------

instance decidableInTime (s : HsmSys) : (l : HsmLabel) → Decidable (InTime s l)
  | .node j l => inferInstanceAs
      (Decidable (l = .guest → ∀ k < s.cores, ∀ args ∈ (s.call k).between, args.target ≠ j))
  | .hartStart _ => inferInstanceAs (Decidable True)
  | .hartInit i => inferInstanceAs (Decidable (∀ args ∈ (s.call i).starting,
      (s.node args.target).ct.state.away = true ∧
      ∀ k < s.cores, ∀ args' ∈ (s.call k).between, args'.target = args.target → args' = args))
  | .hartSignal i => inferInstanceAs (Decidable (∀ args ∈ (s.call i).between,
      CoreSys.TakesStart (s.node args.target).ct))

def bootHsm : HsmSys where
  cores := 2
  memorySize := 0x1000
  node j := CoreSys.sysAt .halted .halt (if j = 0 then .start else .stop) false .fsm
  call _ := .idle

theorem bootHsm_start : Start bootHsm where
  node j := by
    by_cases hj : j = 0
    · exact ⟨.started, none, _, rfl, by simp only [bootHsm, if_pos hj]; rfl⟩
    · exact ⟨.stopped, none, _, rfl, by simp only [bootHsm, if_neg hj]; rfl⟩
  call _ := rfl

def callerCore : VCore :=
  vcoreInit (some { pc := 0, sp := 0, id := 1, opaqueArg := 0x100, gp := 0, elfBrk := 0 })

def callerArgs : HartArgs := ⟨1, 0x100, 0⟩

def toCall : List HsmLabel :=
  [.node 0 .core, .node 1 .core, .node 0 .continue, .node 1 .continue, .node 0 .core,
    .node 0 .core, .node 1 .core, .node 1 .core, .node 0 .guest, .node 0 .core]

theorem hartStart_holds_boot : ∃ t s s', Run bootHsm t s ∧ Step s (.hartSignal 0) s' ∧
    HartStartOk s (.hartSignal 0) s' := by
  obtain ⟨t, s, hrun, ht, hl, hnext⟩ := Lts.exists_run (next callerCore) (s := bootHsm)
    (toCall ++ [.hartStart 0, .hartInit 0])
    (Q := fun t s => Lts.Every InTime t ∧ InTime s (.hartSignal 0) ∧
      (next callerCore s (.hartSignal 0)).isSome = true) (by decide)
  obtain ⟨s', hnext⟩ := Option.isSome_iff_exists.mp hnext
  have hrun := hrun.mono fun _ _ _ => next_step
  exact ⟨t, s, s', hrun, next_step hnext,
    hartStart_holds bootHsm_start hrun ht hl (next_step hnext)⟩

/-- Hart 1 is started and has called `hart_stop`, but is still in `vcore_run`, when hart 0 starts
it again: its registers are wiped there, and the start is refused with success. -/
theorem hartStart_fails : Start bootHsm ∧ ∃ t s s' s'', Run bootHsm t s ∧
    Step s (.hartInit 0) s' ∧ ¬ HartStartOk s (.hartInit 0) s' ∧
    Step s' (.hartSignal 0) s'' ∧ ¬ HartStartOk s' (.hartSignal 0) s'' := by
  obtain ⟨t, s, hrun, hcall, hin, hnext⟩ := Lts.exists_run (next callerCore) (s := bootHsm)
    (toCall ++ [.hartStart 0, .hartInit 0, .hartSignal 0, .node 1 .core, .node 1 .core,
      .node 1 (.hsm .stop), .node 0 .guest, .node 0 .core, .hartStart 0])
    (Q := fun _ s => s.call 0 = .init callerArgs ∧ (s.node 1).core.inRun = true ∧
      (next callerCore s (.hartInit 0)).any (fun s' => decide (s'.call 0 = .signal callerArgs ∧
        (next callerCore s' (.hartSignal 0)).any (fun s'' => decide (
          s''.call 0 = .done Supervisor.SbiError.success ∧
          CoreSys.pendingRequest (s''.node 1).ct = .stop)) = true)) = true) (by decide)
  obtain ⟨s', hs', h⟩ := (Option.any_eq_true ..).mp hnext
  obtain ⟨hcall', hnext'⟩ := of_decide_eq_true h
  obtain ⟨s'', hs'', h⟩ := (Option.any_eq_true ..).mp hnext'
  obtain ⟨hdone, hpending⟩ := of_decide_eq_true h
  refine ⟨bootHsm_start, t, s, s', s'', hrun.mono fun _ _ _ => next_step, next_step hs', ?_,
    next_step hs'', ?_⟩
  · intro hok
    have hout : (s.node callerArgs.target).core.inRun = false :=
      hok.outside 0 callerArgs rfl hcall
    exact absurd (hin.symm.trans hout) (by decide)
  · intro hok
    obtain ⟨args, hargs, -, hstart⟩ := hok.success 0 (by rw [hcall']; rintro ⟨⟩) hdone
    cases hcall'.symm.trans hargs
    exact absurd (hpending.symm.trans hstart) (by decide)

end HsmSys

end SwitchV32
