import Mathlib.Data.Finset.Card
import Mathlib.Data.Prod.Lex
import SwitchV32.Debug.VContStep

/-!
# A step comes nearer to its end

A rank of the states on the way of a `vCont` step: where the stub is, where the
two threads of the core stand, how far the calls of its instruction are, and
which cores are still to wait. Each step of any thread lowers it, unless a
thread wakes up and finds that it has to wait again.
-/

namespace SwitchV32

namespace CoreSys

/-- How far the debug thread and the core thread are from the end of a step. -/
def locRank : DebugLoc → CoreLoc → Nat
  | .stepStepping, .waiting .halt => 12
  | .stepStepping, .fsm => 11
  | .stepStepping, _ => 10
  | .stepHalted, .waiting .step => 9
  | .stepHalted, .instr _ => 8
  | .stepHalted, .test _ => 7
  | .stepHalted, .left _ => 6
  | .stepHalted, .fsm => 5
  | .stepHalted, _ => 4
  | _, .fsm => 1
  | _, _ => 0

def stepRank (x : CoreSys) : Nat := locRank x.debug x.core

theorem locRank_stepStepping (core : CoreLoc) : 10 ≤ locRank .stepStepping core := by
  cases core with
  | waiting signal => cases signal <;> decide
  | _ => simp [locRank]

theorem locRank_stepHalted (core : CoreLoc) :
    4 ≤ locRank .stepHalted core ∧ locRank .stepHalted core ≤ 9 := by
  cases core with
  | waiting signal => cases signal <;> decide
  | _ => exact ⟨by simp [locRank], by simp [locRank]⟩

theorem locRank_idle (core : CoreLoc) : locRank .idle core ≤ 1 := by
  cases core <;> simp [locRank]

variable {x x' : CoreSys}

theorem block_same (hc : x.core = .waiting signal) (hsignal : x.ct.signal = signal)
    (hstate : x.ct.state = signal.toState) :
    { x with ct := { x.ct with state := x.ct.signal.toState }, core := .waiting x.ct.signal } =
      x := by
  obtain ⟨⟨state, signal', oldSignal, vcore⟩, core, debug⟩ := x
  dsimp only at hc hsignal hstate
  subst hsignal
  rw [hc, hstate]

theorem StepPhase.lowers_core (hp : StepPhase x) (h : Step x .core x') :
    x' = x ∨ x'.stepRank < x.stepRank := by
  cases h.outcome with
  | same _ hl => exact absurd rfl hl.1
  | debugAbort _ _ hl => rcases hl with hl | hl <;> cases hl
  | start _ hs =>
    cases hp with
    | asked _ _ hs' | acknowledged _ _ hs' | runs _ _ hs' | stopped _ _ hs' =>
      cases hs.symm.trans hs'
  | blockStep hc hs =>
    cases hp with
    | asked hd => exact .inr (by simp [stepRank, hd, hc, locRank])
    | acknowledged _ _ _ _ hc' => cases hc.symm.trans hc'
    | runs _ _ hs' | stopped _ _ hs' => cases hs.symm.trans hs'
  | block hc =>
    cases hp with
    | asked _ _ hs hc' =>
      rcases hc with ⟨-, -, hne⟩ | hc
      · exact absurd hs hne
      · rw [hs] at hc
        rcases hc' with hc' | hc' <;> cases hc.symm.trans hc'
    | acknowledged _ hstate hs _ hc' => exact .inl (block_same hc' hs hstate)
    | runs hd _ hs _ hc' =>
      rcases hc with ⟨hc, -, -⟩ | hc
      · exact .inr (by simp [stepRank, hd, hc, hs, locRank])
      · rw [hs] at hc
        rcases hc' with hc' | hc' | hc' | hc' | hc' <;> cases hc.symm.trans hc'
    | stopped _ hstate hs hc' => exact .inl (block_same hc' hs hstate)
  | unblock signal hc hs =>
    cases hp with
    | asked hd _ _ hc' =>
      rcases hc' with hc' | hc' <;> cases hc.symm.trans hc'
      exact .inr (by simp [stepRank, hd, hc', afterWait, locRank])
    | acknowledged _ _ hs' _ hc' | stopped _ _ hs' hc' =>
      cases hc.symm.trans hc'
      exact absurd hs' hs
    | runs hd _ _ _ hc' =>
      rcases hc' with hc' | hc' | hc' | hc' | hc' <;> cases hc.symm.trans hc'
      refine .inr ?_
      rw [afterWait]
      split <;> simp [stepRank, hd, hc', locRank]
  | again site hc hexit =>
    have hout := hp.of_out (.inl (by rw [hc]; rfl))
    cases hexit.symm.trans hout.2
  | exited site hc =>
    have hd := (hp.of_out (.inl (by rw [hc]; rfl))).1
    exact .inr (by simp [stepRank, hd, hc, locRank])
  | locked site hc =>
    cases hp with
    | runs hd => exact .inr (by simp [stepRank, hd, hc, locRank])
    | asked _ _ _ hc' => rcases hc' with hc' | hc' <;> cases hc.symm.trans hc'
    | acknowledged _ _ _ _ hc' | stopped _ _ _ hc' => cases hc.symm.trans hc'
  | hotLoop hc =>
    cases hp with
    | runs _ _ _ _ hc' => rcases hc' with hc' | hc' | hc' | hc' | hc' <;> cases hc.symm.trans hc'
    | asked _ _ _ hc' => rcases hc' with hc' | hc' <;> cases hc.symm.trans hc'
    | acknowledged _ _ _ _ hc' | stopped _ _ _ hc' => cases hc.symm.trans hc'

theorem StepPhase.lowers_guest (hp : StepPhase x) (h : Step x .guest x') :
    x'.stepRank < x.stepRank := by
  cases h with
  | guest site core _ hc =>
    have hd := (hp.of_out (.inl (by rw [hc]; rfl))).1
    simp [stepRank, goto, hd, hc, locRank]

theorem Step.lowers_wake (h : Step x .stepWake x') : x' = x ∨ x'.stepRank < x.stepRank := by
  obtain ⟨ct, core, debug⟩ := x
  cases h.outcome with
  | same => exact .inl rfl
  | debugAbort _ _ hl => rcases hl with hl | hl <;> cases hl
  | stepSeen hd =>
    cases hd
    exact .inr (Nat.lt_of_le_of_lt (locRank_stepHalted core).2 (locRank_stepStepping core))
  | stepDone hd =>
    cases hd
    have hidle := locRank_idle core
    have hhalted := (locRank_stepHalted core).1
    exact .inr (show locRank .idle core < locRank .stepHalted core by omega)

theorem Step.stepRank_asked (h : Step x l x') (hl : l = .halt ∨ ∃ signal, l = .hsm signal) :
    x'.stepRank = x.stepRank := by
  rcases hl with rfl | ⟨signal, rfl⟩ <;> cases h <;> rfl

theorem OutInv.lowers (hi : OutInv x) (hstate : x.ct.state = .halted) (hd : x.debug = .idle)
    (h : Step x .core x') : x' = x ∨ (x.core = .fsm ∧ x'.core = .waiting .halt) := by
  have hs : x.ct.signal = .halt := hi.signal hstate (by rw [hd]; rintro ⟨⟩)
  cases h.outcome with
  | same _ hl => exact absurd rfl hl.1
  | debugAbort _ _ hl => rcases hl with hl | hl <;> cases hl
  | start _ hs' | blockStep _ hs' => cases hs.symm.trans hs'
  | block hc =>
    rcases hc with ⟨hc, -, -⟩ | hc
    · exact .inr ⟨hc, by rw [hs]⟩
    · rw [hs] at hc
      exact .inl (block_same hc hs hstate)
  | unblock signal hc hne =>
    rcases hi.halted hstate with hc' | hc' <;> cases hc.symm.trans hc'
    exact absurd hs hne
  | again site hc | exited site hc | locked site hc | hotLoop hc =>
    rcases hi.halted hstate with hc' | hc' <;> cases hc.symm.trans hc'

end CoreSys

-- ---------------------------------------------------------------------------
-- The rank
-- ---------------------------------------------------------------------------

/-- The stub moves down these. -/
def StubLoc.rank (cores : Nat) : StubLoc → Nat
  | .breakpoint .. => cores + 8
  | .stepCheck .. => cores + 7
  | .stepCore .. => cores + 6
  | .inStep .. => cores + 5
  | .stepped .. => cores + 4
  | .poll => cores + 3
  | .haltLock => cores + 2
  | .scan n | .haltAll n => cores - n + 1
  | _ => 0

def InsCall.rank (cores : Nat) : InsCall → Nat
  | .hart .idle => cores + 3
  | .hart (.init _) => 2
  | .hart (.signal _) => 1
  | .hart (.done _) => 0
  | .halting n => cores - n + 1
  | .halted => 0

namespace DebugSys

def unsettled (c : DebugSys) : Finset Nat :=
  (Finset.range c.cores).filter fun j => (c.node j).core = .fsm

def rank (k : Nat) (c : DebugSys) : Nat ×ₗ Nat ×ₗ Nat ×ₗ Nat :=
  toLex (c.stub.rank c.cores, toLex ((c.node k).stepRank,
    toLex ((c.call k).rank c.cores, c.unsettled.card)))

theorem rank_lt_iff {k : Nat} {c c' : DebugSys} : c'.rank k < c.rank k ↔
    c'.stub.rank c'.cores < c.stub.rank c.cores ∨ c'.stub.rank c'.cores = c.stub.rank c.cores ∧
      ((c'.node k).stepRank < (c.node k).stepRank ∨
        (c'.node k).stepRank = (c.node k).stepRank ∧
          ((c'.call k).rank c'.cores < (c.call k).rank c.cores ∨
            (c'.call k).rank c'.cores = (c.call k).rank c.cores ∧
              c'.unsettled.card < c.unsettled.card)) := by
  simp only [rank, Prod.Lex.toLex_lt_toLex]

variable {s c c' : DebugSys} {l : DebugLabel} {j k : Nat} {n : CoreSys}
variable {t : List (DebugSys × DebugLabel)}

theorem rank_lt_of_stub (hcores : c'.cores = c.cores)
    (h : c'.stub.rank c.cores < c.stub.rank c.cores) : c'.rank k < c.rank k :=
  rank_lt_iff.mpr (.inl (by rwa [hcores]))

theorem rank_lt_of_node (hcores : c'.cores = c.cores) (hstub : c'.stub = c.stub)
    (h : (c'.node k).stepRank < (c.node k).stepRank) : c'.rank k < c.rank k :=
  rank_lt_iff.mpr (.inr ⟨by rw [hcores, hstub], .inl h⟩)

theorem rank_lt_of_call (hcores : c'.cores = c.cores) (hstub : c'.stub = c.stub)
    (hnode : (c'.node k).stepRank = (c.node k).stepRank)
    (h : (c'.call k).rank c.cores < (c.call k).rank c.cores) : c'.rank k < c.rank k :=
  rank_lt_iff.mpr (.inr ⟨by rw [hcores, hstub], .inr ⟨hnode, .inl (by rwa [hcores])⟩⟩)

theorem setNode_self (c : DebugSys) (j : Nat) : c.setNode j (c.node j) = c := by
  rw [setNode, Function.update_eq_self]

theorem stepRank_setNode (h : n.stepRank = (c.node j).stepRank) :
    ((c.setNode j n).node k).stepRank = (c.node k).stepRank := by
  rw [setNode_node]
  split
  · subst ‹k = j›
    exact h
  · rfl

theorem rank_lt_of_settled (hj : j < c.cores) (hjk : k ≠ j) (hc : (c.node j).core = .fsm)
    (hn : n.core ≠ .fsm) : (c.setNode j n).rank k < c.rank k := by
  refine rank_lt_iff.mpr (.inr ⟨rfl, .inr ⟨?_, .inr ⟨rfl, Finset.card_lt_card ?_⟩⟩⟩)
  · simp only [setNode_node, hjk, if_false]
  · have hnode (i : Nat) : ((c.setNode j n).node i).core = .fsm → (c.node i).core = .fsm := by
      rw [setNode_node]
      split
      · exact fun h => absurd h hn
      · exact id
    refine Finset.ssubset_iff_subset_ne.mpr ⟨fun i hi => ?_, fun heq => ?_⟩
    · obtain ⟨hlt, hfsm⟩ := Finset.mem_filter.mp hi
      exact Finset.mem_filter.mpr ⟨hlt, hnode i hfsm⟩
    · have hmem : j ∈ c.unsettled := Finset.mem_filter.mpr ⟨Finset.mem_range.mpr hj, hc⟩
      rw [← heq] at hmem
      have hfsm := (Finset.mem_filter.mp hmem).2
      simp only [setNode_node, if_true] at hfsm
      exact hn hfsm

-- ---------------------------------------------------------------------------
-- The core threads
-- ---------------------------------------------------------------------------

theorem StepRun.phase_or_halted (hr : StepRun s k t c) (hj : j < c.cores) :
    (k = j ∧ (c.node j).StepPhase) ∨ (c.Halted j ∧ (c.node j).debug = .idle) := by
  obtain ⟨hcrash, -, hstepping, -⟩ := hr.stage.stub_cases
  have hout (hk : c.Halted k) (hstub : c.stub.stepping = none) :
      c.Halted j ∧ (c.node j).debug = .idle :=
    ⟨hr.allHalted hk j hj, hr.idle j (by rw [hstub]; rintro ⟨⟩) hcrash⟩
  cases hr.stage with
  | breakpoint hs hk | stepped _ _ hs hk => exact .inr (hout hk (by rw [hs]; rfl))
  | check _ hs hk => exact .inr (hout hk (by rcases hs with hs | hs <;> rw [hs] <;> rfl))
  | step pc vmem hst =>
    by_cases hjk : k = j
    · subst hjk
      exact .inl ⟨rfl, hst.phase⟩
    · refine .inr ⟨hr.others j (hr.cores_eq ▸ hj) (Ne.symm hjk), hr.idle j ?_ hcrash⟩
      exact fun hs => hjk (hstepping j hs).symm
  | back hs hk =>
    refine .inr (hout hk ?_)
    cases hstub : c.stub <;> rw [hstub] at hs <;> cases hs <;> rfl

theorem StepRun.lowers_core (hr : StepRun s k t c) (hj : j < c.cores)
    (hn : CoreSys.Step (c.node j) .core n) :
    c.setNode j n = c ∨ (c.setNode j n).rank k < c.rank k := by
  have hsame (heq : n = c.node j) : c.setNode j n = c := by rw [heq, setNode_self]
  have hlower (hkj : k = j) (h : n.stepRank < (c.node j).stepRank) :
      (c.setNode j n).rank k < c.rank k := by
    subst hkj
    exact rank_lt_of_node rfl rfl (by simpa only [setNode_node, if_true] using h)
  rcases hr.phase_or_halted hj with ⟨hkj, hphase⟩ | ⟨hhalted, hd⟩
  · exact (hphase.lowers_core hn).imp hsame (hlower hkj)
  · rcases (hr.out j).lowers hhalted hd hn with heq | ⟨hfsm, hwaits⟩
    · exact .inl (hsame heq)
    · refine .inr ?_
      by_cases hkj : k = j
      · refine hlower hkj ?_
        have hd' : n.debug = .idle := (hn.debug_eq ⟨nofun, nofun, nofun⟩).trans hd
        rw [CoreSys.stepRank, CoreSys.stepRank, hd', hd, hfsm, hwaits]
        decide
      · exact rank_lt_of_settled hj hkj hfsm (by rw [hwaits]; rintro ⟨⟩)

theorem StepRun.lowers_guest (hr : StepRun s k t c) (hj : j < c.cores)
    (hn : CoreSys.Step (c.node j) .guest n) (vmem : Mem) :
    ({ (c.setNode j n).setCall j (.hart .idle) with vmem } : DebugSys).rank k < c.rank k := by
  have hinstr : ∃ site, (c.node j).core = .instr site := by
    cases hn with
    | guest site _ _ hc => exact ⟨site, hc⟩
  obtain ⟨site, hc⟩ := hinstr
  rcases hr.phase_or_halted hj with ⟨rfl, hphase⟩ | ⟨hhalted, -⟩
  · refine rank_lt_of_node rfl rfl ?_
    simpa only [setCall_node, setNode_node, if_true] using hphase.lowers_guest hn
  · exact absurd hc (hr.not_instr hhalted site)

theorem hartStart_cases (c : DebugSys) (i : Nat) :
    (∃ args, c.hartStart i = .init args) ∨ ∃ code, c.hartStart i = .done code := by
  dsimp only [hartStart, SwitchV32.hartStart]
  split
  · exact .inr ⟨_, rfl⟩
  · split
    · exact .inr ⟨_, rfl⟩
    · split
      · exact .inr ⟨_, rfl⟩
      · exact .inl ⟨_, rfl⟩

theorem StepRun.lowers_call {call : InsCall} (hr : StepRun s k t c)
    (hi : i < c.cores ∧ ∃ site, (c.node i).core = .instr site) (hcores : c'.cores = c.cores)
    (hstub : c'.stub = c.stub) (hcall : c'.call = (c.setCall i call).call)
    (hnode : (c'.node k).stepRank = (c.node k).stepRank)
    (h : call.rank c.cores < (c.call i).rank c.cores) : c'.rank k < c.rank k := by
  obtain rfl := hr.instr_eq hi
  refine rank_lt_of_call hcores hstub hnode ?_
  rw [hcall]
  simpa only [setCall_call, if_true] using h

-- ---------------------------------------------------------------------------
-- The stub
-- ---------------------------------------------------------------------------

/-- The stub goes on to `stub`, or signals its core and then does. -/
def StubMove.Down (c : DebugSys) : StubMove → Prop
  | .goto _ _ stub => stub.rank c.cores < c.stub.rank c.cores
  | .signal _ _ next => ∀ n, (next n).rank c.cores < c.stub.rank c.cores

theorem rank_unlessAborted_lt {cores r : Nat} {stub : StubLoc} (h : stub.rank cores < r)
    (n : CoreSys) : (unlessAborted stub n).rank cores < r := by
  rw [unlessAborted]
  split
  · exact Nat.lt_of_le_of_lt (Nat.zero_le _) h
  · exact h

theorem down_back {move : StubMove} (hall : c.AllHalted) (hs : c.stub.back = true)
    (hreply : ∀ stop, c.stub ≠ .reply stop) (hm : c.stubMove = some move) : move.Down c := by
  cases hstub : c.stub with
  | poll =>
    simp only [stubMove, hstub] at hm
    cases hm
    simp [StubMove.Down, jump, StubLoc.rank, hstub]
  | scan n =>
    simp only [stubMove, hstub] at hm
    split at hm
    · rename_i hn
      rw [if_pos (hall n hn)] at hm
      cases hm
      simp only [StubMove.Down, jump, StubLoc.rank, hstub]
      omega
    · cases hm
      simp [StubMove.Down, jump, StubLoc.rank, hstub]
  | haltLock =>
    simp only [stubMove, hstub] at hm
    split at hm <;> cases hm
    simp [StubMove.Down, jump, StubLoc.rank, hstub]
  | haltAll n =>
    simp only [stubMove, hstub] at hm
    split at hm <;> cases hm
    · intro _
      simp only [StubLoc.rank, hstub]
      omega
    · simp [StubMove.Down, jump, StubLoc.rank, hstub]
  | reply stop => exact absurd hstub (hreply stop)
  | _ =>
    rw [hstub] at hs
    cases hs

theorem StepRun.down (hr : StepRun s k t c) (hreply : ∀ stop, c.stub ≠ .reply stop)
    (hstep : c.stub.stepping = none) {move : StubMove} (hm : c.stubMove = some move) :
    move.Down c := by
  cases hr.stage with
  | breakpoint hs =>
    rcases hr.stubMove_breakpoint hs with ⟨-, hmove⟩ | ⟨i, -, hmove⟩ <;>
      cases hmove.symm.trans hm <;>
      simp [StubMove.Down, jump, afterBreakpoint, StubLoc.rank, hs]
  | check pc hs hk =>
    rcases hs with hs | hs
    · simp only [stubMove, hs, if_pos hk] at hm
      cases hm
      simp [StubMove.Down, jump, StubLoc.rank, hs]
    · simp only [stubMove, hs] at hm
      cases hm
      exact rank_unlessAborted_lt (by simp [StubLoc.rank, hs])
  | step pc vmem hst =>
    rw [hst.stub] at hstep
    cases hstep
  | stepped pc vmem hs =>
    cases pc with
    | none =>
      simp only [stubMove, hs] at hm
      cases hm
      simp [StubMove.Down, jump, StubLoc.rank, hs]
    | some pc =>
      simp only [stubMove, hs] at hm
      split at hm <;> cases hm
      simp [StubMove.Down, afterBreakpoint, StubLoc.rank, hs]
  | back hs hk => exact down_back (hr.allHalted hk) hs hreply hm

theorem StepRun.lowers_stub (hr : StepRun s k t c) (hreply : ∀ stop, c.stub ≠ .reply stop)
    (h : Step c .stub c') : c' = c ∨ c'.rank k < c.rank k := by
  by_cases hstep : c.stub.stepping = none
  · refine .inr ?_
    cases h with
    | stubGoto hm => exact rank_lt_of_stub rfl (hr.down hreply hstep hm)
    | stubSignal hm => exact rank_lt_of_stub rfl (hr.down hreply hstep hm _)
  · obtain ⟨i, hi⟩ := Option.ne_none_iff_exists'.mp hstep
    cases h with
    | stubGoto hm => cases hi.symm.trans (stubMove_goto hm).stepping.1
    | stubSignal hm hn =>
      have hmove := stubMove_signal hm
      obtain ⟨rfl, rfl⟩ := hmove.stepping hi
      rename_i j _ n
      obtain rfl : j = k := hr.stage.stub_cases.2.2.1 _ hi
      cases hmove with
      | wake pc act hs =>
        by_cases hidle : n.debug = .idle
        · refine .inr (rank_lt_of_stub rfl ?_)
          simp [hidle, StubLoc.rank, hs]
        · -- it waits on in the stub
          have hstub : (if n.debug = .idle then StubLoc.stepped j pc act
              else .inStep j pc act) = c.stub := by rw [if_neg hidle, hs]
          rcases hn.lowers_wake with rfl | hlt
          · refine .inl ?_
            dsimp only
            rw [hstub, setNode_self]
          · refine .inr (rank_lt_of_node rfl hstub ?_)
            simpa only [setNode_node, if_true] using hlt

-- ---------------------------------------------------------------------------
-- Any step
-- ---------------------------------------------------------------------------

theorem StepRun.lowers (hr : StepRun s k t c) (hl : Running c l) (h : Step c l c') :
    c' = c ∨ c'.rank k < c.rank k := by
  obtain ⟨-, hbusy, -, -⟩ := hr.stage.stub_cases
  have hat {i : Nat} {call : InsCall} (hcall : c.call i = call) (hne : call ≠ .hart .idle) :
      i < c.cores ∧ ∃ site, (c.node i).core = .instr site := hr.call i (hcall ▸ hne)
  cases h with
  | core j hj hn => exact hr.lowers_core hj hn
  | guest j vmem hj _ _ hn => exact .inr (hr.lowers_guest hj hn vmem)
  | hartStart i site hi hc hcall =>
    refine .inr (hr.lowers_call ⟨hi, site, hc⟩ rfl rfl rfl rfl ?_)
    rw [hcall]
    rcases c.hartStart_cases i with ⟨args, hstart⟩ | ⟨code, hstart⟩ <;> rw [hstart] <;>
      simp [InsCall.rank]
  | hartInit i hcall =>
    refine .inr (hr.lowers_call (hat hcall (by rintro ⟨⟩)) rfl rfl rfl
      (stepRank_setNode rfl) ?_)
    rw [hcall]
    simp [InsCall.rank]
  | hartSignal i hcall hn =>
    refine .inr (hr.lowers_call (hat hcall (by rintro ⟨⟩)) rfl rfl rfl
      (stepRank_setNode (hn.stepRank_asked (.inr ⟨_, rfl⟩))) ?_)
    rw [hcall]
    simp [InsCall.rank]
  | hsm i j signal site hi _ hc hcall _ hn =>
    refine .inr (hr.lowers_call ⟨hi, site, hc⟩ rfl rfl rfl
      (stepRank_setNode (hn.stepRank_asked (.inr ⟨_, rfl⟩))) ?_)
    rw [hcall]
    simp [InsCall.rank]
  | haltLock i site hi hc hcall =>
    refine .inr (hr.lowers_call ⟨hi, site, hc⟩ rfl rfl rfl rfl ?_)
    rw [hcall]
    simp [InsCall.rank]
  | haltNext i hcall hn hm =>
    refine .inr (hr.lowers_call (hat hcall (by rintro ⟨⟩)) rfl rfl rfl
      (stepRank_setNode (hm.stepRank_asked (.inl rfl))) ?_)
    rw [hcall]
    simp only [InsCall.rank]
    omega
  | haltUnlock i hcall =>
    refine .inr (hr.lowers_call (hat hcall (by rintro ⟨⟩)) rfl rfl rfl rfl ?_)
    rw [hcall]
    simp [InsCall.rank]
  | vCont _ _ hs | packet hs => exact absurd hs hbusy
  | interrupt hs =>
    refine .inr (rank_lt_of_stub rfl ?_)
    simp [StubLoc.rank, hs]
  | stubGoto hm => exact hr.lowers_stub hl (.stubGoto hm)
  | stubSignal hm hn => exact hr.lowers_stub hl (.stubSignal hm hn)

end DebugSys

end SwitchV32
