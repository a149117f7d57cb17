import SwitchV32.Cpu
import SwitchV32.Debug.Exec
import SwitchV32.Debug.VContProgress
import SwitchV32.User

/-!
# The step comes back

From every state on the way of a `vCont` step the threads can go on to its stop
reply, if the iteration that is stepped comes back: the call of the instruction
that is under way ends, the two threads finish their handshake, and the stub
finds every core halted. As every step comes nearer to it, they do go on to it.
An iteration that ends the process or blocks has no stop reply.
-/

namespace SwitchV32.DebugSys

variable (back : VCore → Mem → Prop)

/-- Iterations end only if they come back, which `back` says for a core and guest memory. -/
def EndsBack (c : DebugSys) (l : DebugLabel) : Prop :=
  ∀ j, l.guestOf = some j → back (c.node j).ct.core c.vmem

def Onward (c : DebugSys) (l : DebugLabel) (c' : DebugSys) : Prop := Step c l c' ∧ EndsBack back c l

def AtReply (c : DebugSys) : Prop := ∃ stop, c.stub = .reply stop

/-- Whatever the threads do, they come to the stop reply. -/
def Returns (c : DebugSys) : Prop := Lts.Inevitable (Onward back) AtReply c

def OnWay (c : DebugSys) (l : DebugLabel) : Prop := Running c l ∧ EndsBack back c l

/-- Some continuation comes to it. -/
def CanReturn (c : DebugSys) : Prop :=
  ∃ t c', Run c t c' ∧ Lts.Every (OnWay back) t ∧ c'.AtReply

/-- Guest memory without the breakpoint that core `k` is on, if it is on one. -/
def liftedMem (s : DebugSys) (k : Nat) : Mem :=
  (sadFindBreakpoint s.breakpoints (s.pc k)).elim s.vmem fun i =>
    s.vmem.put ((s.pc k).setWidth 32).toNat (s.breakpoints.slot i).instr

/-- The iteration of core `k`, if it is on, comes back. -/
def ComesBack (s : DebugSys) (k : Nat) : Prop :=
  (s.node k).ct.oldSignal = .start → back (s.node k).ct.core.leaving (s.liftedMem k)

variable {back}
variable {s c c' : DebugSys} {k n : Nat} {t : List (DebugSys × DebugLabel)}
variable {pc : Option (BitVec 64)}

theorem OnWay.of_running (hl : Running c l) (hguest : l.guestOf = none) : OnWay back c l :=
  ⟨hl, fun _ hj => by cases hguest.symm.trans hj⟩

theorem running_of_onWay (ht : Lts.Every (OnWay back) t) : Lts.Every Running t :=
  ht.mono fun _ _ h => h.1

theorem CanReturn.of_reply (h : c.stub = .reply stop) : c.CanReturn back :=
  ⟨[], c, .nil, Lts.every_nil, stop, h⟩

theorem CanReturn.of_run (h : Run c t c') (ht : Lts.Every (OnWay back) t)
    (hr : c'.CanReturn back) : c.CanReturn back := by
  obtain ⟨t', c'', hrun, ht', hreply⟩ := hr
  exact ⟨t ++ t', c'', h.append hrun, Lts.every_append.mpr ⟨ht, ht'⟩, hreply⟩

theorem CanReturn.of_step (h : Step c l c') (hl : Running c l) (hguest : l.guestOf = none)
    (hr : c'.CanReturn back) : c.CanReturn back :=
  .of_run (.one h) (Lts.every_cons.mpr ⟨.of_running hl hguest, Lts.every_nil⟩) hr

-- ---------------------------------------------------------------------------
-- The iteration
-- ---------------------------------------------------------------------------

theorem liftedMem_none (h : ¬ s.breakpoints.FullAt (s.pc k)) : s.liftedMem k = s.vmem := by
  rw [liftedMem, sadFindBreakpoint_none.mpr h]
  rfl

theorem liftedMem_some (h : sadFindBreakpoint s.breakpoints (s.pc k) = some i) :
    s.liftedMem k =
      s.vmem.put ((s.pc k).setWidth 32).toNat (s.breakpoints.slot i).instr := by
  rw [liftedMem, h]
  rfl

theorem Removed.vmem_eq {vmem : Mem} (h : Removed s k pc vmem b) : vmem = s.liftedMem k := by
  cases h with
  | none hnot => exact (liftedMem_none hnot).symm
  | some i hfind => exact (liftedMem_some hfind).symm

theorem StepRun.at_guest (hr : StepRun s k t c) (hstep : Step c l c') (hl : l.guestOf = some k) :
    (s.node k).ct.oldSignal = .start ∧ (c.node k).ct.core = (s.node k).ct.core.leaving ∧
      c.vmem = s.liftedMem k := by
  obtain ⟨-, site, hc⟩ := hstep.guest_instr hl
  cases hr.stage with
  | breakpoint _ hk | check _ _ hk | stepped _ _ _ hk | back _ hk =>
    exact absurd hc (hr.not_instr hk site)
  | step pc vmem hst =>
    obtain ⟨hvmem, hkept⟩ := hst.before (hst.iteration.eq_zero hc)
    have hexit := (hst.phase.of_out (.inl (by rw [hc]; rfl))).2
    refine ⟨?_, by rw [← VCore.leaving_eq hexit, hkept], hvmem.trans hst.removed.vmem_eq⟩
    cases hstep with
    | guest j _ _ _ _ hn =>
      cases hl
      exact (hst.iteration.guest hst.phase hn).1
    | _ => cases hl

theorem StepRun.endsBack (hr : StepRun s k t c) (hback : s.ComesBack back k) (hstep : Step c l c')
    (hl : l.guestOf = some k) : EndsBack back c l := by
  obtain ⟨hon, hcore, hvmem⟩ := hr.at_guest hstep hl
  intro j hj
  cases hl.symm.trans hj
  rw [hcore, hvmem]
  exact hback hon

theorem StepRun.back_of_iterations (hr : StepRun s k [] c) (hrun : Run c t c')
    (ht : Lts.Every (OnWay back) t) (hcount : iterations k t ≠ 0) :
    back (s.node k).ct.core.leaving (s.liftedMem k) := by
  induction hrun with
  | nil => exact absurd rfl hcount
  | @snoc t c₁ l c' hrun hstep ih =>
    obtain ⟨ht, hl⟩ := every_of_snoc ht
    by_cases hguest : l.guestOf = some k
    · obtain ⟨-, hcore, hvmem⟩ := (hr.run hrun (running_of_onWay ht)).at_guest hstep hguest
      rw [← hcore, ← hvmem]
      exact hl.2 k hguest
    · rw [iterations_snoc, if_neg hguest, Nat.add_zero] at hcount
      exact ih ht hcount

-- ---------------------------------------------------------------------------
-- The way through `wait_for_halt`
-- ---------------------------------------------------------------------------

theorem StepRun.back_stage (hr : StepRun s k t c) (hs : c.stub.back = true) :
    c.Halted k ∧ iterations k t = (if (s.node k).ct.oldSignal = .start then 1 else 0) ∧
      (Lts.Every (KeepsWords s) t → ∀ a, c.breakpoints.FullAt a ↔ s.breakpoints.FullAt a) := by
  cases hr.stage with
  | breakpoint hs' | stepped _ _ hs' =>
    rw [hs'] at hs
    cases hs
  | check _ hs' => rcases hs' with hs' | hs' <;> rw [hs'] at hs <;> cases hs
  | step _ _ hst =>
    rw [hst.stub] at hs
    cases hs
  | back _ hk hcount hfull => exact ⟨hk, hcount, hfull⟩

theorem StepRun.back_halted (hr : StepRun s k t c) (hs : c.stub.back = true) : c.AllHalted :=
  hr.allHalted (hr.back_stage hs).1

theorem canReturn_scan (hall : c.AllHalted) (hs : c.stub = .scan n) : c.CanReturn back := by
  induction hm : c.cores - n generalizing c n with
  | zero =>
    have hmove : c.stubMove = some (c.jump (.reply true)) := by
      simp only [stubMove, hs, if_neg (Nat.not_lt_of_le (Nat.le_of_sub_eq_zero hm))]
    exact .of_step (.stubGoto hmove) (by rintro _ hr; cases hs.symm.trans hr) rfl (.of_reply rfl)
  | succ m ih =>
    have hn : n < c.cores := by omega
    have hmove : c.stubMove = some (c.jump (.scan (n + 1))) := by
      simp only [stubMove, hs, if_pos hn, if_pos (hall n hn)]
    refine .of_step (.stubGoto hmove) (by rintro _ hr; cases hs.symm.trans hr) rfl ?_
    exact ih (n := n + 1) hall rfl (by dsimp only; omega)

theorem canReturn_poll (hall : c.AllHalted) (hs : c.stub = .poll) : c.CanReturn back := by
  have hmove : c.stubMove = some (c.jump (.scan 0)) := by simp only [stubMove, hs]
  exact .of_step (.stubGoto hmove) (by rintro _ hr; cases hs.symm.trans hr) rfl
    (canReturn_scan (n := 0) hall rfl)

theorem StepRun.alive (hr : StepRun s k t c) (hj : c.Halted j) (hstep : c.stub.stepping ≠ some j) :
    (c.node j).Alive := by
  refine ⟨fun hc => ?_, ?_⟩
  · rcases (hr.out j).halted hj with h | h <;> cases hc.symm.trans h
  · rw [hr.idle j hstep hr.stage.stub_cases.1]
    rintro ⟨⟩

theorem StepRun.not_locked (hr : StepRun s k t c) (hall : c.AllHalted)
    (hs : c.stub.locks = false) : ¬ c.Locked := by
  rintro (hlock | ⟨i, hi, hlock⟩)
  · cases hs.symm.trans hlock
  · have hcall : c.call i ≠ .hart .idle := by
      intro hcall
      rw [hcall] at hlock
      cases hlock
    obtain ⟨-, site, hc⟩ := hr.call i hcall
    exact hr.not_instr (hall i hi) site hc

theorem StepRun.canReturn_haltAll (hr : StepRun s k t c) (hs : c.stub = .haltAll n) :
    c.CanReturn back := by
  have hrunning : Running c .stub := by
    rintro _ hreply
    cases hs.symm.trans hreply
  induction hm : c.cores - n generalizing t c n with
  | zero =>
    have hmove : c.stubMove = some (c.jump (.reply false)) := by
      simp only [stubMove, hs, if_neg (Nat.not_lt_of_le (Nat.le_of_sub_eq_zero hm))]
    exact .of_step (.stubGoto hmove) hrunning rfl (.of_reply rfl)
  | succ m ih =>
    have hn : n < c.cores := by omega
    have hmove : c.stubMove = some (.signal n .halt fun _ => .haltAll (n + 1)) := by
      simp only [stubMove, hs, if_pos hn]
    have halive := hr.alive (hr.back_halted (by rw [hs]; rfl) n hn) (by rw [hs]; rintro ⟨⟩)
    have hstep := Step.stubSignal hmove (.halt halive)
    refine .of_step hstep hrunning rfl
      (ih (n := n + 1) (hr.step hrunning hstep) rfl (by rintro _ ⟨⟩) ?_)
    simp only [setNode]
    omega

theorem StepRun.canReturn_back (hr : StepRun s k t c) (hs : c.stub.back = true) :
    c.CanReturn back := by
  have hall := hr.back_halted hs
  cases hstub : c.stub with
  | poll => exact canReturn_poll hall hstub
  | scan n => exact canReturn_scan hall hstub
  | haltLock =>
    have hmove : c.stubMove = some (c.jump (.haltAll 0)) := by
      simp only [stubMove, hstub, if_neg (hr.not_locked hall (by rw [hstub]; rfl))]
    have hrunning : Running c .stub := by
      rintro _ hreply
      cases hstub.symm.trans hreply
    have hstep := Step.stubGoto hmove
    exact .of_step hstep hrunning rfl ((hr.step hrunning hstep).canReturn_haltAll (n := 0) rfl)
  | haltAll n => exact hr.canReturn_haltAll hstub
  | reply stop => exact .of_reply hstub
  | _ =>
    rw [hstub] at hs
    cases hs

-- ---------------------------------------------------------------------------
-- The call of the instruction
-- ---------------------------------------------------------------------------

theorem StepRun.stepStage (hr : StepRun s k t c) (hs : c.stub = .inStep k pc (.step k)) :
    ∃ vmem, StepStage s k pc vmem t c := by
  cases hr.stage with
  | breakpoint hs' | stepped _ _ hs' => cases hs.symm.trans hs'
  | check _ hs' => rcases hs' with hs' | hs' <;> cases hs.symm.trans hs'
  | step pc' vmem hst =>
    cases hs.symm.trans hst.stub
    exact ⟨vmem, hst⟩
  | back hs' =>
    rw [hs] at hs'
    cases hs'

theorem StepRun.alive_inStep (hr : StepRun s k t c) (hs : c.stub = .inStep k pc (.step k))
    (hj : j < c.cores) : (c.node j).Alive := by
  by_cases hjk : j = k
  · subst hjk
    obtain ⟨vmem, hst⟩ := hr.stepStage hs
    refine ⟨fun hc => ?_, ?_⟩
    · cases hst.phase with
      | asked _ _ _ hc' => rcases hc' with hc' | hc' <;> cases hc.symm.trans hc'
      | acknowledged _ _ _ _ hc' | stopped _ _ _ hc' => cases hc.symm.trans hc'
      | runs _ _ _ _ hc' =>
        rcases hc' with hc' | hc' | hc' | hc' | hc' <;> cases hc.symm.trans hc'
    · rcases hst.phase.debug with hd | hd <;> rw [hd] <;> rintro ⟨⟩
  · refine hr.alive (hr.others j (hr.cores_eq ▸ hj) hjk) ?_
    rw [hs]
    rintro ⟨⟩
    exact hjk rfl

/-- The stub still waits for the step, and the hart is between two calls. -/
def BetweenCalls (k : Nat) (pc : Option (BitVec 64)) (c : DebugSys) : Prop :=
  c.stub = .inStep k pc (.step k) ∧ (c.call k).free = true

def Finishes (back : VCore → Mem → Prop) (k : Nat) (pc : Option (BitVec 64)) (c : DebugSys) :
    Prop :=
  ∃ t c', Run c t c' ∧ Lts.Every (OnWay back) t ∧ c'.BetweenCalls k pc

theorem running_inStep (hs : c.stub = .inStep j pc act) (l) : Running c l := by
  rintro _ hreply
  cases hs.symm.trans hreply

theorem Finishes.of_step (h : Step c l c') (hs : c.stub = .inStep j pc' act)
    (hguest : l.guestOf = none) (hf : c'.Finishes back k pc) : c.Finishes back k pc := by
  obtain ⟨t, c'', hrun, ht, hend⟩ := hf
  have hl : OnWay back c l := .of_running (running_inStep hs l) hguest
  exact ⟨_, c'', .cons h hrun, Lts.every_cons.mpr ⟨hl, ht⟩, hend⟩

theorem Finishes.of_free (hs : c.stub = .inStep k pc (.step k)) (h : (c.call k).free = true) :
    c.Finishes back k pc :=
  ⟨[], c, .nil, Lts.every_nil, hs, h⟩

theorem StepRun.finishes_signal (hr : StepRun s k t c) (hs : c.stub = .inStep k pc (.step k))
    (args : HartArgs) (hcall : c.call k = .hart (.signal args)) : c.Finishes back k pc := by
  have halive := hr.alive_inStep hs (hr.target k args (.inr hcall))
  refine .of_step (.hartSignal k hcall (.hsm halive .start)) hs rfl (.of_free hs ?_)
  simp only [setCall_call, if_true]
  rfl

theorem StepRun.finishes_halting (hr : StepRun s k t c) (hs : c.stub = .inStep k pc (.step k))
    (hcall : c.call k = .halting n) : c.Finishes back k pc := by
  induction hm : c.cores - n generalizing t c n with
  | zero =>
    refine .of_step (.haltUnlock k hcall (Nat.le_of_sub_eq_zero hm)) hs rfl (.of_free hs ?_)
    simp only [setCall_call, if_true]
    rfl
  | succ m ih =>
    have hn : n < c.cores := by omega
    have hstep := Step.haltNext k hcall hn (.halt (hr.alive_inStep hs hn))
    refine .of_step hstep hs rfl (ih (n := n + 1) (hr.step (running_inStep hs _) hstep) hs ?_ ?_)
    · simp only [setCall_call, if_true]
    · simp only [setCall, setNode]
      omega

theorem StepRun.finishes (hr : StepRun s k t c) (hs : c.stub = .inStep k pc (.step k)) :
    c.Finishes back k pc := by
  cases hcall : c.call k with
  | hart call =>
    cases call with
    | idle | done => exact .of_free hs (by rw [hcall]; rfl)
    | init args =>
      have hstep := Step.hartInit k hcall (hr.alive_inStep hs (hr.target k args (.inl hcall)))
      refine .of_step hstep hs rfl
        ((hr.step (running_inStep hs _) hstep).finishes_signal hs args ?_)
      simp only [setCall_call, if_true]
    | signal args => exact hr.finishes_signal hs args hcall
  | halting n => exact hr.finishes_halting hs hcall
  | halted => exact .of_free hs (by rw [hcall]; rfl)

-- ---------------------------------------------------------------------------
-- The handshake
-- ---------------------------------------------------------------------------

/-- What the two threads of the core do by themselves they do in the process, until the stub is
back from its wait. -/
theorem StepRun.lift (hr : StepRun s k t c) (hback : s.ComesBack back k) (hk : k < s.cores)
    (hc : c.BetweenCalls k pc) (h : CoreSys.Run (c.node k) tr x)
    (htr : Lts.Every CoreSys.Internal tr) :
    ∃ t' c', Run c t' c' ∧ Lts.Every (OnWay back) t' ∧
      (c'.BetweenCalls k pc ∧ c'.node k = x ∨ c'.stub = .stepped k pc (.step k)) := by
  induction h with
  | nil => exact ⟨[], c, .nil, Lts.every_nil, .inl ⟨hc, rfl⟩⟩
  | @snoc tr x l x' _ hn ih =>
    rw [Lts.every_append, Lts.every_cons] at htr
    obtain ⟨htr, hl, -⟩ := htr
    obtain ⟨t', c', hrun, ht, hend⟩ := ih htr
    rcases hend with ⟨⟨hstub, hfree⟩, rfl⟩ | hend
    · have hr' := hr.run hrun (running_of_onWay ht)
      have hk' : k < c'.cores := hr'.cores_eq ▸ hk
      have hgo {l c''} (hstep : Step c' l c'') (hends : EndsBack back c' l) :
          Run c (t' ++ [(c', l)]) c'' ∧ Lts.Every (OnWay back) (t' ++ [(c', l)]) :=
        ⟨hrun.snoc hstep, Lts.every_append.mpr
          ⟨ht, Lts.every_cons.mpr ⟨⟨running_inStep hstub l, hends⟩, Lts.every_nil⟩⟩⟩
      rcases hl with rfl | rfl | rfl
      · obtain ⟨hrun', ht'⟩ := hgo (.core k hk' hn) (by rintro _ ⟨⟩)
        refine ⟨_, _, hrun', ht', .inl ⟨⟨hstub, hfree⟩, ?_⟩⟩
        simp only [setNode_node, if_true]
      · have hstep := Step.guest k c'.vmem hk' hfree rfl hn
        obtain ⟨hrun', ht'⟩ := hgo hstep (hr'.endsBack hback hstep rfl)
        refine ⟨_, _, hrun', ht', .inl ⟨⟨hstub, ?_⟩, ?_⟩⟩
        · simp only [setCall_call, if_true]
          rfl
        · simp only [setCall_node, setNode_node, if_true]
      · have hmove : c'.stubMove = some (.signal k .stepWake fun n =>
            if n.debug = .idle then .stepped k pc (.step k) else .inStep k pc (.step k)) := by
          simp only [stubMove, hstub]
        obtain ⟨hrun', ht'⟩ := hgo (.stubSignal hmove hn) (by rintro _ ⟨⟩)
        refine ⟨_, _, hrun', ht', ?_⟩
        by_cases hidle : x'.debug = .idle
        · exact .inr (if_pos hidle)
        · refine .inl ⟨⟨if_neg hidle, hfree⟩, ?_⟩
          simp only [setNode_node, if_true]
    · exact ⟨t', c', hrun, ht, .inr hend⟩

theorem StepRun.canReturn_stepped (hr : StepRun s k t c) (hs : c.stub = .stepped k pc (.step k)) :
    c.CanReturn back := by
  have hrunning : Running c .stub := by
    rintro _ hreply
    cases hs.symm.trans hreply
  have hgo (vmem t' ret) (hmove : c.stubMove = some (.goto vmem t'
      (c.afterBreakpoint k (.step k) ret))) (hret : ret ≠ .notFound) : c.CanReturn back := by
    have hstep := Step.stubGoto hmove
    refine .of_step hstep hrunning rfl ((hr.step hrunning hstep).canReturn_back ?_)
    simp only [afterBreakpoint, if_neg hret]
    rfl
  cases hr.stage with
  | stepped pc' vmem hs' _ _ hmem =>
    cases hs.symm.trans hs'
    generalize hbreak : c.breakpoints = b at hmem
    cases hmem with
    | none =>
      refine hgo c.vmem c.breakpoints .stepped ?_ (by rintro ⟨⟩)
      simp only [stubMove, hs]
      rfl
    | some i hfind =>
      obtain ⟨-, hin⟩ := hr.inside ⟨i, sadFindBreakpoint_some hfind⟩
      obtain ⟨vmem', t', ret, hins⟩ := sadInsertBreakpoint_ok c.breakpoints hin
      refine hgo vmem' t' .stepped ?_ (by rintro ⟨⟩)
      simp only [stubMove, hs, hins]
  | breakpoint hs' => cases hs.symm.trans hs'
  | check _ hs' => rcases hs' with hs' | hs' <;> cases hs.symm.trans hs'
  | step _ _ hst => cases hs.symm.trans hst.stub
  | back hs' =>
    rw [hs] at hs'
    cases hs'

theorem StepRun.canReturn_step (hr : StepRun s k t c) (hback : s.ComesBack back k)
    (hk : k < s.cores) (hs : c.stub = .inStep k pc (.step k)) : c.CanReturn back := by
  obtain ⟨t₁, c₁, hrun₁, ht₁, hbetween⟩ := hr.finishes hs
  have hr₁ := hr.run hrun₁ (running_of_onWay ht₁)
  obtain ⟨vmem, hst⟩ := hr₁.stepStage hbetween.1
  obtain ⟨x, ⟨tr, htrace, htr⟩, hquiet⟩ := hst.phase.settles (hr₁.out k).oldSignal
  obtain ⟨t₂, c₂, hrun₂, ht₂, hend⟩ := hr₁.lift hback hk hbetween htrace htr
  have hr₂ := hr₁.run hrun₂ (running_of_onWay ht₂)
  refine .of_run hrun₁ ht₁ (.of_run hrun₂ ht₂ ?_)
  rcases hend with ⟨⟨hstub, -⟩, rfl⟩ | hstub
  · -- the wait is over when the debug thread is back
    have hin := hr₂.inStep k (by rw [hstub]; rfl)
    rcases hin with hin | hin <;> cases hquiet.1.symm.trans hin
  · exact hr₂.canReturn_stepped hstub

theorem StepRun.canReturn_check (hr : StepRun s k t c) (hback : s.ComesBack back k)
    (hk : k < s.cores)
    (hs : c.stub = .stepCheck k pc (.step k) ∨ c.stub = .stepCore k pc (.step k))
    (hhalted : c.Halted k) : c.CanReturn back := by
  have hrunning {c : DebugSys} (hs : c.stub = .stepCheck k pc (.step k) ∨
      c.stub = .stepCore k pc (.step k)) : Running c .stub := by
    rintro _ hreply
    rcases hs with hs | hs <;> cases hs.symm.trans hreply
  have hcore {t} {c : DebugSys} (hr : StepRun s k t c) (hs : c.stub = .stepCore k pc (.step k))
      (hhalted : c.Halted k) : c.CanReturn back := by
    have hmove : c.stubMove = some (.signal k .step (unlessAborted (.inStep k pc (.step k)))) := by
      simp only [stubMove, hs]
    have hn := CoreSys.Step.signalStep (hr.alive hhalted (by rw [hs]; rintro ⟨⟩))
      (hr.idle k (by rw [hs]; rintro ⟨⟩) (by rw [hs]; rintro ⟨⟩))
      (if_neg (not_not.mpr hhalted))
    have hstep := Step.stubSignal hmove hn
    exact .of_step hstep (hrunning (.inr hs)) rfl
      ((hr.step (hrunning (.inr hs)) hstep).canReturn_step hback hk rfl)
  rcases hs with hs | hs
  · have hmove : c.stubMove = some (c.jump (.stepCore k pc (.step k))) := by
      simp only [stubMove, hs, if_pos hhalted]
    have hstep := Step.stubGoto hmove
    exact .of_step hstep (hrunning (.inl hs)) rfl
      (hcore (hr.step (hrunning (.inl hs)) hstep) rfl hhalted)
  · exact hcore hr hs hhalted

theorem StepRun.canReturn (hr : StepRun s k t c) (hback : s.ComesBack back k) (hk : k < s.cores) :
    c.CanReturn back := by
  cases hr.stage with
  | breakpoint hs hhalted =>
    have hrunning : Running c .stub := by
      rintro _ hreply
      cases hs.symm.trans hreply
    rcases hr.stubMove_breakpoint hs with ⟨-, hmove⟩ | ⟨i, -, hmove⟩
    · have hstep := Step.stubGoto hmove
      exact .of_step hstep hrunning rfl
        ((hr.step hrunning hstep).canReturn_check hback hk (.inl rfl) hhalted)
    · have hstep := Step.stubGoto hmove
      exact .of_step hstep hrunning rfl
        ((hr.step hrunning hstep).canReturn_check hback hk (.inl rfl) hhalted)
  | check pc hs hhalted => exact hr.canReturn_check hback hk hs hhalted
  | step pc vmem hst => exact hr.canReturn_step hback hk hst.stub
  | stepped pc vmem hs => exact hr.canReturn_stepped hs
  | back hs => exact hr.canReturn_back hs

theorem StepRun.returns (hr : StepRun s k t c) (hback : s.ComesBack back k) (hk : k < s.cores) :
    c.Returns back := by
  refine Lts.Inevitable.of_rank (fun c => ∃ t, StepRun s k t c) (rank k) ?_ ?_ ⟨t, hr⟩
  · rintro c l c' ⟨t, hr⟩ hreply ⟨hstep, -⟩
    have hrunning : Running c l := fun stop hs => hreply ⟨stop, hs⟩
    exact (hr.lowers hrunning hstep).imp_right fun hlt => ⟨⟨_, hr.step hrunning hstep⟩, hlt⟩
  · rintro c ⟨t, hr⟩
    obtain ⟨t', c', hrun, ht, hreply⟩ := hr.canReturn hback hk
    exact ⟨t', c', hrun.restrict (ht.mono fun _ _ h => h.2), hreply⟩

/-- The stop reply comes exactly if the iteration comes back. -/
theorem StepRun.returns_iff (hr : StepRun s k [] c₀) (hk : k < s.cores) (hrun : Run c₀ t c)
    (ht : Lts.Every (OnWay back) t) : c.Returns back ↔ s.ComesBack back k := by
  refine ⟨fun hreturns hon => ?_, fun hback =>
    (hr.run hrun (running_of_onWay ht)).returns hback hk⟩
  obtain ⟨t', c', hrun', hbefore, stop, hs⟩ := hreturns.exists_run
  have ht' : Lts.Every (OnWay back) t' :=
    fun e he => ⟨fun stop hs => hbefore e he ⟨stop, hs⟩, hrun'.every e he⟩
  have hwhole : Run c₀ (t ++ t') c' := hrun.append (hrun'.mono fun _ _ _ h => h.1)
  have hway := Lts.every_append.mpr ⟨ht, ht'⟩
  refine hr.back_of_iterations hwhole hway ?_
  have hcount := ((hr.run hwhole (running_of_onWay hway)).back_stage (by rw [hs]; rfl)).2.1
  rw [List.nil_append, if_pos hon] at hcount
  omega

-- ---------------------------------------------------------------------------
-- The whole step
-- ---------------------------------------------------------------------------

/-- What a `vCont` step of hart `k` from `s` has done when it is at `c`, after `t`. -/
structure VContStepOk (back : VCore → Mem → Prop) (s : DebugSys) (k : Nat)
    (t : List (DebugSys × DebugLabel)) (c : DebugSys) : Prop where
  returns : Lts.Every (EndsBack back) t → (c.Returns back ↔ s.ComesBack back k)
  halted : ∀ stop, c.stub = .reply stop → c.AllHalted
  iterations : ∀ stop, c.stub = .reply stop →
    iterations k t = if (s.node k).ct.oldSignal = .start then 1 else 0
  others : ∀ j, j ≠ k → DebugSys.iterations j t = 0
  /-- The iteration fetches the word that the slot of the breakpoint saved. -/
  original : ∀ i, sadFindBreakpoint s.breakpoints (s.pc k) = some i →
    ∀ e ∈ t, e.2.guestOf = some k →
      memRw e.1.vmem ((e.1.node k).ct.core.regs Reg.pc) = .ok (s.breakpoints.slot i).instr
  breakpoints : ∀ stop, c.stub = .reply stop → Lts.Every (KeepsWords s) t →
    ∀ a, c.breakpoints.FullAt a ↔ s.breakpoints.FullAt a

theorem StepRun.original (hr : StepRun s k t c)
    (hfind : sadFindBreakpoint s.breakpoints (s.pc k) = some i) (hstep : Step c l c')
    (hl : l.guestOf = some k) :
    memRw c.vmem ((c.node k).ct.core.regs Reg.pc) = .ok (s.breakpoints.slot i).instr := by
  obtain ⟨-, hcore, hvmem⟩ := hr.at_guest hstep hl
  have hpc : (c.node k).ct.core.regs Reg.pc = (s.pc k).setWidth 32 := by
    rw [hcore, DebugSys.pc, BitVec.setWidth_setWidth_of_le _ (by decide), BitVec.setWidth_eq]
    rfl
  have hin := hr.start.within _ ⟨i, sadFindBreakpoint_some hfind⟩
  have hin' : (s.vmem.put ((s.pc k).setWidth 32).toNat (s.breakpoints.slot i).instr).Inside
      ((s.pc k).setWidth 32) 4 := hin
  rw [hvmem, hpc, liftedMem_some hfind, memRw, load_word hin', word_put hin]

/-- From every reachable state in which the stub waits for a packet and all cores are halted. -/
theorem vContStep {s₀ : DebugSys} (back : VCore → Mem → Prop) (h0 : s₀.Start)
    (hrun₀ : Run s₀ t₀ s) (hidle : s.stub = .idle) (hall : s.AllHalted) (hk : k < s.cores) :
    (∃ c, Step s (.vCont 's' (some (k + 1))) c) ∧
      ∀ c₀ t c, Step s (.vCont 's' (some (k + 1))) c₀ → Run c₀ t c → Lts.Every Running t →
        s.VContStepOk back k t c := by
  have hinv := inv h0 hrun₀
  refine ⟨⟨_, .vCont 's' (some (k + 1)) hidle⟩, fun c₀ t c hpacket hrun ht => ?_⟩
  have hr₀ := hinv.stepRun hall hk hpacket
  have hr : StepRun s k t c := hr₀.run hrun ht
  have hback : ∀ stop, c.stub = .reply stop → c.stub.back = true := by
    intro stop hs
    rw [hs]
    rfl
  refine ⟨fun hends => hr₀.returns_iff hk hrun fun e he => ⟨ht e he, hends e he⟩,
    fun stop hs => hr.back_halted (hback stop hs),
    fun stop hs => (hr.back_stage (hback stop hs)).2.1, hr.quiet, fun i hfind e he hl => ?_,
    fun stop hs => (hr.back_stage (hback stop hs)).2.2⟩
  obtain ⟨t₁, t₂, rfl⟩ := List.append_of_mem he
  obtain ⟨hrun₁, _, hstep, -⟩ := hrun.split rfl
  exact (hr₀.run hrun₁ (Lts.every_append.mp ht).1).original hfind hstep hl

instance decidableRunning (s : DebugSys) (l : DebugLabel) : Decidable (Running s l) :=
  inferInstanceAs (Decidable (∀ _ : Bool, _))

def UserBack (core : VCore) (vmem : Mem) : Prop :=
  ∃ m, vcoreExecute (User.env .ok) { (Sv32.boot [] []) with core, vmem } = .ok m

/-- `boot` with a `nop` at address 0. -/
def bootNop : DebugSys := { boot with vmem := .ofWords [0x00000013] }

/-- The core is on and executes one instruction. -/
theorem vContStep_boot : ∃ c₀ t c, Step bootNop (.vCont 's' (some 1)) c₀ ∧ c₀.Returns UserBack ∧
    Run c₀ t c ∧ c.stub = .reply true ∧ c.AllHalted ∧ iterations 0 t = 1 := by
  have hstart : bootNop.Start := { boot_start with }
  have hok := (vContStep UserBack hstart .nil rfl (by decide) Nat.one_pos).2
  have hback : bootNop.ComesBack UserBack 0 := fun _ => by
    rw [liftedMem_none Breakpoints.not_fullAt_reset]
    exact ⟨_, rfl⟩
  obtain ⟨t, c, hrun, ht, hs⟩ := Lts.exists_run (exec ((vcoreInit none).setReg Reg.pc 4))
    (s := { bootNop with stub := .breakpoint 0 (.step 0) })
    [.stub, .stub, .stub, .core 0, .stub, .core 0, .guest 0 (.ofWords [0x00000013]), .core 0,
      .core 0, .core 0, .stub, .stub, .stub, .stub, .stub]
    (Q := fun t c => Lts.Every Running t ∧ c.stub = .reply true) (by decide +kernel)
  have hpacket : Step bootNop (.vCont 's' (some 1)) _ := .vCont 's' (some 1) rfl
  have hrun' := hrun.mono fun _ _ _ => exec_step
  have hdone := hok _ t c hpacket hrun' ht
  have hreturns := (hok _ [] _ hpacket .nil Lts.every_nil).returns Lts.every_nil
  exact ⟨_, t, c, hpacket, hreturns.mpr hback, hrun', hs, hdone.halted true hs,
    hdone.iterations true hs⟩

/-- Word 0 is no instruction, and ends the process. -/
theorem vContStep_exits : boot.Start ∧ boot.AllHalted ∧
    ∃ c₀, Step boot (.vCont 's' (some 1)) c₀ ∧ ¬ c₀.Returns UserBack := by
  have hpacket : Step boot (.vCont 's' (some 1)) _ := .vCont 's' (some 1) rfl
  have hall : boot.AllHalted := by decide
  have hr := boot_start.inv.stepRun hall Nat.one_pos hpacket
  refine ⟨boot_start, hall, _, hpacket, fun hreturns => ?_⟩
  obtain ⟨m, hm⟩ := (hr.returns_iff Nat.one_pos .nil Lts.every_nil).mp hreturns rfl
  rw [liftedMem_none Breakpoints.not_fullAt_reset] at hm
  have hexit : vcoreExecute (User.env .ok)
      { (Sv32.boot [] []) with core := (vcoreInit none).leaving, vmem := .ofWords [] } =
        .error (.exit exitFailure) := rfl
  cases hexit.symm.trans hm

end SwitchV32.DebugSys
