import SwitchV32.Debug.Iteration
import SwitchV32.Debug.StopReply

/-!
# A step of one hart

The way of a `vCont` step through the stub and the core thread: the breakpoint
under the program counter is taken out, the two threads shake hands over the
two condition variables, the core executes one instruction if it is on, and the
breakpoint goes back in. No other hart runs meanwhile.
-/

namespace SwitchV32

def StubLoc.back : StubLoc → Bool
  | .poll | .scan _ | .haltLock | .haltAll _ | .reply _ => true
  | _ => false

def DebugLabel.guestOf : DebugLabel → Option Nat
  | .guest j _ => some j
  | _ => none

namespace DebugSys

def iterations (j : Nat) (t : List (DebugSys × DebugLabel)) : Nat :=
  t.countP fun e => e.2.guestOf == some j

def Running (s : DebugSys) (_ : DebugLabel) : Prop := ∀ stop, s.stub ≠ .reply stop

/-- No instruction writes to a word that has a breakpoint in `s`. -/
def KeepsWords (s c : DebugSys) (l : DebugLabel) : Prop :=
  ∀ j vmem, l = .guest j vmem → ∀ a, s.breakpoints.FullAt a →
    vmem.word (a.setWidth 32) = c.vmem.word (a.setWidth 32)

/-- Memory and table when the breakpoint of core `k`, if it is on one, has been removed. -/
inductive Removed (s : DebugSys) (k : Nat) : Option (BitVec 64) → Mem → Breakpoints → Prop
  | none (h : ¬ s.breakpoints.FullAt (s.pc k)) : Removed s k none s.vmem s.breakpoints
  | some (i) (h : sadFindBreakpoint s.breakpoints (s.pc k) = some i) :
    Removed s k (some (s.pc k))
      (s.vmem.put ((s.pc k).setWidth 32).toNat (s.breakpoints.slot i).instr)
      (s.breakpoints.clear i)

variable {s s' c c' : DebugSys} {l : DebugLabel} {j k : Nat} {t : List (DebugSys × DebugLabel)}

theorem iterations_snoc :
    iterations j (t ++ [(c, l)]) = iterations j t + if l.guestOf = some j then 1 else 0 := by
  simp only [iterations, List.countP_append, List.countP_singleton, beq_iff_eq]

theorem iterations_snoc_none (hl : l.guestOf = none) :
    iterations j (t ++ [(c, l)]) = iterations j t := by
  rw [iterations_snoc, hl, if_neg nofun, Nat.add_zero]

theorem every_of_snoc {P : DebugSys → DebugLabel → Prop} (h : Lts.Every P (t ++ [(c, l)])) :
    Lts.Every P t ∧ P c l := by
  rw [Lts.every_append, Lts.every_cons] at h
  exact ⟨h.1, h.2.1⟩

-- ---------------------------------------------------------------------------
-- The stages
-- ---------------------------------------------------------------------------

/-- The stub waits for the step of core `k`; `vmem` is the memory it began with. -/
structure StepStage (s : DebugSys) (k : Nat) (pc : Option (BitVec 64)) (vmem : Mem)
    (t : List (DebugSys × DebugLabel)) (c : DebugSys) : Prop where
  stub : c.stub = .inStep k pc (.step k)
  removed : Removed s k pc vmem c.breakpoints
  phase : (c.node k).StepPhase
  iteration : CoreSys.Iteration (s.node k).ct.oldSignal (c.node k) (iterations k t)
  before : iterations k t = 0 →
    c.vmem = vmem ∧ (c.node k).ct.core.leaving = (s.node k).ct.core.leaving
  words : Lts.Every (KeepsWords s) t → ∀ a, s.breakpoints.FullAt a →
    c.vmem.word (a.setWidth 32) = vmem.word (a.setWidth 32)
  /-- The instruction does not start the hart that executes it. -/
  target : ∀ args, c.call k = .hart (.init args) ∨ c.call k = .hart (.signal args) →
    args.target ≠ k
  on : c.call k = .hart .idle → ∀ site, (c.node k).core = .instr site →
    (c.node k).ct.oldSignal = .start

inductive Stage (s : DebugSys) (k : Nat) (t : List (DebugSys × DebugLabel)) (c : DebugSys) : Prop
  | breakpoint (hs : c.stub = .breakpoint k (.step k)) (hk : c.Halted k)
      (hcount : iterations k t = 0)
      (hkept : (c.node k).ct.core.leaving = (s.node k).ct.core.leaving)
      (hold : (c.node k).ct.oldSignal = (s.node k).ct.oldSignal)
      (hmem : c.vmem = s.vmem ∧ c.breakpoints = s.breakpoints)
  | check (pc) (hs : c.stub = .stepCheck k pc (.step k) ∨ c.stub = .stepCore k pc (.step k))
      (hk : c.Halted k) (hcount : iterations k t = 0)
      (hkept : (c.node k).ct.core.leaving = (s.node k).ct.core.leaving)
      (hold : (c.node k).ct.oldSignal = (s.node k).ct.oldSignal)
      (hmem : Removed s k pc c.vmem c.breakpoints)
  | step (pc vmem) (h : StepStage s k pc vmem t c)
  | stepped (pc vmem) (hs : c.stub = .stepped k pc (.step k)) (hk : c.Halted k)
      (hcount : iterations k t = if (s.node k).ct.oldSignal = .start then 1 else 0)
      (hmem : Removed s k pc vmem c.breakpoints)
      (hwords : Lts.Every (KeepsWords s) t → ∀ a, s.breakpoints.FullAt a →
        c.vmem.word (a.setWidth 32) = vmem.word (a.setWidth 32))
  | back (hs : c.stub.back = true) (hk : c.Halted k)
      (hcount : iterations k t = if (s.node k).ct.oldSignal = .start then 1 else 0)
      (hfull : Lts.Every (KeepsWords s) t → ∀ a, c.breakpoints.FullAt a ↔ s.breakpoints.FullAt a)

/-- What holds after `t`, on the way of a `vCont` step of core `k` from `s`. -/
structure StepRun (s : DebugSys) (k : Nat) (t : List (DebugSys × DebugLabel)) (c : DebugSys) :
    Prop extends Inv c where
  start : s.Inv
  cores_eq : c.cores = s.cores
  size_eq : c.vmem.size = s.vmem.size
  others : ∀ j < s.cores, j ≠ k → c.Halted j
  quiet : ∀ j, j ≠ k → iterations j t = 0
  stage : Stage s k t c

-- ---------------------------------------------------------------------------
-- Who runs
-- ---------------------------------------------------------------------------

theorem Inv.not_instr (hi : c.Inv) (hj : c.Halted j) (site : RunSite) :
    (c.node j).core ≠ .instr site := by
  rintro hc
  rcases (hi.out j).halted hj with h | h <;> cases hc.symm.trans h

theorem Step.guest_instr (h : Step c l c') (hl : l.guestOf = some j) :
    j < c.cores ∧ ∃ site, (c.node j).core = .instr site := by
  cases h with
  | guest j' _ hj _ _ hn =>
    cases hl
    cases hn with
    | guest site _ _ hc => exact ⟨hj, site, hc⟩
  | _ => cases hl

theorem Inv.instr_eq (hi : c.Inv) (hothers : ∀ j < c.cores, j ≠ k → c.Halted j)
    (hj : j < c.cores ∧ ∃ site, (c.node j).core = .instr site) : j = k := by
  obtain ⟨hlt, site, hc⟩ := hj
  by_contra hne
  exact hi.not_instr (hothers j hlt hne) site hc

/-- Halted cores change nothing that a step is about. -/
theorem Inv.quiet_step (hi : c.Inv) (hall : c.AllHalted) (h : Step c l c') (hl : l ≠ .stub)
    (hstub : c.stub ≠ .idle ∧ (l = .interrupt → c.stub ≠ .poll)) :
    l.guestOf = none ∧ c'.stub = c.stub ∧ c'.vmem = c.vmem ∧ c'.breakpoints = c.breakpoints ∧
      ∀ k, (c'.node k).ct.core.leaving = (c.node k).ct.core.leaving ∧
        (c'.node k).ct.oldSignal = (c.node k).ct.oldSignal := by
  have hno (i : Nat) (hi' : i < c.cores ∧ ∃ site, (c.node i).core = .instr site) : False := by
    obtain ⟨hlt, site, hc⟩ := hi'
    exact hi.not_instr (hall i hlt) site hc
  have h' := h
  cases h with
  | core j hj hn =>
    refine ⟨rfl, rfl, rfl, rfl, fun k => ?_⟩
    simp only [setNode_node]
    split
    · subst ‹k = j›
      exact ⟨hn.leaving (by rintro ⟨⟩), hn.oldSignal_eq (by rintro _ ⟨⟩)⟩
    · exact ⟨rfl, rfl⟩
  | guest j => exact (hno j (h'.guest_instr rfl)).elim
  | hartStart i site hi' hc | haltLock i site hi' hc | hsm i _ _ site hi' _ hc =>
    exact (hno i ⟨hi', site, hc⟩).elim
  | hartInit i hcall | hartSignal i hcall | haltNext i hcall | haltUnlock i hcall =>
    exact (hno i (hi.call i (by rw [hcall]; rintro ⟨⟩))).elim
  | vCont _ _ hs | packet hs => exact absurd hs hstub.1
  | interrupt hs => exact absurd hs (hstub.2 rfl)
  | stubGoto | stubSignal => exact absurd rfl hl

theorem Stage.stub_cases (h : Stage s k t c) : c.stub ≠ .crashed ∧ c.stub ≠ .idle ∧
    (∀ j, c.stub.stepping = some j → j = k) ∧
      ∀ j, c.stub ≠ .continueCore j ∧ c.stub ≠ .continueAll j := by
  have hone {stub : StubLoc} (hs : stub.stepping = none) : ∀ j, stub.stepping = some j → j = k :=
    fun j hj => by cases hs.symm.trans hj
  cases h with
  | breakpoint hs | stepped _ _ hs =>
    rw [hs]
    exact ⟨nofun, nofun, hone rfl, fun _ => ⟨nofun, nofun⟩⟩
  | check _ hs =>
    rcases hs with hs | hs <;> rw [hs] <;>
      exact ⟨nofun, nofun, hone rfl, fun _ => ⟨nofun, nofun⟩⟩
  | step _ _ h =>
    rw [h.stub]
    refine ⟨nofun, nofun, fun j hj => ?_, fun _ => ⟨nofun, nofun⟩⟩
    cases hj
    rfl
  | back hs =>
    cases hstub : c.stub <;> rw [hstub] at hs <;> cases hs <;>
      exact ⟨nofun, nofun, hone rfl, fun _ => ⟨nofun, nofun⟩⟩

theorem StepRun.step_others (hr : StepRun s k t c) (h : Step c l c') :
    ∀ j < s.cores, j ≠ k → c'.Halted j := by
  intro j hj hjk
  obtain ⟨hcrash, -, hstep, hcont⟩ := hr.stage.stub_cases
  refine hr.keeps_halted h (hr.others j hj hjk) (fun hs => hjk (hstep j hs)) hcrash ?_
  rintro - cl next hm rfl
  cases hm with
  | continueCore hs => exact (hcont j).1 hs
  | continueAll hs => exact (hcont j).2 hs

theorem StepRun.step_quiet (hr : StepRun s k t c) (h : Step c l c') :
    ∀ j, j ≠ k → iterations j (t ++ [(c, l)]) = 0 := by
  intro j hjk
  rw [iterations_snoc, hr.quiet j hjk, if_neg fun hl => hjk ?_]
  exact hr.instr_eq (hr.cores_eq ▸ hr.others) (h.guest_instr hl)

theorem StepRun.allHalted (hr : StepRun s k t c) (hk : c.Halted k) : c.AllHalted := by
  intro j hj
  by_cases hjk : j = k
  · rwa [hjk]
  · exact hr.others j (hr.cores_eq ▸ hj) hjk

theorem StepRun.step_halted (hr : StepRun s k t c) (hk : c.Halted k)
    (hstub : c.stub.stepping = none) (h : Step c l c') : c'.Halted k := by
  obtain ⟨hcrash, -, -, hcont⟩ := hr.stage.stub_cases
  refine hr.keeps_halted h hk (by rw [hstub]; rintro ⟨⟩) hcrash ?_
  rintro - cl next hm rfl
  cases hm with
  | continueCore hs => exact (hcont k).1 hs
  | continueAll hs => exact (hcont k).2 hs

-- ---------------------------------------------------------------------------
-- Around the step
-- ---------------------------------------------------------------------------

theorem Inv.stubMove_breakpoint (hi : c.Inv) (hs : c.stub = .breakpoint k act) :
    (¬ c.breakpoints.FullAt (c.pc k) ∧
      c.stubMove = some (c.jump (c.afterBreakpoint k act .notFound))) ∨
    ∃ i, sadFindBreakpoint c.breakpoints (c.pc k) = some i ∧
      c.stubMove = some (.goto
        (c.vmem.put ((c.pc k).setWidth 32).toNat (c.breakpoints.slot i).instr)
        (c.breakpoints.clear i) (.stepCheck k (some (c.pc k)) act)) := by
  cases hfind : sadFindBreakpoint c.breakpoints (c.pc k) with
  | none =>
    have hnot := sadFindBreakpoint_none.mp hfind
    refine .inl ⟨hnot, ?_⟩
    simp only [stubMove, hs, sadRemoveBreakpoint_notFound hnot, jump]
  | some i =>
    have hin := hi.within _ ⟨i, sadFindBreakpoint_some hfind⟩
    refine .inr ⟨i, rfl, ?_⟩
    simp only [stubMove, hs, sadRemoveBreakpoint_found hfind hin]

theorem StepRun.step_breakpoint (hr : StepRun s k t c) (hs : c.stub = .breakpoint k (.step k))
    (hk : c.Halted k) (hcount : iterations k t = 0)
    (hkept : (c.node k).ct.core.leaving = (s.node k).ct.core.leaving)
    (hold : (c.node k).ct.oldSignal = (s.node k).ct.oldSignal)
    (hmem : c.vmem = s.vmem ∧ c.breakpoints = s.breakpoints) (h : Step c l c') :
    Stage s k (t ++ [(c, l)]) c' := by
  have hk' := hr.step_halted hk (by rw [hs]; rfl) h
  by_cases hl : l = .stub
  · subst hl
    have hpc : c.pc k = s.pc k := by rw [pc, VCore.regs_of_leaving hkept, pc]
    have hcount' : iterations k (t ++ [(c, .stub)]) = 0 := (iterations_snoc_none rfl).trans hcount
    have hmove := hr.stubMove_breakpoint hs
    rw [hmem.1, hmem.2, hpc] at hmove
    cases h with
    | stubGoto hm =>
      rcases hmove with ⟨hnot, hmove⟩ | ⟨i, hfind, hmove⟩
      · cases hmove.symm.trans hm
        exact .check none (.inl rfl) hk' hcount' hkept hold
          (by rw [hmem.1, hmem.2]; exact .none hnot)
      · cases hmove.symm.trans hm
        exact .check (some (s.pc k)) (.inl rfl) hk' hcount' hkept hold (.some i hfind)
    | stubSignal hm =>
      rcases hmove with ⟨-, hmove⟩ | ⟨_, -, hmove⟩ <;> cases hmove.symm.trans hm
  · obtain ⟨hguest, hstub, hvmem, hbreak, hnode⟩ :=
      hr.quiet_step (hr.allHalted hk) h hl (by rw [hs]; exact ⟨by rintro ⟨⟩, by rintro _ ⟨⟩⟩)
    exact .breakpoint (hstub.trans hs) hk' ((iterations_snoc_none hguest).trans hcount)
      ((hnode k).1.trans hkept) ((hnode k).2.trans hold)
      ⟨hvmem.trans hmem.1, hbreak.trans hmem.2⟩

theorem StepRun.step_check (hr : StepRun s k t c) {pc : Option (BitVec 64)}
    (hs : c.stub = .stepCheck k pc (.step k) ∨ c.stub = .stepCore k pc (.step k))
    (hk : c.Halted k) (hcount : iterations k t = 0)
    (hkept : (c.node k).ct.core.leaving = (s.node k).ct.core.leaving)
    (hold : (c.node k).ct.oldSignal = (s.node k).ct.oldSignal)
    (hmem : Removed s k pc c.vmem c.breakpoints) (h : Step c l c') :
    Stage s k (t ++ [(c, l)]) c' := by
  have hk' := hr.step_halted hk (by rcases hs with hs | hs <;> rw [hs] <;> rfl) h
  by_cases hl : l = .stub
  · subst hl
    have hcount' : iterations k (t ++ [(c, .stub)]) = 0 := (iterations_snoc_none rfl).trans hcount
    rcases hs with hs | hs
    · have hmove : c.stubMove = some (c.jump (.stepCore k pc (.step k))) := by
        simp only [stubMove, hs, if_pos hk]
      cases h with
      | stubGoto hm =>
        cases hmove.symm.trans hm
        exact .check pc (.inr rfl) hk' hcount' hkept hold hmem
      | stubSignal hm => cases hmove.symm.trans hm
    · have hmove : c.stubMove =
          some (.signal k .step (unlessAborted (.inStep k pc (.step k)))) := by
        simp only [stubMove, hs]
      cases h with
      | stubGoto hm => cases hmove.symm.trans hm
      | stubSignal hm hn =>
        rename_i n
        cases hmove.symm.trans hm
        obtain ⟨hphase, hd⟩ := (hr.out k).stepPhase hn hk
        have hcall : c.call k = .hart .idle := by
          by_contra hne
          obtain ⟨-, site, hc⟩ := hr.call k hne
          exact hr.not_instr hk site hc
        have hnode {stub : StubLoc} : ({ c.setNode k n with stub } : DebugSys).node k = n := by
          simp only [setNode_node, if_true]
        refine .step pc c.vmem ⟨?_, hmem, ?_, ?_, fun _ => ⟨rfl, ?_⟩, fun _ _ _ => rfl, ?_, ?_⟩
        · exact if_neg (by rw [hd]; rintro ⟨⟩)
        · rwa [hnode]
        · rw [hnode, hcount']
          exact .before (.inl hd) ((hn.oldSignal_eq (by rintro _ ⟨⟩)).trans hold)
        · rw [hnode]
          exact (hn.leaving (by rintro ⟨⟩)).trans hkept
        · rintro args (hargs | hargs) <;> cases hcall.symm.trans hargs
        · intro _ site hc
          rw [hnode] at hc
          cases hd.symm.trans (hphase.of_out (.inl (by rw [hc]; rfl))).1
  · obtain ⟨hguest, hstub, hvmem, hbreak, hnode⟩ :=
      hr.quiet_step (hr.allHalted hk) h hl (by
        rcases hs with hs | hs <;> rw [hs] <;> exact ⟨by rintro ⟨⟩, by rintro _ ⟨⟩⟩)
    exact .check pc (by rwa [hstub]) hk' ((iterations_snoc_none hguest).trans hcount)
      ((hnode k).1.trans hkept) ((hnode k).2.trans hold) (by rwa [hvmem, hbreak])

-- ---------------------------------------------------------------------------
-- In the step
-- ---------------------------------------------------------------------------

section
variable {pc : Option (BitVec 64)} {vmem : Mem}

theorem StepStage.keep (hst : StepStage s k pc vmem t c) (hl : l.guestOf = none)
    (hstub : c'.stub = c.stub) (hbreak : c'.breakpoints = c.breakpoints)
    (hvmem : c'.vmem = c.vmem) (hphase : (c'.node k).StepPhase)
    (hit : CoreSys.Iteration (s.node k).ct.oldSignal (c'.node k) (iterations k t))
    (hkept : (c'.node k).ct.core.leaving = (c.node k).ct.core.leaving)
    (htarget : ∀ args, c'.call k = .hart (.init args) ∨ c'.call k = .hart (.signal args) →
      args.target ≠ k)
    (hon : c'.call k = .hart .idle → ∀ site, (c'.node k).core = .instr site →
      (c'.node k).ct.oldSignal = .start) : StepStage s k pc vmem (t ++ [(c, l)]) c' where
  stub := hstub.trans hst.stub
  removed := hbreak ▸ hst.removed
  phase := hphase
  iteration := by rwa [iterations_snoc_none hl]
  before h := by
    rw [iterations_snoc_none hl] at h
    exact ⟨hvmem.trans (hst.before h).1, hkept.trans (hst.before h).2⟩
  words ht := by
    rw [hvmem]
    exact hst.words (every_of_snoc ht).1
  target := htarget
  on := hon

theorem StepStage.keep_node (hst : StepStage s k pc vmem t c) (hl : l.guestOf = none)
    (hstub : c'.stub = c.stub) (hbreak : c'.breakpoints = c.breakpoints)
    (hvmem : c'.vmem = c.vmem) (hnode : c'.node k = c.node k)
    (htarget : ∀ args, c'.call k = .hart (.init args) ∨ c'.call k = .hart (.signal args) →
      args.target ≠ k)
    (hon : c'.call k = .hart .idle → c.call k = .hart .idle) :
    StepStage s k pc vmem (t ++ [(c, l)]) c' :=
  hst.keep hl hstub hbreak hvmem (by rw [hnode]; exact hst.phase)
    (by rw [hnode]; exact hst.iteration) (by rw [hnode]) htarget
    (fun hcall => by rw [hnode]; exact hst.on (hon hcall))

theorem StepStage.keep_asked (hst : StepStage s k pc vmem t c) (hl : l.guestOf = none)
    (hstub : c'.stub = c.stub) (hbreak : c'.breakpoints = c.breakpoints)
    (hvmem : c'.vmem = c.vmem) (hc : (c.node k).core = .instr site)
    (hcl : cl = .halt ∨ ∃ signal, cl = .hsm signal)
    (hn : CoreSys.Step (c.node k) cl (c'.node k)) (hin : (c'.node k).InStep)
    (htarget : ∀ args, c'.call k ≠ .hart (.init args) ∧ c'.call k ≠ .hart (.signal args))
    (hon : c'.call k ≠ .hart .idle) : StepStage s k pc vmem (t ++ [(c, l)]) c' := by
  refine hst.keep hl hstub hbreak hvmem (hst.phase.next hn hin fun _ => by rw [hc]; rfl)
    (hst.iteration.asked hst.phase hc hn hcl) (hn.leaving ?_) (fun args hargs => ?_)
    (fun hidle => absurd hidle hon)
  · rcases hcl with rfl | ⟨_, rfl⟩ <;> nofun
  · rcases hargs with hargs | hargs
    · exact absurd hargs (htarget args).1
    · exact absurd hargs (htarget args).2

theorem StepStage.hartStart_target (hst : StepStage s k pc vmem t c)
    (hc : (c.node k).core = .instr site) (hcall : c.call k = .hart .idle)
    (h : c.hartStart k = .init args ∨ c.hartStart k = .signal args) : args.target ≠ k := by
  have hstate : cthreadGetHsmState (c.node k).ct = .started := by
    have hold := hst.on hcall site hc
    cases hst.phase with
    | runs _ hrun => rcases hrun with hrun | hrun <;> rw [cthreadGetHsmState, hrun, hold] <;> rfl
    | asked _ _ _ hc' => rcases hc' with hc' | hc' <;> cases hc.symm.trans hc'
    | acknowledged _ _ _ _ hc' | stopped _ _ _ hc' => cases hc.symm.trans hc'
  rintro htarget
  dsimp only [hartStart, SwitchV32.hartStart] at h
  split at h
  · rcases h with h | h <;> cases h
  · split at h
    · rcases h with h | h <;> cases h
    · split at h
      · rcases h with h | h <;> cases h
      · rename_i hne
        rcases h with h | h
        · rw [HartCall.init.inj h, htarget] at hne
          exact hne (.inr hstate)
        · cases h

theorem StepRun.instr_eq (hr : StepRun s k t c)
    (hi : i < c.cores ∧ ∃ site, (c.node i).core = .instr site) : i = k :=
  hr.toInv.instr_eq (hr.cores_eq ▸ hr.others) hi

theorem StepRun.caller_eq (hr : StepRun s k t c) (hcall : c.call i ≠ .hart .idle) : i = k :=
  hr.instr_eq (hr.call i hcall)

theorem StepStage.inStep_step (hst : StepStage s k pc vmem t c) (hr : StepRun s k t c)
    (h : Step c l c') (hstub : c'.stub = c.stub) : (c'.node k).InStep :=
  (hr.toInv.step h).inStep k (by rw [hstub, hst.stub]; rfl)

theorem StepRun.step_core (hr : StepRun s k t c) (hst : StepStage s k pc vmem t c)
    (hj : j < c.cores) (hn : CoreSys.Step (c.node j) .core n) :
    StepStage s k pc vmem (t ++ [(c, .core j)]) (c.setNode j n) := by
  by_cases hjk : k = j
  · subst hjk
    have hnode : (c.setNode k n).node k = n := by simp only [setNode_node, if_true]
    have hin : n.InStep := hnode ▸ hst.inStep_step hr (.core k hj hn) rfl
    refine hst.keep rfl rfl rfl rfl ?_ ?_ ?_ hst.target fun _ site hc => ?_
    · rw [hnode]
      exact hst.phase.next hn hin (by rintro ⟨⟩)
    · rw [hnode]
      exact hst.iteration.core hst.phase hn
    · rw [hnode]
      exact hn.leaving (by rintro ⟨⟩)
    · rw [hnode] at hc ⊢
      exact hst.phase.on_of_instr hn hc
  · exact hst.keep_node rfl rfl rfl rfl (by simp only [setNode_node, hjk, if_false]) hst.target id

theorem StepRun.step_guest (hr : StepRun s k t c) (hst : StepStage s k pc vmem t c)
    (hj : j < c.cores) (hfree : (c.call j).free = true) (hsize : vmem'.size = c.vmem.size)
    (hn : CoreSys.Step (c.node j) .guest n) :
    StepStage s k pc vmem (t ++ [(c, .guest j vmem')])
      { (c.setNode j n).setCall j (.hart .idle) with vmem := vmem' } := by
  have h := Step.guest j vmem' hj hfree hsize hn
  obtain rfl := hr.instr_eq (h.guest_instr rfl)
  obtain ⟨-, hzero, hit⟩ := hst.iteration.guest hst.phase hn
  have hnode : ((c.setNode j n).setCall j (.hart .idle)).node j = n := by
    simp only [setCall_node, setNode_node, if_true]
  have hin : n.InStep := by
    have hinv := hst.inStep_step hr h rfl
    rwa [hnode] at hinv
  have hcount : iterations j (t ++ [(c, .guest j vmem')]) = 1 := by
    rw [iterations_snoc, hzero, DebugLabel.guestOf, if_pos rfl]
  have hcall : ((c.setNode j n).setCall j (.hart .idle)).call j = .hart .idle := by
    simp only [setCall_call, if_true]
  refine ⟨hst.stub, hst.removed, ?_, ?_, fun h => ?_, fun ht a ha => ?_, ?_, ?_⟩
  · exact hnode.symm ▸ hst.phase.next hn hin (by rintro ⟨⟩)
  · rw [hcount]
    exact hnode.symm ▸ hit
  · rw [hcount] at h
    cases h
  · obtain ⟨ht, hkeeps⟩ := every_of_snoc ht
    exact (hkeeps j vmem' rfl a ha).trans (hst.words ht a ha)
  · rintro args (hargs | hargs) <;> cases hcall.symm.trans hargs
  · intro _ site hc
    have hc' : n.core = .instr site := hnode ▸ hc
    cases hn with
    | guest => cases hc'

theorem StepRun.step_hartStart (hr : StepRun s k t c) (hst : StepStage s k pc vmem t c)
    (hi : i < c.cores) (hc : (c.node i).core = .instr site) (hcall : c.call i = .hart .idle) :
    StepStage s k pc vmem (t ++ [(c, .hartStart i)]) (c.setCall i (.hart (c.hartStart i))) := by
  obtain rfl := hr.instr_eq ⟨hi, site, hc⟩
  refine hst.keep_node rfl rfl rfl rfl rfl (fun args hargs => ?_) fun _ => hcall
  simp only [setCall_call, if_true] at hargs
  exact hst.hartStart_target hc hcall (hargs.imp InsCall.hart.inj InsCall.hart.inj)

theorem StepRun.step_hartInit (hr : StepRun s k t c) (hst : StepStage s k pc vmem t c)
    (hcall : c.call i = .hart (.init args)) (m : CoreSys) :
    StepStage s k pc vmem (t ++ [(c, .hartInit i)])
      ((c.setNode args.target m).setCall i (.hart (.signal args))) := by
  obtain rfl := hr.caller_eq (by rw [hcall]; rintro ⟨⟩)
  have hne := hst.target args (.inl hcall)
  refine hst.keep_node rfl rfl rfl rfl ?_ (fun args' hargs => ?_) fun hidle => ?_
  · simp only [setCall_node, setNode_node, hne.symm, if_false]
  · simp only [setCall_call, if_true] at hargs
    rcases hargs with hargs | hargs <;> cases hargs
    exact hne
  · simp only [setCall_call, if_true] at hidle
    cases hidle

theorem StepRun.step_hartSignal (hr : StepRun s k t c) (hst : StepStage s k pc vmem t c)
    (hcall : c.call i = .hart (.signal args)) (m : CoreSys) (ret : U32) :
    StepStage s k pc vmem (t ++ [(c, .hartSignal i)])
      ((c.setNode args.target m).setCall i (.hart (.done ret))) := by
  obtain rfl := hr.caller_eq (by rw [hcall]; rintro ⟨⟩)
  have hne := hst.target args (.inr hcall)
  refine hst.keep_node rfl rfl rfl rfl ?_ (fun args' hargs => ?_) fun hidle => ?_
  · simp only [setCall_node, setNode_node, hne.symm, if_false]
  · simp only [setCall_call, if_true] at hargs
    rcases hargs with hargs | hargs <;> cases hargs
  · simp only [setCall_call, if_true] at hidle
    cases hidle

theorem StepRun.step_asked {call : InsCall} (hr : StepRun s k t c) (hst : StepStage s k pc vmem t c)
    (hc : (c.node k).core = .instr site) (hl : l.guestOf = none)
    (hcl : cl = .halt ∨ ∃ signal, cl = .hsm signal) (hn : CoreSys.Step (c.node j) cl n)
    (h : Step c l ((c.setNode j n).setCall k call))
    (hcall : ∀ args, call ≠ .hart (.init args) ∧ call ≠ .hart (.signal args))
    (hbusy : call ≠ .hart .idle) :
    StepStage s k pc vmem (t ++ [(c, l)]) ((c.setNode j n).setCall k call) := by
  have hcall' : ((c.setNode j n).setCall k call).call k = call := by
    simp only [setCall_call, if_true]
  by_cases hkj : k = j
  · subst hkj
    have hnode : ((c.setNode k n).setCall k call).node k = n := by
      simp only [setCall_node, setNode_node, if_true]
    exact hst.keep_asked hl rfl rfl rfl hc hcl (hnode.symm ▸ hn) (hst.inStep_step hr h rfl)
      (hcall'.symm ▸ hcall) (hcall'.symm ▸ hbusy)
  · refine hst.keep_node hl rfl rfl rfl ?_ (fun args hargs => ?_) fun hidle => ?_
    · simp only [setCall_node, setNode_node, hkj, if_false]
    · rw [hcall'] at hargs
      exact (hargs.elim (hcall args).1 (hcall args).2).elim
    · exact absurd (hcall'.symm.trans hidle) hbusy

theorem StepRun.step_haltLock (hr : StepRun s k t c) (hst : StepStage s k pc vmem t c)
    (hi : i < c.cores) (hc : (c.node i).core = .instr site) (hcall : c.call i = .hart .idle) :
    StepStage s k pc vmem (t ++ [(c, .haltLock i)]) (c.setCall i (.halting 0)) := by
  obtain rfl := hr.instr_eq ⟨hi, site, hc⟩
  refine hst.keep_node rfl rfl rfl rfl rfl (fun args hargs => ?_) fun _ => hcall
  simp only [setCall_call, if_true] at hargs
  rcases hargs with hargs | hargs <;> cases hargs

theorem StepRun.step_haltUnlock (hr : StepRun s k t c) (hst : StepStage s k pc vmem t c)
    (hcall : c.call i = .halting m) :
    StepStage s k pc vmem (t ++ [(c, .haltUnlock i)]) (c.setCall i .halted) := by
  obtain rfl := hr.caller_eq (by rw [hcall]; rintro ⟨⟩)
  refine hst.keep_node rfl rfl rfl rfl rfl (fun args hargs => ?_) fun hidle => ?_
  · simp only [setCall_call, if_true] at hargs
    rcases hargs with hargs | hargs <;> cases hargs
  · simp only [setCall_call, if_true] at hidle
    cases hidle

theorem StepRun.step_wake (hr : StepRun s k t c) (hst : StepStage s k pc vmem t c)
    (hm : c.stubMove = some (.signal j cl next)) (hn : CoreSys.Step (c.node j) cl n) :
    Stage s k (t ++ [(c, .stub)]) { c.setNode j n with stub := next n } := by
  have hmove := stubMove_signal hm
  obtain ⟨rfl, rfl⟩ := hmove.stepping (by rw [hst.stub]; rfl : c.stub.stepping = some k)
  have hcore : n.core = (c.node j).core := by
    cases hn
    rfl
  obtain ⟨hwait, hdone⟩ := hst.iteration.wake hst.phase hn
  cases hmove with
  | wake pc' act hs =>
    cases hst.stub.symm.trans hs
    have hnode {stub : StubLoc} : ({ c.setNode j n with stub } : DebugSys).node j = n := by
      simp only [setNode_node, if_true]
    by_cases hidle : n.debug = .idle
    · refine .stepped pc vmem (if_pos hidle) ?_ ((iterations_snoc_none rfl).trans (hdone hidle))
        hst.removed fun ht => hst.words (every_of_snoc ht).1
      rw [Halted, hnode]
      exact hn.wake_idle hidle
    · have hin : n.InStep := hn.debug_wake.resolve_right hidle
      refine .step pc vmem (hst.keep rfl ((if_neg hidle).trans hst.stub.symm) rfl rfl ?_ ?_ ?_
        hst.target fun hcall site hc => ?_)
      · rw [hnode]
        exact hst.phase.next hn hin (by rintro ⟨⟩)
      · rw [hnode]
        exact hwait hin
      · rw [hnode]
        exact hn.leaving (by rintro ⟨⟩)
      · rw [hnode] at hc ⊢
        exact (hn.oldSignal_eq (by rintro _ ⟨⟩)).trans (hst.on hcall site (hcore ▸ hc))

theorem StepRun.step_step (hr : StepRun s k t c) (hst : StepStage s k pc vmem t c)
    (h : Step c l c') : Stage s k (t ++ [(c, l)]) c' := by
  have h' := h
  cases h with
  | core j hj hn => exact .step pc vmem (hr.step_core hst hj hn)
  | guest j vmem' hj hfree hsize hn => exact .step pc vmem (hr.step_guest hst hj hfree hsize hn)
  | hartStart i site hi hc hcall => exact .step pc vmem (hr.step_hartStart hst hi hc hcall)
  | hartInit i hcall => exact .step pc vmem (hr.step_hartInit hst hcall _)
  | hartSignal i hcall => exact .step pc vmem (hr.step_hartSignal hst hcall _ _)
  | hsm i j signal site hi hj hc hcall hsignal hn =>
    obtain rfl := hr.instr_eq ⟨hi, site, hc⟩
    exact .step pc vmem (hr.step_asked hst hc rfl (.inr ⟨signal, rfl⟩) hn h'
      (fun args => ⟨by rintro ⟨⟩, by rintro ⟨⟩⟩) (by rintro ⟨⟩))
  | haltLock i site hi hc hcall => exact .step pc vmem (hr.step_haltLock hst hi hc hcall)
  | haltNext i hcall hlt hn =>
    have hbusy : c.call i ≠ .hart .idle := by rw [hcall]; rintro ⟨⟩
    obtain ⟨-, site, hc⟩ := hr.call i hbusy
    obtain rfl := hr.caller_eq hbusy
    exact .step pc vmem (hr.step_asked hst hc rfl (.inl rfl) hn h'
      (fun args => ⟨by rintro ⟨⟩, by rintro ⟨⟩⟩) (by rintro ⟨⟩))
  | haltUnlock i hcall => exact .step pc vmem (hr.step_haltUnlock hst hcall)
  | vCont _ _ hs | packet hs | interrupt hs => cases hst.stub.symm.trans hs
  | stubGoto hm =>
    have hstepping : c.stub.stepping = some k := by rw [hst.stub]; rfl
    cases hstepping.symm.trans (stubMove_goto hm).stepping.1
  | stubSignal hm hn => exact hr.step_wake hst hm hn

-- ---------------------------------------------------------------------------
-- After the step
-- ---------------------------------------------------------------------------

theorem StepRun.inside (hr : StepRun s k t c) (h : s.breakpoints.FullAt a) :
    s.vmem.Inside (a.setWidth 32) 4 ∧ c.vmem.Inside (a.setWidth 32) 4 := by
  have hin := hr.start.within a h
  exact ⟨hin, by simpa only [Mem.Inside, hr.size_eq] using hin⟩

theorem StepRun.step_stepped (hr : StepRun s k t c) (hs : c.stub = .stepped k pc (.step k))
    (hk : c.Halted k)
    (hcount : iterations k t = if (s.node k).ct.oldSignal = .start then 1 else 0)
    (hmem : Removed s k pc vmem c.breakpoints)
    (hwords : Lts.Every (KeepsWords s) t → ∀ a, s.breakpoints.FullAt a →
      c.vmem.word (a.setWidth 32) = vmem.word (a.setWidth 32))
    (h : Step c l c') : Stage s k (t ++ [(c, l)]) c' := by
  have hk' := hr.step_halted hk (by rw [hs]; rfl) h
  by_cases hl : l = .stub
  · subst hl
    have hcount' : iterations k (t ++ [(c, .stub)]) = _ := (iterations_snoc_none rfl).trans hcount
    generalize hbreak : c.breakpoints = b at hmem
    cases hmem with
    | none =>
      have hmove : c.stubMove = some (c.jump .poll) := by simp only [stubMove, hs]
      cases h with
      | stubGoto hm =>
        cases hmove.symm.trans hm
        exact .back rfl hk' hcount' fun _ a => by rw [hbreak]
      | stubSignal hm => cases hmove.symm.trans hm
    | some i hfind =>
      cases h with
      | stubGoto hm =>
        simp only [stubMove, hs] at hm
        split at hm
        · rename_i hins
          cases hm
          refine .back rfl hk' hcount' fun ht a => ?_
          have hfull : s.breakpoints.FullAt (s.pc k) := ⟨i, sadFindBreakpoint_some hfind⟩
          obtain ⟨hin, hin'⟩ := hr.inside hfull
          have hword := (hwords (every_of_snoc ht).1 _ hfull).trans (word_put hin _)
          obtain ⟨_, _, hins', -, heq⟩ := fullAt_reinsert hfind hin' hword
          rw [hbreak] at hins
          cases hins'.symm.trans hins
          exact heq a
        · cases hm
      | stubSignal hm =>
        simp only [stubMove, hs] at hm
        split at hm <;> cases hm
  · obtain ⟨hguest, hstub, hvmem, hbreak, -⟩ :=
      hr.quiet_step (hr.allHalted hk) h hl (by rw [hs]; exact ⟨by rintro ⟨⟩, by rintro _ ⟨⟩⟩)
    exact .stepped pc vmem (hstub.trans hs) hk' ((iterations_snoc_none hguest).trans hcount)
      (hbreak ▸ hmem) fun ht => hvmem ▸ hwords (every_of_snoc ht).1

theorem GotoMove.back {t : Breakpoints} {stub : StubLoc} (h : c.GotoMove vmem t stub)
    (hs : c.stub.back = true) (hreply : ∀ stop, c.stub ≠ .reply stop) :
    stub.back = true ∧ t = c.breakpoints := by
  cases h with
  | removed _ _ hs' | notFound _ _ hs' | checked _ _ _ hs' | inserted _ _ _ hs' | stepped _ _ hs'
  | continueChecked _ hs' | busy hs' | lock hs' | checkedNext _ hs' | checkedAll _ hs'
  | continued _ hs' =>
    rw [hs'] at hs
    cases hs
  | crash core hs' =>
    rcases hs' with ⟨_, _, hs'⟩ | hs' | ⟨hs', -⟩ <;> rw [hs'] at hs <;> cases hs
  | sent stop hs' => exact absurd hs' (hreply stop)
  | poll | scanNext | again | scanned | haltLock | halted => exact ⟨rfl, rfl⟩

theorem StepRun.step_back (hr : StepRun s k t c) (hs : c.stub.back = true)
    (hreply : ∀ stop, c.stub ≠ .reply stop) (hk : c.Halted k)
    (hcount : iterations k t = if (s.node k).ct.oldSignal = .start then 1 else 0)
    (hfull : Lts.Every (KeepsWords s) t → ∀ a, c.breakpoints.FullAt a ↔ s.breakpoints.FullAt a)
    (h : Step c l c') : Stage s k (t ++ [(c, l)]) c' := by
  have hnone : c.stub.stepping = none := by
    cases hstub : c.stub <;> rw [hstub] at hs <;> cases hs <;> rfl
  have hk' := hr.step_halted hk hnone h
  by_cases hl : l = .stub
  · subst hl
    have hcount' : iterations k (t ++ [(c, .stub)]) = _ := (iterations_snoc_none rfl).trans hcount
    cases h with
    | stubGoto hm =>
      obtain ⟨hback, rfl⟩ := (stubMove_goto hm).back hs hreply
      exact .back hback hk' hcount' fun ht => hfull (every_of_snoc ht).1
    | stubSignal hm hn =>
      cases stubMove_signal hm with
      | halt => exact .back rfl hk' hcount' fun ht => hfull (every_of_snoc ht).1
      | step _ _ hs' | wake _ _ hs' | continueCore hs' | continueAll hs' =>
        rw [hs'] at hs
        cases hs
  · by_cases hint : l = .interrupt
    · subst hint
      have hcount' : iterations k (t ++ [(c, .interrupt)]) = _ :=
        (iterations_snoc_none rfl).trans hcount
      cases h with
      | interrupt => exact .back rfl hk' hcount' fun ht => hfull (every_of_snoc ht).1
    · have hidle : c.stub ≠ .idle := by
        rintro hidle
        rw [hidle] at hs
        cases hs
      obtain ⟨hguest, hstub, -, hbreak, -⟩ :=
        hr.quiet_step (hr.allHalted hk) h hl ⟨hidle, fun h => absurd h hint⟩
      exact .back (hstub ▸ hs) hk' ((iterations_snoc_none hguest).trans hcount)
        fun ht => hbreak ▸ hfull (every_of_snoc ht).1

end

-- ---------------------------------------------------------------------------
-- Runs
-- ---------------------------------------------------------------------------

theorem StepRun.step (hr : StepRun s k t c) (hl : Running c l) (h : Step c l c') :
    StepRun s k (t ++ [(c, l)]) c' where
  toInv := hr.toInv.step h
  start := hr.start
  cores_eq := h.cores_eq.trans hr.cores_eq
  size_eq := (hr.step_within h).1.trans hr.size_eq
  others := hr.step_others h
  quiet := hr.step_quiet h
  stage := by
    cases hr.stage with
    | breakpoint hs hk hcount hkept hold hmem =>
      exact hr.step_breakpoint hs hk hcount hkept hold hmem h
    | check pc hs hk hcount hkept hold hmem =>
      exact hr.step_check hs hk hcount hkept hold hmem h
    | step pc vmem hst => exact hr.step_step hst h
    | stepped pc vmem hs hk hcount hmem hwords => exact hr.step_stepped hs hk hcount hmem hwords h
    | back hs hk hcount hfull => exact hr.step_back hs hl hk hcount hfull h

theorem StepRun.run (hr : StepRun s k t c) (h : Run c t' c') (ht : Lts.Every Running t') :
    StepRun s k (t ++ t') c' := by
  induction h with
  | nil => rwa [List.append_nil]
  | snoc _ hs ih =>
    obtain ⟨ht, hl⟩ := every_of_snoc ht
    rw [← List.append_assoc]
    exact (ih ht).step hl hs

theorem Inv.stepRun (hi : s.Inv) (hall : s.AllHalted) (hk : k < s.cores)
    (h : Step s (.vCont 's' (some (k + 1))) c) : StepRun s k [] c := by
  have hinv := hi.step h
  cases h with
  | vCont =>
    exact ⟨hinv, hi, rfl, rfl, fun j hj _ => hall j hj, fun _ _ => rfl,
      .breakpoint (by rw [vCont_step hk]; rfl) (hall k hk) rfl rfl rfl ⟨rfl, rfl⟩⟩

end DebugSys

end SwitchV32
