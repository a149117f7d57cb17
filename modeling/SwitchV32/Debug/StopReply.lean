import SwitchV32.Debug.Exec
import SwitchV32.Debug.Reach

/-!
# Stop replies

When the stub reports a stop, which cores have stopped. A `T05` is built after
a look at every core; an `S02` is built right after the halts are requested,
and a core acknowledges its halt when it gets there. Where the interrupt byte
finds all cores halted already, every reply and every next packet does.
-/

namespace SwitchV32

namespace CoreSys

theorem Step.debug_step_halted (h : Step s .step s') (hstate : s.ct.state = .halted) :
    s'.debug ≠ .aborted := by
  cases h with
  | signalStep => rintro ⟨⟩
  | stepAbort _ _ he =>
    rw [cthreadSignalStep, if_neg (not_not.mpr hstate)] at he
    cases he

theorem OutInv.debug_continue (hi : OutInv s) (h : Step s .continue s') :
    s'.debug ≠ .aborted := by
  obtain ⟨mode, hmode⟩ := hi.oldSignal
  cases h with
  | signalContinue ha => exact ha.2
  | continueAbort _ _ he =>
    rw [cthreadSignalContinue] at he
    split at he
    · cases he
    · rw [hmode] at he
      cases mode <;> cases he

theorem Step.wake_idle (h : Step s .stepWake s') (hidle : s'.debug = .idle) :
    s'.ct.state = .halted := by
  cases h with
  | stepWake _ hd =>
    rcases hd with hd | hd <;> simp only [SwitchV32.stepWake, hd] at hidle ⊢ <;>
      split at hidle <;> cases hidle
    assumption

end CoreSys

-- ---------------------------------------------------------------------------
-- The cores that the stub holds
-- ---------------------------------------------------------------------------

/-- The cores that may run, for all that the stub knows. -/
def StubLoc.Releases : StubLoc → Nat → Prop
  | .inStep core _ _, j => j = core
  | .continueAll n, j => j < n
  | .poll, _ => True
  | .scan n, j => n ≤ j
  | _, _ => False

namespace DebugSys

variable {s s' : DebugSys} {l : DebugLabel}

theorem Inv.keeps_halted (hi : s.Inv) (h : Step s l s') (hj : s.Halted j)
    (hstep : s.stub.stepping ≠ some j) (hcrash : s.stub ≠ .crashed)
    (hl : l = .stub → ∀ cl next, s.SignalMove j cl next → cl ≠ .continue) : s'.Halted j := by
  have hd : (s.node j).debug ≠ .stepStepping := by
    rw [hi.idle j hstep hcrash]
    rintro ⟨⟩
  have hout := hi.out j
  cases h.node j with
  | same _ heq =>
    rw [Halted, heq]
    exact hj
  | core hn | guest _ _ hn => exact hout.keeps_halted hn hj hd nofun
  | asked _ _ _ _ hcl hn =>
    rcases hcl with rfl | ⟨signal, rfl⟩ <;> exact hout.keeps_halted hn hj hd nofun
  | stub cl next hm hn => exact hout.keeps_halted hn hj hd (hl rfl cl next hm)
  | init _ _ _ _ heq | regs _ _ heq =>
    rw [Halted, heq]
    exact hj

/-- The stub knows that the cores that it has not released are halted. -/
structure Held (s : DebugSys) : Prop extends Inv s where
  held : ∀ j < s.cores, ¬ s.stub.Releases j → s.Halted j
  alive : s.stub ≠ .crashed

theorem Start.allHalted (h : s.Start) : s.AllHalted := by
  intro j _
  obtain ⟨_, _, _, heq⟩ := (h.node j).eq
  rw [Halted, heq]

theorem Start.held (h : s.Start) : s.Held where
  toInv := h.inv
  held j hj _ := h.allHalted j hj
  alive := by
    rw [h.stub]
    rintro ⟨⟩

theorem Held.allHalted (hi : s.Held) (hstub : ∀ j, ¬ s.stub.Releases j) : s.AllHalted :=
  fun j hj => hi.held j hj (hstub j)

theorem releases_of_stepping {stub : StubLoc} (h : stub.stepping = some j) :
    stub.Releases j := by
  cases stub <;> cases h
  rfl

theorem fromBreakpoint_ne_crashed (i act) : s.fromBreakpoint i act ≠ .crashed := by
  cases act <;> simp only [fromBreakpoint] <;> try split
  all_goals rintro ⟨⟩

theorem afterBreakpoint_ne_crashed (core act ret) : s.afterBreakpoint core act ret ≠ .crashed := by
  cases act with
  | continueAll => exact fromBreakpoint_ne_crashed (core + 1) .continueAll
  | continueCore => rintro ⟨⟩
  | step =>
    simp only [afterBreakpoint]
    split <;> rintro ⟨⟩

/-- No look at a core finds it running that the stub has not released. -/
theorem Held.goto (hi : s.Held) {vmem : Mem} {t : Breakpoints} {stub : StubLoc}
    (h : s.GotoMove vmem t stub) :
    (∀ j < s.cores, ¬ stub.Releases j → s.Halted j) ∧ stub ≠ .crashed := by
  have hbelow := hi.below
  cases h with
  | notFound _ _ hs | inserted _ _ _ hs =>
    have hall : s.AllHalted := hi.allHalted (by rw [hs]; rintro _ ⟨⟩)
    exact ⟨fun j hj _ => hall j hj, afterBreakpoint_ne_crashed _ _ _⟩
  | removed _ _ hs | checked _ _ _ hs | stepped _ _ hs | continueChecked _ hs | busy hs | lock hs
  | checkedNext _ hs | checkedAll _ hs | haltLock hs | halted _ hs | sent _ hs =>
    have hall : s.AllHalted := hi.allHalted (by rw [hs]; rintro _ ⟨⟩)
    exact ⟨fun j hj _ => hall j hj, nofun⟩
  | continued n hs | again n hs => exact ⟨fun j _ hrel => absurd trivial hrel, nofun⟩
  | poll hs => exact ⟨fun j _ hrel => absurd (Nat.zero_le j) hrel, nofun⟩
  | scanNext n hs hn hhalted =>
    refine ⟨fun j hj hrel => ?_, nofun⟩
    rcases Nat.lt_or_eq_of_le (Nat.le_of_lt_succ (Nat.lt_of_not_le hrel)) with hlt | rfl
    · refine hi.held j hj ?_
      rw [hs]
      exact Nat.not_le_of_lt hlt
    · exact hhalted
  | scanned n hs hn =>
    refine ⟨fun j hj _ => hi.held j hj ?_, nofun⟩
    rw [hs]
    exact Nat.not_le_of_lt (Nat.lt_of_lt_of_le hj hn)
  | crash core hs hhalted =>
    refine absurd (hi.held core ?_ ?_) hhalted
    · rcases hs with ⟨pc, act, hs⟩ | hs | ⟨-, hcore⟩
      · rw [hs] at hbelow
        exact hbelow.1
      · rw [hs] at hbelow
        exact hbelow
      · exact hcore
    · rcases hs with ⟨pc, act, hs⟩ | hs | ⟨hs, -⟩ <;> rw [hs] <;> rintro ⟨⟩

/-- A signal takes a core along that is released from there on, or brings one back. -/
theorem Held.signal (hi : s.Held) (hm : s.SignalMove i cl next)
    (h : CoreSys.Step (s.node i) cl n) (hi' : i < s.cores) :
    (∀ j < s.cores, ¬ (next n).Releases j → (if j = i then n else s.node j).ct.state = .halted) ∧
      next n ≠ .crashed := by
  have hall (hstub : ∀ j, ¬ s.stub.Releases j) : s.Halted i := hi.allHalted hstub i hi'
  cases hm with
  | step pc act hs =>
    have hd := h.debug_step_halted (hall (by rw [hs]; rintro _ ⟨⟩))
    simp only [unlessAborted, if_neg hd]
    refine ⟨fun j hj hrel => ?_, nofun⟩
    have hne : j ≠ i := hrel
    rw [if_neg hne]
    exact hi.held j hj (by rw [hs]; rintro ⟨⟩)
  | wake pc act hs =>
    dsimp only
    by_cases hidle : n.debug = .idle
    · rw [if_pos hidle]
      refine ⟨fun j hj _ => ?_, nofun⟩
      by_cases hji : j = i
      · rw [if_pos hji]
        exact h.wake_idle hidle
      · rw [if_neg hji]
        exact hi.held j hj (by rw [hs]; exact hji)
    · rw [if_neg hidle]
      refine ⟨fun j hj hrel => ?_, nofun⟩
      have hne : j ≠ i := hrel
      rw [if_neg hne]
      exact hi.held j hj (by rw [hs]; exact hrel)
  | continueCore hs =>
    simp only [unlessAborted, if_neg ((hi.out i).debug_continue h)]
    exact ⟨fun j _ hrel => absurd trivial hrel, nofun⟩
  | continueAll hs =>
    simp only [unlessAborted, if_neg ((hi.out i).debug_continue h)]
    refine ⟨fun j hj hrel => ?_, nofun⟩
    have hlt : i < j := Nat.lt_of_not_le fun hle => hrel (Nat.lt_succ_of_le hle)
    rw [if_neg (Nat.ne_of_gt hlt)]
    exact hi.held j hj (by rw [hs]; exact Nat.not_lt_of_gt hlt)
  | halt hs =>
    have hno : ∀ j, ¬ s.stub.Releases j := by
      rw [hs]
      rintro _ ⟨⟩
    refine ⟨fun j hj _ => ?_, nofun⟩
    by_cases hji : j = i
    · rw [if_pos hji]
      refine (hi.out i).keeps_halted h (hall hno) ?_ nofun
      rw [hi.idle i (by rw [hs]; rintro ⟨⟩) (by rw [hs]; rintro ⟨⟩)]
      rintro ⟨⟩
    · rw [if_neg hji]
      exact hi.held j hj (hno j)

theorem SignalMove.lt (hi : s.Inv) (hm : s.SignalMove i cl next) : i < s.cores := by
  have hbelow := hi.below
  cases hm with
  | step _ _ hs | wake _ _ hs =>
    rw [hs] at hbelow
    exact hbelow.1
  | continueCore hs =>
    rw [hs] at hbelow
    exact hbelow
  | continueAll _ hj | halt _ hj => exact hj

instance decidableInterrupt : (l : DebugLabel) → Decidable (l = .interrupt)
  | .interrupt => isTrue rfl
  | .core _ | .guest _ _ | .hartStart _ | .hartInit _ | .hartSignal _ | .hsm _ _ _ | .haltLock _
  | .haltNext _ | .haltUnlock _ | .vCont _ _ | .packet | .stub => isFalse nofun

/-- The interrupt byte comes when all cores are halted. -/
def InterruptsHalted (s : DebugSys) (l : DebugLabel) : Prop := l = .interrupt → s.AllHalted

instance decidableInterruptsHalted (s : DebugSys) (l : DebugLabel) :
    Decidable (InterruptsHalted s l) :=
  inferInstanceAs (Decidable (_ → _))

theorem Held.step (hi : s.Held) (hl : InterruptsHalted s l) (h : Step s l s') : s'.Held := by
  have hinv := hi.toInv.step h
  have h' := h
  cases h with
  | stubGoto hm =>
    obtain ⟨hheld, halive⟩ := hi.goto (stubMove_goto hm)
    exact ⟨hinv, hheld, halive⟩
  | stubSignal hm hn =>
    have hmove := stubMove_signal hm
    obtain ⟨hheld, halive⟩ := hi.signal hmove hn (hmove.lt hi.toInv)
    refine ⟨hinv, fun j hj hrel => ?_, halive⟩
    simp only [Halted, setNode_node]
    exact hheld j hj hrel
  | vCont action threadId hs =>
    have hall : s.AllHalted := hi.allHalted (by rw [hs]; rintro _ ⟨⟩)
    refine ⟨hinv, fun j hj _ => hall j hj, ?_⟩
    dsimp only
    split
    · rintro ⟨⟩
    · exact fromBreakpoint_ne_crashed _ _
  | interrupt => exact ⟨hinv, fun j hj _ => hl rfl j hj, nofun⟩
  | _ =>
    have hstub := h'.stub_eq ⟨nofun, nofun, nofun⟩
    refine ⟨hinv, fun j hj hrel => ?_, by rw [hstub]; exact hi.alive⟩
    rw [h'.cores_eq] at hj
    rw [hstub] at hrel
    exact hi.keeps_halted h' (hi.held j hj hrel) (fun hs => hrel (releases_of_stepping hs)) hi.alive
      nofun

-- ---------------------------------------------------------------------------
-- Replies
-- ---------------------------------------------------------------------------

/-- A stop reply is built from cores that are halted, outside `vcore_run`, and no packet finds a
core running. -/
structure StopReplyOk (s : DebugSys) : Prop where
  halted : ∀ stop, s.stub = .reply stop → s.AllHalted
  outside : ∀ stop, s.stub = .reply stop → ∀ j < s.cores, (s.node j).core.inRun = false
  alive : s.stub ≠ .crashed

/-- In a run whose interrupts find all cores halted. -/
theorem stopReply_holds {s₀ : DebugSys} {t} (h0 : s₀.Start) (hrun : Run s₀ t s)
    (ht : Lts.Every InterruptsHalted t) : s.StopReplyOk := by
  have hi := hrun.inv Held (fun _ _ _ hi hl hs => hi.step hl hs) ht h0.held
  have hall : ∀ stop, s.stub = .reply stop → s.AllHalted := by
    intro stop hs
    exact hi.allHalted (by rw [hs]; rintro _ ⟨⟩)
  refine ⟨hall, fun stop hs j hj => ?_, hi.alive⟩
  rcases (hi.out j).halted (hall stop hs j hj) with hc | hc <;> rw [hc] <;> rfl

-- ---------------------------------------------------------------------------
-- `T05`
-- ---------------------------------------------------------------------------

end DebugSys

/-- The cores that `wait_for_halt` has yet to see halted, since it last read from the client. -/
def StubLoc.Unseen : StubLoc → Nat → Prop
  | .scan n, j => n ≤ j
  | .reply true, _ => False
  | _, _ => True

theorem StubLoc.not_unseen {stub : StubLoc} (h : ¬ stub.Unseen j) :
    stub.stepping = none ∧ stub ≠ .crashed := by
  cases stub with
  | scan | reply => exact ⟨rfl, nofun⟩
  | _ => exact absurd trivial h

namespace DebugSys

variable {s s' : DebugSys} {l : DebugLabel}

structure Seen (s : DebugSys) : Prop extends Inv s where
  seen : ∀ j < s.cores, ¬ s.stub.Unseen j → s.Halted j

theorem Start.seen (h : s.Start) : s.Seen where
  toInv := h.inv
  seen j _ hseen := by
    rw [h.stub] at hseen
    exact absurd trivial hseen

theorem fromBreakpoint_unseen (i act) (j : Nat) : (s.fromBreakpoint i act).Unseen j := by
  cases act <;> simp only [fromBreakpoint] <;> try split
  all_goals trivial

theorem afterBreakpoint_unseen (core act ret) (j : Nat) :
    (s.afterBreakpoint core act ret).Unseen j := by
  cases act with
  | continueAll => exact fromBreakpoint_unseen (core + 1) .continueAll j
  | continueCore => trivial
  | step =>
    simp only [afterBreakpoint]
    split <;> trivial

theorem unlessAborted_unseen (stub : StubLoc) (h : stub.Unseen j) (n : CoreSys) :
    (unlessAborted stub n).Unseen j := by
  rcases unlessAborted_cases stub n with ⟨-, heq⟩ | ⟨-, heq⟩ <;> rw [heq]
  · trivial
  · exact h

theorem Seen.step (hi : s.Seen) (h : Step s l s') : s'.Seen := by
  refine ⟨hi.toInv.step h, fun j hj hseen => ?_⟩
  have h' := h
  cases h with
  | stubGoto hm =>
    cases stubMove_goto hm with
    | poll => exact absurd (Nat.zero_le j) hseen
    | scanNext n hs hn hhalted =>
      rcases Nat.lt_or_eq_of_le (Nat.le_of_lt_succ (Nat.lt_of_not_le hseen)) with hlt | rfl
      · refine hi.seen j hj ?_
        rw [hs]
        exact Nat.not_le_of_lt hlt
      · exact hhalted
    | scanned n hs hn =>
      refine hi.seen j hj ?_
      rw [hs]
      exact Nat.not_le_of_lt (Nat.lt_of_lt_of_le hj hn)
    | notFound | inserted => exact absurd (afterBreakpoint_unseen _ _ _ j) hseen
    | _ => exact absurd trivial hseen
  | stubSignal hm hn =>
    rename_i i cl next n
    cases stubMove_signal hm with
    | step pc act => exact absurd (unlessAborted_unseen (.inStep i pc act) trivial n) hseen
    | wake pc act =>
      dsimp only at hseen
      split at hseen <;> exact absurd trivial hseen
    | continueCore => exact absurd (unlessAborted_unseen .poll trivial n) hseen
    | continueAll => exact absurd (unlessAborted_unseen (.continueAll (i + 1)) trivial n) hseen
    | halt => exact absurd trivial hseen
  | vCont action threadId =>
    dsimp only at hseen
    split at hseen
    · exact absurd trivial hseen
    · exact absurd (fromBreakpoint_unseen 0 _ j) hseen
  | interrupt => exact absurd trivial hseen
  | _ =>
    rw [h'.stub_eq ⟨nofun, nofun, nofun⟩] at hseen
    rw [h'.cores_eq] at hj
    obtain ⟨hnone, hcrash⟩ := StubLoc.not_unseen hseen
    exact hi.keeps_halted h' (hi.seen j hj hseen) (by rw [hnone]; rintro ⟨⟩) hcrash nofun

/-- A `T05` is built from halted cores in every run, whatever was interrupted before. -/
theorem t05_halted {s₀ : DebugSys} {t} (h0 : s₀.Start) (hrun : Run s₀ t s)
    (hs : s.stub = .reply true) : s.AllHalted := by
  have hi := hrun.inv_all Seen (fun _ _ _ hi hstep => hi.step hstep) h0.seen
  intro j hj
  refine hi.seen j hj ?_
  rw [hs]
  exact id

-- ---------------------------------------------------------------------------
-- Runs of one core
-- ---------------------------------------------------------------------------

def boot : DebugSys where
  cores := 1
  node _ := CoreSys.bootSys
  call _ := .hart .idle
  vmem := .ofWords []
  breakpoints := .reset
  selectedCore := 0
  stub := .idle

theorem boot_start : boot.Start where
  cores := Nat.one_pos
  node _ := CoreSys.bootSys_init
  call _ := rfl
  breakpoints := rfl
  selectedCore := rfl
  stub := rfl

/-- A step of the core, up to the reply. -/
theorem stopReply_holds_boot : ∃ t s, Run boot t s ∧ s.stub = .reply true ∧ s.StopReplyOk := by
  obtain ⟨t, s, hrun, ht, hs⟩ := Lts.exists_run (exec (vcoreInit none)) (s := boot)
    [.vCont 's' (some 1), .stub, .stub, .stub, .core 0, .stub, .core 0, .guest 0 (.ofWords []),
      .core 0, .core 0, .core 0, .stub, .stub, .stub, .stub, .stub]
    (Q := fun t s => Lts.Every InterruptsHalted t ∧ s.stub = .reply true) (by decide +kernel)
  have hrun' : Run boot t s := hrun.mono fun _ _ _ => exec_step
  exact ⟨t, s, hrun', hs, stopReply_holds boot_start hrun' ht⟩

/-- All cores continue, the core runs, and the stub reads the interrupt byte: it asks for the halt
and replies before the core has acknowledged it. The next packet finds the core running. -/
theorem stopReply_fails : ∃ s₀ t s, Start s₀ ∧ Run s₀ t s ∧ s.stub = .crashed ∧
    ∃ e ∈ t, e.1.stub = .reply false ∧ ¬ e.1.AllHalted := by
  obtain ⟨t, s, hrun, hq⟩ := Lts.exists_run (exec (vcoreInit none)) (s := boot)
    [.vCont 'c' none, .stub, .stub, .stub, .stub, .stub, .stub, .core 0, .interrupt, .stub, .stub,
      .stub, .stub, .vCont 'c' none, .stub, .stub, .stub]
    (Q := fun t s => s.stub = .crashed ∧ ∃ e ∈ t, e.1.stub = .reply false ∧ ¬ e.1.AllHalted)
    (by decide +kernel)
  exact ⟨boot, t, s, boot_start, hrun.mono fun _ _ _ => exec_step, hq⟩

end DebugSys

end SwitchV32
