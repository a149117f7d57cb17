import SwitchV32.Harts.Reserved

/-!
# LR and SC between harts

`SC` is a compare-exchange with the value that the last `LR` of the hart read,
in the loop of `mem_cas`. A failed exchange puts the word itself in `expected`,
so that the next one overwrites whatever another hart stored. As long as that
loop is never entered a second time, `SC` overwrites only what `LR` read, and
harts that count with the two lose no increment.
-/

namespace SwitchV32.Harts

variable {s₀ s s' : Harts} {l : HartLabel} {i : Nat} {t : List (Harts × HartLabel)}

-- ---------------------------------------------------------------------------
-- What a history says
-- ---------------------------------------------------------------------------

def lrStep (i : Nat) (r : Option U32) (e : Harts × HartLabel) : Option U32 :=
  match e.2 with
  | .access j =>
    match e.1.phase j with
    | .lr addr => if j = i then some (e.1.vmem.word addr) else r
    | _ => r
  | _ => r

def lrRead (i : Nat) (t : List (Harts × HartLabel)) : Option U32 := t.foldl (lrStep i) none

/-- The word that the exchange of an `SC` looks at, and the value it expects there. -/
def scExchange (s : Harts) (l : HartLabel) : Option (U32 × U32) :=
  match s.accessPhase l with
  | .sc _ addr _ expected => some (addr, expected)
  | _ => none

def ScRetries (s : Harts) (l : HartLabel) : Prop :=
  ∃ x ∈ scExchange s l, s.vmem.word x.1 ≠ x.2

instance : Decidable (ScRetries s l) :=
  inferInstanceAs (Decidable (∃ x ∈ scExchange s l, s.vmem.word x.1 ≠ x.2))

def scStores (c : U32) (e : Harts × HartLabel) : Bool :=
  (scExchange e.1 e.2).any fun x => x.1 == c && e.1.vmem.word c == x.2

def ScAt (c : U32) (s : Harts) (l : HartLabel) (i : Nat) (val : U32) : Prop :=
  l = .access i ∧ ∃ ins expected, s.phase i = .sc ins c val expected

/-- Only `SC` changes the word at `c`, to the value that `LR` read and one. -/
structure Increments (c : U32) (t : List (Harts × HartLabel)) (s : Harts) (l : HartLabel) :
    Prop where
  sc : ∀ i val, ScAt c s l i val → ∃ v, lrRead i t = some v ∧ val = v + 1
  other : (∀ i val, ¬ ScAt c s l i val) → ∀ s', Step s l s' → s'.vmem.word c = s.vmem.word c

theorem scExchange_eq_some {addr expected} : scExchange s l = some (addr, expected) ↔
    ∃ i ins val, l = .access i ∧ s.phase i = .sc ins addr val expected := by
  constructor
  · intro h
    unfold scExchange at h
    split at h
    · rename_i ins addr val expected hp
      cases h
      obtain ⟨i, rfl, hp⟩ := (accessPhase_eq (p := .sc ins addr val expected) nofun).mp hp
      exact ⟨i, ins, val, rfl, hp⟩
    · cases h
  · rintro ⟨i, ins, val, rfl, hp⟩
    simp only [scExchange, accessPhase, hp]

theorem scRetries_of_ne {ins addr val expected} (hp : s.phase i = .sc ins addr val expected)
    (hword : s.vmem.word addr ≠ expected) : ScRetries s (.access i) :=
  ⟨(addr, expected), scExchange_eq_some.mpr ⟨i, ins, val, rfl, hp⟩, hword⟩

theorem scStores_iff {c : U32} : scStores c (s, l) = true ↔
    ∃ i ins val, l = .access i ∧ s.phase i = .sc ins c val (s.vmem.word c) := by
  rw [← scExchange_eq_some]
  simp only [scStores, Option.any_eq_true, Bool.and_eq_true, beq_iff_eq, Prod.exists]
  constructor
  · rintro ⟨addr, expected, h, rfl, rfl⟩
    exact h
  · exact fun h => ⟨c, _, h, rfl, rfl⟩

theorem lrRead_snoc : lrRead i (t ++ [(s, l)]) = lrStep i (lrRead i t) (s, l) :=
  List.foldl_append ..

theorem lrRead_snoc_of_ne (h : l = .access i → ∀ addr, s.phase i ≠ .lr addr) :
    lrRead i (t ++ [(s, l)]) = lrRead i t := by
  rw [lrRead_snoc]
  unfold lrStep
  split
  · rename_i j hl
    split
    · rename_i addr hp
      refine if_neg fun hj => ?_
      subst hj
      exact h hl addr hp
    · rfl
  · rfl

-- ---------------------------------------------------------------------------
-- The reservation is what LR read
-- ---------------------------------------------------------------------------

structure LrInv (t : List (Harts × HartLabel)) (s : Harts) (i : Nat) : Prop where
  /-- Between the two writes of `LR` the flag is ahead of the value. -/
  flag : (∀ addr, s.phase i ≠ .lr addr) → (s.cthreads i).core.llScFlag = true →
    lrRead i t = some (s.cthreads i).core.reserved
  sc : ∀ ins addr val expected, s.phase i = .sc ins addr val expected → lrRead i t = some expected

theorem LrInv.of_keeps (hi : LrInv t s i) (hread : lrRead i (t ++ [(s, l)]) = lrRead i t)
    (hlr : ∀ addr, s.phase i ≠ .lr addr) (hcore : (s.cthreads i).core.KeepsLr (s'.cthreads i).core)
    (hsc : ∀ ins addr val expected, s'.phase i = .sc ins addr val expected →
      s.phase i = .sc ins addr val expected) : LrInv (t ++ [(s, l)]) s' i where
  flag _ hf := by
    obtain ⟨hf, hr⟩ := hcore hf
    rw [hread, hi.flag hlr hf, hr]
  sc ins addr val expected hp := by rw [hread, hi.sc ins addr val expected (hsc _ _ _ _ hp)]

theorem begun_others {m : Sv32} {r} (h : Begun Supervisor.env m ins r) :
    ∀ j, j ≠ m.host.hart → (m.host.cthreads j).core.KeepsLr (r.1.host.cthreads j).core := by
  cases h with
  | lr | sc | scRefused | amo => exact fun _ _ => .refl _
  | trap hop haf htrap => exact ((env_dispatchTrap_keeps _ _ _ htrap).addPc 4).others
  | other hop hins => exact (vcoreDispatch_keeps Supervisor.env_keeps ins hop _ hins).others

theorem accessed_host {m : Sv32} {p r} (h : Phase.Accessed m p r) : r.1.host = m.host := by
  cases h <;> rfl

theorem step_others (h : Step s l s') (hl : hartOf l ≠ some i) :
    (s.cthreads i).core.KeepsLr (s'.cthreads i).core := by
  cases l with
  | begin j =>
    obtain ⟨-, ins, r, -, hbegun, rfl⟩ := step_begin h
    have hne : i ≠ j := by rintro rfl; exact hl rfl
    rw [put_core_ne _ _ hne]
    exact begun_others hbegun i hne
  | access j =>
    obtain ⟨r, hr, rfl⟩ := step_access h
    have hne : i ≠ j := by rintro rfl; exact hl rfl
    rw [put_core_ne _ _ hne, accessed_host hr]
    exact .refl _
  | interrupts j =>
    obtain ⟨-, m, hm, rfl⟩ := step_interrupts h
    have hne : i ≠ j := by rintro rfl; exact hl rfl
    rw [put_core_ne _ _ hne]
    exact (checkInterrupts_keeps _ hm).others i hne
  | record j =>
    rw [(step_record h).2.2 i]
    exact .refl _

theorem LrInv.step_begin (hi : LrInv t s i) (h : Step s (.begin i) s') :
    LrInv (t ++ [(s, .begin i)]) s' i := by
  obtain ⟨hidle, ins, r, -, hbegun, rfl⟩ := Harts.step_begin h
  have hread : lrRead i (t ++ [(s, .begin i)]) = lrRead i t := lrRead_snoc_of_ne nofun
  have hlr : ∀ addr, s.phase i ≠ .lr addr := fun addr => by rw [hidle]; nofun
  have hkept (hcore : (s.cthreads i).core.KeepsLr r.1.core)
      (hp : ∀ ins addr val expected, r.2 ≠ .sc ins addr val expected) :
      LrInv (t ++ [(s, .begin i)]) (s.put i r) i := by
    refine hi.of_keeps hread hlr ?_ fun ins addr val expected h => ?_
    · rwa [put_core_self]
    · rw [put_phase_self] at h
      exact absurd h (hp _ _ _ _)
  cases hbegun with
  | lr =>
    refine ⟨fun h => ?_, fun _ _ _ _ h => ?_⟩
    · exact absurd (put_phase_self ..) (h _)
    · rw [put_phase_self] at h
      cases h
  | sc hop haf hflag =>
    refine ⟨fun _ h => ?_, fun _ _ _ _ h => ?_⟩
    · rw [put_core_self] at h
      cases h
    · rw [put_phase_self] at h
      cases h
      rw [hread]
      exact hi.flag hlr hflag
  | scRefused => exact hkept (.refl _) nofun
  | amo => exact hkept (.refl _) nofun
  | trap hop haf htrap => exact hkept ((env_dispatchTrap_keeps _ _ _ htrap).addPc 4).core nofun
  | other hop hins =>
    exact hkept (vcoreDispatch_keeps Supervisor.env_keeps ins hop _ hins).core nofun

theorem LrInv.step_access (hi : LrInv t s i) (hsc : ¬ ScRetries s (.access i))
    (h : Step s (.access i) s') : LrInv (t ++ [(s, .access i)]) s' i := by
  obtain ⟨r, hr, rfl⟩ := Harts.step_access h
  have hkept (hlr : ∀ addr, s.phase i ≠ .lr addr) (hcore : (s.cthreads i).core.KeepsLr r.1.core)
      (hp : ∀ ins addr val expected, r.2 ≠ .sc ins addr val expected) :
      LrInv (t ++ [(s, .access i)]) (s.put i r) i := by
    refine hi.of_keeps (lrRead_snoc_of_ne fun _ => hlr) hlr ?_ fun ins addr val expected h => ?_
    · rwa [put_core_self]
    · rw [put_phase_self] at h
      exact absurd h (hp _ _ _ _)
  generalize hp : s.phase i = p at hr
  cases hr with
  | lr hin =>
    refine ⟨fun _ _ => ?_, fun _ _ _ _ h => ?_⟩
    · rw [put_core_self, lrRead_snoc, lrStep]
      simp only [hp, ite_true]
      rfl
    · rw [put_phase_self] at h
      cases h
  | scRetry hin hword => exact absurd (scRetries_of_ne hp hword) hsc
  | scStored | amoDone | amoRead | casStored | casRetry =>
    exact hkept (by rw [hp]; nofun) (.refl _) nofun

theorem LrInv.step (hi : LrInv t s i) (hsc : ¬ ScRetries s l) (h : Step s l s') :
    LrInv (t ++ [(s, l)]) s' i := by
  by_cases hl : hartOf l = some i
  · cases l with
    | begin j =>
      cases hl
      exact hi.step_begin h
    | access j =>
      cases hl
      exact hi.step_access hsc h
    | interrupts j =>
      cases hl
      obtain ⟨hidle, m, hm, rfl⟩ := step_interrupts h
      refine hi.of_keeps (lrRead_snoc_of_ne nofun) (by rw [hidle]; nofun) ?_ fun _ _ _ _ h => ?_
      · rw [put_core_self]
        exact (checkInterrupts_keeps _ hm).core
      · rw [put_phase_self] at h
        cases h
    | record => cases hl
  · have hread : lrRead i (t ++ [(s, l)]) = lrRead i t :=
      lrRead_snoc_of_ne (by rintro rfl; exact absurd rfl hl)
    have hphase := step_phase h hl
    refine ⟨fun hlr hf => ?_, fun ins addr val expected hp => ?_⟩
    · rw [hphase] at hlr
      obtain ⟨hf, hr⟩ := step_others h hl hf
      rw [hread, hi.flag hlr hf, hr]
    · rw [hread]
      exact hi.sc ins addr val expected (hphase.symm.trans hp)

theorem Start.lrInv (h : s.Start) : LrInv [] s i where
  flag _ hf := nomatch (h.llScFlag i).symm.trans hf
  sc _ _ _ _ hp := nomatch (h.idle i).symm.trans hp

-- ---------------------------------------------------------------------------
-- No lost update
-- ---------------------------------------------------------------------------

theorem step_sc {ins addr val expected} (h : Step s (.access i) s')
    (hp : s.phase i = .sc ins addr val expected) :
    (s.vmem.word addr = expected ∧ s'.phase i = .idle ∧ s'.vmem.word addr = val ∧
      (s'.machine i).reg (Ins.rdReg ins) = 0) ∨
    (s.vmem.word addr ≠ expected ∧ s'.vmem = s.vmem ∧
      s'.phase i = .sc ins addr val (s.vmem.word addr)) := by
  obtain ⟨r, hr, rfl⟩ := Harts.step_access h
  rw [hp] at hr
  cases hr with
  | scStored hin hword =>
    refine .inl ⟨hword, put_phase_self .., ?_, ?_⟩
    · rw [put_vmem, vmem_finish]
      exact word_put hin val
    · rw [put_reg, reg_finish]
  | scRetry hin hword => exact .inr ⟨hword, rfl, put_phase_self ..⟩

theorem Increments.step {c : U32} (hc : Increments c t s l) (hi : ∀ i, LrInv t s i)
    (hsc : ¬ ScRetries s l) (h : Step s l s') :
    s'.vmem.word c = s.vmem.word c + if scStores c (s, l) then 1 else 0 := by
  by_cases hat : ∃ i val, ScAt c s l i val
  · obtain ⟨i, val, hat⟩ := hat
    obtain ⟨v, hread, hval⟩ := hc.sc i val hat
    obtain ⟨rfl, ins, expected, hp⟩ := hat
    rcases step_sc h hp with ⟨hword, -, hval', -⟩ | ⟨hword, -⟩
    · have hv : v = s.vmem.word c := by
        rw [hword]
        exact Option.some.inj (hread.symm.trans ((hi i).sc _ _ _ _ hp))
      have hst : scStores c (s, .access i) = true :=
        scStores_iff.mpr ⟨i, ins, val, rfl, by rw [hp, hword]⟩
      rw [hval', hval, hv, if_pos hst]
    · exact absurd (scRetries_of_ne hp hword) hsc
  · have hno : ∀ i val, ¬ ScAt c s l i val := fun i val h => hat ⟨i, val, h⟩
    have hst : ¬ scStores c (s, l) = true := by
      intro hst
      obtain ⟨i, ins, val, hl, hp⟩ := scStores_iff.mp hst
      exact hno i val ⟨hl, ins, _, hp⟩
    rw [hc.other hno s' h, if_neg hst]
    exact (BitVec.add_zero _).symm

theorem lrInv (h0 : s₀.Start) (h : Run s₀ t s) (ht : Lts.Every (¬ ScRetries · ·) t) :
    LrInv t s i :=
  h.inv_history (fun t s => LrInv t s i) (fun _ _ _ _ hi hsc hs => hi.step hsc hs) ht h0.lrInv

theorem counter {c : U32} (h0 : s₀.Start) (h : Run s₀ t s) (ht : Lts.Every (¬ ScRetries · ·) t)
    (hc : Lts.EveryAfter (Increments c) t) :
    s.vmem.word c = s₀.vmem.word c + BitVec.ofNat 32 (t.countP (scStores c)) := by
  induction h with
  | nil => exact (BitVec.add_zero _).symm
  | @snoc t s l s' hrun hs ih =>
    rw [Lts.every_append, Lts.every_cons] at ht
    rw [Lts.everyAfter_snoc] at hc
    rw [hc.2.step (fun i => lrInv h0 hrun ht.1) ht.2.1 hs, ih ht.1 hc.1, List.countP_append,
      List.countP_singleton, BitVec.ofNat_add, BitVec.add_assoc]
    split <;> rfl

/-- As long as no `SC` goes round the loop of `mem_cas`: an `SC` that completes, which puts 0 in
`rd`, overwrites the value that the last `LR` of its hart read, and harts that count at `c` by
`LR` and `SC` add one to the word for each such `SC`. -/
theorem sc_holds (h0 : s₀.Start) (hrun : Run s₀ t s) (ht : Lts.Every (¬ ScRetries · ·) t) :
    (∀ i ins addr val expected s', s.phase i = .sc ins addr val expected →
      Step s (.access i) s' → s'.phase i = .idle →
      (s'.machine i).reg (Ins.rdReg ins) = 0 ∧ s'.vmem.word addr = val ∧
        lrRead i t = some (s.vmem.word addr)) ∧
    ∀ c, Lts.EveryAfter (Increments c) t →
      s.vmem.word c = s₀.vmem.word c + BitVec.ofNat 32 (t.countP (scStores c)) := by
  refine ⟨fun i ins addr val expected s' hp h hidle => ?_, fun c hc => counter h0 hrun ht hc⟩
  rcases step_sc h hp with ⟨hword, -, hval, hrd⟩ | ⟨-, -, hphase⟩
  · exact ⟨hrd, hval, by rw [hword]; exact (lrInv h0 hrun ht).sc _ _ _ _ hp⟩
  · cases hphase.symm.trans hidle

/-- Two harts at `lr.w x0, (x5); sc.w x7, x6, (x5)`, which is to make the word 0 at 8 a 1. -/
def scBoot : Harts :=
  .boot [Rv32.encodeLr 0 0 0 5, Rv32.encodeSc 0 0 7 5 6, 0]
    [[(5, 8), (6, 1), (7, 9)], [(5, 8), (6, 1), (7, 9)]]

/-- One hart after the other. -/
theorem sc_holds_boot :
    ∃ t s s', Run scBoot t s ∧ s.phase 1 = .sc (Rv32.encodeSc 0 0 7 5 6) 8 1 1 ∧
      Step s (.access 1) s' ∧ (s'.machine 1).reg 7 = 0 ∧ lrRead 1 t = some (s.vmem.word 8) := by
  obtain ⟨t, s, hrun, ht, hp, hnext⟩ := Lts.exists_run next
    [.begin 0, .access 0, .begin 0, .access 0, .begin 1, .access 1, .begin 1]
    (Q := fun t s => Lts.Every (¬ ScRetries · ·) t ∧
      s.phase 1 = .sc (Rv32.encodeSc 0 0 7 5 6) 8 1 1 ∧
      (s.next (.access 1)).any (fun s' => decide (s'.phase 1 = .idle)) = true)
    (s := scBoot) (by decide +kernel)
  obtain ⟨s', hs, hidle⟩ := (Option.any_eq_true ..).mp hnext
  have h := (sc_holds (boot_start _ _) hrun ht).1 1 _ _ _ _ s' hp hs (of_decide_eq_true hidle)
  exact ⟨t, s, s', hrun, hp, hs, h.1, h.2.2⟩

/-- Both read 0, one stores 1, and the other overwrites that 1 and reports success as well. -/
theorem sc_overwrites :
    ∃ t s s', Run scBoot t s ∧ Step s (.access 1) s' ∧
      (s.phase 1 = .sc (Rv32.encodeSc 0 0 7 5 6) 8 1 1 ∧ lrRead 1 t = some 0 ∧
        s.vmem.word 8 = 1 ∧ (s.machine 0).reg 7 = 0 ∧ t.countP (scStores 8) = 1) ∧
      s'.phase 1 = .idle ∧ (s'.machine 1).reg 7 = 0 ∧ s'.vmem.word 8 = 1 := by
  obtain ⟨t, s, hrun, hmid, hnext⟩ := Lts.exists_run next
    [.begin 0, .access 0, .begin 1, .access 1, .begin 0, .access 0, .begin 1, .access 1]
    (Q := fun t s => (s.phase 1 = .sc (Rv32.encodeSc 0 0 7 5 6) 8 1 1 ∧ lrRead 1 t = some 0 ∧
        s.vmem.word 8 = 1 ∧ (s.machine 0).reg 7 = 0 ∧ t.countP (scStores 8) = 1) ∧
      (s.next (.access 1)).any (fun s' => decide (s'.phase 1 = .idle ∧
        (s'.machine 1).reg 7 = 0 ∧ s'.vmem.word 8 = 1)) = true)
    (s := scBoot) (by decide +kernel)
  obtain ⟨s', hs, hend⟩ := (Option.any_eq_true ..).mp hnext
  exact ⟨t, s, s', hrun, hs, hmid, of_decide_eq_true hend⟩

end SwitchV32.Harts
