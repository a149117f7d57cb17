import Mathlib.Logic.Relation
import Mathlib.Order.RelClasses

/-!
# Runs of a labelled transition system

A step relation between states with a label on each step. A run keeps its
history, so that what holds of it may depend on which steps were taken and from
which states. The rules are the induction over runs, what holds after a step of
a given kind, and what comes about whatever steps are taken.
-/

namespace Lts

section
variable {σ L : Type} (step : σ → L → σ → Prop)

/-- The history lists the state before each step and the label of the step, oldest first. -/
inductive Run (s₀ : σ) : List (σ × L) → σ → Prop
  | nil : Run s₀ [] s₀
  | snoc {t s l s'} : Run s₀ t s → step s l s' → Run s₀ (t ++ [(s, l)]) s'

def Every (P : σ → L → Prop) (t : List (σ × L)) : Prop := ∀ e ∈ t, P e.1 e.2

/-- The same of a `P` that also looks at the history before the step. -/
def EveryAfter (P : List (σ × L) → σ → L → Prop) (t : List (σ × L)) : Prop :=
  ∀ t₁ s l t₂, t = t₁ ++ (s, l) :: t₂ → P t₁ s l

end

section
variable {σ L : Type} {step : σ → L → σ → Prop} {P : σ → L → Prop}
variable {s₀ s₁ s s' : σ} {l : L} {t t' t₁ t₂ : List (σ × L)}

@[simp] theorem every_nil : Every P [] := fun _ h => nomatch h

@[simp] theorem every_append : Every P (t ++ t') ↔ Every P t ∧ Every P t' := by
  simp only [Every, List.mem_append, or_imp, forall_and]

@[simp] theorem every_cons : Every P ((s, l) :: t) ↔ P s l ∧ Every P t := by
  simp only [Every, List.mem_cons, or_imp, forall_and, forall_eq]

instance [∀ s l, Decidable (P s l)] : Decidable (Every P t) :=
  inferInstanceAs (Decidable (∀ e ∈ t, P e.1 e.2))

theorem snoc_eq_append_cons {α : Type} {t t₁ t₂ : List α} {e e₁ : α}
    (h : t ++ [e] = t₁ ++ e₁ :: t₂) :
    (t = t₁ ∧ e = e₁ ∧ t₂ = []) ∨ ∃ t₃, t₂ = t₃ ++ [e] ∧ t = t₁ ++ e₁ :: t₃ := by
  rcases List.eq_nil_or_concat t₂ with rfl | ⟨t₃, e', rfl⟩
  · obtain ⟨rfl, heq⟩ := List.append_inj' h rfl
    exact .inl ⟨rfl, List.singleton_inj.mp heq, rfl⟩
  · rw [List.concat_eq_append, ← List.cons_append, ← List.append_assoc] at h
    obtain ⟨hpre, heq⟩ := List.append_inj' h rfl
    rw [List.concat_eq_append, List.singleton_inj.mp heq]
    exact .inr ⟨t₃, rfl, hpre⟩

theorem everyAfter_snoc {P : List (σ × L) → σ → L → Prop} :
    EveryAfter P (t ++ [(s, l)]) ↔ EveryAfter P t ∧ P t s l := by
  constructor
  · intro h
    refine ⟨fun t₁ s₁ l₁ t₂ ht => h t₁ s₁ l₁ (t₂ ++ [(s, l)]) ?_, h t s l [] rfl⟩
    rw [ht, List.append_assoc, List.cons_append]
  · rintro ⟨h, hlast⟩ t₁ s₁ l₁ t₂ ht
    rcases snoc_eq_append_cons ht with ⟨rfl, heq, -⟩ | ⟨t₃, -, hpre⟩
    · cases heq
      exact hlast
    · exact h t₁ s₁ l₁ t₃ hpre

theorem Every.mono {Q : σ → L → Prop} (h : Every P t) (hPQ : ∀ s l, P s l → Q s l) : Every Q t :=
  fun e he => hPQ _ _ (h e he)

theorem Run.one (h : step s l s') : Run step s [(s, l)] s' := .snoc .nil h

theorem Run.mono {step' : σ → L → σ → Prop} (hstep : ∀ s l s', step s l s' → step' s l s')
    (h : Run step s₀ t s) : Run step' s₀ t s := by
  induction h with
  | nil => exact .nil
  | snoc _ hs ih => exact .snoc ih (hstep _ _ _ hs)

/-- The allowed steps are a system of their own. -/
theorem Run.restrict (h : Run step s₀ t s) (ht : Every P t) :
    Run (fun s l s' => step s l s' ∧ P s l) s₀ t s := by
  induction h with
  | nil => exact .nil
  | snoc _ hs ih =>
    rw [every_append, every_cons] at ht
    exact .snoc (ih ht.1) ⟨hs, ht.2.1⟩

theorem Run.every (h : Run (fun s l s' => step s l s' ∧ P s l) s₀ t s) : Every P t := by
  induction h with
  | nil => exact every_nil
  | snoc _ hs ih => exact every_append.mpr ⟨ih, every_cons.mpr ⟨hs.2, every_nil⟩⟩

theorem Run.map {σ' L' : Type} {step' : σ' → L' → σ' → Prop} (f : σ → σ') (g : L → L')
    (hstep : ∀ s l s', step s l s' → step' (f s) (g l) (f s')) (h : Run step s₀ t s) :
    Run step' (f s₀) (t.map fun e => (f e.1, g e.2)) (f s) := by
  induction h with
  | nil => exact .nil
  | snoc _ hs ih =>
    simp only [List.map_append, List.map_cons, List.map_nil]
    exact .snoc ih (hstep _ _ _ hs)

/-- A run of a system that another one simulates: a label that shows as none is a step that the
other system does not take. -/
theorem Run.simulates {σ' L' : Type} {step' : σ' → L' → σ' → Prop} {R : σ → σ' → Prop}
    {a₀ : σ'} (f : L → Option L')
    (hstep : ∀ s l s' a, R s a → P s l → step s l s' →
      (f l = none ∧ R s' a) ∨ ∃ l' a', f l = some l' ∧ step' a l' a' ∧ R s' a')
    (h : Run step s₀ t s) (ht : Every P t) (h0 : R s₀ a₀) :
    ∃ t' a, Run step' a₀ t' a ∧ R s a ∧ t'.map Prod.snd = t.filterMap fun e => f e.2 := by
  induction h with
  | nil => exact ⟨[], a₀, .nil, h0, rfl⟩
  | @snoc t s l s' _ hs ih =>
    rw [every_append, every_cons] at ht
    obtain ⟨t', a, hrun, hR, hlabels⟩ := ih ht.1
    rcases hstep s l s' a hR ht.2.1 hs with ⟨hf, hR'⟩ | ⟨l', a', hf, hs', hR'⟩
    · refine ⟨t', a, hrun, hR', ?_⟩
      rw [hlabels, List.filterMap_append]
      simp [hf]
    · refine ⟨t' ++ [(a, l')], a', hrun.snoc hs', hR', ?_⟩
      rw [List.map_append, hlabels, List.filterMap_append]
      simp [hf]

theorem Run.append (h : Run step s₀ t s) (h' : Run step s t' s') : Run step s₀ (t ++ t') s' := by
  induction h' with
  | nil => rwa [List.append_nil]
  | snoc _ hstep ih =>
    rw [← List.append_assoc]
    exact .snoc ih hstep

theorem Run.cons (hstep : step s₀ l s) (h : Run step s t s') : Run step s₀ ((s₀, l) :: t) s' :=
  (Run.one hstep).append h

theorem Run.split (h : Run step s₀ t s) (ht : t = t₁ ++ (s₁, l) :: t₂) :
    Run step s₀ t₁ s₁ ∧ ∃ s₂, step s₁ l s₂ ∧ Run step s₂ t₂ s := by
  induction h generalizing t₂ with
  | nil => simp at ht
  | snoc hrun hs ih =>
    rcases snoc_eq_append_cons ht with ⟨rfl, heq, rfl⟩ | ⟨t₃, rfl, hpre⟩
    · cases heq
      exact ⟨hrun, _, hs, .nil⟩
    · obtain ⟨h₁, s₂, hs₂, h₂⟩ := ih hpre
      exact ⟨h₁, s₂, hs₂, h₂.snoc hs⟩

/-- An activity that some steps begin is under way from there on, with `Quiet` steps only, until
a step that ends it. -/
theorem Run.since {Pending : σ → Prop} {Quiet : σ → L → Prop} {Ends : σ → L → σ → Prop}
    (hstep : ∀ s l s', Pending s → P s l → step s l s' → (Quiet s l ∧ Pending s') ∨ Ends s l s')
    (h : Run step s₀ t s) (ht : Every P t) (h0 : Pending s₀) :
    (Every Quiet t ∧ Pending s) ∨ ∃ t₁ s₁ l t₂ s₂, t = t₁ ++ (s₁, l) :: t₂ ∧ Every Quiet t₁ ∧
      step s₁ l s₂ ∧ Ends s₁ l s₂ ∧ Run step s₂ t₂ s := by
  induction h with
  | nil => exact .inl ⟨every_nil, h0⟩
  | @snoc t s l s' hrun hs ih =>
    rw [every_append, every_cons] at ht
    rcases ih ht.1 with ⟨hquiet, hp⟩ | ⟨t₁, s₁, l₁, t₂, s₂, rfl, hquiet, hs₁, hends, hrun₂⟩
    · rcases hstep s l s' hp ht.2.1 hs with ⟨hq, hp'⟩ | hends
      · exact .inl ⟨by rw [every_append, every_cons]; exact ⟨hquiet, hq, every_nil⟩, hp'⟩
      · exact .inr ⟨t, s, l, [], s', rfl, hquiet, hs, hends, .nil⟩
    · refine .inr ⟨t₁, s₁, l₁, t₂ ++ [(s, l)], s₂, ?_, hquiet, hs₁, hends, hrun₂.snoc hs⟩
      rw [List.append_assoc, List.cons_append]

/-- An invariant of the allowed steps, which may speak of the history, holds wherever a run of
them leads. -/
theorem Run.inv_history (I : List (σ × L) → σ → Prop)
    (hstep : ∀ t s l s', I t s → P s l → step s l s' → I (t ++ [(s, l)]) s')
    (h : Run step s₀ t s) (ht : Every P t) (h0 : I [] s₀) : I t s := by
  induction h with
  | nil => exact h0
  | snoc _ hs ih =>
    rw [every_append, every_cons] at ht
    exact hstep _ _ _ _ (ih ht.1) ht.2.1 hs

theorem Run.inv (I : σ → Prop) (hstep : ∀ s l s', I s → P s l → step s l s' → I s')
    (h : Run step s₀ t s) (ht : Every P t) (h0 : I s₀) : I s :=
  h.inv_history (fun _ => I) (fun _ => hstep) ht h0

theorem Run.inv_all (I : σ → Prop) (hstep : ∀ s l s', I s → step s l s' → I s')
    (h : Run step s₀ t s) (h0 : I s₀) : I s :=
  h.inv (P := fun _ _ => True) I (fun s l s' hi _ hs => hstep s l s' hi hs)
    (fun _ _ => trivial) h0

end

-- ---------------------------------------------------------------------------
-- What comes about
-- ---------------------------------------------------------------------------

section
variable {σ L : Type} {step : σ → L → σ → Prop} {Q : σ → Prop} {s s' : σ} {t : List (σ × L)}

/-- Whatever steps are taken, `Q` comes about, and until then one can be taken; a step that
changes nothing does not count. -/
inductive Inevitable (step : σ → L → σ → Prop) (Q : σ → Prop) : σ → Prop
  | now {s : σ} (h : Q s) : Inevitable step Q s
  | later {s : σ} (hcan : ∃ l s', step s l s' ∧ s' ≠ s)
      (hall : ∀ l s', step s l s' → s' ≠ s → Inevitable step Q s') : Inevitable step Q s

theorem Inevitable.exists_run (h : Inevitable step Q s) :
    ∃ t s', Run step s t s' ∧ Every (fun s _ => ¬ Q s) t ∧ Q s' := by
  induction h with
  | now h => exact ⟨[], _, .nil, every_nil, h⟩
  | @later s hcan _ ih =>
    by_cases hq : Q s
    · exact ⟨[], s, .nil, every_nil, hq⟩
    · obtain ⟨l, s₁, hs, hne⟩ := hcan
      obtain ⟨t, s', hrun, ht, h⟩ := ih l s₁ hs hne
      exact ⟨_, s', .cons hs hrun, every_cons.mpr ⟨hq, ht⟩, h⟩

theorem Run.exists_step (h : Run step s t s') (hne : s' ≠ s) : ∃ l s₁, step s l s₁ ∧ s₁ ≠ s := by
  induction h with
  | nil => exact absurd rfl hne
  | @snoc t s₁ l s' _ hs ih =>
    by_cases heq : s₁ = s
    · subst heq
      exact ⟨l, s', hs, hne⟩
    · exact ih heq

/-- What can come about from each state of an invariant is inevitable, if each step that changes
something goes down. -/
theorem Inevitable.of_rank {R : Type} [LT R] [WellFoundedLT R] (I : σ → Prop) (rank : σ → R)
    (hstep : ∀ s l s', I s → ¬ Q s → step s l s' → s' = s ∨ I s' ∧ rank s' < rank s)
    (hcan : ∀ s, I s → ∃ t s', Run step s t s' ∧ Q s') (h : I s) : Inevitable step Q s := by
  induction hr : rank s using WellFoundedLT.induction generalizing s with
  | ind r ih =>
    by_cases hq : Q s
    · exact .now hq
    · refine .later ?_ fun l s' hs hne => ?_
      · obtain ⟨t, s', hrun, hq'⟩ := hcan s h
        exact hrun.exists_step fun heq => hq (heq ▸ hq')
      · obtain ⟨h', hlt⟩ := (hstep s l s' h hq hs).resolve_left hne
        exact ih _ (hr ▸ hlt) h' rfl

end

-- ---------------------------------------------------------------------------
-- Steps given by a function
-- ---------------------------------------------------------------------------

section
variable {σ L : Type} (next : σ → L → Option σ)

/-- The history and the last state of the run with the given labels. -/
def trace (s : σ) : List L → Option (List (σ × L) × σ)
  | [] => some ([], s)
  | l :: ls => (next s l).bind fun s' => (trace s' ls).map fun r => ((s, l) :: r.1, r.2)

theorem run_of_trace {s : σ} {ls : List L} (h : trace next s ls = some (t, s')) :
    Run (fun s l s' => next s l = some s') s t s' := by
  induction ls generalizing s t with
  | nil =>
    cases h
    exact .nil
  | cons l ls ih =>
    obtain ⟨s₁, hnext, h⟩ := Option.bind_eq_some_iff.mp h
    obtain ⟨⟨t₁, s₂⟩, htrace, h⟩ := Option.map_eq_some_iff.mp h
    cases h
    exact .cons hnext (ih htrace)

/-- A decidable fact about a run is found by computing the run. -/
theorem exists_run {s : σ} (ls : List L) {Q : List (σ × L) → σ → Prop}
    [∀ t s, Decidable (Q t s)] (h : (trace next s ls).any (fun r => decide (Q r.1 r.2)) = true) :
    ∃ t s', Run (fun s l s' => next s l = some s') s t s' ∧ Q t s' := by
  cases htrace : trace next s ls with
  | none =>
    rw [htrace] at h
    cases h
  | some r =>
    rw [htrace] at h
    exact ⟨r.1, r.2, run_of_trace next htrace, of_decide_eq_true h⟩

end

end Lts
