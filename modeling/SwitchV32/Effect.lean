import Mathlib.Logic.Basic

/-!
# Programs that may end early

A program on a state that is kept where the program ends. `Runs` is a run to the
end, `Keeps` what holds of the state however far the run gets.
-/

namespace SwitchV32

abbrev Effect (σ ε : Type) := ExceptT ε (StateM σ)

namespace Effect

variable {σ ε α β γ : Type} {P : σ → Prop} {s s₁ s' : σ} {a : α} {b : β}

/-- How the program ends from `s`, and in which state. -/
def out (x : Effect σ ε α) (s : σ) : Except ε α × σ := (ExceptT.run x).run s

theorem out_pure (a : α) (s : σ) : out (pure a : Effect σ ε α) s = (.ok a, s) := rfl

theorem out_modify (g : σ → σ) (s : σ) :
    out (modify g : Effect σ ε PUnit) s = (.ok ⟨⟩, g s) := rfl

theorem out_get (s : σ) : out (get : Effect σ ε σ) s = (.ok s, s) := rfl

theorem out_set (s₁ s : σ) : out (set s₁ : Effect σ ε PUnit) s = (.ok ⟨⟩, s₁) := rfl

theorem out_bind_ok {x : Effect σ ε α} (f : α → Effect σ ε β) (h : out x s = (.ok a, s₁)) :
    out (x >>= f) s = out (f a) s₁ := by
  unfold out ExceptT.run StateT.run at h
  unfold out ExceptT.run StateT.run
  simp only [bind, ExceptT.bind, ExceptT.mk, StateT.bind, ExceptT.bindCont, h]

theorem out_bind_error {x : Effect σ ε α} (f : α → Effect σ ε β) {e : ε}
    (h : out x s = (.error e, s₁)) : out (x >>= f) s = (.error e, s₁) := by
  unfold out ExceptT.run StateT.run at h
  unfold out ExceptT.run StateT.run
  simp only [bind, ExceptT.bind, ExceptT.mk, StateT.bind, ExceptT.bindCont, h]
  rfl

-- ---------------------------------------------------------------------------
-- Runs
-- ---------------------------------------------------------------------------

def Runs (x : Effect σ ε α) (s : σ) (a : α) (s' : σ) : Prop := out x s = (.ok a, s')

theorem Runs.bind {x : Effect σ ε α} {f : α → Effect σ ε β} (hx : Runs x s a s₁)
    (hf : Runs (f a) s₁ b s') : Runs (x >>= f) s b s' :=
  (out_bind_ok f hx).trans hf

theorem Runs.of_bind {x : Effect σ ε α} {f : α → Effect σ ε β} (h : Runs (x >>= f) s b s') :
    ∃ a s₁, Runs x s a s₁ ∧ Runs (f a) s₁ b s' := by
  cases hx : out x s with
  | mk r s₁ =>
    cases r with
    | error e =>
      rw [Runs, out_bind_error f hx] at h
      cases h
    | ok a => exact ⟨a, s₁, hx, (out_bind_ok f hx).symm.trans h⟩

theorem runs_get_bind {f : σ → Effect σ ε β} : Runs (get >>= f) s b s' ↔ Runs (f s) s b s' := by
  rw [Runs, out_bind_ok f (out_get s), Runs]

theorem Runs.forM_mem {R : σ → σ → Prop} {g : γ → Effect σ ε PUnit} {l : List γ}
    (hrefl : ∀ s, R s s) (htrans : ∀ {s₁ s₂ s₃}, R s₁ s₂ → R s₂ s₃ → R s₁ s₃)
    (hR : ∀ c ∈ l, ∀ s s', Runs (g c) s ⟨⟩ s' → R s s') (h : Runs (l.forM g) s ⟨⟩ s') :
    R s s' ∧ ∀ c ∈ l, ∃ s₁ s₂, R s s₁ ∧ Runs (g c) s₁ ⟨⟩ s₂ ∧ R s₂ s' := by
  induction l generalizing s with
  | nil =>
    cases h
    exact ⟨hrefl _, by simp⟩
  | cons c l ih =>
    obtain ⟨⟨⟩, s₁, hc, hl⟩ := Runs.of_bind h
    obtain ⟨hrest, hmem⟩ := ih (fun c' hc' => hR c' (.tail _ hc')) hl
    have hstep := hR c (.head _) _ _ hc
    refine ⟨htrans hstep hrest, fun c' hc' => ?_⟩
    cases hc' with
    | head => exact ⟨_, s₁, hrefl _, hc, hrest⟩
    | tail _ hc' =>
      obtain ⟨s₂, s₃, hs₂, hrun, hs₃⟩ := hmem c' hc'
      exact ⟨s₂, s₃, htrans hstep hs₂, hrun, hs₃⟩

-- ---------------------------------------------------------------------------
-- What holds wherever the run ends
-- ---------------------------------------------------------------------------

def Keeps (P : σ → Prop) (x : Effect σ ε α) : Prop := ∀ s, P s → P (out x s).2

namespace Keeps

theorem pure (a : α) : Keeps P (pure a : Effect σ ε α) := fun _ h => h

theorem throw (e : ε) : Keeps P (throw e : Effect σ ε α) := fun _ h => h

theorem modify {g : σ → σ} (hg : ∀ s, P s → P (g s)) : Keeps P (modify g : Effect σ ε PUnit) := hg

theorem get_bind {f : σ → Effect σ ε β} (hf : ∀ s, P s → Keeps P (f s)) : Keeps P (get >>= f) := by
  intro s hs
  rw [out_bind_ok f (out_get s)]
  exact hf s hs s hs

theorem after {x : Effect σ ε α} {f : α → Effect σ ε β} (hx : P (out x s).2)
    (hf : ∀ a, Keeps P (f a)) : P (out (x >>= f) s).2 := by
  cases h : out x s with
  | mk r s₁ =>
    rw [h] at hx
    cases r with
    | error e => rwa [out_bind_error f h]
    | ok a =>
      rw [out_bind_ok f h]
      exact hf a s₁ hx

theorem bind {x : Effect σ ε α} {f : α → Effect σ ε β} (hx : Keeps P x)
    (hf : ∀ a, Keeps P (f a)) : Keeps P (x >>= f) :=
  fun s hs => after (hx s hs) hf

theorem ite {c : Prop} [Decidable c] {x y : Effect σ ε α} (hx : c → Keeps P x)
    (hy : ¬ c → Keeps P y) : Keeps P (if c then x else y) := by
  by_cases h : c
  · rw [if_pos h]
    exact hx h
  · rw [if_neg h]
    exact hy h

theorem forM {g : γ → Effect σ ε PUnit} (hg : ∀ c, Keeps P (g c)) (l : List γ) :
    Keeps P (l.forM g) := by
  induction l with
  | nil => exact pure _
  | cons c l ih => exact bind (hg c) fun _ => ih

theorem findM {p : γ → Effect σ ε Bool} (hp : ∀ c, Keeps P (p c)) (l : List γ) :
    Keeps P (l.findM? p) := by
  induction l with
  | nil => exact pure _
  | cons c l ih =>
    refine bind (hp c) fun found => ?_
    cases found with
    | true => exact pure _
    | false => exact ih

end Keeps

end Effect

end SwitchV32
