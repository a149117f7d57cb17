import Mathlib.Logic.Basic

/-!
# Computations that agree

Two computations in `Except` that fail alike or have related values. The rules
follow the shape of a `do` block that both run through.
-/

/-- Both fail with the same error, or both have values and these are related. -/
inductive Agree {ε α β : Type} (R : α → β → Prop) : Except ε α → Except ε β → Prop
  | error (e) : Agree R (.error e) (.error e)
  | ok {a b} (h : R a b) : Agree R (.ok a) (.ok b)

namespace Agree

variable {ε α β γ δ : Type} {R : α → β → Prop} {S : γ → δ → Prop}

theorem eq {x : Except ε α} : Agree (· = ·) x x := by
  cases x with
  | error e => exact error e
  | ok a => exact ok rfl

theorem bind {x : Except ε α} {y : Except ε β} {f : α → Except ε γ} {g : β → Except ε δ}
    (h : Agree R x y) (hf : ∀ a b, R a b → Agree S (f a) (g b)) :
    Agree S (x >>= f) (y >>= g) := by
  cases h with
  | error e => exact error e
  | ok h => exact hf _ _ h

theorem bind_eq {x : Except ε α} {f : α → Except ε γ} {g : α → Except ε δ}
    (hf : ∀ a, Agree S (f a) (g a)) : Agree S (x >>= f) (x >>= g) := by
  refine bind eq fun a b h => ?_
  cases h
  exact hf a

theorem ite {c : Prop} [Decidable c] {x₁ x₂ : Except ε α} {y₁ y₂ : Except ε β}
    (h₁ : c → Agree R x₁ y₁) (h₂ : ¬ c → Agree R x₂ y₂) :
    Agree R (if c then x₁ else x₂) (if c then y₁ else y₂) := by
  by_cases h : c
  · rw [if_pos h, if_pos h]
    exact h₁ h
  · rw [if_neg h, if_neg h]
    exact h₂ h

theorem foldlM {f : α → γ → Except ε α} {g : β → γ → Except ε β}
    (hf : ∀ a b c, R a b → Agree R (f a c) (g b c)) (cs : List γ) {a : α} {b : β} (h : R a b) :
    Agree R (cs.foldlM f a) (cs.foldlM g b) := by
  induction cs generalizing a b with
  | nil => exact ok h
  | cons c cs ih => exact bind (hf a b c h) fun a b h => ih h

theorem of_ok {x : Except ε α} {y : Except ε β} {a : α} (h : Agree R x y) (hx : x = .ok a) :
    ∃ b, y = .ok b ∧ R a b := by
  cases h with
  | error e => cases hx
  | ok h =>
    cases hx
    exact ⟨_, rfl, h⟩

end Agree
