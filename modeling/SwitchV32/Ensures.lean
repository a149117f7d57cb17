import Mathlib.Logic.Basic

/-!
# Computations that may fail

What is known of the value of a computation in `Except`, whatever else may
happen. The rules follow the shape of a `do` block.
-/

def Ensures {ε α : Type} (x : Except ε α) (Q : α → Prop) : Prop := ∀ a, x = .ok a → Q a

namespace Ensures

variable {ε α β : Type} {Q : β → Prop} {P : α → Prop}

theorem pure {b : β} (h : Q b) : Ensures (Except.ok b : Except ε β) Q := by
  rintro _ ⟨⟩
  exact h

theorem error {e : ε} : Ensures (Except.error e) Q := nofun

theorem trivial {x : Except ε α} : Ensures x fun _ => True := fun _ _ => True.intro

theorem bind {x : Except ε α} {f : α → Except ε β} (hx : Ensures x P)
    (hf : ∀ a, P a → Ensures (f a) Q) : Ensures (x >>= f) Q := by
  cases x with
  | error e => exact error
  | ok a => exact hf a (hx a rfl)

theorem ite {c : Prop} [Decidable c] {x y : Except ε β} (hx : c → Ensures x Q)
    (hy : ¬ c → Ensures y Q) : Ensures (if c then x else y) Q := by
  by_cases h : c
  · rw [if_pos h]
    exact hx h
  · rw [if_neg h]
    exact hy h

theorem mono {P : β → Prop} {x : Except ε β} (hx : Ensures x P) (h : ∀ b, P b → Q b) :
    Ensures x Q :=
  fun b hb => h b (hx b hb)

theorem foldlM {γ : Type} {f : β → γ → Except ε β} (hf : ∀ b c, Q b → Ensures (f b c) Q)
    (cs : List γ) {b : β} (hb : Q b) : Ensures (cs.foldlM f b) Q := by
  induction cs generalizing b with
  | nil => exact pure hb
  | cons c cs ih => exact bind (hf b c hb) fun b' hb' => ih hb'

end Ensures

def Avoids {ε α : Type} (e : ε) (x : Except ε α) (Q : α → Prop) : Prop :=
  x ≠ .error e ∧ Ensures x Q

namespace Avoids

variable {ε α β : Type} {Q : β → Prop} {P : α → Prop} {e e' : ε}

theorem pure {b : β} (h : Q b) : Avoids e (Except.ok b) Q := ⟨by rintro ⟨⟩, Ensures.pure h⟩

theorem error (h : e' ≠ e) : Avoids e (Except.error e') Q :=
  ⟨fun heq => h (Except.error.inj heq), Ensures.error⟩

theorem bind {x : Except ε α} {f : α → Except ε β} (hx : Avoids e x P)
    (hf : ∀ a, P a → Avoids e (f a) Q) : Avoids e (x >>= f) Q := by
  cases x with
  | error e' => exact error fun heq => hx.1 (congrArg _ heq)
  | ok a => exact hf a (hx.2 a rfl)

theorem ite {c : Prop} [Decidable c] {x y : Except ε β} (hx : c → Avoids e x Q)
    (hy : ¬ c → Avoids e y Q) : Avoids e (if c then x else y) Q := by
  by_cases h : c
  · rw [if_pos h]
    exact hx h
  · rw [if_neg h]
    exact hy h

end Avoids
