import Mathlib.Data.Nat.ModEq

/-!
# Overlapping writes

Lists of values put over a function on the natural numbers, one after the
other: at each place the last list that covers it counts.
-/

namespace SwitchV32

/-- Values for the places from `start` on. -/
structure Overlay (α : Type) where
  start : Nat
  values : List α

namespace Overlay

variable {α : Type} {o : Overlay α} {os : List (Overlay α)} {f : Nat → α} {k : Nat}

def Covers (o : Overlay α) (k : Nat) : Prop := o.start ≤ k ∧ k < o.start + o.values.length

instance (o : Overlay α) (k : Nat) : Decidable (o.Covers k) := inferInstanceAs (Decidable (_ ∧ _))

/-- The value at a place, `f` being what is below. -/
def put (o : Overlay α) (f : Nat → α) (k : Nat) : α :=
  if o.Covers k then o.values.getD (k - o.start) (f k) else f k

/-- The value of the last list that covers the place, or what is below all of them. -/
def last (os : List (Overlay α)) (f : Nat → α) (k : Nat) : α :=
  match os.reverse.find? fun o => o.Covers k with
  | some o => o.values.getD (k - o.start) (f k)
  | none => f k

theorem Covers.getD (h : o.Covers k) (a b : α) :
    o.values.getD (k - o.start) a = o.values.getD (k - o.start) b := by
  have hlt : k - o.start < o.values.length := by
    have hstart := h.1
    have hend := h.2
    omega
  simp [List.getElem?_eq_getElem hlt]

@[simp] theorem last_nil : last [] f = f := rfl

theorem last_congr {g : Nat → α} (h : f k = g k) : last os f k = last os g k := by
  simp only [last, h]

theorem last_cons : last (o :: os) f = last os (o.put f) := by
  funext k
  simp only [last, List.reverse_cons, List.find?_append]
  cases hfind : os.reverse.find? fun o => o.Covers k with
  | some o' =>
    have hcovers : o'.Covers k := by simpa using List.find?_some hfind
    exact hcovers.getD _ _
  | none =>
    by_cases hcovers : o.Covers k
    · simp [put, hcovers]
    · simp [put, hcovers]

theorem last_of_not_covers (h : ∀ o ∈ os, ¬ o.Covers k) : last os f k = f k := by
  have hnone : (os.reverse.find? fun o => o.Covers k) = none := by
    simpa using h
  rw [last, hnone]

theorem put_map_range (a n : Nat) (h : Nat → α) :
    (Overlay.mk a ((List.range n).map h)).put f k =
      if a ≤ k ∧ k < a + n then h (k - a) else f k := by
  simp only [put, Covers, List.length_map, List.length_range]
  split
  · rename_i hk
    have hlt : k - a < n := by omega
    simp [hlt]
  · rfl

theorem put_replicate (a n : Nat) (c : α) :
    (Overlay.mk a (List.replicate n c)).put f k = if a ≤ k ∧ k < a + n then c else f k := by
  simp only [put, Covers, List.length_replicate]
  split
  · rename_i hk
    have hlt : k - a < n := by omega
    simp [hlt]
  · rfl

theorem last_of_pairwise (hdisjoint : os.Pairwise fun o o' => ∀ k, ¬ (o.Covers k ∧ o'.Covers k))
    (ho : o ∈ os) (hk : o.Covers k) : last os f k = o.put f k := by
  induction os generalizing f with
  | nil => cases ho
  | cons o₁ os ih =>
    obtain ⟨hfirst, hrest⟩ := List.pairwise_cons.mp hdisjoint
    rw [last_cons]
    cases ho with
    | head => exact last_of_not_covers fun o' ho' hk' => hfirst o' ho' k ⟨hk, hk'⟩
    | tail _ ho =>
      have hput : ∀ f, o.put f k = o.values.getD (k - o.start) (f k) := fun _ => if_pos hk
      rw [ih hrest ho, hput, hput]
      exact hk.getD _ _

-- ---------------------------------------------------------------------------
-- Places that go round
-- ---------------------------------------------------------------------------

/-- The places from `base` on, of `n` that go round. -/
def around (n base : Nat) (f : Nat → α) (k : Nat) : α := f ((base + k) % n)

/-- The values at `base + o.start`, which do not go round themselves. -/
def placed (n base : Nat) (o : Overlay α) : Overlay α := ⟨(base + o.start) % n, o.values⟩

theorem add_mod_of_covers {n base : Nat} (hend : (base + o.start) % n + o.values.length ≤ n)
    (hk : o.Covers k) : (base + k) % n = (base + o.start) % n + (k - o.start) := by
  obtain ⟨hstart, hlt⟩ := hk
  have hsum : base + k = base + o.start + (k - o.start) := by omega
  rw [hsum, Nat.add_mod, Nat.mod_eq_of_lt (a := k - o.start) (by omega),
    Nat.mod_eq_of_lt (by omega)]

theorem put_around {n : Nat} (base : Nat) (hk : k < n) (hlen : o.start + o.values.length ≤ n)
    (hend : (base + o.start) % n + o.values.length ≤ n) :
    around n base ((o.placed n base).put f) k = o.put (around n base f) k := by
  by_cases hcovers : o.Covers k
  · have hmod := add_mod_of_covers hend hcovers
    have hplace : (o.placed n base).Covers ((base + k) % n) := by
      obtain ⟨hstart, hlt⟩ := hcovers
      rw [hmod]
      simp only [Covers, placed]
      omega
    have hindex : (base + k) % n - (o.placed n base).start = k - o.start := by
      simp only [placed]
      omega
    simp only [around, put, if_pos hcovers, if_pos hplace, hindex]
    rfl
  · have hplace : ¬ (o.placed n base).Covers ((base + k) % n) := by
      rintro ⟨hstart, hlt⟩
      simp only [placed] at hstart hlt
      -- the place that is covered there
      have hk' : o.Covers (o.start + ((base + k) % n - (base + o.start) % n)) :=
        ⟨Nat.le_add_right _ _, by omega⟩
      have hmod := add_mod_of_covers hend hk'
      have hsame : base + (o.start + ((base + k) % n - (base + o.start) % n)) ≡
          base + k [MOD n] := by
        rw [Nat.ModEq, hmod]
        omega
      have heq := (Nat.ModEq.add_left_cancel' base hsame).eq_of_lt_of_lt (by omega) hk
      exact hcovers (heq ▸ hk')
    simp only [around, put, if_neg hcovers, if_neg hplace]

end Overlay

end SwitchV32
