import Mathlib.Data.List.Basic

/-!
# Blocks of a heap

A block as `malloc` returns it and as `realloc` and `memcpy` change it. What has
not been written yet is indeterminate. A write is refused where it would leave
the block.
-/

/-- A byte that has not been written yet is `none`. -/
abbrev Block (α : Type) := List (Option α)

namespace Block

section
variable {α : Type}

def fresh (n : Nat) : Block α := List.replicate n none

def resize (b : Block α) (n : Nat) : Block α := b.take n ++ List.replicate (n - b.length) none

/-- `src` copied to position `i`, if it fits. -/
def write (b : Block α) (i : Nat) (src : List α) : Option (Block α) :=
  if i + src.length ≤ b.length then some (b.take i ++ src.map some ++ b.drop (i + src.length))
  else none

def Holds (b : Block α) (l : List α) : Prop := b.take l.length = l.map some

variable {b b' : Block α} {l src src' : List α} {i n : Nat}

@[simp] theorem length_fresh : (fresh n : Block α).length = n := List.length_replicate

@[simp] theorem length_resize : (b.resize n).length = n := by
  simp only [resize, List.length_append, List.length_take, List.length_replicate]
  omega

@[simp] theorem holds_nil : b.Holds [] := rfl

theorem Holds.length_le (h : b.Holds l) : l.length ≤ b.length := by
  have hlen := congrArg List.length h
  simp only [List.length_take, List.length_map] at hlen
  omega

theorem Holds.resize (h : b.Holds l) (hn : l.length ≤ n) : (b.resize n).Holds l := by
  have hle := h.length_le
  simp only [Holds, Block.resize] at *
  rw [List.take_append_of_le_length (by simp; omega), List.take_take, Nat.min_eq_left hn, h]

theorem write_eq_some (h : i + src.length ≤ b.length) :
    b.write i src = some (b.take i ++ src.map some ++ b.drop (i + src.length)) := if_pos h

theorem write_eq_some_iff : b.write i src = some b' ↔
    i + src.length ≤ b.length ∧ b' = b.take i ++ src.map some ++ b.drop (i + src.length) := by
  simp only [write]
  split
  · rename_i hfits
    simp [hfits, eq_comm]
  · rename_i hfits
    simp [hfits]

theorem length_write (h : b.write i src = some b') : b'.length = b.length := by
  obtain ⟨hfits, rfl⟩ := write_eq_some_iff.mp h
  simp
  omega

theorem eq_of_write_nil (h : b.write i [] = some b') : b' = b := by
  obtain ⟨-, rfl⟩ := write_eq_some_iff.mp h
  simp

theorem write_append (h : b.write i src = some b') :
    b'.write (i + src.length) src' = b.write i (src ++ src') := by
  have hlen := length_write h
  obtain ⟨hfits, hb'⟩ := write_eq_some_iff.mp h
  have hdone : (b.take i ++ src.map some).length = i + src.length := by
    simp
    omega
  have htake : b'.take (i + src.length) = b.take i ++ src.map some := by
    rw [hb', List.take_left' hdone]
  have hdrop : b'.drop (i + (src.length + src'.length)) =
      b.drop (i + (src.length + src'.length)) := by
    rw [← Nat.add_assoc, ← List.drop_drop, hb', List.drop_left' hdone, List.drop_drop]
  simp only [write, hlen, htake, hdrop, List.length_append, List.map_append,
    List.append_assoc, Nat.add_assoc]

theorem exists_write_cons {a : α} (h : b.write i (a :: src) = some b') :
    ∃ b₁, b.write i [a] = some b₁ ∧ b₁.write (i + 1) src = some b' := by
  obtain ⟨hfits, -⟩ := write_eq_some_iff.mp h
  have hfirst : i + [a].length ≤ b.length := by
    simp only [List.length_cons] at hfits
    simp only [List.length_singleton]
    omega
  exact ⟨_, write_eq_some hfirst, (write_append (write_eq_some hfirst)).trans h⟩

theorem drop_write (h : b.write i src = some b') (hn : i + src.length ≤ n) :
    b'.drop n = b.drop n := by
  obtain ⟨hfits, rfl⟩ := write_eq_some_iff.mp h
  obtain ⟨k, rfl⟩ := Nat.exists_eq_add_of_le hn
  rw [← List.drop_drop, List.drop_left' (by simp; omega), List.drop_drop]

theorem Holds.write (h : b.Holds l) (hw : b.write l.length src = some b') :
    b'.Holds (l ++ src) := by
  obtain ⟨-, rfl⟩ := write_eq_some_iff.mp hw
  simp only [Holds] at *
  rw [h, List.take_append_of_le_length (by simp), List.take_of_length_le (by simp),
    List.map_append]

end

end Block
