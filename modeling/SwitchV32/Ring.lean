import Mathlib.Logic.Function.Basic

/-!
# Ring buffers

A producer puts values at `head`, a consumer takes them from `tail`. One place is
always left free, so that equal indices mean that there is nothing to take.
-/

namespace SwitchV32

@[ext] structure Ring (α : Type) where
  size : Nat
  slot : Nat → α
  head : Nat
  tail : Nat
  head_lt : head < size
  tail_lt : tail < size

namespace Ring

variable {α : Type} {r : Ring α} {a : α} {as : List α} {i k : Nat}

def place (r : Ring α) (i k : Nat) : Nat := (i + k) % r.size

def count (r : Ring α) : Nat := (r.head + r.size - r.tail) % r.size

/-- They are from `tail` on, up to before `head`. -/
def unread (r : Ring α) : List α := (List.range r.count).map fun k => r.slot (r.place r.tail k)

def room (r : Ring α) : Nat := r.size - 1 - r.count

def push (r : Ring α) (a : α) : Ring α :=
  { r with
    slot := Function.update r.slot r.head a
    head := r.place r.head 1
    head_lt := Nat.mod_lt _ (Nat.zero_lt_of_lt r.head_lt) }

def pushAll (r : Ring α) (as : List α) : Ring α := as.foldl push r

def pop (r : Ring α) : Ring α :=
  { r with tail := r.place r.tail 1, tail_lt := Nat.mod_lt _ (Nat.zero_lt_of_lt r.tail_lt) }

-- ---------------------------------------------------------------------------
-- Places
-- ---------------------------------------------------------------------------

theorem place_eq (hi : i < r.size) (hk : k ≤ r.size) :
    r.place i k = if i + k < r.size then i + k else i + k - r.size := by
  unfold place
  split
  · exact Nat.mod_eq_of_lt ‹_›
  · rw [Nat.mod_eq_sub_mod (by omega), Nat.mod_eq_of_lt (by omega)]

theorem count_eq (r : Ring α) :
    r.count = if r.tail ≤ r.head then r.head - r.tail else r.head + r.size - r.tail := by
  have hhead := r.head_lt
  have htail := r.tail_lt
  unfold count
  split
  · rw [Nat.mod_eq_sub_mod (by omega), Nat.mod_eq_of_lt (by omega)]
    omega
  · exact Nat.mod_eq_of_lt (by omega)

theorem count_lt (r : Ring α) : r.count < r.size := Nat.mod_lt _ (Nat.zero_lt_of_lt r.head_lt)

@[simp] theorem length_unread (r : Ring α) : r.unread.length = r.count := by simp [unread]

theorem getElem_unread (hk : k < r.unread.length) : r.unread[k] = r.slot (r.place r.tail k) := by
  simp [unread]

theorem place_count (r : Ring α) (k : Nat) :
    r.place r.tail (r.count + k) = r.place r.head k := by
  have hhead := r.head_lt
  have htail := r.tail_lt
  have hsum : r.tail + (r.count + k) = r.head + k ∨
      r.tail + (r.count + k) = r.head + k + r.size := by
    rw [count_eq]
    split <;> omega
  unfold place
  obtain heq | heq := hsum
  · rw [heq]
  · rw [heq, Nat.add_mod_right]

theorem place_ne_head (hk : k < r.count) : r.place r.tail k ≠ r.head := by
  have hhead := r.head_lt
  have htail := r.tail_lt
  have hlt := r.count_lt
  have hcount := r.count_eq
  rw [place_eq htail (by omega)]
  split at hcount <;> split <;> omega

theorem room_eq_zero : r.room = 0 ↔ r.place r.head 1 = r.tail := by
  have hhead := r.head_lt
  have htail := r.tail_lt
  have hcount := r.count_eq
  rw [room, place_eq hhead (by omega)]
  split at hcount <;> split <;> omega

-- ---------------------------------------------------------------------------
-- Putting and taking
-- ---------------------------------------------------------------------------

theorem count_push (h : r.room ≠ 0) : (r.push a).count = r.count + 1 := by
  have hhead := r.head_lt
  have htail := r.tail_lt
  have hroom := mt room_eq_zero.mpr h
  have hnext := place_eq (r := r) (k := 1) hhead (by omega)
  have hcount := r.count_eq
  have hcount' : (r.push a).count = if r.tail ≤ r.place r.head 1 then r.place r.head 1 - r.tail
      else r.place r.head 1 + r.size - r.tail := (r.push a).count_eq
  split at hnext <;> split at hcount <;> split at hcount' <;> omega

theorem room_push (h : r.room ≠ 0) : (r.push a).room = r.room - 1 := by
  rw [room, count_push h, room]
  simp only [push]
  omega

theorem unread_push (h : r.room ≠ 0) : (r.push a).unread = r.unread ++ [a] := by
  have hlt := r.count_lt
  have hplace (k : Nat) : (r.push a).place (r.push a).tail k = r.place r.tail k := rfl
  have hlast : r.place r.tail r.count = r.head := by
    have hplace := r.place_count 0
    rw [Nat.add_zero] at hplace
    rw [hplace]
    exact Nat.mod_eq_of_lt r.head_lt
  unfold unread
  rw [count_push h, List.range_succ, List.map_append, List.map_singleton, hplace, hlast]
  refine congrArg₂ (· ++ ·) (List.map_congr_left fun k hk => ?_) ?_
  · exact Function.update_of_ne (place_ne_head (List.mem_range.mp hk)) _ _
  · simp [push]

theorem pushAll_cons (r : Ring α) (a : α) (as : List α) :
    r.pushAll (a :: as) = (r.push a).pushAll as := rfl

theorem unread_pushAll (h : as.length ≤ r.room) : (r.pushAll as).unread = r.unread ++ as := by
  induction as generalizing r with
  | nil => simp [pushAll]
  | cons a as ih =>
    have hroom : r.room ≠ 0 := by
      rw [List.length_cons] at h
      omega
    have hrest : as.length ≤ (r.push a).room := by
      rw [room_push hroom]
      rw [List.length_cons] at h
      omega
    rw [pushAll_cons, ih hrest, unread_push hroom, List.append_assoc, List.singleton_append]

@[simp] theorem size_pushAll (r : Ring α) (as : List α) : (r.pushAll as).size = r.size := by
  induction as generalizing r with
  | nil => rfl
  | cons a as ih => exact ih (r.push a)

@[simp] theorem tail_pushAll (r : Ring α) (as : List α) : (r.pushAll as).tail = r.tail := by
  induction as generalizing r with
  | nil => rfl
  | cons a as ih => exact ih (r.push a)

theorem slot_pushAll (h : as.length ≤ r.room) (hk : k < (r.unread ++ as).length) :
    (r.pushAll as).slot (r.place r.tail k) = (r.unread ++ as)[k] := by
  have hlength : k < (r.pushAll as).unread.length := by
    rw [unread_pushAll h]
    exact hk
  have hplace : (r.pushAll as).place (r.pushAll as).tail k = r.place r.tail k := by simp [place]
  have hslot := getElem_unread hlength
  rw [hplace] at hslot
  simp only [← hslot, unread_pushAll h]

/-- No value to take is written over. -/
theorem slot_pushAll_unread (h : as.length ≤ r.room) (hk : k < r.count) :
    (r.pushAll as).slot (r.place r.tail k) = r.slot (r.place r.tail k) := by
  have hlength : k < r.unread.length := by simpa using hk
  have hboth : k < (r.unread ++ as).length := by
    rw [List.length_append]
    omega
  rw [slot_pushAll h hboth, List.getElem_append_left hlength, getElem_unread]

theorem slot_pushAll_new (h : as.length ≤ r.room) (hk : k < as.length) :
    (r.pushAll as).slot (r.place r.head k) = as[k] := by
  have hboth : r.count + k < (r.unread ++ as).length := by
    rw [List.length_append, length_unread]
    omega
  rw [← r.place_count, slot_pushAll h hboth, List.getElem_append_right (by simp)]
  simp

theorem head_pushAll (r : Ring α) (as : List α) :
    (r.pushAll as).head = r.place r.head as.length := by
  induction as generalizing r with
  | nil => exact (Nat.mod_eq_of_lt r.head_lt).symm
  | cons a as ih =>
    rw [pushAll_cons, ih]
    simp only [push, place, Nat.mod_add_mod, List.length_cons]
    rw [Nat.add_assoc, Nat.add_comm 1]

/-- The distance of the indices tells how many values are new. -/
theorem distance_pushAll (h : as.length ≤ r.room) :
    ((r.pushAll as).head + r.size - r.head) % r.size = as.length := by
  have hhead := r.head_lt
  have hroom : r.room ≤ r.size - 1 := Nat.sub_le _ _
  rw [head_pushAll, place_eq hhead (by omega)]
  split
  · rw [Nat.mod_eq_sub_mod (by omega), Nat.mod_eq_of_lt (by omega)]
    omega
  · rw [Nat.mod_eq_of_lt (by omega)]
    omega

theorem unread_pop (h : r.head ≠ r.tail) : r.unread = r.slot r.tail :: r.pop.unread := by
  have hhead := r.head_lt
  have htail := r.tail_lt
  have hnext := place_eq (r := r) (k := 1) htail (by omega)
  have hcount : r.count = r.pop.count + 1 := by
    have hcount := r.count_eq
    have hcount' : r.pop.count = if r.place r.tail 1 ≤ r.head then r.head - r.place r.tail 1
        else r.head + r.size - r.place r.tail 1 := r.pop.count_eq
    split at hnext <;> split at hcount <;> split at hcount' <;> omega
  have hplace (k : Nat) : r.place r.tail (k + 1) = r.pop.place r.pop.tail k := by
    simp only [place, pop, Nat.mod_add_mod]
    rw [Nat.add_assoc, Nat.add_comm 1 k]
  unfold unread
  rw [hcount, List.range_succ_eq_map, List.map_cons, List.map_map]
  refine congrArg₂ List.cons ?_ (List.map_congr_left fun k _ => ?_)
  · rw [place, Nat.add_zero, Nat.mod_eq_of_lt htail]
  · exact congrArg r.slot (hplace k)

end Ring

end SwitchV32
