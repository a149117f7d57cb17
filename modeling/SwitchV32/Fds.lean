/-!
# Tables of file descriptors

The descriptors of a process as POSIX has them: `open` takes the lowest free
one, `dup2` puts a second one on an open file, over whatever it was, and `close`
frees one. The rules say which descriptors each call leaves alone.
-/

structure Fds (File : Type) where
  /-- `OPEN_MAX`: the descriptors are the numbers below it -/
  openMax : Nat
  file : Nat → Option File

namespace Fds

variable {File : Type}

/-- The first free descriptor of `n` from `k` on. -/
def lowestFrom (s : Fds File) : Nat → Nat → Option Nat
  | _, 0 => none
  | k, n + 1 => if (s.file k).isNone then some k else lowestFrom s (k + 1) n

def lowest (s : Fds File) : Option Nat := s.lowestFrom 0 s.openMax

def set (s : Fds File) (fd : Nat) (f : Option File) : Fds File :=
  { s with file := fun k => if k = fd then f else s.file k }

/-- `open`: `f` is what is found to open. Without it, or without a free descriptor, there is no
descriptor. -/
def openFile (s : Fds File) (f : Option File) : Option Nat × Fds File :=
  match f, s.lowest with
  | some f, some fd => (some fd, s.set fd (some f))
  | _, _ => (none, s)

/-- The file of an open descriptor, the argument being any `int`. -/
def get (s : Fds File) (fd : Int) : Option File :=
  if 0 ≤ fd then s.file fd.toNat else none

def dup2 (s : Fds File) (old new : Int) : Int × Fds File :=
  match s.get old with
  | some f => if 0 ≤ new ∧ new < s.openMax then (new, s.set new.toNat (some f)) else (-1, s)
  | none => (-1, s)

def close (s : Fds File) (fd : Int) : Int × Fds File :=
  match s.get fd with
  | some _ => (0, s.set fd.toNat none)
  | none => (-1, s)

-- ---------------------------------------------------------------------------
-- What a call leaves alone
-- ---------------------------------------------------------------------------

variable {s : Fds File} {k n fd new : Nat} {f : Option File}

@[simp] theorem set_openMax : (s.set fd f).openMax = s.openMax := rfl

@[simp] theorem set_same : (s.set fd f).file fd = f := if_pos rfl

theorem set_other (h : k ≠ fd) : (s.set fd f).file k = s.file k := if_neg h

theorem get_ofNat : s.get fd = s.file fd := if_pos (Int.natCast_nonneg fd)

theorem lowestFrom_some (h : s.lowestFrom k n = some fd) : fd < k + n ∧ s.file fd = none := by
  induction n generalizing k with
  | zero => cases h
  | succ n ih =>
    unfold lowestFrom at h
    split at h
    · rename_i hfree
      cases h
      exact ⟨by omega, Option.isNone_iff_eq_none.mp hfree⟩
    · obtain ⟨hlt, hfree⟩ := ih h
      exact ⟨by omega, hfree⟩

theorem lowest_some (h : s.lowest = some fd) : fd < s.openMax ∧ s.file fd = none := by
  obtain ⟨hlt, hfree⟩ := lowestFrom_some h
  exact ⟨by omega, hfree⟩

theorem lowestFrom_ge (h : s.lowestFrom k n = some fd) : k ≤ fd := by
  induction n generalizing k with
  | zero => cases h
  | succ n ih =>
    unfold lowestFrom at h
    split at h
    · exact Nat.le_of_eq (Option.some.inj h)
    · exact Nat.le_of_succ_le (ih h)

theorem lowestFrom_set (h : s.lowestFrom k n = some fd) (hnew : fd < new) :
    (s.set new f).lowestFrom k n = some fd := by
  induction n generalizing k with
  | zero => cases h
  | succ n ih =>
    have hle := lowestFrom_ge h
    unfold lowestFrom at h ⊢
    rw [set_other (by omega)]
    split at h
    case isTrue hfree => rw [if_pos hfree, h]
    case isFalse hfree => rw [if_neg hfree, ih h]

theorem lowest_set (h : s.lowest = some fd) (hnew : fd < new) :
    (s.set new f).lowest = some fd := lowestFrom_set h hnew

@[simp] theorem close_openMax {fd : Int} : (s.close fd).2.openMax = s.openMax := by
  unfold close
  split <;> rfl

theorem get_neg {fd : Int} (h : fd < 0) : s.get fd = none := if_neg (by omega)

theorem close_neg {fd : Int} (h : fd < 0) : s.close fd = (-1, s) := by
  unfold close
  rw [get_neg h]

theorem close_other (h : k ≠ fd) : (s.close fd).2.file k = s.file k := by
  unfold close
  split
  · exact set_other h
  · rfl

theorem dup2_open {old : Nat} {g : File} (hold : s.file old = some g) (hnew : new < s.openMax) :
    s.dup2 old new = ((new : Int), s.set new (some g)) := by
  have hin : 0 ≤ (new : Int) ∧ (new : Int) < s.openMax := by omega
  simp only [dup2, get_ofNat, hold, if_pos hin, Int.toNat_natCast]

theorem open_dup2_close (g : File) (hfree : s.file fd = none) (hne : new ≠ fd)
    (hnew : new < s.openMax) :
    (((s.set fd (some g)).dup2 fd new).2.close fd).2 = s.set new (some g) := by
  have hget : (s.set fd (some g)).get fd = some g := by rw [get_ofNat, set_same]
  have hin : 0 ≤ (new : Int) ∧ (new : Int) < (s.set fd (some g)).openMax := by
    rw [set_openMax]
    omega
  have hclose : ((s.set fd (some g)).set new (some g)).get fd = some g := by
    rw [get_ofNat, set_other hne.symm, set_same]
  simp only [dup2, hget, if_pos hin, Int.toNat_natCast, close, hclose]
  simp only [set, Fds.mk.injEq, true_and]
  funext k
  by_cases hk : k = fd
  · subst hk
    rw [if_pos rfl, if_neg hne.symm, hfree]
  · rw [if_neg hk, if_neg hk]

end Fds
