import SwitchV32.Harts.Atomics

/-!
# A spin lock

A hart takes the lock by swapping a 1 into a word that holds 0, and gives it
back by clearing the word. As long as harts clear it only while they have it,
no two have it at the same time, whatever else they execute.
-/

namespace SwitchV32

open Rv32 (encodeAmo)

namespace Harts

variable {s₀ s s' : Harts} {l : HartLabel} {i j : Nat} {t : List (Harts × HartLabel)} {a : U32}

-- ---------------------------------------------------------------------------
-- The lock at `a`
-- ---------------------------------------------------------------------------

def Tries (a : U32) (i : Nat) (s : Harts) (l : HartLabel) : Prop :=
  l = .access i ∧ ∃ ins, s.phase i = .amo .swap ins a 1

def Acquires (a : U32) (i : Nat) (s : Harts) (l : HartLabel) : Prop :=
  Tries a i s l ∧ s.vmem.word a = 0

/-- By whatever instruction. -/
def Releases (a : U32) (i : Nat) (s : Harts) (l : HartLabel) : Prop :=
  hartOf l = some i ∧ s.vmem.word a ≠ 0 ∧ ∀ s', Step s l s' → s'.vmem.word a = 0

/-- Hart `i` has taken the lock and has not given it back. -/
def InCritical (a : U32) (t : List (Harts × HartLabel)) (i : Nat) : Prop :=
  ∃ t₁ s l t₂, t = t₁ ++ (s, l) :: t₂ ∧ Acquires a i s l ∧
    Lts.Every (fun s l => ¬ Releases a i s l) t₂

/-- A step leaves the word alone, tries to take the lock, or gives back what its hart has. -/
inductive UsesLock (a : U32) (t : List (Harts × HartLabel)) (s : Harts) (l : HartLabel) : Prop
  | keeps (h : ∀ s', Step s l s' → s'.vmem.word a = s.vmem.word a)
  | tries (i : Nat) (h : Tries a i s l)
  | releases (i : Nat) (hin : InCritical a t i) (h : Releases a i s l)

-- ---------------------------------------------------------------------------
-- Steps
-- ---------------------------------------------------------------------------

theorem Tries.step (h : Tries a i s l) (hs : Step s l s') :
    s'.vmem.word a = 1 ∧ ∃ ins, s.phase i = .amo .swap ins a 1 ∧
      (s'.machine i).reg (Ins.rdReg ins) = s.vmem.word a := by
  obtain ⟨rfl, ins, hp⟩ := h
  have heffect := step_fetch (c := ⟨.swap, ins, a, 1⟩) hp rfl hs
  exact ⟨heffect.word, ins, hp, heffect.rd⟩

theorem inCritical_nil : ¬ InCritical a [] i := by
  rintro ⟨t₁, s, l, t₂, h, -⟩
  simp at h

theorem inCritical_snoc : InCritical a (t ++ [(s, l)]) i ↔
    Acquires a i s l ∨ (InCritical a t i ∧ ¬ Releases a i s l) := by
  constructor
  · rintro ⟨t₁, s₁, l₁, t₂, h, hacq, hkeeps⟩
    rcases Lts.snoc_eq_append_cons h with ⟨-, heq, -⟩ | ⟨t₃, rfl, rfl⟩
    · cases heq
      exact .inl hacq
    · rw [Lts.every_append, Lts.every_cons] at hkeeps
      exact .inr ⟨⟨t₁, s₁, l₁, t₃, rfl, hacq, hkeeps.1⟩, hkeeps.2.1⟩
  · rintro (hacq | ⟨⟨t₁, s₁, l₁, t₂, rfl, hacq, hkeeps⟩, hrel⟩)
    · exact ⟨t, s, l, [], rfl, hacq, Lts.every_nil⟩
    · refine ⟨t₁, s₁, l₁, t₂ ++ [(s, l)], by simp, hacq, ?_⟩
      rw [Lts.every_append, Lts.every_cons]
      exact ⟨hkeeps, hrel, Lts.every_nil⟩

inductive LockInv (a : U32) (t : List (Harts × HartLabel)) (s : Harts) : Prop
  | free (hword : s.vmem.word a = 0) (hnone : ∀ i, ¬ InCritical a t i)
  | held (i : Nat) (hword : s.vmem.word a = 1) (hin : InCritical a t i)
    (hone : ∀ j, InCritical a t j → j = i)

theorem LockInv.step (hi : LockInv a t s) (huse : UsesLock a t s l) (hs : Step s l s') :
    LockInv a (t ++ [(s, l)]) s' := by
  cases hi with
  | free hword hnone =>
    have hrel (i) : ¬ Releases a i s l := fun h => h.2.1 hword
    by_cases htry : ∃ i, Tries a i s l
    · obtain ⟨i, htry⟩ := htry
      refine .held i (htry.step hs).1 (inCritical_snoc.mpr (.inl ⟨htry, hword⟩)) fun j hj => ?_
      rcases inCritical_snoc.mp hj with ⟨⟨hl, -⟩, -⟩ | ⟨hj, -⟩
      · cases hl.symm.trans htry.1
        rfl
      · exact absurd hj (hnone j)
    · refine .free ?_ fun j hj => ?_
      · cases huse with
        | keeps h => rw [h s' hs, hword]
        | tries i h => exact absurd ⟨i, h⟩ htry
        | releases i _ h => exact absurd h (hrel i)
      · rcases inCritical_snoc.mp hj with ⟨h, -⟩ | ⟨hj, -⟩
        · exact htry ⟨j, h⟩
        · exact hnone j hj
  | held i hword hin hone =>
    have hacq (j) : ¬ Acquires a j s l := by
      rintro ⟨-, hzero⟩
      rw [hword] at hzero
      cases hzero
    by_cases hrel : Releases a i s l
    · refine .free (hrel.2.2 s' hs) fun j hj => ?_
      rcases inCritical_snoc.mp hj with h | ⟨hj, hkeeps⟩
      · exact hacq j h
      · rw [hone j hj] at hkeeps
        exact hkeeps hrel
    · refine .held i ?_ (inCritical_snoc.mpr (.inr ⟨hin, hrel⟩)) fun j hj => ?_
      · cases huse with
        | keeps h => rw [h s' hs, hword]
        | tries j h => exact (h.step hs).1
        | releases j hj h =>
          rw [hone j hj] at h
          exact absurd h hrel
      · rcases inCritical_snoc.mp hj with h | ⟨hj, -⟩
        · exact absurd h (hacq j)
        · exact hone j hj

theorem lockInv (hfree : s₀.vmem.word a = 0) (hrun : Run s₀ t s)
    (huse : Lts.EveryAfter (UsesLock a) t) : LockInv a t s := by
  induction hrun with
  | nil => exact .free hfree fun i => inCritical_nil
  | snoc _ hs ih =>
    rw [Lts.everyAfter_snoc] at huse
    exact (ih huse.1).step huse.2 hs

/-- The lock excludes: at most one hart has it, the word tells whether one has, and a hart that
tries to take it finds 0 in `rd` exactly if no hart had it. -/
theorem mutual_exclusion (hfree : s₀.vmem.word a = 0) (hrun : Run s₀ t s)
    (huse : Lts.EveryAfter (UsesLock a) t) :
    (∀ i j, InCritical a t i → InCritical a t j → i = j) ∧
      (s.vmem.word a = 0 ↔ ∀ i, ¬ InCritical a t i) ∧
      ∀ i s', Tries a i s (.access i) → Step s (.access i) s' →
        ∃ ins, s.phase i = .amo .swap ins a 1 ∧
          ((s'.machine i).reg (Ins.rdReg ins) = 0 ↔ ∀ j, ¬ InCritical a t j) := by
  have hi := lockInv hfree hrun huse
  have hword : s.vmem.word a = 0 ↔ ∀ i, ¬ InCritical a t i := by
    cases hi with
    | free hword hnone => exact iff_of_true hword hnone
    | held i hword hin =>
      refine iff_of_false ?_ fun hnone => hnone i hin
      rw [hword]
      decide
  refine ⟨fun i j hini hinj => ?_, hword, fun i s' htry hs => ?_⟩
  · cases hi with
    | free hword hnone => exact absurd hini (hnone i)
    | held k hword hin hone => rw [hone i hini, hone j hinj]
  · obtain ⟨-, ins, hp, hrd⟩ := htry.step hs
    exact ⟨ins, hp, by rw [hrd, hword]⟩

/-- Two harts at `amoswap.w x7, x6, (x5)` with the lock at 64. -/
def lockBoot : Harts :=
  .boot [encodeAmo .swap 0 0 7 5 6] [[(5, 64), (6, 1)], [(5, 64), (6, 1)]]

/-- The second hart has taken the lock, and the first is about to try. -/
theorem mutual_exclusion_boot :
    ∃ t s, Run lockBoot t s ∧ s.vmem.word 64 = 1 ∧
      s.phase 0 = .amo .swap (encodeAmo .swap 0 0 7 5 6) 64 1 ∧
      (∀ i j, InCritical 64 t i → InCritical 64 t j → i = j) ∧
      (s.vmem.word 64 = 0 ↔ ∀ i, ¬ InCritical 64 t i) := by
  obtain ⟨t, s, hrun, huse, hword, hp⟩ := Lts.exists_run next
    [.begin 1, .access 1, .begin 0]
    (Q := fun t s => Lts.Every (fun s l => (∀ s' ∈ s.next l, s'.vmem.word 64 = s.vmem.word 64) ∨
      s.accessPhase l = .amo .swap (encodeAmo .swap 0 0 7 5 6) 64 1) t ∧
      s.vmem.word 64 = 1 ∧ s.phase 0 = .amo .swap (encodeAmo .swap 0 0 7 5 6) 64 1)
    (s := lockBoot) (by decide +kernel)
  have huse' : Lts.EveryAfter (UsesLock 64) t := by
    rintro t₁ s l t₂ rfl
    rw [Lts.every_append, Lts.every_cons] at huse
    rcases huse.2.1 with h | h
    · exact .keeps h
    · obtain ⟨i, rfl, hp⟩ := (accessPhase_eq (by rintro ⟨⟩)).mp h
      exact .tries i ⟨rfl, _, hp⟩
  have hexcl := mutual_exclusion (a := 64) (by decide) hrun huse'
  exact ⟨t, s, hrun, hword, hp, hexcl.1, hexcl.2.1⟩

end Harts

end SwitchV32
