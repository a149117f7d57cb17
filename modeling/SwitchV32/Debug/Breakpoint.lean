import SwitchV32.Cpu.Access
import Mathlib.Data.Fin.Tuple.Basic

/-!
# Software breakpoints of the stub

`stubb_a_dub/src/breakpoint.c`: the table of slots and the words that it swaps
in guest memory. A full slot saves the word that its breakpoint replaced, which
is never a breakpoint itself.
-/

namespace SwitchV32

abbrev maxBreakpoints : Nat := 128

/-- `EBREAK`, the `breakpoint_val` of an RV32 target; its `brkpt_size` is that of a word. -/
def breakpointVal : U32 := 0x00100073

inductive BrkStatus
  | empty | full
  deriving DecidableEq, Repr

inductive BrkRet
  | inserted | removed | stepped | notFound | error
  deriving DecidableEq, Repr

structure Breakpoint where
  addr : BitVec 64
  instr : U32
  status : BrkStatus
  deriving DecidableEq

structure Breakpoints where
  slot : Fin maxBreakpoints → Breakpoint
  saved : ∀ i, (slot i).status = .full → (slot i).instr ≠ breakpointVal

namespace Breakpoints

def reset : Breakpoints where
  slot _ := ⟨0, 0, .empty⟩
  saved := by rintro _ ⟨⟩

def fill (t : Breakpoints) (i : Fin maxBreakpoints) (addr : BitVec 64) (instr : U32)
    (h : instr ≠ breakpointVal) : Breakpoints where
  slot := Function.update t.slot i ⟨addr, instr, .full⟩
  saved j hj := by
    by_cases hji : j = i
    · subst hji
      rwa [Function.update_self]
    · rw [Function.update_of_ne hji] at hj ⊢
      exact t.saved j hj

def clear (t : Breakpoints) (i : Fin maxBreakpoints) : Breakpoints where
  slot := Function.update t.slot i { t.slot i with status := .empty }
  saved j hj := by
    by_cases hji : j = i
    · subst hji
      rw [Function.update_self] at hj
      cases hj
    · rw [Function.update_of_ne hji] at hj ⊢
      exact t.saved j hj

end Breakpoints

-- ---------------------------------------------------------------------------
-- The functions of `breakpoint.c`
-- ---------------------------------------------------------------------------

def sadFindBreakpoint (t : Breakpoints) (addr : BitVec 64) : Option (Fin maxBreakpoints) :=
  Fin.find? fun i => decide ((t.slot i).addr = addr ∧ (t.slot i).status = .full)

def sadInsertBreakpoint (vmem : Mem) (t : Breakpoints) (addr : BitVec 64) :
    Except Stop (Mem × Breakpoints × BrkRet) :=
  match Fin.find? fun i => decide ((t.slot i).status = .empty) with
  | none => return (vmem, t, .error)
  | some i => do
    let instr ← memRw vmem (addr.setWidth 32)
    -- don't place a breakpoint in an address that already has one
    if h : instr ≠ breakpointVal then
      let vmem ← memWw vmem (addr.setWidth 32) breakpointVal
      return (vmem, t.fill i addr instr h, .inserted)
    else return (vmem, t, .inserted)

def sadRemoveBreakpoint (vmem : Mem) (t : Breakpoints) (addr : BitVec 64) :
    Except Stop (Mem × Breakpoints × BrkRet) :=
  match sadFindBreakpoint t addr with
  | none => return (vmem, t, .notFound)
  | some i => do
    let vmem ← memWw vmem (addr.setWidth 32) (t.slot i).instr
    return (vmem, t.clear i, .removed)

-- ---------------------------------------------------------------------------
-- The set of addresses
-- ---------------------------------------------------------------------------

namespace Breakpoints

def FullAt (t : Breakpoints) (addr : BitVec 64) : Prop :=
  ∃ i, (t.slot i).addr = addr ∧ (t.slot i).status = .full

def Within (t : Breakpoints) (vmem : Mem) : Prop :=
  ∀ addr, t.FullAt addr → vmem.Inside (addr.setWidth 32) 4

variable {t : Breakpoints} {i : Fin maxBreakpoints} {addr a : BitVec 64} {vmem vmem' : Mem}

theorem not_fullAt_reset : ¬ reset.FullAt a := by
  rintro ⟨i, -, h⟩
  cases h

theorem fullAt_fill {instr} {h : instr ≠ breakpointVal} (hi : (t.slot i).status = .empty) :
    (t.fill i addr instr h).FullAt a ↔ t.FullAt a ∨ a = addr := by
  constructor
  · rintro ⟨j, hj⟩
    by_cases hji : j = i
    · subst hji
      simp only [fill, Function.update_self] at hj
      exact .inr hj.1.symm
    · simp only [fill, Function.update_of_ne hji] at hj
      exact .inl ⟨j, hj⟩
  · rintro (⟨j, hj⟩ | rfl)
    · have hji : j ≠ i := by
        rintro rfl
        cases hi.symm.trans hj.2
      exact ⟨j, by simpa only [fill, Function.update_of_ne hji] using hj⟩
    · exact ⟨i, by simp only [fill, Function.update_self, and_self]⟩

theorem fullAt_clear_or (hi : (t.slot i).addr = addr ∧ (t.slot i).status = .full) :
    (t.clear i).FullAt a ∨ a = addr ↔ t.FullAt a := by
  constructor
  · rintro (⟨j, hj⟩ | rfl)
    · by_cases hji : j = i
      · subst hji
        simp only [clear, Function.update_self] at hj
        cases hj.2
      · simp only [clear, Function.update_of_ne hji] at hj
        exact ⟨j, hj⟩
    · exact ⟨i, hi⟩
  · rintro ⟨j, hj⟩
    by_cases hji : j = i
    · subst hji
      exact .inr (hj.1.symm.trans hi.1)
    · exact .inl ⟨j, by simpa only [clear, Function.update_of_ne hji] using hj⟩

theorem Within.of_size (h : t.Within vmem) (hsize : vmem'.size = vmem.size) : t.Within vmem' :=
  fun addr ha => by
    simpa only [Mem.Inside, hsize] using h addr ha

end Breakpoints

variable {t t' : Breakpoints} {i : Fin maxBreakpoints} {addr : BitVec 64} {vmem vmem' : Mem}

theorem sadFindBreakpoint_some (h : sadFindBreakpoint t addr = some i) :
    (t.slot i).addr = addr ∧ (t.slot i).status = .full :=
  of_decide_eq_true (Fin.eq_true_of_find?_eq_some h)

theorem sadFindBreakpoint_none : sadFindBreakpoint t addr = none ↔ ¬ t.FullAt addr := by
  simp only [sadFindBreakpoint, Fin.find?_eq_none_iff, decide_eq_false_iff_not,
    Breakpoints.FullAt, not_exists]

theorem sadRemoveBreakpoint_notFound (h : ¬ t.FullAt addr) :
    sadRemoveBreakpoint vmem t addr = .ok (vmem, t, .notFound) := by
  have hfind := sadFindBreakpoint_none.mpr h
  unfold sadRemoveBreakpoint
  rw [hfind]
  rfl

theorem sadRemoveBreakpoint_found (h : sadFindBreakpoint t addr = some i)
    (hin : vmem.Inside (addr.setWidth 32) 4) :
    sadRemoveBreakpoint vmem t addr =
      .ok (vmem.put (addr.setWidth 32).toNat (t.slot i).instr, t.clear i, .removed) := by
  unfold sadRemoveBreakpoint
  rw [h]
  simp only [memWw, store_word hin, ok_bind, pure, Except.pure]

theorem sadInsertBreakpoint_word (hin : vmem.Inside (addr.setWidth 32) 4)
    (hempty : (t.slot i).status = .empty)
    (hword : vmem.word (addr.setWidth 32) ≠ breakpointVal) :
    ∃ j, (t.slot j).status = .empty ∧ sadInsertBreakpoint vmem t addr =
      .ok (vmem.put (addr.setWidth 32).toNat breakpointVal,
        t.fill j addr (vmem.word (addr.setWidth 32)) hword, .inserted) := by
  cases hfind : Fin.find? fun i => decide ((t.slot i).status = .empty) with
  | none =>
    have hnot := Fin.eq_false_of_find?_eq_none hfind i
    rw [hempty] at hnot
    cases hnot
  | some j =>
    refine ⟨j, of_decide_eq_true (Fin.eq_true_of_find?_eq_some hfind), ?_⟩
    unfold sadInsertBreakpoint
    rw [hfind]
    simp only [memRw, load_word hin, ok_bind, memWw, store_word hin, hword, ne_eq,
      not_false_eq_true, dite_true, pure, Except.pure]

theorem sadInsertBreakpoint_ok (t : Breakpoints) (hin : vmem.Inside (addr.setWidth 32) 4) :
    ∃ vmem' t' ret, sadInsertBreakpoint vmem t addr = .ok (vmem', t', ret) := by
  unfold sadInsertBreakpoint
  split
  · exact ⟨_, _, _, rfl⟩
  · simp only [memRw, load_word hin, ok_bind, memWw, store_word hin]
    split <;> exact ⟨_, _, _, rfl⟩

theorem fullAt_reinsert (hfind : sadFindBreakpoint t addr = some i)
    (hin : vmem.Inside (addr.setWidth 32) 4)
    (hword : vmem.word (addr.setWidth 32) = (t.slot i).instr) :
    ∃ vmem' t', sadInsertBreakpoint vmem (t.clear i) addr = .ok (vmem', t', .inserted) ∧
      vmem'.size = vmem.size ∧ ∀ a, t'.FullAt a ↔ t.FullAt a := by
  have hslot := sadFindBreakpoint_some hfind
  have hempty : ((t.clear i).slot i).status = .empty := by
    simp only [Breakpoints.clear, Function.update_self]
  have hne : vmem.word (addr.setWidth 32) ≠ breakpointVal := by
    rw [hword]
    exact t.saved i hslot.2
  obtain ⟨j, hj, hins⟩ := sadInsertBreakpoint_word hin hempty hne
  refine ⟨_, _, hins, rfl, fun a => ?_⟩
  rw [Breakpoints.fullAt_fill hj]
  exact Breakpoints.fullAt_clear_or hslot

theorem sadInsertBreakpoint_cases (h : sadInsertBreakpoint vmem t addr = .ok (vmem', t', ret)) :
    (ret = .error ∧ vmem' = vmem ∧ t' = t) ∨
    (ret = .inserted ∧ vmem.Inside (addr.setWidth 32) 4 ∧
      vmem.word (addr.setWidth 32) = breakpointVal ∧ vmem' = vmem ∧ t' = t) ∨
    (ret = .inserted ∧ vmem.Inside (addr.setWidth 32) 4 ∧
      ∃ i hword, (t.slot i).status = .empty ∧
        vmem' = vmem.put (addr.setWidth 32).toNat breakpointVal ∧
        t' = t.fill i addr (vmem.word (addr.setWidth 32)) hword) := by
  unfold sadInsertBreakpoint at h
  split at h
  · cases h
    exact .inl ⟨rfl, rfl, rfl⟩
  · rename_i i hfind
    have hempty : (t.slot i).status = .empty :=
      of_decide_eq_true (Fin.eq_true_of_find?_eq_some hfind)
    obtain ⟨instr, hload, h⟩ := bind_eq_ok.mp h
    obtain ⟨hin, rfl⟩ := load_eq_ok hload
    split at h
    · rename_i hword
      rw [memWw, store_word hin] at h
      cases h
      exact .inr (.inr ⟨rfl, hin, i, hword, hempty, rfl, rfl⟩)
    · rename_i hword
      cases h
      exact .inr (.inl ⟨rfl, hin, not_not.mp hword, rfl, rfl⟩)

theorem sadInsertBreakpoint_within (ht : t.Within vmem)
    (h : sadInsertBreakpoint vmem t addr = .ok (vmem', t', ret)) :
    vmem'.size = vmem.size ∧ t'.Within vmem' := by
  obtain ⟨-, rfl, rfl⟩ | ⟨-, -, -, rfl, rfl⟩ | ⟨-, hin, i, hword, hempty, rfl, rfl⟩ :=
    sadInsertBreakpoint_cases h
  · exact ⟨rfl, ht⟩
  · exact ⟨rfl, ht⟩
  · refine ⟨rfl, fun a ha => ?_⟩
    obtain ha | rfl := (Breakpoints.fullAt_fill hempty).mp ha
    · exact ht a ha
    · exact hin

theorem sadRemoveBreakpoint_within (ht : t.Within vmem)
    (h : sadRemoveBreakpoint vmem t addr = .ok (vmem', t', ret)) :
    vmem'.size = vmem.size ∧ t'.Within vmem' := by
  unfold sadRemoveBreakpoint at h
  split at h
  · cases h
    exact ⟨rfl, ht⟩
  · rename_i i hfind
    have hslot := sadFindBreakpoint_some hfind
    rw [memWw, store_word (ht addr ⟨i, hslot⟩)] at h
    cases h
    exact ⟨rfl, fun a ha => ht a ((Breakpoints.fullAt_clear_or hslot).mp (.inl ha))⟩

end SwitchV32
