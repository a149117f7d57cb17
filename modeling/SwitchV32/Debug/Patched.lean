import SwitchV32.Lts
import SwitchV32.Debug.Breakpoint

/-!
# The table of breakpoints and the patched memory

Guest memory is the memory of the program without breakpoints, with the
breakpoint word at the addresses of the full slots, and the slots save the words
that it hides. Inserting, removing and stepping over a breakpoint keep it so;
the guest writes to both memories alike.
-/

namespace SwitchV32

-- ---------------------------------------------------------------------------
-- Words and bytes
-- ---------------------------------------------------------------------------

def Covers (addr : BitVec 64) (k : Nat) : Prop := addr.toNat ≤ k ∧ k < addr.toNat + 4

/-- A word that a breakpoint may replace. -/
structure WordIn (vmem : Mem) (addr : BitVec 64) : Prop where
  aligned : addr.toNat % 4 = 0
  inside : addr.toNat + 4 ≤ vmem.size

section
variable {vmem vmem' : Mem} {addr a : BitVec 64} {k : Nat} {v : U32}

theorem WordIn.toNat (h : WordIn vmem addr) : (addr.setWidth 32).toNat = addr.toNat := by
  have hinside := h.inside
  have hsize := vmem.size_le
  rw [BitVec.toNat_setWidth, Nat.mod_eq_of_lt (by omega)]

theorem WordIn.mem (h : WordIn vmem addr) : vmem.Inside (addr.setWidth 32) 4 := by
  rw [Mem.Inside, h.toNat]
  exact h.inside

theorem WordIn.of_inside (haligned : addr.toNat % 4 = 0) (hbelow : addr.toNat < vmem.size)
    (hin : vmem.Inside (addr.setWidth 32) 4) : WordIn vmem addr := by
  have hsize := vmem.size_le
  rw [Mem.Inside, BitVec.toNat_setWidth, Nat.mod_eq_of_lt (by omega)] at hin
  exact ⟨haligned, hin⟩

theorem WordIn.below (h : WordIn vmem addr) : addr.toNat < vmem.size := by
  have hinside := h.inside
  omega

theorem WordIn.of_size (h : WordIn vmem addr) (hsize : vmem'.size = vmem.size) :
    WordIn vmem' addr := ⟨h.aligned, by rw [hsize]; exact h.inside⟩

theorem Mem.eq_of_byte (hsize : vmem.size = vmem'.size) (hbyte : ∀ k, vmem.byte k = vmem'.byte k) :
    vmem = vmem' := by
  obtain ⟨size, hle, byte⟩ := vmem
  obtain ⟨size', hle', byte'⟩ := vmem'
  obtain rfl : size = size' := hsize
  obtain rfl : byte = byte' := funext hbyte
  rfl

theorem word_eq_bytesLE {a : U32} (h : vmem.Inside a 4) :
    vmem.word a = BitVec.ofNat 32 (bytesLE vmem.byte a.toNat 4) := by
  have hload := load_word h
  rw [Mem.load, if_pos h] at hload
  exact (Except.ok.inj hload).symm

theorem byte_put_word {a : U32} (h : vmem'.Inside a 4) (hk : a.toNat ≤ k ∧ k < a.toNat + 4) :
    (vmem.put a.toNat (vmem'.word a)).byte k = vmem'.byte k := by
  have hput : (vmem.put a.toNat (vmem'.word a)).byte k =
      (vmem'.word a >>> (8 * (k - a.toNat))).setWidth 8 := if_pos hk
  rw [hput, word_eq_bytesLE h]
  obtain ⟨hle, hlt⟩ := hk
  obtain ⟨i, rfl⟩ : ∃ i, k = a.toNat + i := ⟨k - a.toNat, by omega⟩
  apply BitVec.eq_of_toNat_eq
  have h₀ := (vmem'.byte a.toNat).isLt
  have h₁ := (vmem'.byte (a.toNat + 1)).isLt
  have h₂ := (vmem'.byte (a.toNat + 1 + 1)).isLt
  have h₃ := (vmem'.byte (a.toNat + 1 + 1 + 1)).isLt
  simp only [bytesLE, BitVec.toNat_setWidth, BitVec.toNat_ushiftRight, BitVec.toNat_ofNat,
    Nat.shiftRight_eq_div_pow, Nat.add_sub_cancel_left]
  obtain rfl | rfl | rfl | rfl : i = 0 ∨ i = 1 ∨ i = 2 ∨ i = 3 := by omega
  all_goals
    simp only [Nat.add_zero, Nat.add_assoc, Nat.reduceAdd, Nat.reduceMul] at *
    omega

theorem put_put_word {a : U32} (h : vmem.Inside a 4) :
    (vmem.put a.toNat v).put a.toNat (vmem.word a) = vmem := by
  refine Mem.eq_of_byte rfl fun k => ?_
  by_cases hk : a.toNat ≤ k ∧ k < a.toNat + 4
  · exact byte_put_word h hk
  · exact (if_neg hk).trans (if_neg hk)

theorem WordIn.word_eq (h : WordIn vmem addr) :
    vmem.word (addr.setWidth 32) = BitVec.ofNat 32 (bytesLE vmem.byte addr.toNat 4) := by
  rw [word_eq_bytesLE h.mem, h.toNat]

theorem covers_unique (h : addr.toNat % 4 = 0) (ha : a.toNat % 4 = 0) (hk : Covers addr k)
    (hka : Covers a k) : addr = a := by
  obtain ⟨h₁, h₂⟩ := hk
  obtain ⟨h₃, h₄⟩ := hka
  exact BitVec.eq_of_toNat_eq (by omega)

theorem WordIn.word_congr (h : WordIn vmem addr) (hsize : vmem'.size = vmem.size)
    (hbytes : ∀ k, Covers addr k → vmem'.byte k = vmem.byte k) :
    vmem'.word (addr.setWidth 32) = vmem.word (addr.setWidth 32) := by
  rw [h.word_eq, (h.of_size hsize).word_eq]
  simp only [bytesLE]
  rw [hbytes _ ⟨by omega, by omega⟩, hbytes _ ⟨by omega, by omega⟩, hbytes _ ⟨by omega, by omega⟩,
    hbytes _ ⟨by omega, by omega⟩]

theorem WordIn.byte_put (h : WordIn vmem addr) (hk : ¬ Covers addr k) :
    (vmem.put (addr.setWidth 32).toNat v).byte k = vmem.byte k := by
  rw [h.toNat]
  exact if_neg hk

theorem WordIn.byte_put_word (hw : WordIn vmem' addr) (hk : Covers addr k) :
    (vmem.put (addr.setWidth 32).toNat (vmem'.word (addr.setWidth 32))).byte k =
      vmem'.byte k := by
  refine SwitchV32.byte_put_word hw.mem ?_
  rwa [hw.toNat]

end

def Mem.writeBytes (vmem : Mem) (w : Nat → Option U8) : Mem :=
  { vmem with byte := fun k => (w k).getD (vmem.byte k) }

def Spares (t : Breakpoints) (w : Nat → Option U8) : Prop :=
  ∀ a, t.FullAt a → ∀ k, Covers a k → w k = none

-- ---------------------------------------------------------------------------
-- The invariant
-- ---------------------------------------------------------------------------

/-- `free` is the memory of the program without breakpoints. -/
structure Patched (free vmem : Mem) (t : Breakpoints) : Prop where
  size : vmem.size = free.size
  place : ∀ a, t.FullAt a → WordIn vmem a
  distinct : ∀ i j, (t.slot i).status = .full → (t.slot j).status = .full →
    (t.slot i).addr = (t.slot j).addr → i = j
  saved : ∀ i, (t.slot i).status = .full →
    (t.slot i).instr = free.word ((t.slot i).addr.setWidth 32)
  patched : ∀ a, t.FullAt a → vmem.word (a.setWidth 32) = breakpointVal
  others : ∀ k, (∀ a, t.FullAt a → ¬ Covers a k) → vmem.byte k = free.byte k

namespace Patched

variable {free vmem vmem' : Mem} {t t' : Breakpoints} {addr : BitVec 64} {i : Fin maxBreakpoints}

theorem reset (free : Mem) : Patched free free .reset where
  size := rfl
  place a h := absurd h Breakpoints.not_fullAt_reset
  distinct i _ h := by cases h
  saved i h := by cases h
  patched a h := absurd h Breakpoints.not_fullAt_reset
  others _ _ := rfl

theorem word_free (h : Patched free vmem t) (hw : WordIn vmem addr) (ha : ¬ t.FullAt addr) :
    vmem.word (addr.setWidth 32) = free.word (addr.setWidth 32) := by
  refine (hw.of_size h.size.symm).word_congr h.size fun k hk => h.others k fun a hfull hka => ?_
  have heq := covers_unique hw.aligned (h.place a hfull).aligned hk hka
  exact ha (heq ▸ hfull)

theorem fill (h : Patched free vmem t) (hw : WordIn vmem addr)
    (hempty : (t.slot i).status = .empty)
    (hword : vmem.word (addr.setWidth 32) ≠ breakpointVal) :
    Patched free (vmem.put (addr.setWidth 32).toNat breakpointVal)
      (t.fill i addr (vmem.word (addr.setWidth 32)) hword) := by
  have hnew : ¬ t.FullAt addr := fun hfull => hword (h.patched addr hfull)
  have hslot (j) (hj : j ≠ i) :
      (t.fill i addr (vmem.word (addr.setWidth 32)) hword).slot j = t.slot j :=
    Function.update_of_ne hj ..
  have hself : (t.fill i addr (vmem.word (addr.setWidth 32)) hword).slot i =
      ⟨addr, vmem.word (addr.setWidth 32), .full⟩ := Function.update_self ..
  have hother (a : BitVec 64) (ha : t.FullAt a) (k) (hk : Covers a k) : ¬ Covers addr k := by
    intro hk'
    have heq := covers_unique hw.aligned (h.place a ha).aligned hk' hk
    exact hnew (heq ▸ ha)
  refine { size := h.size, place := ?_, distinct := ?_, saved := ?_, patched := ?_, others := ?_ }
  · intro a ha
    obtain ha | rfl := (Breakpoints.fullAt_fill hempty).mp ha
    · exact (h.place a ha).of_size rfl
    · exact hw.of_size rfl
  · intro j k hj hk heq
    by_cases hji : j = i <;> by_cases hki : k = i
    · rw [hji, hki]
    · subst hji
      rw [hself, hslot k hki] at heq
      rw [hslot k hki] at hk
      exact absurd ⟨k, heq.symm, hk⟩ hnew
    · subst hki
      rw [hself, hslot j hji] at heq
      rw [hslot j hji] at hj
      exact absurd ⟨j, heq, hj⟩ hnew
    · rw [hslot j hji] at hj heq
      rw [hslot k hki] at hk heq
      exact h.distinct j k hj hk heq
  · intro j hj
    by_cases hji : j = i
    · subst hji
      rw [hself]
      exact h.word_free hw hnew
    · rw [hslot j hji] at hj ⊢
      exact h.saved j hj
  · intro a ha
    obtain ha | rfl := (Breakpoints.fullAt_fill hempty).mp ha
    · rw [← h.patched a ha]
      exact (h.place a ha).word_congr rfl fun k hk => hw.byte_put (hother a ha k hk)
    · exact word_put hw.mem _
  · intro k hk
    have hk' : ¬ Covers addr k := hk addr ((Breakpoints.fullAt_fill hempty).mpr (.inr rfl))
    rw [hw.byte_put hk']
    exact h.others k fun a ha => hk a ((Breakpoints.fullAt_fill hempty).mpr (.inl ha))

theorem slot_clear {j : Fin maxBreakpoints} (hj : ((t.clear i).slot j).status = .full) :
    j ≠ i ∧ (t.clear i).slot j = t.slot j := by
  by_cases hji : j = i
  · subst hji
    simp only [Breakpoints.clear, Function.update_self] at hj
    cases hj
  · exact ⟨hji, Function.update_of_ne hji ..⟩

theorem not_fullAt_clear (h : Patched free vmem t)
    (hslot : (t.slot i).addr = addr ∧ (t.slot i).status = .full) : ¬ (t.clear i).FullAt addr := by
  rintro ⟨j, hj, hfull⟩
  obtain ⟨hji, heq⟩ := slot_clear hfull
  rw [heq] at hj hfull
  exact hji (h.distinct j i hfull hslot.2 (hj.trans hslot.1.symm))

theorem clear (h : Patched free vmem t)
    (hslot : (t.slot i).addr = addr ∧ (t.slot i).status = .full) :
    Patched free (vmem.put (addr.setWidth 32).toNat (t.slot i).instr) (t.clear i) := by
  have hw : WordIn vmem addr := h.place addr ⟨i, hslot⟩
  have hfree : WordIn free addr := hw.of_size h.size.symm
  have hinstr : (t.slot i).instr = free.word (addr.setWidth 32) := by
    rw [h.saved i hslot.2, hslot.1]
  have hkept {a : BitVec 64} (ha : (t.clear i).FullAt a) : t.FullAt a :=
    (Breakpoints.fullAt_clear_or hslot).mp (.inl ha)
  have hgone := h.not_fullAt_clear hslot
  refine { size := h.size, place := ?_, distinct := ?_, saved := ?_, patched := ?_, others := ?_ }
  · exact fun a ha => (h.place a (hkept ha)).of_size rfl
  · intro j k hj hk heq
    rw [(slot_clear hj).2, (slot_clear hk).2] at heq
    rw [(slot_clear hj).2] at hj
    rw [(slot_clear hk).2] at hk
    exact h.distinct j k hj hk heq
  · intro j hj
    obtain ⟨-, heq⟩ := slot_clear hj
    rw [heq] at hj ⊢
    exact h.saved j hj
  · intro a ha
    have hwa := h.place a (hkept ha)
    rw [← h.patched a (hkept ha)]
    refine hwa.word_congr rfl fun k hk => hw.byte_put fun hk' => hgone ?_
    rw [covers_unique hw.aligned hwa.aligned hk' hk]
    exact ha
  · intro k hk
    by_cases hcovers : Covers addr k
    · rw [hinstr]
      exact hfree.byte_put_word hcovers
    · rw [hw.byte_put hcovers]
      refine h.others k fun a ha => ?_
      obtain ha | rfl := (Breakpoints.fullAt_clear_or hslot).mpr ha
      · exact hk a ha
      · exact hcovers

theorem insert (h : Patched free vmem t) (haligned : addr.toNat % 4 = 0)
    (hbelow : addr.toNat < vmem.size)
    (hinsert : sadInsertBreakpoint vmem t addr = .ok (vmem', t', ret)) : Patched free vmem' t' := by
  obtain ⟨-, rfl, rfl⟩ | ⟨-, -, -, rfl, rfl⟩ | ⟨-, hin, i, hword, hempty, rfl, rfl⟩ :=
    sadInsertBreakpoint_cases hinsert
  · exact h
  · exact h
  · exact h.fill (.of_inside haligned hbelow hin) hempty hword

theorem remove (h : Patched free vmem t)
    (hremove : sadRemoveBreakpoint vmem t addr = .ok (vmem', t', ret)) : Patched free vmem' t' := by
  unfold sadRemoveBreakpoint at hremove
  split at hremove
  · cases hremove
    exact h
  · rename_i i hfind
    have hslot := sadFindBreakpoint_some hfind
    rw [memWw, store_word (h.place addr ⟨i, hslot⟩).mem] at hremove
    cases hremove
    exact h.clear hslot

theorem guest (h : Patched free vmem t) {w} (hw : Spares t w) :
    Patched (free.writeBytes w) (vmem.writeBytes w) t where
  size := h.size
  place a ha := (h.place a ha).of_size rfl
  distinct := h.distinct
  saved i hi := by
    have hfull : t.FullAt (t.slot i).addr := ⟨i, rfl, hi⟩
    have hfree : WordIn free (t.slot i).addr := (h.place _ hfull).of_size h.size.symm
    rw [h.saved i hi]
    symm
    refine hfree.word_congr rfl fun k hk => ?_
    simp only [Mem.writeBytes, hw _ hfull k hk, Option.getD_none]
  patched a ha := by
    rw [← h.patched a ha]
    refine (h.place a ha).word_congr rfl fun k hk => ?_
    simp only [Mem.writeBytes, hw a ha k hk, Option.getD_none]
  others k hk := by
    simp only [Mem.writeBytes]
    rw [h.others k hk]

theorem eq_free (h : Patched free vmem t) (hnone : ∀ a, ¬ t.FullAt a) : vmem = free :=
  Mem.eq_of_byte h.size fun k => h.others k fun a ha => absurd ha (hnone a)

end Patched

-- ---------------------------------------------------------------------------
-- Sequences of operations
-- ---------------------------------------------------------------------------

/-- `coreStep` is what the step of the core does to guest memory. -/
def sadStepTheBreakpoint (coreStep : Mem → Except Stop Mem) (vmem : Mem) (t : Breakpoints)
    (pc : BitVec 64) : Except Stop (Mem × Breakpoints × BrkRet) := do
  let (vmem, t, ret) ← sadRemoveBreakpoint vmem t pc
  -- if removed, step and reinsert
  if ret = .removed then
    let vmem ← coreStep vmem
    let (vmem, t, _) ← sadInsertBreakpoint vmem t pc
    return (vmem, t, .stepped)
  return (vmem, t, .notFound)

structure BrkState where
  vmem : Mem
  breakpoints : Breakpoints
  /-- The memory of the program without breakpoints. -/
  free : Mem

inductive BrkOp
  | insert (addr : BitVec 64)
  | remove (addr : BitVec 64)
  /-- on a core with this program counter, whose step writes these bytes -/
  | stepTheBreakpoint (pc : U32) (w : Nat → Option U8)
  /-- another step of the guest -/
  | guest (w : Nat → Option U8)

inductive BrkStep : BrkState → BrkOp → BrkState → Prop
  | insert {s : BrkState} (addr) {vmem t ret} (haligned : addr.toNat % 4 = 0)
      (hbelow : addr.toNat < s.vmem.size)
      (h : sadInsertBreakpoint s.vmem s.breakpoints addr = .ok (vmem, t, ret)) :
    BrkStep s (.insert addr) { s with vmem, breakpoints := t }
  | remove {s : BrkState} (addr) {vmem t ret} (haligned : addr.toNat % 4 = 0)
      (hbelow : addr.toNat < s.vmem.size)
      (h : sadRemoveBreakpoint s.vmem s.breakpoints addr = .ok (vmem, t, ret)) :
    BrkStep s (.remove addr) { s with vmem, breakpoints := t }
  | stepTheBreakpoint {s : BrkState} (pc : U32) (w) {vmem t ret}
      (hw : ∀ vmem t, sadRemoveBreakpoint s.vmem s.breakpoints (pc.setWidth 64) =
        .ok (vmem, t, .removed) → Spares t w)
      (h : sadStepTheBreakpoint (fun vmem => .ok (vmem.writeBytes w)) s.vmem s.breakpoints
        (pc.setWidth 64) = .ok (vmem, t, ret)) :
    BrkStep s (.stepTheBreakpoint pc w)
      { vmem, breakpoints := t
        free := if ret = .stepped then s.free.writeBytes w else s.free }
  | guest {s : BrkState} (w) (hw : Spares s.breakpoints w) :
    BrkStep s (.guest w) { s with vmem := s.vmem.writeBytes w, free := s.free.writeBytes w }

namespace BrkState

def start (vmem : Mem) : BrkState := ⟨vmem, .reset, vmem⟩

def Patched (s : BrkState) : Prop := SwitchV32.Patched s.free s.vmem s.breakpoints

variable {s s' s₀ : BrkState} {vmem : Mem}

theorem Patched.stepTheBreakpoint {pc : U32} {w} {vmem t ret} (hp : s.Patched)
    (hw : ∀ vmem t, sadRemoveBreakpoint s.vmem s.breakpoints (pc.setWidth 64) =
      .ok (vmem, t, .removed) → Spares t w)
    (h : sadStepTheBreakpoint (fun vmem => .ok (vmem.writeBytes w)) s.vmem s.breakpoints
      (pc.setWidth 64) = .ok (vmem, t, ret)) :
    SwitchV32.Patched (if ret = .stepped then s.free.writeBytes w else s.free) vmem t := by
  obtain ⟨⟨vmem₁, t₁, ret₁⟩, hremove, h⟩ := bind_eq_ok.mp h
  have h₁ := hp.remove hremove
  dsimp only at h
  split at h
  · rename_i hremoved
    rw [hremoved] at hremove
    obtain ⟨vmem₂, hstep, h⟩ := bind_eq_ok.mp h
    cases hstep
    obtain ⟨⟨vmem₃, t₃, ret₃⟩, hinsert, h⟩ := bind_eq_ok.mp h
    obtain ⟨rfl, rfl, rfl⟩ : vmem₃ = vmem ∧ t₃ = t ∧ BrkRet.stepped = ret := by
      simpa only [pure, Except.pure, Except.ok.injEq, Prod.mk.injEq] using h
    have hplace : WordIn s.vmem (pc.setWidth 64) := by
      by_contra hnot
      have hnone : ¬ s.breakpoints.FullAt (pc.setWidth 64) := fun hfull =>
        hnot (hp.place _ hfull)
      rw [sadRemoveBreakpoint_notFound hnone] at hremove
      cases hremove
    have hsize : (vmem₁.writeBytes w).size = s.vmem.size := h₁.size.trans hp.size.symm
    have hplace' := hplace.of_size hsize
    exact (h₁.guest (hw _ _ hremove)).insert hplace'.aligned hplace'.below hinsert
  · obtain ⟨rfl, rfl, rfl⟩ : vmem₁ = vmem ∧ t₁ = t ∧ BrkRet.notFound = ret := by
      simpa only [pure, Except.pure, Except.ok.injEq, Prod.mk.injEq] using h
    exact h₁

/-- A core that leaves the breakpointed words alone comes back with its breakpoint in place. -/
theorem Patched.stepped {pc : U32} {w} (hp : s.Patched)
    (hfull : s.breakpoints.FullAt (pc.setWidth 64)) (hw : Spares s.breakpoints w) :
    ∃ vmem t, sadStepTheBreakpoint (fun vmem => .ok (vmem.writeBytes w)) s.vmem s.breakpoints
      (pc.setWidth 64) = .ok (vmem, t, .stepped) ∧ ∀ a, t.FullAt a ↔ s.breakpoints.FullAt a := by
  cases hfind : sadFindBreakpoint s.breakpoints (pc.setWidth 64) with
  | none => exact absurd hfull (sadFindBreakpoint_none.mp hfind)
  | some i =>
    have hslot := sadFindBreakpoint_some hfind
    have hplace := hp.place _ hfull
    have hremove := sadRemoveBreakpoint_found hfind hplace.mem
    have hclear := SwitchV32.Patched.clear hp hslot
    have hspares : Spares (s.breakpoints.clear i) w := fun a ha =>
      hw a ((Breakpoints.fullAt_clear_or hslot).mp (.inl ha))
    -- the word of the program is back, and the step leaves it there
    have hword : ((s.vmem.put ((pc.setWidth 64).setWidth 32).toNat
        (s.breakpoints.slot i).instr).writeBytes w).word ((pc.setWidth 64).setWidth 32) =
        (s.breakpoints.slot i).instr := by
      refine .trans ?_ (word_put hplace.mem (s.breakpoints.slot i).instr)
      have hput : WordIn (s.vmem.put ((pc.setWidth 64).setWidth 32).toNat
        (s.breakpoints.slot i).instr) (pc.setWidth 64) := hplace.of_size rfl
      refine hput.word_congr rfl fun k hk => ?_
      simp only [Mem.writeBytes, hw _ hfull k hk, Option.getD_none]
    have hmem : ((s.vmem.put ((pc.setWidth 64).setWidth 32).toNat
        (s.breakpoints.slot i).instr).writeBytes w).Inside ((pc.setWidth 64).setWidth 32) 4 :=
      hplace.mem
    obtain ⟨vmem', t', hinsert, -, hsame⟩ := fullAt_reinsert hfind hmem hword
    refine ⟨vmem', t', ?_, hsame⟩
    simp only [sadStepTheBreakpoint, hremove, ok_bind, if_true, hinsert]
    rfl

theorem Patched.step {op : BrkOp} (hp : s.Patched) (h : BrkStep s op s') : s'.Patched := by
  cases h with
  | insert addr haligned hbelow h => exact SwitchV32.Patched.insert hp haligned hbelow h
  | remove addr _ _ h => exact SwitchV32.Patched.remove hp h
  | stepTheBreakpoint pc w hw h => exact hp.stepTheBreakpoint hw h
  | guest w hw => exact SwitchV32.Patched.guest hp hw

theorem Patched.run {ops : List (BrkState × BrkOp)} (h : Lts.Run BrkStep (start vmem) ops s) :
    s.Patched :=
  h.inv_all Patched (fun _ _ _ hp hstep => hp.step hstep) (SwitchV32.Patched.reset vmem)

end BrkState

section
variable {free vmem vmem' : Mem} {t t' : Breakpoints} {addr : BitVec 64} {ret : BrkRet}

theorem sadInsertBreakpoint_failed (h : sadInsertBreakpoint vmem t addr = .ok (vmem', t', ret))
    (hret : ret ≠ .inserted) : vmem' = vmem ∧ t' = t := by
  obtain ⟨-, rfl, rfl⟩ | ⟨rfl, -⟩ | ⟨rfl, -⟩ := sadInsertBreakpoint_cases h
  · exact ⟨rfl, rfl⟩
  · exact absurd rfl hret
  · exact absurd rfl hret

theorem sadRemoveBreakpoint_failed (h : sadRemoveBreakpoint vmem t addr = .ok (vmem', t', ret))
    (hret : ret ≠ .removed) : vmem' = vmem ∧ t' = t := by
  unfold sadRemoveBreakpoint at h
  split at h
  · cases h
    exact ⟨rfl, rfl⟩
  · obtain ⟨vmem₁, -, h⟩ := bind_eq_ok.mp h
    cases h
    exact absurd rfl hret

def removeAll (vmem : Mem) (t : Breakpoints) : List (BitVec 64) → Except Stop (Mem × Breakpoints)
  | [] => .ok (vmem, t)
  | addr :: addrs => do
    let (vmem, t, _) ← sadRemoveBreakpoint vmem t addr
    removeAll vmem t addrs

theorem Patched.remove_ok (h : Patched free vmem t) (addr : BitVec 64) :
    ∃ vmem' t' ret, sadRemoveBreakpoint vmem t addr = .ok (vmem', t', ret) ∧
      Patched free vmem' t' ∧ ∀ a, t'.FullAt a → t.FullAt a ∧ a ≠ addr := by
  by_cases hfull : t.FullAt addr
  · obtain ⟨i, hfind⟩ : ∃ i, sadFindBreakpoint t addr = some i := by
      cases hfind : sadFindBreakpoint t addr with
      | none => exact absurd hfull (sadFindBreakpoint_none.mp hfind)
      | some i => exact ⟨i, rfl⟩
    have hslot := sadFindBreakpoint_some hfind
    refine ⟨_, _, _, sadRemoveBreakpoint_found hfind (h.place addr hfull).mem, h.clear hslot, ?_⟩
    refine fun a ha => ⟨(Breakpoints.fullAt_clear_or hslot).mp (.inl ha), ?_⟩
    rintro rfl
    exact h.not_fullAt_clear hslot ha
  · refine ⟨_, _, _, sadRemoveBreakpoint_notFound hfull, h, fun a ha => ⟨ha, ?_⟩⟩
    rintro rfl
    exact hfull ha

theorem Spares.remove {w} (hw : Spares t w) (h : Patched free vmem t)
    (hremove : sadRemoveBreakpoint vmem t addr = .ok (vmem', t', ret)) : Spares t' w := by
  obtain ⟨vmem₁, t₁, ret₁, hremove₁, -, hgone⟩ := h.remove_ok addr
  cases hremove₁.symm.trans hremove
  exact fun a ha => hw a (hgone a ha).1

theorem Patched.removeAll (h : Patched free vmem t) (addrs : List (BitVec 64))
    (hall : ∀ a, t.FullAt a → a ∈ addrs) :
    ∃ t', removeAll vmem t addrs = .ok (free, t') ∧ ∀ a, ¬ t'.FullAt a := by
  induction addrs generalizing vmem t with
  | nil =>
    have hnone : ∀ a, ¬ t.FullAt a := fun a ha => List.not_mem_nil (hall a ha)
    exact ⟨t, by rw [h.eq_free hnone]; rfl, hnone⟩
  | cons addr addrs ih =>
    obtain ⟨vmem₁, t₁, ret₁, hremove, h₁, hgone⟩ := h.remove_ok addr
    obtain ⟨t', hrest, hnone⟩ := ih h₁ fun a ha => by
      obtain ⟨hfull, hne⟩ := hgone a ha
      exact (List.mem_cons.mp (hall a hfull)).resolve_left hne
    refine ⟨t', ?_, hnone⟩
    simp only [SwitchV32.removeAll, hremove, ok_bind]
    exact hrest

end

namespace BrkState

-- ---------------------------------------------------------------------------
-- Every reachable state
-- ---------------------------------------------------------------------------

/-- The table and the patched memory agree at any point of any sequence of operations. -/
theorem consistent (vmem : Mem) (ops : List (BrkState × BrkOp)) (s : BrkState)
    (h : Lts.Run BrkStep (start vmem) ops s) :
    (∀ i j, (s.breakpoints.slot i).status = .full → (s.breakpoints.slot j).status = .full →
      (s.breakpoints.slot i).addr = (s.breakpoints.slot j).addr → i = j) ∧
    (∀ i, (s.breakpoints.slot i).status = .full → (s.breakpoints.slot i).instr =
      s.free.word ((s.breakpoints.slot i).addr.setWidth 32)) ∧
    (∀ a, s.breakpoints.FullAt a → s.vmem.word (a.setWidth 32) = breakpointVal) ∧
    (∀ k, (∀ a, s.breakpoints.FullAt a → ¬ Covers a k) → s.vmem.byte k = s.free.byte k) ∧
    (∀ addr vmem' t' ret, sadInsertBreakpoint s.vmem s.breakpoints addr = .ok (vmem', t', ret) →
      ret ≠ .inserted → vmem' = s.vmem ∧ t' = s.breakpoints) ∧
    (∀ addr vmem' t' ret, sadRemoveBreakpoint s.vmem s.breakpoints addr = .ok (vmem', t', ret) →
      ret ≠ .removed → vmem' = s.vmem ∧ t' = s.breakpoints) ∧
    ∀ addrs, (∀ a, s.breakpoints.FullAt a → a ∈ addrs) →
      ∃ t', removeAll s.vmem s.breakpoints addrs = .ok (s.free, t') ∧ ∀ a, ¬ t'.FullAt a := by
  have hp := Patched.run h
  exact ⟨hp.distinct, hp.saved, hp.patched, hp.others,
    fun _ _ _ _ => sadInsertBreakpoint_failed, fun _ _ _ _ => sadRemoveBreakpoint_failed,
    fun addrs hall => hp.removeAll addrs hall⟩

/-- A breakpoint on the second of two words, stepped over by a core that writes to the first. -/
theorem consistent_stepped :
    ∃ ops s, ops.length = 2 ∧ Lts.Run BrkStep (start (.ofWords [0x13, 0x13])) ops s ∧
      s.breakpoints.FullAt 4 ∧ s.free.byte 0 = 0x93 ∧ s.vmem.word 4 = breakpointVal ∧
      ∃ t', removeAll s.vmem s.breakpoints [4] = .ok (s.free, t') ∧ ∀ a, ¬ t'.FullAt a := by
  have hin : (Mem.ofWords [0x13, 0x13]).Inside ((4 : BitVec 64).setWidth 32) 4 := by decide
  have hword : (Mem.ofWords [0x13, 0x13]).word ((4 : BitVec 64).setWidth 32) ≠ breakpointVal := by
    decide
  have hempty : (Breakpoints.reset.slot 0).status = .empty := rfl
  obtain ⟨j, hj, hinsert⟩ := sadInsertBreakpoint_word hin hempty hword
  have h₁ := Lts.Run.one (BrkStep.insert (s := start (.ofWords [0x13, 0x13])) 4 (by decide)
    (by decide) hinsert)
  have hfull (a) : (Breakpoints.reset.fill j 4 _ hword).FullAt a ↔
      Breakpoints.reset.FullAt a ∨ a = 4 := Breakpoints.fullAt_fill hj
  have honly {a} (ha : (Breakpoints.reset.fill j 4 _ hword).FullAt a) : a = 4 :=
    ((hfull a).mp ha).resolve_left Breakpoints.not_fullAt_reset
  have hspares : Spares (Breakpoints.reset.fill j 4 _ hword)
      (fun k => if k = 0 then some 0x93 else none) := by
    intro a ha k hk
    rw [honly ha] at hk
    exact if_neg (Nat.ne_of_gt (Nat.lt_of_lt_of_le (by decide) hk.1))
  have hp := Patched.run h₁
  have hat : (Breakpoints.reset.fill j 4 _ hword).FullAt ((4 : U32).setWidth 64) :=
    (hfull 4).mpr (.inr rfl)
  obtain ⟨vmem, t, hstep, hsame⟩ := hp.stepped hat hspares
  have h₂ := h₁.snoc (.stepTheBreakpoint 4 _ (fun _ _ h => hspares.remove hp h) hstep)
  have hfull₄ : t.FullAt 4 := (hsame 4).mpr ((hfull 4).mpr (.inr rfl))
  obtain ⟨-, -, hpatched, -, -, -, hall⟩ := consistent _ _ _ h₂
  refine ⟨_, _, rfl, h₂, hfull₄, rfl, hpatched 4 hfull₄, hall [4] fun a ha => ?_⟩
  rw [honly ((hsame a).mp ha)]
  exact List.mem_singleton.mpr rfl

end BrkState

end SwitchV32
