import SwitchV32.User.SystemCall

/-!
# The times of the guest

`emu_copy_timespec` and `emu_copy_timeval` of `user/emu.c`: whole seconds are
carried over from a fraction only where it does not fit into 32 bits, and one
second is borrowed where it is negative.
-/

namespace SwitchV32

namespace Emu

-- ---------------------------------------------------------------------------
-- Sums of 64 bits
-- ---------------------------------------------------------------------------

def InInt64 (x : Int) : Prop := -2 ^ 63 ≤ x ∧ x < 2 ^ 63

instance (x : Int) : Decidable (InInt64 x) := inferInstanceAs (Decidable (_ ∧ _))

section
variable {a b : BitVec 64} {x : Int}

theorem bmod_of_inInt64 (h : InInt64 x) : x.bmod (2 ^ 64) = x := by
  unfold InInt64 at h
  exact Int.bmod_eq_of_le (by omega) (by omega)

theorem toInt_inInt64 (a : BitVec 64) : InInt64 a.toInt := by
  have hmin := a.le_toInt
  have hmax := a.toInt_lt
  simp only [Nat.add_one_sub_one] at hmin hmax
  exact ⟨by omega, by omega⟩

theorem toInt_add_exact (h : InInt64 (a.toInt + b.toInt)) : (a + b).toInt = a.toInt + b.toInt := by
  rw [BitVec.toInt_add, bmod_of_inInt64 h]

theorem toInt_sub_exact (h : InInt64 (a.toInt - b.toInt)) : (a - b).toInt = a.toInt - b.toInt := by
  rw [BitVec.toInt_sub, bmod_of_inInt64 h]

theorem toInt_mul_exact (h : InInt64 (a.toInt * b.toInt)) : (a * b).toInt = a.toInt * b.toInt := by
  rw [BitVec.toInt_mul, bmod_of_inInt64 h]

theorem toInt_sdiv_exact (h : InInt64 (a.toInt.tdiv b.toInt)) :
    (a.sdiv b).toInt = a.toInt.tdiv b.toInt := by
  rw [BitVec.toInt_sdiv, bmod_of_inInt64 h]

theorem toInt_setWidth_32 (h : int32Min ≤ a.toInt ∧ a.toInt ≤ int32Max) :
    (a.setWidth 32).toInt = a.toInt := by
  have hmod : (a.setWidth 32).toInt = a.toInt.bmod (2 ^ 32) := by
    rw [BitVec.toInt_setWidth, BitVec.toInt_eq_toNat_bmod, Int.bmod_bmod_of_dvd (by decide)]
  unfold int32Min int32Max at h
  rw [hmod]
  exact Int.bmod_eq_of_le (by omega) (by omega)

end

-- ---------------------------------------------------------------------------
-- The copies
-- ---------------------------------------------------------------------------

inductive TimeKind
  | timespec | timeval

/-- The host's pair once whole seconds are carried over. -/
def carried (unit : BitVec 64) (t : HostTime) : HostTime :=
  if t.frac.toInt > int32Max ∨ t.frac.toInt < int32Min then
    ⟨t.sec + t.frac.sdiv unit, t.frac - t.frac.sdiv unit * unit⟩
  else t

/-- And once a second is borrowed, before the fraction is cast. -/
def normalized (unit : BitVec 64) (t : HostTime) : HostTime :=
  let t := carried unit t
  if t.frac.toInt < 0 then ⟨t.sec - 1, t.frac + unit⟩ else t

namespace TimeKind

def unit : TimeKind → BitVec 64
  | timespec => 1000000000
  | timeval => 1000000

def copy : TimeKind → HostTime → EmuTime
  | timespec => emuCopyTimespec
  | timeval => emuCopyTimeval

/-- The pair that is stored is the same instant, with a fraction below a second that the cast has
left as it was. -/
structure Denotes (k : TimeKind) (t : HostTime) : Prop where
  instant : (k.copy t).sec.toInt * k.unit.toInt + (k.copy t).frac.toInt =
    t.sec.toInt * k.unit.toInt + t.frac.toInt
  lossless : (k.copy t).frac.toInt = (normalized k.unit t).frac.toInt
  nonneg : 0 ≤ (k.copy t).frac.toInt
  below : (k.copy t).frac.toInt < k.unit.toInt

def carry (k : TimeKind) (frac : Int) : Int :=
  if frac > int32Max ∨ frac < int32Min then frac.tdiv k.unit.toInt else 0

def rest (k : TimeKind) (frac : Int) : Int := frac - k.carry frac * k.unit.toInt

structure NoOverflow (k : TimeKind) (t : HostTime) : Prop where
  carried : InInt64 (t.sec.toInt + k.carry t.frac.toInt)
  borrowed : k.rest t.frac.toInt < 0 → InInt64 (t.sec.toInt + k.carry t.frac.toInt - 1)

variable {k : TimeKind} {t : HostTime} {frac : Int}

theorem copy_eq (k : TimeKind) (t : HostTime) : k.copy t =
    ⟨(normalized k.unit t).sec, (normalized k.unit t).frac.setWidth 32⟩ := by
  cases k <;> rfl

theorem unit_bounds (k : TimeKind) : 0 < k.unit.toInt ∧ k.unit.toInt ≤ int32Max := by
  cases k <;> decide

/-- Whole seconds that are taken away leave less than a second of either sign. -/
theorem rest_of_big (h : frac > int32Max ∨ frac < int32Min) :
    -k.unit.toInt < k.rest frac ∧ k.rest frac < k.unit.toInt := by
  obtain ⟨hpos, -⟩ := k.unit_bounds
  have hdiv := Int.tdiv_mul_add_tmod frac k.unit.toInt
  have hlt := Int.tmod_lt_of_pos frac hpos
  have hgt := Int.lt_tmod_of_pos frac hpos
  rw [rest, carry, if_pos h]
  omega

theorem rest_of_small (h : ¬ (frac > int32Max ∨ frac < int32Min)) : k.rest frac = frac := by
  rw [rest, carry, if_neg h, Int.zero_mul, Int.sub_zero]

theorem tdiv_nonneg_le {a b : Int} (ha : 0 ≤ a) (hb : 0 < b) :
    (0 ≤ a.tdiv b ∧ a.tdiv b ≤ a) ∧ 0 ≤ a.tdiv b * b ∧ a.tdiv b * b ≤ a := by
  have hdiv := Int.tdiv_mul_add_tmod a b
  have hmod := Int.tmod_nonneg b ha
  have hpos := Int.tdiv_nonneg ha (Int.le_of_lt hb)
  exact ⟨⟨hpos, Int.tdiv_le_self b ha⟩, Int.mul_nonneg hpos (Int.le_of_lt hb), by omega⟩

theorem carry_inInt64 (h : InInt64 frac) :
    InInt64 (k.carry frac) ∧ InInt64 (k.carry frac * k.unit.toInt) := by
  obtain ⟨hpos, -⟩ := k.unit_bounds
  unfold InInt64 at *
  unfold carry
  split
  · obtain hsign | hsign := Int.le_total 0 frac
    · obtain ⟨hquot, hprod⟩ := tdiv_nonneg_le hsign hpos
      omega
    · obtain ⟨hquot, hprod⟩ := tdiv_nonneg_le (Int.neg_nonneg_of_nonpos hsign) hpos
      rw [Int.neg_tdiv, Int.neg_mul] at hprod
      rw [Int.neg_tdiv] at hquot
      omega
  · omega

theorem carried_eq (h : k.NoOverflow t) :
    (carried k.unit t).sec.toInt = t.sec.toInt + k.carry t.frac.toInt ∧
      (carried k.unit t).frac.toInt = k.rest t.frac.toInt := by
  obtain ⟨hcarry, hprod⟩ := k.carry_inInt64 (toInt_inInt64 t.frac)
  have hsum := h.carried
  have hmax : int32Max = 2 ^ 31 - 1 := rfl
  obtain ⟨-, hunit⟩ := k.unit_bounds
  unfold carried
  by_cases hbig : t.frac.toInt > int32Max ∨ t.frac.toInt < int32Min
  · obtain ⟨hlow, hhigh⟩ := rest_of_big (k := k) hbig
    rw [rest] at hlow hhigh
    simp only [if_pos hbig, rest]
    simp only [carry, if_pos hbig] at *
    have hquot := toInt_sdiv_exact (a := t.frac) (b := k.unit) hcarry
    have hmul : (t.frac.sdiv k.unit * k.unit).toInt =
        t.frac.toInt.tdiv k.unit.toInt * k.unit.toInt := by
      rw [toInt_mul_exact (by rwa [hquot]), hquot]
    refine ⟨?_, ?_⟩
    · rw [toInt_add_exact (by rwa [hquot]), hquot]
    · rw [toInt_sub_exact, hmul]
      rw [hmul]
      unfold InInt64
      omega
  · rw [if_neg hbig, rest_of_small hbig, carry, if_neg hbig]
    exact ⟨(Int.add_zero _).symm, rfl⟩

/-- What is stored, before the cast, in numbers without bounds. -/
theorem normalized_eq (h : k.NoOverflow t) :
    (normalized k.unit t).sec.toInt = t.sec.toInt + k.carry t.frac.toInt -
        (if k.rest t.frac.toInt < 0 then 1 else 0) ∧
      (normalized k.unit t).frac.toInt = k.rest t.frac.toInt +
        (if k.rest t.frac.toInt < 0 then k.unit.toInt else 0) := by
  obtain ⟨hsec, hfrac⟩ := carried_eq h
  obtain ⟨hpos, hunit⟩ := k.unit_bounds
  have hmax : int32Max = 2 ^ 31 - 1 := rfl
  have hone : (1 : BitVec 64).toInt = 1 := rfl
  simp only [normalized, hfrac]
  split
  · rename_i hneg
    have hmin := toInt_inInt64 (carried k.unit t).frac
    refine ⟨?_, ?_⟩
    · rw [toInt_sub_exact, hsec, hone]
      rw [hsec, hone]
      exact h.borrowed hneg
    · rw [toInt_add_exact, hfrac]
      unfold InInt64 at hmin ⊢
      omega
  · rw [hsec, hfrac, Int.sub_zero, Int.add_zero]
    exact ⟨rfl, rfl⟩

theorem normalized_frac_bounds (h : k.NoOverflow t) :
    int32Min ≤ (normalized k.unit t).frac.toInt ∧ (normalized k.unit t).frac.toInt ≤ int32Max := by
  obtain ⟨-, hfrac⟩ := normalized_eq h
  obtain ⟨hpos, hunit⟩ := k.unit_bounds
  have hmin : int32Min < 0 := by decide
  rw [hfrac]
  by_cases hbig : t.frac.toInt > int32Max ∨ t.frac.toInt < int32Min
  · obtain ⟨hlow, hhigh⟩ := rest_of_big (k := k) hbig
    split <;> omega
  · rw [rest_of_small hbig]
    split <;> omega

theorem copy_lossless (h : k.NoOverflow t) :
    (k.copy t).frac.toInt = (normalized k.unit t).frac.toInt := by
  rw [copy_eq]
  exact toInt_setWidth_32 (normalized_frac_bounds h)

/-- The instant is never changed. -/
theorem copy_instant (h : k.NoOverflow t) :
    (k.copy t).sec.toInt * k.unit.toInt + (k.copy t).frac.toInt =
      t.sec.toInt * k.unit.toInt + t.frac.toInt := by
  obtain ⟨hsec, hfrac⟩ := normalized_eq h
  have hstored : (k.copy t).sec = (normalized k.unit t).sec := by rw [copy_eq]
  rw [copy_lossless h, hstored, hsec, hfrac, rest]
  split
  · rw [Int.sub_mul, Int.add_mul, Int.one_mul]
    omega
  · rw [Int.sub_zero, Int.add_mul]
    omega

/-- For every time without an overflow, the copy denotes it with a proper fraction exactly if the
fraction did not fit into 32 bits, or was from minus one second up to less than one. -/
theorem copy_time_iff (h : k.NoOverflow t) :
    k.Denotes t ↔ (t.frac.toInt > int32Max ∨ t.frac.toInt < int32Min) ∨
      -k.unit.toInt ≤ t.frac.toInt ∧ t.frac.toInt < k.unit.toInt := by
  obtain ⟨-, hfrac⟩ := normalized_eq h
  obtain ⟨hpos, hunit⟩ := k.unit_bounds
  have hproper : k.Denotes t ↔ 0 ≤ (normalized k.unit t).frac.toInt ∧
      (normalized k.unit t).frac.toInt < k.unit.toInt := by
    rw [← copy_lossless h]
    exact ⟨fun hd => ⟨hd.nonneg, hd.below⟩,
      fun hrange => ⟨copy_instant h, copy_lossless h, hrange.1, hrange.2⟩⟩
  rw [hproper, hfrac]
  by_cases hbig : t.frac.toInt > int32Max ∨ t.frac.toInt < int32Min
  · obtain ⟨hlow, hhigh⟩ := rest_of_big (k := k) hbig
    refine iff_of_true ?_ (.inl hbig)
    split <;> omega
  · rw [rest_of_small hbig]
    split <;> omega

/-- A nanosecond less than five seconds, and three seconds' worth of nanoseconds more. -/
theorem copy_time_iff_timespec :
    (emuCopyTimespec ⟨5, -1⟩ = ⟨4, 999999999⟩ ∧ timespec.Denotes ⟨5, -1⟩) ∧
      emuCopyTimespec ⟨5, 3000000000⟩ = ⟨8, 0⟩ ∧ timespec.Denotes ⟨5, 3000000000⟩ :=
  ⟨⟨by decide, (copy_time_iff ⟨by decide, by decide⟩).mpr (.inr (by decide))⟩,
    by decide, (copy_time_iff ⟨by decide, by decide⟩).mpr (.inl (by decide))⟩

/-- A fraction of one second stays what it is, and so does the number of seconds. -/
theorem copy_time_fails :
    (timespec.NoOverflow ⟨5, 1000000000⟩ ∧
      emuCopyTimespec ⟨5, 1000000000⟩ = ⟨5, 1000000000⟩ ∧ ¬ timespec.Denotes ⟨5, 1000000000⟩) ∧
    (timeval.NoOverflow ⟨5, 1000000⟩ ∧
      emuCopyTimeval ⟨5, 1000000⟩ = ⟨5, 1000000⟩ ∧ ¬ timeval.Denotes ⟨5, 1000000⟩) := by
  refine ⟨⟨⟨by decide, by decide⟩, by decide, fun hd => ?_⟩,
    ⟨⟨by decide, by decide⟩, by decide, fun hd => ?_⟩⟩
  · exact absurd hd.below (by decide)
  · exact absurd hd.below (by decide)

end TimeKind

end Emu

end SwitchV32
