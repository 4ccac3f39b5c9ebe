import SpatialIndex.Proofs.Number.Extended

/-!
# Whole numbers as floating-point numbers

Rounding respects order and leaves the numbers of a format as they are, so none of them lies
strictly between a whole number and the one nearest to it.  Whole numbers that are not longer than
a significand are numbers of the format themselves.
-/

namespace SpatialIndex

namespace Binary

variable {f : Format} {x : Binary f} {n : Int}

/-- The key of the number nearest to so many units. -/
def nearestKey (f : Format) (units : Int) : Int :=
  if units < 0 then -(f.nearest units.natAbs 1 : Int) else f.nearest units.natAbs 1

section Rounding

variable (hf : 0 < f.precision)

include hf

/-- Rounding to the nearest number keeps the order. -/
theorem nearestKey_mono {u u' : Int} (h : u ≤ u') : nearestKey f u ≤ nearestKey f u' := by
  unfold nearestKey
  split <;> split
  · have hmono : f.nearest u'.natAbs 1 ≤ f.nearest u.natAbs 1 :=
      Format.nearest_mono hf Nat.one_pos (by omega)
    omega
  · omega
  · omega
  · have hmono : f.nearest u.natAbs 1 ≤ f.nearest u'.natAbs 1 :=
      Format.nearest_mono hf Nat.one_pos (by omega)
    omega

/-- Rounding does not depend on the sign. -/
theorem nearestKey_eq (negative : Bool) (units : Nat) :
    nearestKey f (if negative then -(units : Int) else units) =
      if negative then -(f.nearest units 1 : Int) else f.nearest units 1 := by
  have hzero : f.nearest (f.units 0 * 1) 1 = 0 :=
    Format.nearest_units hf Nat.one_pos (Nat.zero_le f.infinity)
  rw [f.units_zero] at hzero
  unfold nearestKey
  cases negative with
  | false =>
    rw [if_neg Bool.false_ne_true, if_neg Bool.false_ne_true, if_neg (by omega),
      Int.natAbs_natCast]
  | true =>
    rw [if_pos rfl, if_pos rfl, Int.natAbs_neg, Int.natAbs_natCast]
    split
    · rfl
    · have hnone : units = 0 := by omega
      rw [hnone, hzero]
      rfl

/-- The number nearest to what a number stands for is that number. -/
theorem nearestKey_units (hx : x.isNaN = false) : nearestKey f x.units = x.key := by
  have hle : x.magnitude ≤ f.infinity := by simpa [isNaN] using hx
  have hexact := Format.nearest_units hf Nat.one_pos hle
  rw [Nat.mul_one] at hexact
  rw [units, absUnits, nearestKey_eq hf, hexact, key]

/-- What is nearest to a whole number is a number. -/
theorem isNaN_ofInt (n : Int) : (ofInt n : Binary f).isNaN = false := isNaN_nearest hf _ _ _

/-- The number nearest to a whole number is the one nearest to its units. -/
theorem key_ofInt (n : Int) : (ofInt n : Binary f).key = nearestKey f (n * Nat.pow 2 f.scale) := by
  have hpos : (0 : Int) < Nat.pow 2 f.scale := Int.natCast_pos.mpr (Nat.two_pow_pos _)
  have hsign : n * Nat.pow 2 f.scale < 0 ↔ n < 0 := by
    rw [Int.mul_neg_iff]
    omega
  have hroom : f.nearest (n.natAbs * Nat.pow 2 f.scale) 1 < f.signBit :=
    Nat.lt_of_le_of_lt (f.nearest_le _ _) (infinity_lt_signBit hf)
  rw [ofInt, nearest, key_ofMagnitude hf hroom, nearestKey, Int.natAbs_mul, Int.natAbs_natCast]
  simp only [hsign, decide_eq_true_eq]

end Rounding

section Order

variable (hf : 0 < f.precision) (hone : 0 < f.infinity) (hx : x.isNaN = false)

/-- A number compares with a whole number from above as its units with those of the whole number. -/
theorem toRat_le_iff : x.toRat ≤ n ↔ x.units ≤ n * Nat.pow 2 f.scale := by
  have hpos : (0 : Rat) < (Nat.pow 2 f.scale : Nat) := Nat.cast_pos.mpr (Nat.two_pow_pos _)
  rw [toRat, Rat.mkRat_eq_div, div_le_iff₀ hpos]
  exact_mod_cast Iff.rfl

/-- A number compares with a whole number from below as its units with those of the whole number. -/
theorem le_toRat_iff : n ≤ x.toRat ↔ n * Nat.pow 2 f.scale ≤ x.units := by
  have hpos : (0 : Rat) < (Nat.pow 2 f.scale : Nat) := Nat.cast_pos.mpr (Nat.two_pow_pos _)
  rw [toRat, Rat.mkRat_eq_div, le_div_iff₀ hpos]
  exact_mod_cast Iff.rfl

include hf hone hx

/-- A number that is not above a whole one is not above what that is rounded to. -/
theorem key_le_key_ofInt (h : x.toEReal ≤ ((n : ℝ) : EReal)) :
    x.key ≤ (ofInt n : Binary f).key := by
  have hrounded := natAbs_key_le (isNaN_ofInt hf n)
  rcases toEReal_cases hone hx with ⟨hkey, _⟩ | ⟨_, hvalue⟩ | ⟨_, hvalue⟩
  · omega
  · rw [hvalue] at h
    exact absurd (top_le_iff.mp h) (EReal.coe_ne_top _)
  · rw [hvalue, EReal.coe_le_coe_iff] at h
    have hunits : x.units ≤ n * Nat.pow 2 f.scale := toRat_le_iff.mp (by exact_mod_cast h)
    rw [key_ofInt hf, ← nearestKey_units hf hx]
    exact nearestKey_mono hf hunits

/-- A number that is not below a whole one is not below what that is rounded to. -/
theorem key_ofInt_le_key (h : ((n : ℝ) : EReal) ≤ x.toEReal) :
    (ofInt n : Binary f).key ≤ x.key := by
  have hrounded := natAbs_key_le (isNaN_ofInt hf n)
  rcases toEReal_cases hone hx with ⟨_, hvalue⟩ | ⟨hkey, _⟩ | ⟨_, hvalue⟩
  · rw [hvalue] at h
    exact absurd (le_bot_iff.mp h) (EReal.coe_ne_bot _)
  · omega
  · rw [hvalue, EReal.coe_le_coe_iff] at h
    have hunits : n * Nat.pow 2 f.scale ≤ x.units := le_toRat_iff.mp (by exact_mod_cast h)
    rw [key_ofInt hf, ← nearestKey_units hf hx]
    exact nearestKey_mono hf hunits

end Order

/-- Greater whole numbers are not rounded to less. -/
theorem key_ofInt_mono (hf : 0 < f.precision) {n n' : Int} (h : n ≤ n') :
    (ofInt n : Binary f).key ≤ (ofInt n' : Binary f).key := by
  have hpos : (0 : Int) ≤ Nat.pow 2 f.scale := Int.natCast_nonneg _
  rw [key_ofInt hf, key_ofInt hf]
  exact nearestKey_mono hf (Int.mul_le_mul_of_nonneg_right h hpos)

section Exact

variable (hroom : f.scale + 3 < Nat.pow 2 f.exponentBits)

include hroom

/-- A whole number that is not longer than a significand is so many units of a finite number. -/
theorem exists_units_eq_of_natAbs_le (h : n.natAbs ≤ 2 * f.fractions) :
    ∃ m < f.infinity, f.units m = n.natAbs * Nat.pow 2 f.scale := by
  have hfinite {m : Nat} (hm : m < (f.scale + 3) * f.fractions) : m < f.infinity :=
    Nat.lt_of_lt_of_le hm (Nat.mul_le_mul_right _ (by omega))
  rcases Nat.lt_or_eq_of_le h with hlt | heq
  · obtain ⟨m, hm, hunits⟩ := f.exists_units_eq hlt f.scale
    exact ⟨m, hfinite (Nat.lt_of_lt_of_le hm (Nat.mul_le_mul_right _ (by omega))), hunits⟩
  · -- The number is one bit too long, but even.
    have hpos := f.fractions_pos
    have hhalf : f.fractions < 2 * f.fractions := by omega
    obtain ⟨m, hm, hunits⟩ := f.exists_units_eq hhalf (f.scale + 1)
    refine ⟨m, hfinite hm, ?_⟩
    rw [hunits, heq, Nat.mul_comm 2, Nat.mul_assoc]
    exact congrArg _ (Nat.mul_comm _ _)

variable (hf : 0 < f.precision)

include hf

/-- A whole number that is not longer than a significand keeps its units. -/
theorem units_ofInt (h : n.natAbs ≤ 2 * f.fractions) :
    (ofInt n : Binary f).magnitude < f.infinity ∧
      (ofInt n : Binary f).units = n * Nat.pow 2 f.scale := by
  obtain ⟨m, hm, hunits⟩ := exists_units_eq_of_natAbs_le hroom h
  have hsign : m < f.signBit := Nat.lt_trans hm (infinity_lt_signBit hf)
  have hexact : f.nearest (n.natAbs * Nat.pow 2 f.scale) 1 = m := by
    have hnearest := Format.nearest_units hf Nat.one_pos (Nat.le_of_lt hm)
    rwa [Nat.mul_one, hunits] at hnearest
  rw [ofInt, nearest, hexact, units, absUnits, magnitude_ofMagnitude hf hsign,
    negative_ofMagnitude hf hsign, hunits, Nat.cast_mul]
  refine ⟨hm, ?_⟩
  by_cases hneg : n < 0
  · rw [if_pos (decide_eq_true hneg), ← Int.neg_mul, Int.ofNat_natAbs_of_nonpos (by omega),
      Int.neg_neg]
  · rw [if_neg (by simpa using hneg), Int.natAbs_of_nonneg (by omega)]

/-- A whole number that is not longer than a significand is rounded to itself. -/
theorem toEReal_ofInt (h : n.natAbs ≤ 2 * f.fractions) :
    (ofInt n : Binary f).toEReal = ((n : ℝ) : EReal) := by
  obtain ⟨hfinite, hunits⟩ := units_ofInt hroom hf h
  have hvalue : (ofInt n : Binary f).toRat = n :=
    le_antisymm (toRat_le_iff.mpr (Int.le_of_eq hunits))
      (le_toRat_iff.mpr (Int.le_of_eq hunits.symm))
  rw [toEReal, isInfinite, decide_eq_false (Nat.ne_of_lt hfinite), if_neg Bool.false_ne_true,
    hvalue, Rat.cast_intCast]

end Exact

end Binary

end SpatialIndex
