import Mathlib.Algebra.GroupWithZero.Nat
import SpatialIndex.Proofs.Number.Comparison

/-!
# Rounding respects order

Rounding to the nearest pattern is monotone: within one exponent because division is, and from one
exponent to a greater one because the power of two between them is a pattern of both.  So a number
rounded down is at most any number above it rounded up.
-/

namespace SpatialIndex

section RoundHalfEven

variable {num num' den k : Nat}

/-- Rounding a quotient does not go below the whole number under it. -/
theorem le_roundHalfEven (num den : Nat) : num / den ≤ roundHalfEven num den := by
  unfold roundHalfEven
  dsimp only
  split <;> omega

/-- Rounding a quotient does not go beyond the whole number over it. -/
theorem roundHalfEven_le (num den : Nat) : roundHalfEven num den ≤ num / den + 1 := by
  unfold roundHalfEven
  dsimp only
  split <;> omega

/-- A greater numerator is not rounded to less. -/
theorem roundHalfEven_mono (h : num ≤ num') : roundHalfEven num den ≤ roundHalfEven num' den := by
  have hdiv : num / den ≤ num' / den := Nat.div_le_div_right h
  rcases Nat.lt_or_eq_of_le hdiv with hlt | heq
  · have hlow := roundHalfEven_le num den
    have hhigh := le_roundHalfEven num' den
    omega
  · have hnum := Nat.div_add_mod num den
    have hnum' := Nat.div_add_mod num' den
    rw [← heq] at hnum'
    unfold roundHalfEven
    dsimp only
    rw [← heq]
    split <;> split <;> omega

end RoundHalfEven

namespace Format

variable {f : Format} {num num' den m m' : Nat}

/-- There is at least one fraction field. -/
theorem fractions_pos (f : Format) : 0 < f.fractions := Nat.two_pow_pos _

/-- The values of one exponent lie below the power of two that comes next. -/
theorem units_le (f : Format) (m : Nat) :
    f.units m ≤ f.fractions * Nat.pow 2 (m / f.fractions) := by
  have hfraction := Nat.mod_lt m f.fractions_pos
  unfold units
  dsimp only
  split
  · rename_i hzero
    rw [hzero]
    show _ ≤ f.fractions * 1
    omega
  · rename_i hpos
    obtain ⟨e, he⟩ := Nat.exists_eq_succ_of_ne_zero hpos
    rw [he, Nat.succ_sub_one]
    show _ ≤ f.fractions * (Nat.pow 2 e * 2)
    rw [Nat.mul_comm (Nat.pow 2 e), ← Nat.mul_assoc]
    exact Nat.mul_le_mul_right _ (by omega)

/-- The values of an exponent other than the least begin with a power of two. -/
theorem le_units (h : 0 < m / f.fractions) :
    f.fractions * Nat.pow 2 (m / f.fractions - 1) ≤ f.units m := by
  unfold units
  dsimp only
  rw [if_neg (Nat.ne_of_gt h)]
  exact Nat.mul_le_mul_right _ (Nat.le_add_right _ _)

/-- Patterns with the same sign are ordered as their values. -/
theorem units_mono (h : m ≤ m') : f.units m ≤ f.units m' := by
  have hdiv : m / f.fractions ≤ m' / f.fractions := Nat.div_le_div_right h
  rcases Nat.lt_or_eq_of_le hdiv with hlt | heq
  · have hpow : Nat.pow 2 (m / f.fractions) ≤ Nat.pow 2 (m' / f.fractions - 1) :=
      Nat.pow_le_pow_right Nat.two_pos (by omega)
    calc f.units m ≤ f.fractions * Nat.pow 2 (m / f.fractions) := f.units_le m
      _ ≤ f.fractions * Nat.pow 2 (m' / f.fractions - 1) := Nat.mul_le_mul_left _ hpow
      _ ≤ f.units m' := le_units (Nat.zero_lt_of_lt hlt)
  · have hm := Nat.div_add_mod m f.fractions
    have hm' := Nat.div_add_mod m' f.fractions
    rw [← heq] at hm'
    unfold units
    dsimp only
    rw [← heq]
    split
    · omega
    · exact Nat.mul_le_mul_right _ (by omega)

/-- The leading bit that is not stored doubles the number of fractions. -/
theorem two_mul_fractions (hf : 0 < f.precision) : 2 * f.fractions = Nat.pow 2 f.precision := by
  obtain ⟨p, hp⟩ := Nat.exists_eq_succ_of_ne_zero (Nat.ne_of_gt hf)
  rw [fractions, hp, Nat.succ_sub_one]
  exact Nat.mul_comm _ _

/-- Shifted by as many places as it is too long, a quotient has at most `precision` bits. -/
theorem lt_of_shift (hf : 0 < f.precision) (hden : 0 < den) :
    num < 2 * f.fractions * (den * Nat.pow 2 ((num / den).log2 + 1 - f.precision)) := by
  have hquotient : num / den < Nat.pow 2 ((num / den).log2 + 1) := Nat.lt_log2_self
  have hpow : Nat.pow 2 ((num / den).log2 + 1) ≤
      Nat.pow 2 (f.precision + ((num / den).log2 + 1 - f.precision)) :=
    Nat.pow_le_pow_right Nat.two_pos (by omega)
  have hsplit : Nat.pow 2 (f.precision + ((num / den).log2 + 1 - f.precision)) =
      Nat.pow 2 f.precision * Nat.pow 2 ((num / den).log2 + 1 - f.precision) := Nat.pow_add _ _ _
  rw [two_mul_fractions hf, Nat.mul_left_comm, ← hsplit, Nat.mul_comm]
  exact (Nat.div_lt_iff_lt_mul hden).mp (Nat.lt_of_lt_of_le hquotient hpow)

/-- If there are places to shift at all, the quotient still has `precision` bits. -/
theorem le_of_shift (hf : 0 < f.precision) (hden : 0 < den)
    (hshift : 0 < (num / den).log2 + 1 - f.precision) :
    f.fractions * (den * Nat.pow 2 ((num / den).log2 + 1 - f.precision)) ≤ num := by
  have hne : num / den ≠ 0 := by
    intro hzero
    rw [hzero, show Nat.log2 0 = 0 from rfl] at hshift
    omega
  have hquotient : Nat.pow 2 (num / den).log2 ≤ num / den := Nat.log2_self_le hne
  have hsplit : Nat.pow 2 ((f.precision - 1) + ((num / den).log2 + 1 - f.precision)) =
      f.fractions * Nat.pow 2 ((num / den).log2 + 1 - f.precision) := Nat.pow_add _ _ _
  rw [Nat.mul_left_comm, ← hsplit, Nat.mul_comm]
  refine (Nat.le_div_iff_mul_le hden).mp (Nat.le_trans ?_ hquotient)
  exact Nat.pow_le_pow_right Nat.two_pos (by omega)

/-- A greater number does not have fewer bits. -/
theorem log2_mono {a b : Nat} (h : a ≤ b) : a.log2 ≤ b.log2 := by
  by_cases ha : a = 0
  · rw [ha]
    exact Nat.zero_le _
  · exact (Nat.le_log2 (by omega)).mpr (Nat.le_trans (Nat.log2_self_le ha) h)

/-- A greater number is not rounded to a lesser pattern. -/
theorem nearest_mono (hf : 0 < f.precision) (hden : 0 < den) (h : num ≤ num') :
    f.nearest num den ≤ f.nearest num' den := by
  have hlow := @lt_of_shift f num den hf hden
  have hhigh := @le_of_shift f num' den hf hden
  have hlog : (num / den).log2 ≤ (num' / den).log2 := log2_mono (Nat.div_le_div_right h)
  unfold nearest
  dsimp only
  refine Nat.le_min.mpr ⟨Nat.le_trans (Nat.min_le_left _ _) ?_, Nat.min_le_right _ _⟩
  generalize hs : (num / den).log2 + 1 - f.precision = s at *
  generalize hs' : (num' / den).log2 + 1 - f.precision = s' at *
  rcases Nat.lt_or_eq_of_le (show s ≤ s' by omega) with hlt | rfl
  · have hbelow : num / (den * Nat.pow 2 s) < 2 * f.fractions :=
      (Nat.div_lt_iff_lt_mul (Nat.mul_pos hden (Nat.two_pow_pos s))).mpr hlow
    have habove : f.fractions ≤ num' / (den * Nat.pow 2 s') :=
      (Nat.le_div_iff_mul_le (Nat.mul_pos hden (Nat.two_pow_pos s'))).mpr
        (hhigh (Nat.zero_lt_of_lt hlt))
    calc roundHalfEven num (den * Nat.pow 2 s) + s * f.fractions
        ≤ num / (den * Nat.pow 2 s) + 1 + s * f.fractions :=
          Nat.add_le_add_right (roundHalfEven_le _ _) _
      _ ≤ 2 * f.fractions + s * f.fractions := Nat.add_le_add_right hbelow _
      _ = f.fractions + (s + 1) * f.fractions := by rw [Nat.succ_mul s]; omega
      _ ≤ f.fractions + s' * f.fractions :=
          Nat.add_le_add_left (Nat.mul_le_mul_right _ hlt) _
      _ ≤ num' / (den * Nat.pow 2 s') + s' * f.fractions := Nat.add_le_add_right habove _
      _ ≤ roundHalfEven num' (den * Nat.pow 2 s') + s' * f.fractions :=
          Nat.add_le_add_right (le_roundHalfEven _ _) _
  · exact Nat.add_le_add_right (roundHalfEven_mono h) _

/-- What rounds beyond the largest finite number goes no further than infinity. -/
theorem nearest_le (f : Format) (num den : Nat) : f.nearest num den ≤ f.infinity :=
  Nat.min_le_right _ _

end Format

namespace Binary

variable {f g : Format} {x y : Binary f}

/-- Infinity leaves room for the sign. -/
theorem infinity_lt_signBit (hf : 0 < f.precision) : f.infinity < f.signBit := by
  have hsplit : f.signBit = Nat.pow 2 f.exponentBits * f.fractions := by
    rw [Format.signBit, Format.width, Format.fractions,
      show f.precision + f.exponentBits - 1 = f.exponentBits + (f.precision - 1) by omega]
    exact Nat.pow_add _ _ _
  rw [hsplit, Format.infinity]
  exact Nat.mul_lt_mul_of_pos_right (Nat.sub_lt (Nat.two_pow_pos _) Nat.one_pos) f.fractions_pos

/-- The sign is the highest bit of a pattern. -/
theorem two_mul_signBit (hf : 0 < f.precision) : 2 * f.signBit = Nat.pow 2 f.width := by
  obtain ⟨w, hw⟩ := Nat.exists_eq_succ_of_ne_zero
    (show f.width ≠ 0 by rw [Format.width]; omega)
  rw [Format.signBit, hw, Nat.succ_sub_one]
  exact Nat.mul_comm _ _

/-- A number is negative when its pattern has the sign bit. -/
theorem negative_eq (x : Binary f) : x.negative = decide (f.signBit ≤ x.bits.toNat) :=
  BitVec.msb_eq_decide x.bits

section Pattern

variable (hf : 0 < f.precision)

include hf

/-- A pattern is its sign and the bits below it. -/
theorem ext_of_magnitude (hnegative : x.negative = y.negative)
    (hmagnitude : x.magnitude = y.magnitude) : x = y := by
  have hbelow (z : Binary f) : z.magnitude =
      if z.negative then z.bits.toNat - f.signBit else z.bits.toNat := by
    have hz : z.bits.toNat < 2 ^ f.width := z.bits.isLt
    have hwidth : 2 * f.signBit = 2 ^ f.width := two_mul_signBit hf
    rw [magnitude, negative_eq]
    by_cases hsign : f.signBit ≤ z.bits.toNat
    · rw [if_pos (decide_eq_true hsign), Nat.mod_eq_sub_mod hsign, Nat.mod_eq_of_lt (by omega)]
    · rw [if_neg (by simpa using hsign), Nat.mod_eq_of_lt (by omega)]
  rw [hbelow, hbelow, hnegative] at hmagnitude
  have hbits : x.bits.toNat = y.bits.toNat := by
    cases hsign : y.negative with
    | true =>
      have hx := of_decide_eq_true ((negative_eq x).symm.trans (hnegative.trans hsign))
      have hy := of_decide_eq_true ((negative_eq y).symm.trans hsign)
      rw [hsign, if_pos rfl, if_pos rfl] at hmagnitude
      omega
    | false => simpa [hsign] using hmagnitude
  cases x
  cases y
  exact congrArg Binary.mk (BitVec.eq_of_toNat_eq hbits)

/-- Patterns with the same key are the same but for the signs of zeros. -/
theorem key_eq_key_iff : x.key = y.key ↔ x = y ∨ x.isZero = true ∧ y.isZero = true := by
  simp only [key, isZero, decide_eq_true_eq]
  constructor
  · intro hkey
    by_cases hnegative : x.negative = y.negative
    · refine .inl (ext_of_magnitude hf hnegative ?_)
      rw [hnegative] at hkey
      split at hkey <;> omega
    · right
      cases hx : x.negative with
      | true =>
        have hy : y.negative = false := by simpa [hx] using hnegative
        rw [hx, hy, if_pos rfl, if_neg Bool.false_ne_true] at hkey
        omega
      | false =>
        have hy : y.negative = true := by simpa [hx] using hnegative
        rw [hx, hy, if_pos rfl, if_neg Bool.false_ne_true] at hkey
        omega
  · rintro (rfl | ⟨hx, hy⟩)
    · rfl
    · rw [hx, hy]
      simp

end Pattern

section OfMagnitude

variable (hf : 0 < f.precision) {m : Nat} (hm : m < f.signBit) (negative : Bool)

include hf hm

/-- The pattern with a given sign is the bits below it, and the sign bit if there is a sign. -/
theorem toNat_ofMagnitude : (ofMagnitude negative m : Binary f).bits.toNat =
    if negative then f.signBit + m else m := by
  have hwidth := two_mul_signBit hf
  refine Nat.mod_eq_of_lt ?_
  show _ < Nat.pow 2 f.width
  split <;> omega

/-- The bits below the sign are those that a pattern was made with. -/
theorem magnitude_ofMagnitude : (ofMagnitude negative m : Binary f).magnitude = m := by
  rw [magnitude, toNat_ofMagnitude hf hm]
  split
  · rw [Nat.add_mod_left, Nat.mod_eq_of_lt hm]
  · exact Nat.mod_eq_of_lt hm

/-- The sign is the one that a pattern was made with. -/
theorem negative_ofMagnitude : (ofMagnitude negative m : Binary f).negative = negative := by
  rw [negative_eq, toNat_ofMagnitude hf hm]
  cases negative with
  | true => simp
  | false => simpa using hm

/-- The key of a pattern is the bits below the sign as a number, with the sign. -/
theorem key_ofMagnitude : (ofMagnitude negative m : Binary f).key =
    if negative then -(m : Int) else m := by
  rw [key, magnitude_ofMagnitude hf hm, negative_ofMagnitude hf hm]

omit hm in
/-- A pattern with bits up to those of infinity is a number. -/
theorem isNaN_ofMagnitude (hm : m ≤ f.infinity) :
    (ofMagnitude negative m : Binary f).isNaN = false := by
  have hroom := infinity_lt_signBit hf
  rw [isNaN, magnitude_ofMagnitude hf (by omega), decide_eq_false_iff_not, Nat.not_lt]
  exact hm

end OfMagnitude

section Arithmetic

variable (hf : 0 < f.precision)

include hf

/-- What is nearest to a quotient is a number. -/
theorem isNaN_nearest (negative : Bool) (num den : Nat) :
    (nearest negative num den : Binary f).isNaN = false :=
  isNaN_ofMagnitude hf _ (f.nearest_le _ _)

/-- A sum of finite numbers is a number; it may be infinite. -/
theorem isNaN_add (hx : x.isFinite = true) (hy : y.isFinite = true) :
    (x.add y).isNaN = false := by
  have hinfinite {z : Binary f} (hz : z.isFinite = true) : z.isInfinite = false :=
    decide_eq_false (Nat.ne_of_lt (of_decide_eq_true hz))
  rw [add, orNaN, isNaN_of_isFinite hx, isNaN_of_isFinite hy, hinfinite hx, hinfinite hy]
  exact isNaN_nearest hf _ _ _

/-- A number divided by a finite one that is not zero is a number. -/
theorem isNaN_div (hx : x.isNaN = false) (hy : y.isFinite = true) (hzero : y.isZero = false) :
    (x.div y).isNaN = false := by
  have hinfinite : y.isInfinite = false := decide_eq_false (Nat.ne_of_lt (of_decide_eq_true hy))
  rw [div, orNaN, hx, isNaN_of_isFinite hy, hinfinite, hzero]
  cases x.isInfinite with
  | true => exact isNaN_ofMagnitude hf _ (Nat.le_refl _)
  | false => exact isNaN_nearest hf _ _ _

end Arithmetic

/-- The bits below the sign of a number, given those of a number of another format that it is
converted from. -/
def convertedMagnitude (f g : Format) (magnitude : Nat) : Nat :=
  if magnitude = f.infinity then g.infinity
  else g.nearest (f.units magnitude * Nat.pow 2 g.scale) (Nat.pow 2 f.scale)

/-- A conversion goes no further than infinity. -/
theorem convertedMagnitude_le (f g : Format) (m : Nat) : convertedMagnitude f g m ≤ g.infinity := by
  unfold convertedMagnitude
  split
  · exact Nat.le_refl _
  · exact g.nearest_le _ _

/-- A conversion keeps the order of the bits below the sign. -/
theorem convertedMagnitude_mono (hg : 0 < g.precision) {m m' : Nat} (h : m ≤ m')
    (hm' : m' ≤ f.infinity) : convertedMagnitude f g m ≤ convertedMagnitude f g m' := by
  by_cases hinfinite : m' = f.infinity
  · have hall := convertedMagnitude_le f g m
    rw [show convertedMagnitude f g m' = g.infinity from if_pos hinfinite]
    exact hall
  · rw [convertedMagnitude, convertedMagnitude, if_neg hinfinite, if_neg (by omega)]
    exact Format.nearest_mono hg (Nat.two_pow_pos _)
      (Nat.mul_le_mul_right _ (Format.units_mono h))

/-- A conversion keeps zero. -/
theorem convertedMagnitude_zero (hf : 0 < f.infinity) (hg : 0 < g.precision) :
    convertedMagnitude f g 0 = 0 := by
  have hunits : f.units 0 = 0 := by
    simp [Format.units]
  have hshift : Nat.log2 0 + 1 - g.precision = 0 := by
    rw [show Nat.log2 0 = 0 from rfl]
    omega
  rw [convertedMagnitude, if_neg (Nat.ne_of_lt hf), hunits, Nat.zero_mul, Format.nearest,
    Nat.zero_div, hshift]
  simp [roundHalfEven]

section Convert

variable (hg : 0 < g.precision)

include hg

/-- A conversion leaves the sign bit alone. -/
theorem convertedMagnitude_lt (m : Nat) : convertedMagnitude f g m < g.signBit :=
  Nat.lt_of_le_of_lt (convertedMagnitude_le f g m) (infinity_lt_signBit hg)

omit hg in
/-- Converting a number keeps its sign. -/
theorem convert_eq (hx : x.isNaN = false) :
    x.convert g = ofMagnitude x.negative (convertedMagnitude f g x.magnitude) := by
  rw [convert, hx, if_neg Bool.false_ne_true]
  by_cases hinfinite : x.isInfinite = true
  · rw [if_pos hinfinite, convertedMagnitude, if_pos (of_decide_eq_true hinfinite), infinite]
  · have hne : x.magnitude ≠ f.infinity := fun h => hinfinite (decide_eq_true h)
    rw [if_neg hinfinite, convertedMagnitude, if_neg hne]
    rfl

/-- A number that is converted gives a number. -/
theorem isNaN_convert (hx : x.isNaN = false) : (x.convert g).isNaN = false := by
  rw [convert_eq hx]
  exact isNaN_ofMagnitude hg _ (convertedMagnitude_le f g _)

/-- Conversion respects the order of numbers. -/
theorem key_convert_mono (hf : 0 < f.infinity) (hxy : x.le y = true) :
    (x.convert g).key ≤ (y.convert g).key := by
  obtain ⟨hx, hy, hkey⟩ := le_iff.mp hxy
  have hlex : x.magnitude ≤ f.infinity := by simpa [isNaN] using hx
  have hley : y.magnitude ≤ f.infinity := by simpa [isNaN] using hy
  rw [convert_eq hx, convert_eq hy, key_ofMagnitude hg (convertedMagnitude_lt hg _),
    key_ofMagnitude hg (convertedMagnitude_lt hg _)]
  unfold key at hkey
  cases hnx : x.negative <;> cases hny : y.negative <;> simp only [hnx, hny, if_true, if_false,
    Bool.false_eq_true] at hkey ⊢
  · exact Int.ofNat_le.mpr (convertedMagnitude_mono hg (by omega) hley)
  · -- A number without sign that is not above one with a sign: both are zero.
    rw [show x.magnitude = 0 by omega, show y.magnitude = 0 by omega,
      convertedMagnitude_zero hf hg]
    omega
  · omega
  · exact Int.neg_le_neg (Int.ofNat_le.mpr (convertedMagnitude_mono hg (by omega) hlex))

end Convert

section Neighbours

variable (hf : 0 < f.precision) (hone : 0 < f.infinity) (hx : x.isNaN = false)

include hf hone hx

/-- The number before a number, by its key; before negative infinity there is none. -/
theorem nextDown_spec : x.nextDown.isNaN = false ∧
    x.nextDown.key = if x.key = -(f.infinity : Int) then x.key else x.key - 1 := by
  have hroom := infinity_lt_signBit hf
  have hle : x.magnitude ≤ f.infinity := by simpa [isNaN] using hx
  unfold nextDown
  rw [hx, if_neg Bool.false_ne_true]
  -- Zero has no sign in the key; otherwise the bits below the sign shrink on the way down to zero
  -- and grow beyond it.
  split
  · rename_i hzero
    have hmagnitude : x.magnitude = 0 := of_decide_eq_true hzero
    have hkey : x.key = 0 := by simp [key, hmagnitude]
    refine ⟨isNaN_ofMagnitude hf true hone, ?_⟩
    rw [key_ofMagnitude hf (by omega), if_pos rfl, hkey, if_neg (by omega)]
    omega
  · rename_i hzero
    have hmagnitude : x.magnitude ≠ 0 := fun h => hzero (decide_eq_true h)
    split
    · rename_i hpositive
      have hkey : x.key = x.magnitude := by simp_all [key]
      refine ⟨isNaN_ofMagnitude hf false (by omega), ?_⟩
      rw [key_ofMagnitude hf (by omega), if_neg Bool.false_ne_true, if_neg (by omega)]
      omega
    · rename_i hnegative
      have hkey : x.key = -(x.magnitude : Int) := by simp_all [key]
      split
      · rename_i hinfinite
        have hend : x.magnitude = f.infinity := of_decide_eq_true hinfinite
        exact ⟨hx, by rw [if_pos (by omega)]⟩
      · rename_i hfinite
        have hend : x.magnitude ≠ f.infinity := fun h => hfinite (decide_eq_true h)
        refine ⟨isNaN_ofMagnitude hf true (by omega), ?_⟩
        rw [key_ofMagnitude hf (by omega), if_pos rfl, if_neg (by omega)]
        omega

/-- The number after a number, by its key; after positive infinity there is none. -/
theorem nextUp_spec : x.nextUp.isNaN = false ∧
    x.nextUp.key = if x.key = f.infinity then x.key else x.key + 1 := by
  have hroom := infinity_lt_signBit hf
  have hle : x.magnitude ≤ f.infinity := by simpa [isNaN] using hx
  unfold nextUp
  rw [hx, if_neg Bool.false_ne_true]
  split
  · rename_i hzero
    have hmagnitude : x.magnitude = 0 := of_decide_eq_true hzero
    have hkey : x.key = 0 := by simp [key, hmagnitude]
    refine ⟨isNaN_ofMagnitude hf false hone, ?_⟩
    rw [key_ofMagnitude hf (by omega), if_neg Bool.false_ne_true, hkey, if_neg (by omega)]
    omega
  · rename_i hzero
    have hmagnitude : x.magnitude ≠ 0 := fun h => hzero (decide_eq_true h)
    split
    · rename_i hnegative
      have hkey : x.key = -(x.magnitude : Int) := by simp_all [key]
      refine ⟨isNaN_ofMagnitude hf true (by omega), ?_⟩
      rw [key_ofMagnitude hf (by omega), if_pos rfl, if_neg (by omega)]
      omega
    · rename_i hpositive
      have hkey : x.key = x.magnitude := by simp_all [key]
      split
      · rename_i hinfinite
        have hend : x.magnitude = f.infinity := of_decide_eq_true hinfinite
        exact ⟨hx, by rw [if_pos (by omega)]⟩
      · rename_i hfinite
        have hend : x.magnitude ≠ f.infinity := fun h => hfinite (decide_eq_true h)
        refine ⟨isNaN_ofMagnitude hf false (by omega), ?_⟩
        rw [key_ofMagnitude hf (by omega), if_neg Bool.false_ne_true, if_neg (by omega)]
        omega

end Neighbours

/-- A number rounded down is not above a number that is not below it, rounded up. -/
theorem key_roundDown_le_roundUp (hg : 0 < g.precision) (hf : 0 < f.infinity)
    (hone : 0 < g.infinity) (hxy : x.le y = true) :
    (x.roundDown g).key ≤ (y.roundUp g).key := by
  obtain ⟨hx, hy, _⟩ := le_iff.mp hxy
  have hdown : (x.roundDown g).key ≤ (x.convert g).key := by
    unfold roundDown
    dsimp only
    split
    · rw [(nextDown_spec hg hone (isNaN_convert hg hx)).2]
      split <;> omega
    · exact Int.le_refl _
  have hup : (y.convert g).key ≤ (y.roundUp g).key := by
    unfold roundUp
    dsimp only
    split
    · rw [(nextUp_spec hg hone (isNaN_convert hg hy)).2]
      split <;> omega
    · exact Int.le_refl _
  exact Int.le_trans hdown (Int.le_trans (key_convert_mono hg hf hxy) hup)

end Binary

end SpatialIndex
