import SpatialIndex.Proofs.Number.Rounding

/-!
# Conversion without rounding

A pattern is a significand and an exponent, and rounding the number that these make gives the
pattern back.  So a format whose significands are long enough and whose exponents reach far enough
has every number of a narrower one, and a number that is widened and then narrowed is the one it
was.  With the order kept both ways, rounding down and rounding up are the two adjoints of
widening.
-/

namespace SpatialIndex

/-- A quotient that is a whole number needs no rounding. -/
theorem roundHalfEven_mul (num : Nat) {den : Nat} (hden : 0 < den) :
    roundHalfEven (num * den) den = num := by
  unfold roundHalfEven
  dsimp only
  rw [Nat.mul_div_cancel num hden, Nat.mul_mod_left, if_pos (Or.inl (by omega))]

namespace Format

variable {f g : Format} {m m' den significand exponent : Nat}

/-- The significand has no more bits than the format keeps, and all of these unless the exponent
is the least. -/
structure Fits (f : Format) (significand exponent : Nat) : Prop where
  /-- Not too long. -/
  lt : significand < 2 * f.fractions
  /-- Not too short. -/
  full : exponent = 0 ∨ f.fractions ≤ significand

/-- A significand and an exponent as one pattern: the leading bit of a full significand counts
into the exponent field. -/
theorem units_mul_add (h : f.Fits significand exponent) :
    f.units (exponent * f.fractions + significand) = significand * Nat.pow 2 exponent := by
  have hpos := f.fractions_pos
  have hlt := h.lt
  unfold units
  dsimp only
  by_cases hshort : significand < f.fractions
  · have hzero : exponent = 0 := h.full.resolve_right (by omega)
    rw [hzero, Nat.zero_mul, Nat.zero_add, Nat.div_eq_of_lt hshort, if_pos rfl,
      Nat.mod_eq_of_lt hshort]
    exact (Nat.mul_one _).symm
  · obtain ⟨fraction, hfraction⟩ := Nat.exists_eq_add_of_le (Nat.not_lt.mp hshort)
    have hsplit : exponent * f.fractions + significand =
        fraction + (exponent + 1) * f.fractions := by
      rw [Nat.succ_mul]
      omega
    have hfield : fraction < f.fractions := by omega
    rw [hsplit, Nat.add_mul_div_right _ _ hpos, Nat.add_mul_mod_self_right,
      Nat.div_eq_of_lt hfield, Nat.mod_eq_of_lt hfield, Nat.zero_add,
      if_neg (Nat.succ_ne_zero _), Nat.succ_sub_one, hfraction]

/-- Every pattern is a significand and an exponent. -/
theorem exists_fits (f : Format) (m : Nat) :
    ∃ exponent significand, f.Fits significand exponent ∧
      m = exponent * f.fractions + significand := by
  have hdiv := Nat.div_add_mod' m f.fractions
  have hmod := Nat.mod_lt m f.fractions_pos
  by_cases hzero : m / f.fractions = 0
  · rw [hzero, Nat.zero_mul, Nat.zero_add] at hdiv
    exact ⟨0, m, ⟨by omega, .inl rfl⟩, by omega⟩
  · obtain ⟨e, he⟩ := Nat.exists_eq_succ_of_ne_zero hzero
    rw [he, Nat.succ_mul] at hdiv
    exact ⟨e, f.fractions + m % f.fractions, ⟨by omega, .inr (Nat.le_add_right _ _)⟩, by omega⟩

/-- A number of units with a significand that is not too long has a pattern: doubling fills the
significand up unless that takes the exponent below the least. -/
theorem exists_units_eq (f : Format) (hlt : significand < 2 * f.fractions) (exponent : Nat) :
    ∃ m < (exponent + 2) * f.fractions, f.units m = significand * Nat.pow 2 exponent := by
  induction exponent generalizing significand with
  | zero =>
    have hfits : f.Fits significand 0 := ⟨hlt, .inl rfl⟩
    refine ⟨significand, by omega, ?_⟩
    simpa using units_mul_add hfits
  | succ exponent ih =>
    by_cases hfull : f.fractions ≤ significand
    · refine ⟨(exponent + 1) * f.fractions + significand, ?_, units_mul_add ⟨hlt, .inr hfull⟩⟩
      rw [Nat.add_mul (exponent + 1)]
      omega
    · obtain ⟨m, hm, hunits⟩ := ih (show 2 * significand < 2 * f.fractions by omega)
      refine ⟨m, Nat.lt_of_lt_of_le hm (Nat.mul_le_mul_right _ (by omega)), ?_⟩
      rw [hunits, Nat.mul_comm 2, Nat.mul_assoc, Nat.mul_comm 2]
      rfl

/-- A significand that fits takes as many places to shift as its exponent says. -/
theorem shift_of_fits (hf : 0 < f.precision) (h : f.Fits significand exponent) :
    (significand * Nat.pow 2 exponent).log2 + 1 - f.precision = exponent := by
  have hbelow : significand * Nat.pow 2 exponent < Nat.pow 2 (f.precision + exponent) := by
    have hsplit : Nat.pow 2 (f.precision + exponent) =
        Nat.pow 2 f.precision * Nat.pow 2 exponent := Nat.pow_add _ _ _
    rw [hsplit, ← two_mul_fractions hf]
    exact Nat.mul_lt_mul_of_pos_right h.lt (Nat.two_pow_pos _)
  by_cases hzero : significand * Nat.pow 2 exponent = 0
  · have hsignificand : significand = 0 := by
      rcases Nat.mul_eq_zero.mp hzero with h | h
      · exact h
      · exact absurd h (Nat.ne_of_gt (Nat.two_pow_pos exponent))
    have hpos := f.fractions_pos
    have hexponent : exponent = 0 := h.full.resolve_right (by omega)
    rw [hzero, hexponent, show Nat.log2 0 = 0 from rfl]
    omega
  · have hhigh := (Nat.log2_lt hzero).mpr hbelow
    rcases h.full with hexponent | hfull
    · omega
    · have hlow : f.precision - 1 + exponent ≤ (significand * Nat.pow 2 exponent).log2 := by
        refine (Nat.le_log2 hzero).mpr ?_
        rw [Nat.pow_add]
        exact Nat.mul_le_mul_right _ hfull
      omega

/-- The pattern nearest to what a pattern stands for is that pattern. -/
theorem nearest_units (hf : 0 < f.precision) (hden : 0 < den) (hm : m ≤ f.infinity) :
    f.nearest (f.units m * den) den = m := by
  obtain ⟨exponent, significand, hfits, rfl⟩ := f.exists_fits m
  have hshifted : 0 < den * Nat.pow 2 exponent := Nat.mul_pos hden (Nat.two_pow_pos exponent)
  unfold nearest
  dsimp only
  rw [Nat.mul_div_cancel _ hden, units_mul_add hfits, shift_of_fits hf hfits, Nat.mul_assoc,
    Nat.mul_comm _ den, roundHalfEven_mul _ hshifted, Nat.add_comm]
  exact Nat.min_eq_left hm

/-- Greater patterns of one sign stand for greater numbers. -/
theorem units_lt_units (hf : 0 < f.precision) (h : m < m') (hm' : m' ≤ f.infinity) :
    f.units m < f.units m' := by
  refine Nat.lt_of_le_of_ne (units_mono (Nat.le_of_lt h)) fun heq => ?_
  have hone : 0 < 1 := Nat.one_pos
  have hsame := nearest_units hf hone (show m ≤ f.infinity by omega)
  rw [heq, nearest_units hf hone hm'] at hsame
  omega

/-- The pattern of no bits stands for zero. -/
theorem units_zero (f : Format) : f.units 0 = 0 := by
  simp [units]

/-- Every number of the first format is a number of the second. -/
structure Embeds (f g : Format) : Prop where
  /-- There is a significand at all. -/
  precision_pos : 0 < f.precision
  /-- There are exponents besides that of infinity. -/
  exponentBits_pos : 0 < f.exponentBits
  /-- The significands of the second are at least as long. -/
  precision_le : f.precision ≤ g.precision
  /-- The least positive number of the second is no greater. -/
  scale_le : f.scale ≤ g.scale
  /-- The exponents of the second reach beyond those of the first, counted from its own least. -/
  range_lt : Nat.pow 2 f.exponentBits + (g.scale - f.scale) < Nat.pow 2 g.exponentBits

/-- Every single-precision number is a double-precision one. -/
theorem embeds_single_double : single.Embeds double :=
  ⟨by decide, by decide, by decide, by decide, by decide⟩

namespace Embeds

variable (h : f.Embeds g)

include h

/-- The narrow format has at least two exponents. -/
theorem two_le : 2 ≤ Nat.pow 2 f.exponentBits :=
  Nat.pow_le_pow_right Nat.two_pos h.exponentBits_pos

/-- The wide format has at least one bit of precision, as the narrow one has. -/
theorem wide_pos : 0 < g.precision := Nat.lt_of_lt_of_le h.precision_pos h.precision_le

/-- There are bits below the infinity of the narrow format. -/
theorem infinity_pos : 0 < f.infinity := by
  have htwo := h.two_le
  exact Nat.mul_pos (by omega) f.fractions_pos

/-- There are bits below the infinity of the wide format. -/
theorem wide_infinity_pos : 0 < g.infinity := by
  have htwo := h.two_le
  have hrange := h.range_lt
  exact Nat.mul_pos (by omega) g.fractions_pos

/-- A finite number of the first format, in units of the second. -/
theorem exists_units_eq (hm : m < f.infinity) :
    ∃ m' < g.infinity, g.units m' * Nat.pow 2 f.scale = f.units m * Nat.pow 2 g.scale := by
  have hscale := h.scale_le
  have hrange := h.range_lt
  have htwo := h.two_le
  obtain ⟨exponent, significand, hfits, rfl⟩ := f.exists_fits m
  have hexponent : exponent + 2 ≤ Nat.pow 2 f.exponentBits := by
    rcases hfits.full with hzero | hfull
    · omega
    · have hbelow : (exponent + 1) * f.fractions < f.infinity := by
        rw [Nat.succ_mul]
        omega
      have := Nat.lt_of_mul_lt_mul_right hbelow
      omega
  have hlonger : f.fractions ≤ g.fractions :=
    Nat.pow_le_pow_right Nat.two_pos (Nat.sub_le_sub_right h.precision_le 1)
  have hlt := hfits.lt
  have hshort : significand < 2 * g.fractions := by omega
  obtain ⟨m', hm', hunits⟩ := g.exists_units_eq hshort (exponent + (g.scale - f.scale))
  refine ⟨m', Nat.lt_of_lt_of_le hm' (Nat.mul_le_mul_right _ (by omega)), ?_⟩
  have hpow : Nat.pow 2 (exponent + (g.scale - f.scale)) * Nat.pow 2 f.scale =
      Nat.pow 2 exponent * Nat.pow 2 g.scale := by
    show 2 ^ _ * 2 ^ _ = 2 ^ _ * 2 ^ _
    rw [← Nat.pow_add, ← Nat.pow_add]
    congr 1
    omega
  rw [hunits, units_mul_add hfits, Nat.mul_assoc, hpow, Nat.mul_assoc]

end Embeds

end Format

namespace Binary

variable {f g : Format} {m : Nat}

section Magnitudes

variable (h : f.Embeds g)

include h

/-- To widen a finite number is exact. -/
theorem convertedMagnitude_spec (hm : m < f.infinity) :
    convertedMagnitude f g m < g.infinity ∧
      g.units (convertedMagnitude f g m) * Nat.pow 2 f.scale = f.units m * Nat.pow 2 g.scale := by
  obtain ⟨m', hm', hunits⟩ := h.exists_units_eq hm
  have hexact : convertedMagnitude f g m = m' := by
    rw [convertedMagnitude, if_neg (Nat.ne_of_lt hm), ← hunits]
    exact Format.nearest_units h.wide_pos (Nat.two_pow_pos _) (Nat.le_of_lt hm')
  rw [hexact]
  exact ⟨hm', hunits⟩

/-- To narrow what has been widened undoes it. -/
theorem convertedMagnitude_convertedMagnitude (hm : m ≤ f.infinity) :
    convertedMagnitude g f (convertedMagnitude f g m) = m := by
  rcases Nat.lt_or_eq_of_le hm with hfinite | rfl
  · obtain ⟨hfinite', hunits⟩ := convertedMagnitude_spec h hfinite
    rw [convertedMagnitude, if_neg (Nat.ne_of_lt hfinite'), hunits]
    exact Format.nearest_units h.precision_pos (Nat.two_pow_pos _) hm
  · rw [show convertedMagnitude f g f.infinity = g.infinity from if_pos rfl]
    exact if_pos rfl

end Magnitudes

section Adjoints

variable (h : f.Embeds g) {x : Binary g} {z z' : Binary f} (hx : x.isNaN = false)
  (hz : z.isNaN = false)

include h

section Widening

include hz

/-- A number that has been widened is itself again when it is narrowed. -/
theorem key_convert_convert : ((z.convert g).convert f).key = z.key := by
  have hle : z.magnitude ≤ f.infinity := by simpa [isNaN] using hz
  have hroom := convertedMagnitude_lt (f := f) h.wide_pos z.magnitude
  have hroom' : z.magnitude < f.signBit :=
    Nat.lt_of_le_of_lt hle (infinity_lt_signBit h.precision_pos)
  rw [convert_eq (isNaN_convert h.wide_pos hz), convert_eq hz,
    magnitude_ofMagnitude h.wide_pos hroom, negative_ofMagnitude h.wide_pos hroom,
    convertedMagnitude_convertedMagnitude h hle, key_ofMagnitude h.precision_pos hroom']
  rfl

/-- To widen an infinity gives the infinity of the same sign. -/
theorem key_convert_of_infinite (hinfinite : z.key.natAbs = f.infinity) :
    (z.convert g).key = if z.key < 0 then -(g.infinity : Int) else g.infinity := by
  have hpos := h.infinity_pos
  have hmagnitude : z.magnitude = f.infinity := by
    unfold key at hinfinite
    split at hinfinite <;> omega
  rw [convert, hz, if_neg Bool.false_ne_true, isInfinite, if_pos (decide_eq_true hmagnitude),
    infinite, key_ofMagnitude h.wide_pos (infinity_lt_signBit h.wide_pos), key,
    hmagnitude]
  cases z.negative with
  | true => rw [if_pos rfl, if_pos rfl, if_pos (by omega)]
  | false => rw [if_neg Bool.false_ne_true, if_neg Bool.false_ne_true, if_neg (by omega)]

end Widening

section Narrowing

include hx hz

/-- A number that is not above another one when widened is not above it when that is narrowed. -/
theorem key_le_key_convert (hle : (z.convert g).key ≤ x.key) : z.key ≤ (x.convert f).key := by
  have hwide := isNaN_convert h.wide_pos hz
  have hback := key_convert_mono h.precision_pos h.wide_infinity_pos (le_iff.mpr ⟨hwide, hx, hle⟩)
  rwa [key_convert_convert h hz] at hback

/-- A number that is not below another one when widened is not below it when that is narrowed. -/
theorem key_convert_le_key (hle : x.key ≤ (z.convert g).key) : (x.convert f).key ≤ z.key := by
  have hwide := isNaN_convert h.wide_pos hz
  have hback := key_convert_mono h.precision_pos h.wide_infinity_pos (le_iff.mpr ⟨hx, hwide, hle⟩)
  rwa [key_convert_convert h hz] at hback

end Narrowing

/-- To widen numbers keeps their order. -/
theorem key_convert_le_iff (hz : z.isNaN = false) (hz' : z'.isNaN = false) :
    (z.convert g).key ≤ (z'.convert g).key ↔ z.key ≤ z'.key := by
  constructor
  · intro hle
    have hback := key_le_key_convert h (isNaN_convert h.wide_pos hz') hz hle
    rwa [key_convert_convert h hz'] at hback
  · intro hle
    exact key_convert_mono h.wide_pos h.infinity_pos (le_iff.mpr ⟨hz, hz', hle⟩)

include hx

/-- Rounding down a number gives a number. -/
theorem isNaN_roundDown : (x.roundDown f).isNaN = false := by
  have hnearest := isNaN_convert h.precision_pos hx
  unfold roundDown
  dsimp only
  split
  · exact (nextDown_spec h.precision_pos h.infinity_pos hnearest).1
  · exact hnearest

/-- Rounding up a number gives a number. -/
theorem isNaN_roundUp : (x.roundUp f).isNaN = false := by
  have hnearest := isNaN_convert h.precision_pos hx
  unfold roundUp
  dsimp only
  split
  · exact (nextUp_spec h.precision_pos h.infinity_pos hnearest).1
  · exact hnearest

include hz

/-- Rounding down is right adjoint to widening. -/
theorem le_roundDown_iff : z.le (x.roundDown f) = true ↔ (z.convert g).le x = true := by
  have hnearest := isNaN_convert h.precision_pos hx
  have hdown := key_le_key_convert h hx hz
  have hup := key_convert_le_key h hx hz
  simp only [le_iff, hz, hx, isNaN_convert h.wide_pos hz, isNaN_roundDown h hx, true_and]
  unfold roundDown
  dsimp only
  split
  · -- The nearest number lies above, so it is not negative infinity and the step is a real one.
    rename_i hlt
    have habove := (lt_iff.mp hlt).2.2
    have hmono := key_convert_le_iff h hnearest hz
    have hend : (x.convert f).key ≠ -(f.infinity : Int) := by
      intro hkey
      have hwide := key_convert_of_infinite h hnearest (by omega)
      have hleast := natAbs_key_le hx
      have hpos := h.infinity_pos
      rw [if_pos (by omega)] at hwide
      omega
    rw [(nextDown_spec h.precision_pos h.infinity_pos hnearest).2, if_neg hend]
    omega
  · rename_i hlt
    rw [lt_iff, not_and, not_and] at hlt
    have hbelow := hlt hx (isNaN_convert h.wide_pos hnearest)
    have hmono := key_convert_le_iff h hz hnearest
    omega

/-- Rounding up is left adjoint to widening. -/
theorem roundUp_le_iff : (x.roundUp f).le z = true ↔ x.le (z.convert g) = true := by
  have hnearest := isNaN_convert h.precision_pos hx
  have hdown := key_le_key_convert h hx hz
  have hup := key_convert_le_key h hx hz
  simp only [le_iff, hz, hx, isNaN_convert h.wide_pos hz, isNaN_roundUp h hx, true_and]
  unfold roundUp
  dsimp only
  split
  · rename_i hlt
    have hbelow := (lt_iff.mp hlt).2.2
    have hmono := key_convert_le_iff h hz hnearest
    have hend : (x.convert f).key ≠ f.infinity := by
      intro hkey
      have hwide := key_convert_of_infinite h hnearest (by omega)
      have hgreatest := natAbs_key_le hx
      have hpos := h.infinity_pos
      rw [if_neg (by omega)] at hwide
      omega
    rw [(nextUp_spec h.precision_pos h.infinity_pos hnearest).2, if_neg hend]
    omega
  · rename_i hlt
    rw [lt_iff, not_and, not_and] at hlt
    have habove := hlt (isNaN_convert h.wide_pos hnearest) hx
    have hmono := key_convert_le_iff h hnearest hz
    omega

end Adjoints

end Binary

end SpatialIndex
