import Mathlib.Data.EReal.Basic
import SpatialIndex.Proofs.Number.Exact

/-!
# Numbers as extended reals

Every pattern but a NaN stands for an extended real, a finite one for its exact rational.  The
order of patterns is the order of what they stand for and widening changes nothing of it, so
rounding down finds the greatest number of the narrower format that is not above, and rounding up
the least that is not below.
-/

namespace SpatialIndex

namespace Binary

variable {f g : Format} {x y : Binary f}

/-- The extended real that a pattern stands for.  It is read of patterns that are not NaN only. -/
noncomputable def toEReal (x : Binary f) : EReal :=
  if x.isInfinite then (if x.negative then ⊥ else ⊤) else ((x.toRat : ℝ) : EReal)

/-- What a number stands for is told by its key. -/
theorem toEReal_cases (hone : 0 < f.infinity) (hx : x.isNaN = false) :
    x.key = -(f.infinity : Int) ∧ x.toEReal = ⊥ ∨ x.key = f.infinity ∧ x.toEReal = ⊤ ∨
      x.key.natAbs < f.infinity ∧ x.toEReal = ((x.toRat : ℝ) : EReal) := by
  have hle : x.magnitude ≤ f.infinity := by simpa [isNaN] using hx
  unfold toEReal isInfinite key
  by_cases hinfinite : x.magnitude = f.infinity
  · rw [if_pos (decide_eq_true hinfinite)]
    cases x.negative with
    | true => exact .inl ⟨by rw [if_pos rfl, hinfinite], if_pos rfl⟩
    | false => exact .inr (.inl ⟨by rw [if_neg Bool.false_ne_true, hinfinite], if_neg (by decide)⟩)
  · rw [decide_eq_false hinfinite, if_neg Bool.false_ne_true]
    refine .inr (.inr ⟨?_, rfl⟩)
    split <;> omega

section Order

variable (hf : 0 < f.precision) (hx : x.isNaN = false) (hy : y.isNaN = false)

include hf hx hy

/-- Patterns are ordered as the numbers of units that they stand for. -/
theorem units_le_units_iff : x.units ≤ y.units ↔ x.key ≤ y.key := by
  have hlex : x.magnitude ≤ f.infinity := by simpa [isNaN] using hx
  have hley : y.magnitude ≤ f.infinity := by simpa [isNaN] using hy
  have hzero := f.units_zero
  have hless {m m' : Nat} (hm' : m' ≤ f.infinity) : m < m' → f.units m < f.units m' :=
    fun h => Format.units_lt_units hf h hm'
  unfold units absUnits key
  cases x.negative <;> cases y.negative <;> simp only [if_true, if_false, Bool.false_eq_true]
  · have hle := @Format.units_mono f x.magnitude y.magnitude
    have hlt := hless (m := y.magnitude) hlex
    omega
  · have hlt := hless (m := 0) hlex
    have hlt' := hless (m := 0) hley
    have hnone : x.magnitude = 0 → f.units x.magnitude = 0 := fun h => by rw [h, hzero]
    have hnone' : y.magnitude = 0 → f.units y.magnitude = 0 := fun h => by rw [h, hzero]
    omega
  · omega
  · have hle := @Format.units_mono f y.magnitude x.magnitude
    have hlt := hless (m := x.magnitude) hley
    omega

/-- Finite numbers compare as their keys do. -/
theorem toRat_le_toRat_iff : x.toRat ≤ y.toRat ↔ x.key ≤ y.key := by
  have hpos : (0 : Rat) < (Nat.pow 2 f.scale : Nat) := Nat.cast_pos.mpr (Nat.two_pow_pos _)
  rw [toRat, toRat, Rat.mkRat_eq_div, Rat.mkRat_eq_div, div_le_div_iff_of_pos_right hpos,
    Int.cast_le]
  exact units_le_units_iff hf hx hy

/-- The order of patterns is that of the extended reals. -/
theorem toEReal_le_toEReal_iff (hone : 0 < f.infinity) :
    x.toEReal ≤ y.toEReal ↔ x.key ≤ y.key := by
  have hley := natAbs_key_le hy
  rcases toEReal_cases hone hx with ⟨hkx, hvx⟩ | ⟨hkx, hvx⟩ | ⟨hkx, hvx⟩
  · rw [hvx]
    exact iff_of_true bot_le (by omega)
  · rw [hvx, top_le_iff]
    rcases toEReal_cases hone hy with ⟨hky, hvy⟩ | ⟨hky, hvy⟩ | ⟨hky, hvy⟩
    · exact iff_of_false (by simp [hvy]) (by omega)
    · exact iff_of_true hvy (by omega)
    · exact iff_of_false (by simp [hvy]) (by omega)
  · rcases toEReal_cases hone hy with ⟨hky, hvy⟩ | ⟨hky, hvy⟩ | ⟨hky, hvy⟩
    · exact iff_of_false (by simp [hvx, hvy]) (by omega)
    · rw [hvy]
      exact iff_of_true le_top (by omega)
    · rw [hvx, hvy, EReal.coe_le_coe_iff, Rat.cast_le]
      exact toRat_le_toRat_iff hf hx hy

/-- Patterns with the same key stand for the same number, and only those do. -/
theorem toEReal_eq_toEReal_iff (hone : 0 < f.infinity) : x.toEReal = y.toEReal ↔ x.key = y.key := by
  rw [le_antisymm_iff, toEReal_le_toEReal_iff hf hx hy hone, toEReal_le_toEReal_iff hf hy hx hone,
    ← le_antisymm_iff]

end Order

section Widening

variable (h : f.Embeds g) (hx : x.isNaN = false)

include h hx

/-- To widen a finite number keeps its rational. -/
theorem toRat_convert (hfinite : x.magnitude < f.infinity) :
    (x.convert g).toRat = x.toRat := by
  have hroom := convertedMagnitude_lt (f := f) h.wide_pos x.magnitude
  have hexact := (convertedMagnitude_spec h hfinite).2
  have hscale : Nat.pow 2 f.scale ≠ 0 := Nat.ne_of_gt (Nat.two_pow_pos _)
  have hscale' : Nat.pow 2 g.scale ≠ 0 := Nat.ne_of_gt (Nat.two_pow_pos _)
  rw [toRat, toRat, Rat.mkRat_eq_iff hscale' hscale, convert_eq hx, units, units, absUnits,
    absUnits, magnitude_ofMagnitude h.wide_pos hroom,
    negative_ofMagnitude h.wide_pos hroom]
  have hcast := congrArg (Nat.cast (R := Int)) hexact
  rw [Nat.cast_mul, Nat.cast_mul] at hcast
  split
  · rw [Int.neg_mul, Int.neg_mul, hcast]
  · exact hcast

/-- To widen a number keeps what it stands for. -/
theorem toEReal_convert : (x.convert g).toEReal = x.toEReal := by
  have hle : x.magnitude ≤ f.infinity := by simpa [isNaN] using hx
  have hroom := convertedMagnitude_lt (f := f) h.wide_pos x.magnitude
  have hmagnitude : (x.convert g).magnitude = convertedMagnitude f g x.magnitude := by
    rw [convert_eq hx, magnitude_ofMagnitude h.wide_pos hroom]
  have hnegative : (x.convert g).negative = x.negative := by
    rw [convert_eq hx, negative_ofMagnitude h.wide_pos hroom]
  unfold toEReal isInfinite
  rw [hmagnitude, hnegative]
  rcases Nat.lt_or_eq_of_le hle with hfinite | hinfinite
  · have hfinite' := (convertedMagnitude_spec h hfinite).1
    rw [decide_eq_false (Nat.ne_of_lt hfinite), decide_eq_false (Nat.ne_of_lt hfinite'),
      toRat_convert h hx hfinite]
  · rw [hinfinite, show convertedMagnitude f g f.infinity = g.infinity from if_pos rfl,
      decide_eq_true rfl, decide_eq_true rfl]
    rfl

end Widening

end Binary

/-- What the numbers of a format stand for, the infinities included. -/
def Format.numbers (f : Format) : Set EReal := {v | ∃ x : Binary f, x.isNaN = false ∧ x.toEReal = v}

namespace Binary

section Rounding

variable {f g : Format} (h : f.Embeds g) {x : Binary g} {z : Binary f} (hx : x.isNaN = false)
  (hz : z.isNaN = false)

include h hx

section Adjoints

include hz

/-- The numbers of the narrow format that are not above a number are those that are not above it
rounded down. -/
theorem toEReal_le_roundDown_iff : z.toEReal ≤ (x.roundDown f).toEReal ↔ z.toEReal ≤ x.toEReal := by
  have hdown := isNaN_roundDown h hx
  have hwide := isNaN_convert h.wide_pos hz
  have hadjoint := le_roundDown_iff h hx hz
  simp only [le_iff, hz, hx, hdown, hwide, true_and] at hadjoint
  rw [toEReal_le_toEReal_iff h.precision_pos hz hdown h.infinity_pos, hadjoint,
    ← toEReal_le_toEReal_iff h.wide_pos hwide hx h.wide_infinity_pos, toEReal_convert h hz]

/-- The numbers of the narrow format that are not below a number are those that are not below it
rounded up. -/
theorem roundUp_le_toEReal_iff : (x.roundUp f).toEReal ≤ z.toEReal ↔ x.toEReal ≤ z.toEReal := by
  have hup := isNaN_roundUp h hx
  have hwide := isNaN_convert h.wide_pos hz
  have hadjoint := roundUp_le_iff h hx hz
  simp only [le_iff, hz, hx, hup, hwide, true_and] at hadjoint
  rw [toEReal_le_toEReal_iff h.precision_pos hup hz h.infinity_pos, hadjoint,
    ← toEReal_le_toEReal_iff h.wide_pos hx hwide h.wide_infinity_pos, toEReal_convert h hz]

end Adjoints

/-- Rounding down finds the greatest number that is not above. -/
theorem isGreatest_roundDown :
    IsGreatest {v ∈ f.numbers | v ≤ x.toEReal} (x.roundDown f).toEReal := by
  have hdown := isNaN_roundDown h hx
  constructor
  · exact ⟨⟨_, hdown, rfl⟩, (toEReal_le_roundDown_iff h hx hdown).mp le_rfl⟩
  · rintro _ ⟨⟨z, hz, rfl⟩, hbelow⟩
    exact (toEReal_le_roundDown_iff h hx hz).mpr hbelow

/-- Rounding up finds the least number that is not below. -/
theorem isLeast_roundUp : IsLeast {v ∈ f.numbers | x.toEReal ≤ v} (x.roundUp f).toEReal := by
  have hup := isNaN_roundUp h hx
  constructor
  · exact ⟨⟨_, hup, rfl⟩, (roundUp_le_toEReal_iff h hx hup).mp le_rfl⟩
  · rintro _ ⟨⟨z, hz, rfl⟩, habove⟩
    exact (roundUp_le_toEReal_iff h hx hz).mpr habove

end Rounding

end Binary

end SpatialIndex
