import SpatialIndex.Geometry.Relate
import SpatialIndex.Proofs.Box
import SpatialIndex.Proofs.Number.Extended

/-!
# Boxes round outward

A rectangle and a box are sets of points with extended real coordinates.  The box of a rectangle
is the least single-precision one around it, so it has all points of the rectangle, and boxes of
rectangles that share a point share it too.
-/

namespace SpatialIndex

/-- Numbers compare as the extended real numbers that they stand for. -/
theorem Binary.le_iff_toEReal_le {x y : Double} (hx : x.isNaN = false) (hy : y.isNaN = false) :
    x.le y = true ↔ x.toEReal ≤ y.toEReal := by
  rw [toEReal_le_toEReal_iff (by decide) hx hy (by decide), le_iff]
  simp [hx, hy]

namespace Rect

variable {r s : Rect}

/-- No coordinate of a corner is NaN. -/
structure IsNumeric (r : Rect) : Prop where
  /-- The least corner has numbers. -/
  min : r.min.isNaN = false
  /-- The greatest corner has numbers. -/
  max : r.max.isNaN = false

namespace IsNumeric

variable (hr : r.IsNumeric)

include hr

/-- The left side is a number. -/
theorem minX : r.min.x.isNaN = false := (Bool.or_eq_false_iff.mp hr.min).1

/-- The lower side is a number. -/
theorem minY : r.min.y.isNaN = false := (Bool.or_eq_false_iff.mp hr.min).2

/-- The right side is a number. -/
theorem maxX : r.max.x.isNaN = false := (Bool.or_eq_false_iff.mp hr.max).1

/-- The upper side is a number. -/
theorem maxY : r.max.y.isNaN = false := (Bool.or_eq_false_iff.mp hr.max).2

end IsNumeric

/-- The points in the rectangle and on its sides, those at infinity included. -/
def points (r : Rect) : Set (EReal × EReal) :=
  Set.Icc r.min.x.toEReal r.max.x.toEReal ×ˢ Set.Icc r.min.y.toEReal r.max.y.toEReal

/-- Rectangles with their corners in order meet if and only if they share a point. -/
theorem meets_iff_nonempty (hr : r.IsNumeric) (hs : s.IsNumeric) (hselfr : r.meets r = true)
    (hselfs : s.meets s = true) : r.meets s = true ↔ (r.points ∩ s.points).Nonempty := by
  simp only [meets, Bool.and_eq_true, Binary.le_iff_toEReal_le, hr.minX, hr.minY, hr.maxX, hr.maxY,
    hs.minX, hs.minY, hs.maxX, hs.maxY] at hselfr hselfs ⊢
  rw [points, points, Set.prod_inter_prod, Set.prod_nonempty_iff, Set.Icc_inter_Icc,
    Set.Icc_inter_Icc, Set.nonempty_Icc, Set.nonempty_Icc]
  simp only [sup_le_iff, le_inf_iff]
  tauto

end Rect

namespace Box

variable {a b : Box} {r s : Rect}

/-- The points in the box and on its sides, those at infinity included. -/
def points (b : Box) : Set (EReal × EReal) :=
  Set.Icc b.minX.toEReal b.maxX.toEReal ×ˢ Set.Icc b.minY.toEReal b.maxY.toEReal

/-- Numeric boxes that share a point meet. -/
theorem intersects_of_mem (ha : a.IsNumeric) (hb : b.IsNumeric) {p : EReal × EReal}
    (hpa : p ∈ a.points) (hpb : p ∈ b.points) : a.intersects b = true := by
  obtain ⟨⟨haleft, haright⟩, halower, haupper⟩ := hpa
  obtain ⟨⟨hbleft, hbright⟩, hblower, hbupper⟩ := hpb
  have apart {x y : Single} (hx : x.isNaN = false) (hy : y.isNaN = false)
      (hle : y.toEReal ≤ x.toEReal) : ¬x.lt y = true := by
    intro hlt
    have hkey := (Binary.toEReal_le_toEReal_iff (by decide) hy hx (by decide)).mp hle
    have := (Binary.lt_iff.mp hlt).2.2
    omega
  exact intersects_iff.mpr ⟨apart ha.maxX hb.minX (hbleft.trans haright),
    apart hb.maxX ha.minX (haleft.trans hbright), apart ha.maxY hb.minY (hblower.trans haupper),
    apart hb.maxY ha.minY (halower.trans hbupper)⟩

/-- Every side is the nearest single-precision number outside or on that of the rectangle. -/
structure IsLeastAround (b : Box) (r : Rect) : Prop where
  /-- The left side. -/
  minX : IsGreatest {v ∈ Format.single.numbers | v ≤ r.min.x.toEReal} b.minX.toEReal
  /-- The lower side. -/
  minY : IsGreatest {v ∈ Format.single.numbers | v ≤ r.min.y.toEReal} b.minY.toEReal
  /-- The right side. -/
  maxX : IsLeast {v ∈ Format.single.numbers | r.max.x.toEReal ≤ v} b.maxX.toEReal
  /-- The upper side. -/
  maxY : IsLeast {v ∈ Format.single.numbers | r.max.y.toEReal ≤ v} b.maxY.toEReal

/-- The least box around a rectangle has all of its points. -/
theorem IsLeastAround.points_subset (h : b.IsLeastAround r) : r.points ⊆ b.points := by
  rintro p ⟨⟨hleft, hright⟩, hlower, hupper⟩
  exact ⟨⟨h.minX.1.2.trans hleft, hright.trans h.maxX.1.2⟩, h.minY.1.2.trans hlower,
    hupper.trans h.maxY.1.2⟩

/-- A box around a rectangle without NaN has no NaN side. -/
theorem isNumeric_ofRect (hr : r.IsNumeric) : (ofRect r).IsNumeric :=
  ⟨Binary.isNaN_roundDown Format.embeds_single_double hr.minX,
    Binary.isNaN_roundDown Format.embeds_single_double hr.minY,
    Binary.isNaN_roundUp Format.embeds_single_double hr.maxX,
    Binary.isNaN_roundUp Format.embeds_single_double hr.maxY⟩

/-- Rounding the lower sides down and the upper ones up gives the least box. -/
theorem isLeastAround_ofRect (hr : r.IsNumeric) : (ofRect r).IsLeastAround r :=
  ⟨Binary.isGreatest_roundDown Format.embeds_single_double hr.minX,
    Binary.isGreatest_roundDown Format.embeds_single_double hr.minY,
    Binary.isLeast_roundUp Format.embeds_single_double hr.maxX,
    Binary.isLeast_roundUp Format.embeds_single_double hr.maxY⟩

/-- The box of a rectangle is the least one around it and has all its points, and the boxes of two
rectangles that share a point meet. -/
theorem ofRect_outward (hr : r.IsNumeric) (hs : s.IsNumeric) :
    (ofRect r).IsNumeric ∧ (ofRect r).IsLeastAround r ∧ r.points ⊆ (ofRect r).points ∧
      ((r.points ∩ s.points).Nonempty → (ofRect r).intersects (ofRect s) = true) := by
  have hleast := isLeastAround_ofRect hr
  refine ⟨isNumeric_ofRect hr, hleast, hleast.points_subset, ?_⟩
  rintro ⟨p, hpr, hps⟩
  exact intersects_of_mem (isNumeric_ofRect hr) (isNumeric_ofRect hs) (hleast.points_subset hpr)
    ((isLeastAround_ofRect hs).points_subset hps)

/-- A rectangle from `-1e300` to `0.1` and from negative zero to the least positive double, and one
that touches it in its greatest corner.  What overflows, underflows or has too long a significand
is rounded outward, and the boxes still meet. -/
theorem ofRect_outward_corner :
    let r : Rect := ⟨⟨⟨0xFE37E43C8800759C⟩, ⟨0x8000000000000000⟩⟩, ⟨⟨0x3FB999999999999A⟩, ⟨1⟩⟩⟩
    let s : Rect := ⟨⟨⟨0x3FB999999999999A⟩, ⟨1⟩⟩, ⟨⟨0x7E37E43C8800759C⟩, .infinite false⟩⟩
    let a : Box := ⟨.infinite true, ⟨0x80000000⟩, ⟨0x3DCCCCCD⟩, ⟨1⟩⟩
    let b : Box := ⟨⟨0x3DCCCCCC⟩, .zero, .infinite false, .infinite false⟩
    r.IsNumeric ∧ s.IsNumeric ∧ ofRect r = a ∧ ofRect s = b ∧ a.IsLeastAround r ∧
      r.points ⊆ a.points ∧ (r.points ∩ s.points).Nonempty ∧ a.intersects b = true := by
  intro r s a b
  have hr : r.IsNumeric := ⟨by decide +kernel, by decide +kernel⟩
  have hs : s.IsNumeric := ⟨by decide +kernel, by decide +kernel⟩
  have ha : ofRect r = a := by decide +kernel
  have hb : ofRect s = b := by decide +kernel
  have hshared : (r.points ∩ s.points).Nonempty :=
    (Rect.meets_iff_nonempty hr hs (by decide +kernel) (by decide +kernel)).mp (by decide +kernel)
  obtain ⟨_, hleast, hsubset, hmeet⟩ := ofRect_outward hr hs
  rw [ha] at hleast hsubset hmeet
  rw [hb] at hmeet
  exact ⟨hr, hs, ha, hb, hleast, hsubset, hshared, hmeet hshared⟩

end Box

end SpatialIndex
