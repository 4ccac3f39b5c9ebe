import SpatialIndex.Proofs.Geometry.Bounds

/-!
# Relations and the signs of zeros

The relations that are decided here look at exact positions, which have no signed zeros, and only
at shapes whose bounds meet.
-/

namespace SpatialIndex

/-- Both zeros stand for the same rational number. -/
theorem Binary.toRat_plain (x : Double) : x.plain.toRat = x.toRat := by
  unfold plain
  split
  · rename_i hzero
    have hunits : x.units = 0 := by
      rw [units, absUnits, show x.magnitude = 0 from of_decide_eq_true hzero]
      simp [Format.units]
    rw [toRat, toRat, hunits, show (zero : Double).units = 0 by decide]
  · rfl

/-- Both zeros are at the same position. -/
@[simp] theorem Coordinate.position_plain (c : Coordinate) : c.plain.position = c.position := by
  rw [position, position, plain, Binary.toRat_plain, Binary.toRat_plain]

/-- A coordinate without the signs of its zeros is NaN when the coordinate is. -/
@[simp] theorem Coordinate.isNaN_plain (c : Coordinate) : c.plain.isNaN = c.isNaN := by
  rw [isNaN, isNaN, plain, Binary.isNaN_plain, Binary.isNaN_plain]

/-- The rings of a polygon without the signs of zeros are its rings without them. -/
theorem Polygon.rings_plain (p : Polygon) : p.plain.rings = p.rings.map (·.map (·.plain)) := rfl

/-- The corners of a triangle without the signs of zeros are its corners without them. -/
theorem Triangle.corners_plain (t : Triangle) : t.plain.corners = t.corners.map (·.plain) := rfl

namespace Part

/-- The points at coordinates do not show signs of zeros. -/
theorem ofPoints_plain (cs : List Coordinate) : ofPoints (cs.map (·.plain)) = ofPoints cs := by
  simp [ofPoints, Function.comp_def]

/-- What chains make up does not show signs of zeros. -/
theorem ofChains_plain (curves : List (List Coordinate)) :
    ofChains (curves.map (·.map (·.plain))) = ofChains curves := by
  simp [ofChains, Function.comp_def]

/-- The area within rings does not show signs of zeros. -/
theorem ofRings_plain (rings : List (List Coordinate)) :
    ofRings (rings.map (·.map (·.plain))) = ofRings rings := by
  simp [ofRings, Function.comp_def]

end Part

namespace Geometry

mutual

/-- The parts of a shape do not show signs of zeros. -/
theorem parts_plain : ∀ g : Geometry, g.plain.parts = g.parts
  | point c => by rw [plain, parts, parts, ← Part.ofPoints_plain [c]]; rfl
  | line a b => by rw [plain, parts, parts, ← Part.ofChains_plain [[a, b]]]; rfl
  | lineString cs => by rw [plain, parts, parts, ← Part.ofChains_plain [cs]]; rfl
  | polygon p => by rw [plain, parts, parts, Polygon.rings_plain, Part.ofRings_plain]
  | multiPoint cs => by rw [plain, parts, parts, Part.ofPoints_plain]
  | multiLineString curves => by rw [plain, parts, parts, Part.ofChains_plain]
  | multiPolygon areas => by
    rw [plain, parts, parts, List.map_map]
    exact List.map_congr_left fun p _ => by
      rw [Function.comp_apply, Polygon.rings_plain, Part.ofRings_plain]
  | collection members => by rw [plain, parts, parts, partsOfAll_plainAll members]
  | rect r => by rw [plain, parts, parts, ← Part.ofRings_plain [r.ring]]; rfl
  | triangle t => by
    rw [plain, parts, parts, ← Part.ofRings_plain [t.corners ++ [t.a]]]; rfl

/-- The parts of several shapes do not show signs of zeros. -/
theorem partsOfAll_plainAll : ∀ members : List Geometry,
    partsOfAll (plainAll members) = partsOfAll members
  | [] => rfl
  | g :: rest => by rw [plainAll, partsOfAll, partsOfAll, parts_plain g, partsOfAll_plainAll rest]

end

mutual

/-- A shape without the signs of its zeros has a NaN coordinate when the shape has one. -/
theorem isNaN_plain : ∀ g : Geometry, g.plain.isNaN = g.isNaN
  | point c => by rw [plain, isNaN, isNaN, Coordinate.isNaN_plain]
  | line a b => by rw [plain, isNaN, isNaN, Coordinate.isNaN_plain, Coordinate.isNaN_plain]
  | lineString cs => by simp [plain, isNaN, Function.comp_def]
  | polygon p => by simp [plain, isNaN, Polygon.rings_plain, Function.comp_def]
  | multiPoint cs => by simp [plain, isNaN, Function.comp_def]
  | multiLineString curves => by simp [plain, isNaN, Function.comp_def]
  | multiPolygon areas => by simp [plain, isNaN, Polygon.rings_plain, Function.comp_def]
  | collection members => by rw [plain, isNaN, isNaN, isNaNInAny_plainAll members]
  | rect r => by
    rw [plain, isNaN, isNaN, Rect.plain, Coordinate.isNaN_plain, Coordinate.isNaN_plain]
  | triangle t => by simp [plain, isNaN, Triangle.corners_plain, Function.comp_def]

/-- Shapes without the signs of their zeros have a NaN coordinate when the shapes have one. -/
theorem isNaNInAny_plainAll : ∀ members : List Geometry,
    isNaNInAny (plainAll members) = isNaNInAny members
  | [] => rfl
  | g :: rest => by rw [plainAll, isNaNInAny, isNaNInAny, isNaN_plain g, isNaNInAny_plainAll rest]

end

/-- Shapes are compared on the same lines without the signs of zeros. -/
theorem commonLines_plain (a b : Geometry) : a.plain.commonLines b.plain = a.commonLines b := by
  rw [commonLines, commonLines, bounds?_plain, bounds?_plain, isNaN_plain, isNaN_plain,
    parts_plain, parts_plain]
  cases a.bounds? with
  | none => rfl
  | some r =>
    cases b.bounds? with
    | none => rfl
    | some s =>
      simp only [Option.map_some, Rect.meets_plain]
      simp only [Rect.plain, Coordinate.plain, Binary.le_plain]
      cases r.min.x.le s.min.x <;> cases r.max.x.le s.max.x <;>
        simp only [if_true, if_false, Bool.false_eq_true, Binary.toRat_plain]

/-- The signs of zeros do not matter to whether shapes intersect. -/
theorem intersects_plain (a b : Geometry) : a.plain.intersects b.plain = a.intersects b := by
  rw [intersects, intersects, commonLines_plain, parts_plain, parts_plain]

/-- The signs of zeros do not matter to whether a shape contains another. -/
theorem contains_plain (a b : Geometry) : a.plain.contains b.plain = a.contains b := by
  have henclose : a.plain.boundsEnclose b.plain = a.boundsEnclose b := by
    rw [boundsEnclose, boundsEnclose, bounds?_plain, bounds?_plain]
    cases a.bounds? with
    | none => rfl
    | some r =>
      cases b.bounds? with
      | none => rfl
      | some s =>
        simp only [Option.map_some, Rect.encloses, Rect.plain, Coordinate.plain, Binary.le_plain]
  rw [contains, contains, commonLines_plain, parts_plain, parts_plain, henclose]

/-- Shapes with a common line have bounds that meet. -/
theorem meets_of_commonLines {a b : Geometry} (h : a.commonLines b ≠ []) :
    ∃ r s, a.bounds? = some r ∧ b.bounds? = some s ∧ r.meets s = true := by
  unfold commonLines at h
  split at h
  · rename_i r s hr hs
    split at h
    · rename_i hmeets
      rw [Bool.and_eq_true] at hmeets
      exact ⟨r, s, hr, hs, hmeets.2⟩
    · exact absurd rfl h
  · exact absurd rfl h

/-- Shapes that intersect have bounds, and these meet. -/
theorem meets_of_intersects {a b : Geometry} (h : a.intersects b = true) :
    ∃ r s, a.bounds? = some r ∧ b.bounds? = some s ∧ r.meets s = true := by
  obtain ⟨x, hx, _⟩ := List.any_eq_true.mp h
  exact meets_of_commonLines (List.ne_nil_of_mem hx)

/-- A shape and one that it contains have bounds, and these meet. -/
theorem meets_of_contains {a b : Geometry} (h : a.contains b = true) :
    ∃ r s, a.bounds? = some r ∧ b.bounds? = some s ∧ r.meets s = true := by
  simp only [contains, Bool.and_eq_true] at h
  obtain ⟨x, hx, _⟩ := List.any_eq_true.mp h.2.2
  exact meets_of_commonLines (List.ne_nil_of_mem hx)

end Geometry

end SpatialIndex
