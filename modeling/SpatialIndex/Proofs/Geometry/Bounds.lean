import SpatialIndex.Geometry.Relate
import SpatialIndex.Proofs.Box
import SpatialIndex.Proofs.Number.Rounding

/-!
# Bounds and the signs of zeros

Numeric equality of shapes tells the patterns of their coordinates apart only in NaNs and in the
signs of zeros.  Dropping the sign of every zero turns numeric equality into equality and commutes
with taking bounds, and whether two rectangles meet does not depend on it.
-/

namespace SpatialIndex

namespace Binary

/-- The number, a zero without its sign. -/
def plain (x : Double) : Double := if x.isZero then .zero else x

section Plain

variable {x y : Double}

/-- A zero has no bits below its sign, so dropping the sign leaves those bits alone. -/
theorem magnitude_plain (x : Double) : x.plain.magnitude = x.magnitude := by
  unfold plain
  split
  · rename_i hzero
    rw [show x.magnitude = 0 from of_decide_eq_true hzero]
    exact magnitude_ofMagnitude (by decide) (by decide) false
  · rfl

/-- A number without the sign of its zero is NaN when the number is. -/
theorem isNaN_plain (x : Double) : x.plain.isNaN = x.isNaN := by
  rw [isNaN, isNaN, magnitude_plain]

/-- Both zeros have the key zero. -/
theorem key_plain (x : Double) : x.plain.key = x.key := by
  unfold plain
  split
  · rename_i hzero
    have hmagnitude : x.magnitude = 0 := of_decide_eq_true hzero
    rw [zero, key_ofMagnitude (by decide) (by decide), key, hmagnitude]
    simp
  · rfl

/-- The sign of a zero does not matter to whether a number is less. -/
@[simp] theorem lt_plain (x y : Double) : x.plain.lt y.plain = x.lt y := by
  rw [lt, lt, isNaN_plain, isNaN_plain, key_plain, key_plain]

/-- The sign of a zero does not matter to whether a number is not greater. -/
@[simp] theorem le_plain (x y : Double) : x.plain.le y.plain = x.le y := by
  rw [le, le, isNaN_plain, isNaN_plain, key_plain, key_plain]

/-- Numbers that are numerically equal are the same but for the signs of zeros. -/
theorem plain_eq_of_equiv (h : x.equiv y = true) : x.plain = y.plain := by
  obtain ⟨_, _, hkey⟩ := equiv_iff.mp h
  rcases (key_eq_key_iff (by decide)).mp hkey with rfl | ⟨hx, hy⟩
  · rfl
  · rw [plain, plain, if_pos hx, if_pos hy]

end Plain

end Binary

/-- The coordinates, zeros without their signs. -/
def Coordinate.plain (c : Coordinate) : Coordinate := ⟨c.x.plain, c.y.plain⟩

/-- The corners, zeros without their signs. -/
def Rect.plain (r : Rect) : Rect := ⟨r.min.plain, r.max.plain⟩

/-- The corners, zeros without their signs. -/
def Triangle.plain (t : Triangle) : Triangle := ⟨t.a.plain, t.b.plain, t.c.plain⟩

/-- The rings, zeros without their signs. -/
def Polygon.plain (p : Polygon) : Polygon :=
  ⟨p.exterior.map (·.plain), p.interiors.map (·.map (·.plain))⟩

namespace Geometry

mutual

/-- The shape, zeros without their signs. -/
def plain : Geometry → Geometry
  | point c => .point c.plain
  | line start stop => .line start.plain stop.plain
  | lineString cs => .lineString (cs.map (·.plain))
  | polygon p => .polygon p.plain
  | multiPoint cs => .multiPoint (cs.map (·.plain))
  | multiLineString curves => .multiLineString (curves.map (·.map (·.plain)))
  | multiPolygon areas => .multiPolygon (areas.map (·.plain))
  | collection members => .collection (plainAll members)
  | rect r => .rect r.plain
  | triangle t => .triangle t.plain

/-- The shapes, zeros without their signs. -/
def plainAll : List Geometry → List Geometry
  | [] => []
  | g :: rest => g.plain :: plainAll rest

end

end Geometry

section Equality

/-- Equal coordinates are the same without the signs of zeros. -/
theorem Coordinate.plain_eq_of_equiv {a b : Coordinate} (h : a.equiv b = true) :
    a.plain = b.plain := by
  rw [equiv, Bool.and_eq_true] at h
  rw [plain, plain, Binary.plain_eq_of_equiv h.1, Binary.plain_eq_of_equiv h.2]

/-- Lists that are equal place by place are the same but for what tells equal members apart. -/
theorem map_eq_of_zip_all {α β : Type} {same : α → α → Bool} {f : α → β}
    (hsame : ∀ a b, same a b = true → f a = f b) {as bs : List α}
    (hlength : as.length = bs.length)
    (hall : ((as.zip bs).all fun (a, b) => same a b) = true) : as.map f = bs.map f := by
  induction as generalizing bs with
  | nil =>
    rw [List.length_nil, eq_comm, List.length_eq_zero_iff] at hlength
    rw [hlength]
  | cons a as ih =>
    cases bs with
    | nil => cases hlength
    | cons b bs =>
      rw [List.zip_cons_cons, List.all_cons, Bool.and_eq_true] at hall
      rw [List.map_cons, List.map_cons, hsame a b hall.1,
        ih (Nat.succ.inj hlength) hall.2]

/-- Coordinates that are equal place by place are the same without the signs of zeros. -/
theorem map_plain_eq_of_sameCoordinates {as bs : List Coordinate}
    (h : sameCoordinates as bs = true) : as.map (·.plain) = bs.map (·.plain) := by
  rw [sameCoordinates, Bool.and_eq_true, beq_iff_eq] at h
  exact map_eq_of_zip_all (fun a b => @Coordinate.plain_eq_of_equiv a b) h.1 h.2

/-- Chains of coordinates that are equal place by place are the same without the signs of zeros. -/
theorem map_plain_eq_of_sameCurves {as bs : List (List Coordinate)}
    (h : sameCurves as bs = true) :
    as.map (·.map (·.plain)) = bs.map (·.map (·.plain)) := by
  rw [sameCurves, Bool.and_eq_true, beq_iff_eq] at h
  exact map_eq_of_zip_all (fun as bs => @map_plain_eq_of_sameCoordinates as bs) h.1 h.2

/-- Equal rectangles are the same without the signs of zeros. -/
theorem Rect.plain_eq_of_equiv {a b : Rect} (h : a.equiv b = true) : a.plain = b.plain := by
  rw [equiv, Bool.and_eq_true] at h
  rw [plain, plain, Coordinate.plain_eq_of_equiv h.1, Coordinate.plain_eq_of_equiv h.2]

/-- Equal polygons are the same without the signs of zeros. -/
theorem Polygon.plain_eq_of_equiv {a b : Polygon} (h : a.equiv b = true) :
    a.plain = b.plain := by
  have hrings := map_plain_eq_of_sameCurves h
  rw [rings, rings, List.map_cons, List.map_cons] at hrings
  obtain ⟨hexterior, hinteriors⟩ := List.cons.inj hrings
  rw [plain, plain, hexterior, hinteriors]

/-- Triangles with equal corners are the same without the signs of zeros. -/
theorem Triangle.plain_eq_of_same {a b : Triangle}
    (h : sameCoordinates a.corners b.corners = true) : a.plain = b.plain := by
  have hcorners := map_plain_eq_of_sameCoordinates h
  simp only [corners, List.map_cons, List.map_nil, List.cons.injEq, and_true] at hcorners
  rw [plain, plain, hcorners.1, hcorners.2.1, hcorners.2.2]

namespace Geometry

mutual

/-- Shapes that are numerically equal are the same but for the signs of zeros. -/
theorem plain_eq_of_equiv : ∀ a b : Geometry, a.equiv b = true → a.plain = b.plain
  | point _, b, h => by
    cases b with
    | point _ =>
      rw [plain, plain, Coordinate.plain_eq_of_equiv (by rwa [equiv] at h)]
    | _ => cases h
  | line .., b, h => by
    cases b with
    | line _ _ =>
      rw [equiv, Bool.and_eq_true] at h
      rw [plain, plain, Coordinate.plain_eq_of_equiv h.1, Coordinate.plain_eq_of_equiv h.2]
    | _ => cases h
  | lineString _, b, h => by
    cases b with
    | lineString _ =>
      rw [plain, plain, map_plain_eq_of_sameCoordinates (by rwa [equiv] at h)]
    | _ => cases h
  | polygon _, b, h => by
    cases b with
    | polygon _ =>
      rw [plain, plain, Polygon.plain_eq_of_equiv (by rwa [equiv] at h)]
    | _ => cases h
  | multiPoint _, b, h => by
    cases b with
    | multiPoint _ =>
      rw [plain, plain, map_plain_eq_of_sameCoordinates (by rwa [equiv] at h)]
    | _ => cases h
  | multiLineString _, b, h => by
    cases b with
    | multiLineString _ =>
      rw [plain, plain, map_plain_eq_of_sameCurves (by rwa [equiv] at h)]
    | _ => cases h
  | multiPolygon _, b, h => by
    cases b with
    | multiPolygon _ =>
      rw [equiv, Bool.and_eq_true, beq_iff_eq] at h
      rw [plain, plain, map_eq_of_zip_all (fun p q => @Polygon.plain_eq_of_equiv p q) h.1 h.2]
    | _ => cases h
  | collection as, b, h => by
    cases b with
    | collection bs =>
      rw [plain, plain, plainAll_eq_of_equivAll as bs (by rwa [equiv] at h)]
    | _ => cases h
  | rect _, b, h => by
    cases b with
    | rect _ =>
      rw [plain, plain, Rect.plain_eq_of_equiv (by rwa [equiv] at h)]
    | _ => cases h
  | triangle _, b, h => by
    cases b with
    | triangle _ =>
      rw [plain, plain, Triangle.plain_eq_of_same (by rwa [equiv] at h)]
    | _ => cases h

/-- Lists of equal shapes are the same without the signs of zeros. -/
theorem plainAll_eq_of_equivAll : ∀ as bs : List Geometry, equivAll as bs = true →
    plainAll as = plainAll bs
  | [], [], _ => rfl
  | a :: as, b :: bs, h => by
    rw [equivAll, Bool.and_eq_true] at h
    rw [plainAll, plainAll, plain_eq_of_equiv a b h.1, plainAll_eq_of_equivAll as bs h.2]
  | [], _ :: _, h => by cases h
  | _ :: _, [], h => by cases h

end

end Geometry

end Equality

section Bounds

namespace Rect

/-- Which corner goes first does not depend on the signs of zeros. -/
theorem ofCorners_plain (a b : Coordinate) : ofCorners a.plain b.plain = (ofCorners a b).plain := by
  simp only [ofCorners, Coordinate.plain, Binary.lt_plain]
  cases a.x.lt b.x <;> cases a.y.lt b.y <;> rfl

/-- Which side of two rectangles is the outer one does not depend on the signs of zeros. -/
theorem merge_plain (a b : Rect) : merge a.plain b.plain = (merge a b).plain := by
  rw [merge, merge, ← ofCorners_plain]
  simp only [plain, Coordinate.plain, Binary.lt_plain]
  cases a.min.x.lt b.min.x <;> cases a.min.y.lt b.min.y <;> cases b.max.x.lt a.max.x <;>
    cases b.max.y.lt a.max.y <;> rfl

/-- Whether a range grows does not depend on the signs of zeros. -/
theorem growRange_plain (range : Double × Double) (x : Double) :
    growRange (range.map Binary.plain Binary.plain) x.plain =
      (growRange range x).map Binary.plain Binary.plain := by
  simp only [growRange, Prod.map, Binary.lt_plain]
  cases range.2.lt x <;> cases x.lt range.1 <;> rfl

/-- How far a range grows along an axis does not depend on the signs of zeros. -/
theorem foldl_growRange_plain (axis : Coordinate → Double)
    (haxis : ∀ c : Coordinate, axis c.plain = (axis c).plain) (range : Double × Double)
    (cs : List Coordinate) :
    (cs.map (·.plain)).foldl (fun range c => growRange range (axis c))
        (range.map Binary.plain Binary.plain) =
      (cs.foldl (fun range c => growRange range (axis c)) range).map Binary.plain Binary.plain := by
  induction cs generalizing range with
  | nil => rfl
  | cons c cs ih =>
    rw [List.map_cons, List.foldl_cons, List.foldl_cons, haxis, growRange_plain, ih]

/-- The rectangle around coordinates begins at the first one and grows on both axes. -/
theorem around?_cons (first : Coordinate) (rest : List Coordinate) :
    around? (first :: rest) =
      let x := rest.foldl (fun range c => growRange range c.x) (first.x, first.x)
      let y := rest.foldl (fun range c => growRange range c.y) (first.y, first.y)
      some (ofCorners ⟨x.1, y.1⟩ ⟨x.2, y.2⟩) := rfl

/-- The rectangle around coordinates shows no other signs of zeros than the coordinates. -/
theorem around?_plain (cs : List Coordinate) :
    around? (cs.map (·.plain)) = (around? cs).map (·.plain) := by
  cases cs with
  | nil => rfl
  | cons first rest =>
    have hx : (rest.map (·.plain)).foldl (fun range c => growRange range c.x)
        (first.plain.x, first.plain.x) = _ :=
      foldl_growRange_plain (·.x) (fun _ => rfl) (first.x, first.x) rest
    have hy : (rest.map (·.plain)).foldl (fun range c => growRange range c.y)
        (first.plain.y, first.plain.y) = _ :=
      foldl_growRange_plain (·.y) (fun _ => rfl) (first.y, first.y) rest
    rw [List.map_cons, around?_cons, around?_cons, Option.map_some, ← ofCorners_plain, hx, hy]
    simp only [Prod.map, Coordinate.plain]

end Rect

namespace Geometry

mutual

/-- Dropping the signs of zeros first gives the bounds without the signs of zeros. -/
theorem bounds?_plain : ∀ g : Geometry, g.plain.bounds? = g.bounds?.map (·.plain)
  | point c => by rw [plain, bounds?, bounds?, Rect.ofCorners_plain]; rfl
  | line start stop => by rw [plain, bounds?, bounds?, Rect.ofCorners_plain]; rfl
  | lineString cs => by rw [plain, bounds?, bounds?, Rect.around?_plain]
  | polygon p => by rw [plain, bounds?, bounds?, Polygon.plain, Rect.around?_plain]
  | multiPoint cs => by rw [plain, bounds?, bounds?, Rect.around?_plain]
  | multiLineString curves => by
    rw [plain, bounds?, bounds?, ← Rect.around?_plain, List.map_flatten]
  | multiPolygon areas => by
    rw [plain, bounds?, bounds?, ← Rect.around?_plain, List.map_flatMap, List.flatMap_map]
    rfl
  | collection members => by rw [plain, bounds?, bounds?]; exact boundsOfAll?_plain none members
  | rect r => by rw [plain, bounds?, bounds?]; rfl
  | triangle t => by rw [plain, bounds?, bounds?, ← Rect.around?_plain]; rfl

/-- The bounds of several shapes show no other signs of zeros than the shapes. -/
theorem boundsOfAll?_plain : ∀ (bounds : Option Rect) (members : List Geometry),
    boundsOfAll? (bounds.map (·.plain)) (plainAll members) =
      (boundsOfAll? bounds members).map (·.plain)
  | bounds, [] => by rw [plainAll, boundsOfAll?, boundsOfAll?]
  | bounds, g :: rest => by
    have hmerge : Option.merge Rect.merge (bounds.map (·.plain)) (g.bounds?.map (·.plain)) =
        (Option.merge Rect.merge bounds g.bounds?).map (·.plain) := by
      cases bounds <;> cases g.bounds? <;> simp [Option.merge, Rect.merge_plain]
    rw [plainAll, boundsOfAll?, boundsOfAll?, bounds?_plain g, hmerge,
      boundsOfAll?_plain _ rest]

end

end Geometry

end Bounds

section Meeting

/-- The signs of zeros do not matter to whether rectangles meet. -/
theorem Rect.meets_plain (a b : Rect) : a.plain.meets b.plain = a.meets b := by
  simp only [meets, plain, Coordinate.plain, Binary.le_plain]

/-- Which of two rectangles is asked does not matter to whether they meet. -/
theorem Rect.meets_comm (a b : Rect) : a.meets b = b.meets a := by
  simp only [meets, Bool.and_assoc, Bool.and_left_comm, Bool.and_comm]

/-- The single-precision boxes around rectangles that meet meet as well. -/
theorem Box.intersects_of_meets {a b : Rect} (h : a.meets b = true) :
    (Box.ofRect a).intersects (Box.ofRect b) = true := by
  simp only [Rect.meets, Bool.and_eq_true] at h
  obtain ⟨⟨⟨hab, hba⟩, hab'⟩, hba'⟩ := h
  have round {x y : Double} (hxy : x.le y = true) :
      ¬(y.roundUp .single).lt (x.roundDown .single) = true := by
    intro hlt
    have hle := Binary.key_roundDown_le_roundUp (by decide : 0 < Format.single.precision)
      (by decide) (by decide) hxy
    have := (Binary.lt_iff.mp hlt).2.2
    omega
  exact intersects_iff.mpr ⟨round hba, round hab, round hba', round hab'⟩

end Meeting

end SpatialIndex
