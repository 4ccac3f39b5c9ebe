import SpatialIndex.Geometry.Profile

/-!
# How two geometries lie to each other

Two shapes intersect when some position is outside neither.  One contains the other when some
position is inside both and none of the other is outside the one.  Both are decided on the profiles
of the two shapes on the vertical lines that meet every cell of the two where their bounds overlap.
-/

namespace SpatialIndex

namespace Rect

/-- The rectangles share a position. -/
def meets (a b : Rect) : Bool :=
  a.min.x.le b.max.x && b.min.x.le a.max.x && a.min.y.le b.max.y && b.min.y.le a.max.y

/-- The rectangle `a` encloses the rectangle `b`. -/
def encloses (a b : Rect) : Bool :=
  a.min.x.le b.min.x && b.max.x.le a.max.x && a.min.y.le b.min.y && b.max.y.le a.max.y

end Rect

namespace Geometry

/-- The vertical lines on which two shapes are compared.  There are none when their bounds are
apart, or when either shape has no coordinate or one that is NaN. -/
def commonLines (a b : Geometry) : List Rat :=
  match a.bounds?, b.bounds? with
  | some r, some s =>
    if !a.isNaN && !b.isNaN && r.meets s then
      let low := if r.min.x.le s.min.x then s.min.x else r.min.x
      let high := if r.max.x.le s.max.x then r.max.x else s.max.x
      linesBetween low.toRat high.toRat ((a.parts ++ b.parts).flatMap (·.segments))
    else []
  | _, _ => []

/-- The places in two shapes of the positions on the vertical line through `x`, save those below
everything, which are outside both. -/
def placesOn (x : Rat) (a b : List Part) : List (Place × Place) :=
  (mergeSteps Prod.mk .exterior .exterior (profileOn x a) (profileOn x b)).flatMap fun s =>
    [s.here, s.above]

/-- Some position is outside neither shape. -/
def intersects (a b : Geometry) : Bool :=
  let p := a.parts
  let q := b.parts
  (commonLines a b).any fun x =>
    (placesOn x p q).any fun (inA, inB) => inA ≠ .exterior && inB ≠ .exterior

/-- The bounds of `a` enclose the bounds of `b`. -/
def boundsEnclose (a b : Geometry) : Bool :=
  match a.bounds?, b.bounds? with
  | some r, some s => r.encloses s
  | _, _ => false

/-- Some position is inside both shapes, and none of `b` is outside `a`. -/
def contains (a b : Geometry) : Bool :=
  boundsEnclose a b &&
    let p := a.parts
    let q := b.parts
    let lines := commonLines a b
    let isCovered : Place × Place → Bool := fun (inA, inB) => inA ≠ .exterior || inB = .exterior
    (lines.all fun x => (placesOn x p q).all isCovered) &&
      lines.any fun x => (placesOn x p q).contains (.interior, .interior)

end Geometry

end SpatialIndex
