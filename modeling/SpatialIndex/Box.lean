import SpatialIndex.Number.Decimal

/-!
# Bounding boxes

A box is an axis-aligned rectangle in single precision.  Points and segments are boxes too.  The
empty box has its sides the wrong way round at infinity, which makes it neutral for unions, so the
union of a list needs no special case.
-/

namespace SpatialIndex

/-- An axis-aligned rectangle given by its least and greatest coordinates. -/
structure Box where
  /-- The left side. -/
  minX : Single
  /-- The lower side. -/
  minY : Single
  /-- The right side. -/
  maxX : Single
  /-- The upper side. -/
  maxY : Single
deriving DecidableEq

namespace Box

/-- The box that covers one point. -/
def ofPoint (x y : Single) : Box := ⟨x, y, x, y⟩

/-- The box that covers nothing. -/
def empty : Box := ⟨.infinite false, .infinite false, .infinite true, .infinite true⟩

/-- Numeric equality of all four sides: the zeros are equal, and NaN equals nothing. -/
def equiv (a b : Box) : Bool :=
  a.minX.equiv b.minX && a.minY.equiv b.minY && a.maxX.equiv b.maxX && a.maxY.equiv b.maxY

/-- One axis is the wrong way round. -/
def isEmpty (b : Box) : Bool := b.maxX.lt b.minX || b.maxY.lt b.minY

/-- All sides are finite and both axes are the right way round. -/
def isValid (b : Box) : Bool :=
  b.minX.isFinite && b.minY.isFinite && b.maxX.isFinite && b.maxY.isFinite &&
    b.minX.le b.maxX && b.minY.le b.maxY

/-- The extent along the first axis. -/
def width (b : Box) : Single := b.maxX.sub b.minX

/-- The extent along the second axis. -/
def height (b : Box) : Single := b.maxY.sub b.minY

/-- Width times height, nothing for a box that is the wrong way round. -/
def area (b : Box) : Single := if b.isEmpty then .zero else b.width.mul b.height

/-- Half the sum of two sides; a sum that overflows is infinite. -/
def middle (low high : Single) : Single := (low.add high).div (.ofInt 2)

/-- The middle of the box. -/
def center (b : Box) : Single × Single := (middle b.minX b.maxX, middle b.minY b.maxY)

/-- The point lies in the box or on its sides. -/
def containsPoint (b : Box) (x y : Single) : Bool :=
  b.minX.le x && x.le b.maxX && b.minY.le y && y.le b.maxY

/-- Every side of `a` lies within the sides of `b`; a shared side counts. -/
def contains (b a : Box) : Bool :=
  b.minX.le a.minX && a.maxX.le b.maxX && b.minY.le a.minY && a.maxY.le b.maxY

/-- No side parts the boxes; a shared side counts as meeting, and NaN parts nothing. -/
def intersects (a b : Box) : Bool :=
  !(a.maxX.lt b.minX || b.maxX.lt a.minX || a.maxY.lt b.minY || b.maxY.lt a.minY)

/-- The least box around both. -/
def union (a b : Box) : Box :=
  ⟨a.minX.min b.minX, a.minY.min b.minY, a.maxX.max b.maxX, a.maxY.max b.maxY⟩

/-- The least box around all boxes of a list. -/
def unionAll (boxes : List Box) : Box := boxes.foldl union empty

/-- Every side moved outward by the same amount. -/
def expand (b : Box) (amount : Single) : Box :=
  ⟨b.minX.sub amount, b.minY.sub amount, b.maxX.add amount, b.maxY.add amount⟩

/-- The corners of the box, as values and plans show it. -/
def text (b : Box) : String :=
  if b.isEmpty then "BOX(EMPTY)"
  else
    s!"BOX({b.minX.plainText} {b.minY.plainText}, {b.maxX.plainText} {b.maxY.plainText})"

/-- The box as a record, as descriptions of bindings show it. -/
def recordText (b : Box) : String :=
  let side (x : Single) := x.text .detailed
  "BoundingBox2D \x7b min_x: " ++ side b.minX ++ ", min_y: " ++ side b.minY ++
    ", max_x: " ++ side b.maxX ++ ", max_y: " ++ side b.maxY ++ " \x7d"

end Box

end SpatialIndex
