import SpatialIndex.Box

/-!
# Geometries

Shapes in the plane with double-precision coordinates.  Rectangles, triangles and rings are kept
in one normal form each, established by the functions that make them, and two shapes are equal
when their normal forms have numerically equal coordinates.
-/

namespace SpatialIndex

/-- A pair of coordinates. -/
structure Coordinate where
  /-- The first coordinate. -/
  x : Double
  /-- The second coordinate. -/
  y : Double

namespace Coordinate

/-- Numeric equality of both coordinates. -/
def equiv (a b : Coordinate) : Bool := a.x.equiv b.x && a.y.equiv b.y

/-- One of the coordinates is NaN. -/
def isNaN (a : Coordinate) : Bool := a.x.isNaN || a.y.isNaN

end Coordinate

/-- Numeric equality of two lists of coordinates, place by place. -/
def sameCoordinates (a b : List Coordinate) : Bool :=
  a.length == b.length && (a.zip b).all fun (x, y) => x.equiv y

/-- Numeric equality of two lists of lists of coordinates, place by place. -/
def sameCurves (a b : List (List Coordinate)) : Bool :=
  a.length == b.length && (a.zip b).all fun (x, y) => sameCoordinates x y

/-- A rectangle given by its least and greatest corner. -/
structure Rect where
  /-- The corner with the least coordinates. -/
  min : Coordinate
  /-- The corner with the greatest coordinates. -/
  max : Coordinate

namespace Rect

/-- The rectangle between two opposite corners.  The lesser coordinate of each axis goes first;
coordinates that are not in order change places. -/
def ofCorners (a b : Coordinate) : Rect :=
  let ordered (p q : Double) := if p.lt q then (p, q) else (q, p)
  let (minX, maxX) := ordered a.x b.x
  let (minY, maxY) := ordered a.y b.y
  ⟨⟨minX, minY⟩, ⟨maxX, maxY⟩⟩

/-- Numeric equality of both corners. -/
def equiv (a b : Rect) : Bool := a.min.equiv b.min && a.max.equiv b.max

/-- A rectangle around two rectangles. -/
def merge (a b : Rect) : Rect :=
  let lesser (p q : Double) := if p.lt q then p else q
  let greater (p q : Double) := if q.lt p then p else q
  ofCorners ⟨lesser a.min.x b.min.x, lesser a.min.y b.min.y⟩
    ⟨greater a.max.x b.max.x, greater a.max.y b.max.y⟩

/-- Grows a range so that it holds one more number; NaN leaves it as it is. -/
def growRange (range : Double × Double) (x : Double) : Double × Double :=
  if range.2.lt x then (range.1, x) else if x.lt range.1 then (x, range.2) else range

/-- The least rectangle around coordinates, if there are any. -/
def around? : List Coordinate → Option Rect
  | [] => none
  | first :: rest =>
    let (minX, maxX) := rest.foldl (fun range c => growRange range c.x) (first.x, first.x)
    let (minY, maxY) := rest.foldl (fun range c => growRange range c.y) (first.y, first.y)
    some (ofCorners ⟨minX, minY⟩ ⟨maxX, maxY⟩)

end Rect

/-- The least single-precision box around a rectangle: the lower sides are rounded down and the
upper ones up. -/
def Box.ofRect (r : Rect) : Box :=
  ⟨r.min.x.roundDown .single, r.min.y.roundDown .single,
    r.max.x.roundUp .single, r.max.y.roundUp .single⟩

/-- A triangle, its corners counter-clockwise. -/
structure Triangle where
  /-- The first corner. -/
  a : Coordinate
  /-- The second corner. -/
  b : Coordinate
  /-- The third corner. -/
  c : Coordinate

namespace Triangle

/-- The triangle with the given corners, turned round if the cross product of its sides, taken in
double precision, is negative. -/
def ofCorners (a b c : Coordinate) : Triangle :=
  let turn := ((b.x.sub a.x).mul (c.y.sub a.y)).sub ((b.y.sub a.y).mul (c.x.sub a.x))
  if turn.lt .zero then ⟨c, b, a⟩ else ⟨a, b, c⟩

/-- The corners in order. -/
def corners (t : Triangle) : List Coordinate := [t.a, t.b, t.c]

end Triangle

/-- A polygon with holes, every ring of which ends where it begins. -/
structure Polygon where
  /-- The outer ring. -/
  exterior : List Coordinate
  /-- The rings of the holes. -/
  interiors : List (List Coordinate)

namespace Polygon

/-- A ring with its first coordinate repeated at the end if it does not end there. -/
def closeRing : List Coordinate → List Coordinate
  | [] => []
  | first :: rest =>
    if first.equiv (rest.getLastD first) then first :: rest else first :: rest ++ [first]

/-- The polygon with the given rings, the outer one first. -/
def ofRings : List (List Coordinate) → Polygon
  | [] => ⟨[], []⟩
  | exterior :: interiors => ⟨closeRing exterior, interiors.map closeRing⟩

/-- All rings, the outer one first. -/
def rings (p : Polygon) : List (List Coordinate) := p.exterior :: p.interiors

/-- Numeric equality of the rings, place by place. -/
def equiv (a b : Polygon) : Bool := sameCurves a.rings b.rings

end Polygon

/-- A shape in the plane. -/
inductive Geometry
  /-- One point. -/
  | point (coordinate : Coordinate)
  /-- A straight segment. -/
  | line (start stop : Coordinate)
  /-- Segments joined end to end. -/
  | lineString (coordinates : List Coordinate)
  /-- An area with holes. -/
  | polygon (area : Polygon)
  /-- Several points. -/
  | multiPoint (points : List Coordinate)
  /-- Several chains of segments. -/
  | multiLineString (curves : List (List Coordinate))
  /-- Several areas. -/
  | multiPolygon (areas : List Polygon)
  /-- Shapes of any kind. -/
  | collection (members : List Geometry)
  /-- A rectangle along the axes. -/
  | rect (area : Rect)
  /-- A triangle. -/
  | triangle (area : Triangle)

namespace Geometry

/-- The name of the kind of a shape. -/
def kind : Geometry → String
  | point _ => "POINT"
  | line .. => "LINE"
  | lineString _ => "LINESTRING"
  | polygon _ => "POLYGON"
  | multiPoint _ => "MULTIPOINT"
  | multiLineString _ => "MULTILINESTRING"
  | multiPolygon _ => "MULTIPOLYGON"
  | collection _ => "GEOMETRYCOLLECTION"
  | rect _ => "RECT"
  | triangle _ => "TRIANGLE"

mutual

/-- The least rectangle around a shape, if it has any coordinate.  Holes do not matter. -/
def bounds? : Geometry → Option Rect
  | point c => some (.ofCorners c c)
  | line start stop => some (.ofCorners start stop)
  | lineString cs => Rect.around? cs
  | polygon p => Rect.around? p.exterior
  | multiPoint cs => Rect.around? cs
  | multiLineString curves => Rect.around? curves.flatten
  | multiPolygon areas => Rect.around? (areas.flatMap (·.exterior))
  | collection members => boundsOfAll? none members
  | rect r => some r
  | triangle t => Rect.around? t.corners

/-- The bounds so far merged with those of all members of a list that have any. -/
def boundsOfAll? (bounds : Option Rect) : List Geometry → Option Rect
  | [] => bounds
  | g :: rest => boundsOfAll? (Option.merge Rect.merge bounds g.bounds?) rest

end

/-- The least single-precision box around a shape, if it has any coordinate. -/
def box? (g : Geometry) : Option Box := g.bounds?.map .ofRect

mutual

/-- Two shapes are of one kind and have numerically equal coordinates. -/
def equiv : Geometry → Geometry → Bool
  | point a, point b => a.equiv b
  | line a b, line c d => a.equiv c && b.equiv d
  | lineString a, lineString b => sameCoordinates a b
  | polygon a, polygon b => a.equiv b
  | multiPoint a, multiPoint b => sameCoordinates a b
  | multiLineString a, multiLineString b => sameCurves a b
  | multiPolygon a, multiPolygon b =>
    a.length == b.length && (a.zip b).all fun (p, q) => p.equiv q
  | collection a, collection b => equivAll a b
  | rect a, rect b => a.equiv b
  | triangle a, triangle b => sameCoordinates a.corners b.corners
  | _, _ => false

/-- Two lists of shapes are equal place by place. -/
def equivAll : List Geometry → List Geometry → Bool
  | [], [] => true
  | a :: as, b :: bs => a.equiv b && equivAll as bs
  | _, _ => false

end

instance : BEq Geometry := ⟨equiv⟩

/-- The kind of a shape and its box, as values show it. -/
def text (g : Geometry) : String :=
  match g.box? with
  | some box => g.kind ++ " " ++ box.text
  | none => g.kind ++ " EMPTY"

end Geometry

end SpatialIndex
