import SpatialIndex.Geometry.Basic

/-!
# Segments and vertical lines

Segments cut the plane into cells: positions, open stretches of segments, and open areas.  Vertical
lines through every position where a segment begins, ends or crosses another, and one line between
each two of them, meet every cell between the outermost lines; on each line the cells change only
where it meets a segment.  So finitely many positions, all exact, stand for a whole strip of the
plane.
-/

namespace SpatialIndex

/-- An exact position in the plane. -/
structure Position where
  /-- The first coordinate. -/
  x : Rat
  /-- The second coordinate. -/
  y : Rat
deriving DecidableEq

/-- The exact position of a pair of coordinates, of which an infinite one lies beyond all finite
ones. -/
def Coordinate.position (c : Coordinate) : Position := ⟨c.x.toRat, c.y.toRat⟩

/-- A stretch of a vertical line, its ends included. -/
structure Stretch where
  /-- Where it begins. -/
  low : Rat
  /-- Where it ends. -/
  high : Rat

namespace Stretch

/-- The stretch between two heights in any order. -/
def ofEnds (a b : Rat) : Stretch := if a ≤ b then ⟨a, b⟩ else ⟨b, a⟩

/-- The height is in the stretch. -/
def covers (s : Stretch) (y : Rat) : Bool := s.low ≤ y && y ≤ s.high

/-- No height is in both stretches. -/
def isApart (s t : Stretch) : Bool := s.high < t.low || t.high < s.low

end Stretch

/-- A straight segment, possibly a single position. -/
structure Segment where
  /-- The end that does not lie right of the other. -/
  left : Position
  /-- The end that does not lie left of the other. -/
  right : Position

namespace Segment

/-- The segment between two positions in any order. -/
def ofEnds (a b : Position) : Segment := if a.x ≤ b.x then ⟨a, b⟩ else ⟨b, a⟩

/-- The segment meets the vertical line through `x`. -/
def spans (s : Segment) (x : Rat) : Bool := s.left.x ≤ x && x ≤ s.right.x

/-- The segment meets the strip between two vertical lines, the lines included. -/
def meetsStrip (s : Segment) (low high : Rat) : Bool := s.left.x ≤ high && low ≤ s.right.x

/-- The heights that the segment has. -/
def heights (s : Segment) : Stretch := .ofEnds s.left.y s.right.y

/-- The height of a segment that is not upright on the vertical line through `x`. -/
def heightAt (s : Segment) (x : Rat) : Rat :=
  s.left.y + (x - s.left.x) * (s.right.y - s.left.y) / (s.right.x - s.left.x)

/-- What a segment covers of the vertical line through `x`, which it meets. -/
def stretchOn (s : Segment) (x : Rat) : Stretch :=
  if s.left.x == s.right.x then s.heights else ⟨s.heightAt x, s.heightAt x⟩

/-- The first coordinate of the one position where two segments meet that are not parallel. -/
def crossing? (s t : Segment) : Option Rat :=
  if s.heights.isApart t.heights then none
  else
    let dx := s.right.x - s.left.x
    let dy := s.right.y - s.left.y
    let ex := t.right.x - t.left.x
    let ey := t.right.y - t.left.y
    let turn := dx * ey - dy * ex
    if turn == 0 then none
    else
      let fx := t.left.x - s.left.x
      let fy := t.left.y - s.left.y
      let along := (fx * ey - fy * ex) / turn
      let across := (fx * dy - fy * dx) / turn
      if 0 ≤ along && along ≤ 1 && 0 ≤ across && across ≤ 1 then some (s.left.x + along * dx)
      else none

/-- The first coordinates at which segments cross that are in order of their left ends: a segment
can only meet those after it that begin no later than it ends. -/
def crossings : List Segment → List Rat
  | [] => []
  | s :: rest => (rest.takeWhile (·.left.x ≤ s.right.x)).filterMap s.crossing? ++ crossings rest

end Segment

/-- The segments of a chain of positions. -/
def segmentsOf : List Position → List Segment
  | a :: b :: rest => .ofEnds a b :: segmentsOf (b :: rest)
  | _ => []

/-- Numbers in ascending order, each once. -/
def ascending (xs : List Rat) : List Rat :=
  let rec distinct : List Rat → List Rat
    | a :: b :: rest => if a == b then distinct (b :: rest) else a :: distinct (b :: rest)
    | short => short
  distinct (xs.mergeSort (· ≤ ·))

/-- Ascending numbers with the middle between each two neighbours. -/
def withMiddles : List Rat → List Rat
  | a :: b :: rest => a :: (a + b) / 2 :: withMiddles (b :: rest)
  | short => short

/-- The vertical lines from `low` to `high`, these two included, on which a segment begins, ends or
crosses another, and the lines in the middle between them. -/
def linesBetween (low high : Rat) (segments : List Segment) : List Rat :=
  let met := (segments.filter (·.meetsStrip low high)).mergeSort (·.left.x ≤ ·.left.x)
  let lines := met.flatMap (fun s => [s.left.x, s.right.x]) ++ Segment.crossings met
  withMiddles (ascending (low :: high :: lines.filter fun x => low ≤ x && x ≤ high))

end SpatialIndex
