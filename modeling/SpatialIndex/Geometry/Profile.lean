import SpatialIndex.Geometry.Segment

/-!
# Profiles of geometries

A position is inside a shape, on its boundary, or outside.  A chain of segments is bounded by its
ends, where ends that meet in pairs cancel; a point has no boundary; an area is bounded by its
rings, and a position is inside when a ray from it crosses them an odd number of times.  The
profile of a shape on a vertical line tells the place of every position of the line: it lists the
heights where something of the shape begins or ends, and what lies between them.
-/

namespace SpatialIndex

/-- Where a position lies with regard to a shape. -/
inductive Place
  /-- Inside. -/
  | interior
  /-- On the boundary. -/
  | boundary
  /-- Outside. -/
  | exterior
deriving DecidableEq

namespace Place

/-- The place in a shape made of two shapes: inside if inside one of them, outside if outside
both. -/
def join : Place → Place → Place
  | interior, _ => interior
  | _, interior => interior
  | boundary, _ => boundary
  | _, boundary => boundary
  | exterior, exterior => exterior

end Place

/-- What is so at a height of a vertical line, and above it as far as the next step. -/
structure Step (α : Type) where
  /-- The height. -/
  height : Rat
  /-- What is so at the height. -/
  here : α
  /-- What is so above it. -/
  above : α

/-- The steps of two ascending lists together: every height of either list has what is so in both
there.  Below the first steps, `a` and `b` are so. -/
def mergeSteps {α β γ : Type} (f : α → β → γ) (a : α) (b : β) :
    List (Step α) → List (Step β) → List (Step γ)
  | [], [] => []
  | s :: ss, [] => ⟨s.height, f s.here b, f s.above b⟩ :: mergeSteps f s.above b ss []
  | [], t :: ts => ⟨t.height, f a t.here, f a t.above⟩ :: mergeSteps f a t.above [] ts
  | s :: ss, t :: ts =>
    if s.height < t.height then
      ⟨s.height, f s.here b, f s.above b⟩ :: mergeSteps f s.above b ss (t :: ts)
    else if t.height < s.height then
      ⟨t.height, f a t.here, f a t.above⟩ :: mergeSteps f a t.above (s :: ss) ts
    else ⟨s.height, f s.here t.here, f s.above t.above⟩ :: mergeSteps f s.above t.above ss ts
termination_by ss ts => ss.length + ts.length

/-- Something that one meets going up a vertical line. -/
structure Encounter where
  /-- Where it is. -/
  height : Rat
  /-- How many upright segments begin there, less those that end. -/
  opened : Int
  /-- A segment is crossed from one side to the other. -/
  isPassage : Bool

/-- What a segment puts on the vertical line through `x`.  The line passes a segment at its left
end, but not at its right one, so that it passes two segments that join in one position once if they
lie on both sides of it, and otherwise twice or not at all. -/
def Segment.encounters (s : Segment) (x : Rat) : List Encounter :=
  if s.left.x == s.right.x then
    [⟨s.heights.low, 1, false⟩, ⟨s.heights.high, -1, false⟩]
  else [⟨s.heightAt x, 0, x < s.right.x⟩]

/-- The steps that ascending encounters make, where segments are `on` and what an odd number of
passages lies below is `inside`; so many upright segments are open, and so many passages passed. -/
def stepsOf (on inside : Place) : (opened : Int) → (isInside : Bool) → List Encounter →
    List (Step Place)
  | _, _, [] => []
  | opened, isInside, e :: rest =>
    let opened := opened + e.opened
    let isInside := isInside != e.isPassage
    let later := stepsOf on inside opened isInside rest
    if rest.head?.any (·.height == e.height) then later
    else ⟨e.height, on, if 0 < opened then on else if isInside then inside else .exterior⟩ :: later

/-- The steps that segments make on the vertical line through `x`. -/
def stepsOn (x : Rat) (on inside : Place) (segments : List Segment) : List (Step Place) :=
  let met := (segments.filter (·.spans x)).flatMap (·.encounters x)
  stepsOf on inside 0 false (met.mergeSort (·.height ≤ ·.height))

/-- A part of a shape, with exact positions. -/
inductive Part
  /-- Points. -/
  | points (positions : List Position)
  /-- Chains of segments: the ends of those that do not end where they begin, and all segments. -/
  | curves (ends : List Position) (segments : List Segment)
  /-- An area with its edges, those of its holes among them. -/
  | area (edges : List Segment)

namespace Part

/-- The two ends of a chain that does not end where it begins. -/
def chainEnds : List Position → List Position
  | [] => []
  | first :: rest =>
    let last := rest.getLastD first
    if first = last then [] else [first, last]

/-- The segments of a chain; a chain of one position is a segment by itself. -/
def chainSegments : List Position → List Segment
  | [p] => [⟨p, p⟩]
  | chain => segmentsOf chain

/-- The points at coordinates. -/
def ofPoints (cs : List Coordinate) : Part := points (cs.map (·.position))

/-- The part that chains of coordinates make up. -/
def ofChains (curves : List (List Coordinate)) : Part :=
  let chains := curves.map (·.map (·.position))
  .curves (chains.flatMap chainEnds) (chains.flatMap chainSegments)

/-- The area within closed rings, outer ones and holes alike. -/
def ofRings (rings : List (List Coordinate)) : Part :=
  area ((rings.map (·.map (·.position))).flatMap segmentsOf)

/-- All segments; a point is a segment by itself. -/
def segments : Part → List Segment
  | points positions => positions.map fun p => ⟨p, p⟩
  | curves _ segments => segments
  | area edges => edges

/-- The profile of a part on the vertical line through `x`. -/
def profile (x : Rat) : Part → List (Step Place)
  | points positions => stepsOn x .interior .exterior (segments (points positions))
  | curves ends segments =>
    let ends := (ends.filter (·.x == x)).map (·.y)
    (stepsOn x .interior .exterior segments).map fun s =>
      if ends.count s.height % 2 = 1 then { s with here := .boundary } else s
  | area edges => stepsOn x .boundary .interior edges

end Part

/-- The profile of parts together on the vertical line through `x`. -/
def profileOn (x : Rat) (parts : List Part) : List (Step Place) :=
  parts.foldl (fun steps part => mergeSteps .join .exterior .exterior steps (part.profile x)) []

namespace Rect

/-- The ring around a rectangle. -/
def ring (r : Rect) : List Coordinate :=
  [r.min, ⟨r.max.x, r.min.y⟩, r.max, ⟨r.min.x, r.max.y⟩, r.min]

end Rect

namespace Geometry

mutual

/-- The parts of a shape. -/
def parts : Geometry → List Part
  | point c => [.ofPoints [c]]
  | line a b => [.ofChains [[a, b]]]
  | lineString cs => [.ofChains [cs]]
  | polygon area => [.ofRings area.rings]
  | multiPoint cs => [.ofPoints cs]
  | multiLineString curves => [.ofChains curves]
  | multiPolygon areas => areas.map fun area => .ofRings area.rings
  | collection members => partsOfAll members
  | rect r => [.ofRings [r.ring]]
  | triangle t => [.ofRings [t.corners ++ [t.a]]]

/-- The parts of all members of a list. -/
def partsOfAll : List Geometry → List Part
  | [] => []
  | g :: rest => g.parts ++ partsOfAll rest

end

mutual

/-- Some coordinate of the shape is NaN, so that it lies nowhere. -/
def isNaN : Geometry → Bool
  | point c => c.isNaN
  | line a b => a.isNaN || b.isNaN
  | lineString cs => cs.any (·.isNaN)
  | polygon area => area.rings.any (·.any (·.isNaN))
  | multiPoint cs => cs.any (·.isNaN)
  | multiLineString curves => curves.any (·.any (·.isNaN))
  | multiPolygon areas => areas.any (·.rings.any (·.any (·.isNaN)))
  | collection members => isNaNInAny members
  | rect r => r.min.isNaN || r.max.isNaN
  | triangle t => t.corners.any (·.isNaN)

/-- Some coordinate of a member of a list is NaN. -/
def isNaNInAny : List Geometry → Bool
  | [] => false
  | g :: rest => g.isNaN || isNaNInAny rest

end

end Geometry

end SpatialIndex
