import SpatialIndex.Error
import SpatialIndex.Geometry.Relate
import SpatialIndex.Text.Quoted

/-!
# Functions

A call names its function and the types it was written for.  What a function does is looked up by
name, in any case, when the call is evaluated.
-/

namespace SpatialIndex

/-- A text with its letters from A to Z in lower case; other characters have no case here. -/
def lowerCase (text : String) : String := text.map Char.toLower

/-- What a call says of its function. -/
structure Signature where
  /-- The name of the function. -/
  name : String
  /-- The types of the arguments. -/
  arguments : List LogicalType
  /-- The type of the result. -/
  returnType : LogicalType
  /-- Equal arguments may give unequal results. -/
  volatile : Bool := false
deriving DecidableEq

/-- The relations of two shapes that no two shapes have unless their boxes meet. -/
inductive SpatialRelation
  /-- The same shape. -/
  | equals
  /-- Not disjoint. -/
  | intersects
  /-- Only boundaries meet. -/
  | touches
  /-- One runs through the other. -/
  | crosses
  /-- The first lies in the second. -/
  | within
  /-- The second lies in the first. -/
  | contains
  /-- Each has a part in common with the other and a part of its own. -/
  | overlaps
  /-- No part of the second is outside the first. -/
  | covers
  /-- No part of the first is outside the second. -/
  | coveredBy
  /-- The second lies inside the first. -/
  | containsProperly
deriving DecidableEq

namespace SpatialRelation

/-- All relations. -/
def all : List SpatialRelation :=
  [equals, intersects, touches, crosses, within, contains, overlaps, covers, coveredBy,
    containsProperly]

/-- The name of the function that decides a relation. -/
def functionName : SpatialRelation → String
  | equals => "ST_Equals"
  | intersects => "ST_Intersects"
  | touches => "ST_Touches"
  | crosses => "ST_Crosses"
  | within => "ST_Within"
  | contains => "ST_Contains"
  | overlaps => "ST_Overlaps"
  | covers => "ST_Covers"
  | coveredBy => "ST_CoveredBy"
  | containsProperly => "ST_ContainsProperly"

/-- The relation whose function has the given name, in any case. -/
def ofName? (name : String) : Option SpatialRelation :=
  all.find? fun relation => lowerCase relation.functionName == lowerCase name

/-- What a call of the function of a relation says. -/
def signature (relation : SpatialRelation) : Signature where
  name := relation.functionName
  arguments := [.geometry, .geometry]
  returnType := .boolean

end SpatialRelation

/-- What a function does to the values of its arguments. -/
abbrev Function := List Value → Except Error Value

/-- A relation of shapes as a function: null if an argument is. -/
def Function.ofPredicate (holds : Geometry → Geometry → Bool) : Function
  | [.null, _] | [_, .null] => .ok .null
  | [.geometry a, .geometry b] => .ok (.boolean (holds a b))
  | [_, _] => .error .relationNotGeometry
  | arguments => .error (.relationArity arguments.length)

/-- Functions by name. -/
structure Registry where
  /-- The functions, each under its name in lower case. -/
  functions : List (String × Function)

namespace Registry

/-- No function at all. -/
def empty : Registry := ⟨[]⟩

/-- The registry with a function added, in place of the one of the same name if there is one. -/
def register (r : Registry) (name : String) (function : Function) : Registry :=
  let name := lowerCase name
  ⟨(name, function) :: r.functions.filter (·.1 != name)⟩

/-- The function of a name. -/
def function? (r : Registry) (name : String) : Option Function :=
  r.functions.lookup (lowerCase name)

/-- There is a function of this name. -/
def contains (r : Registry) (name : String) : Bool := (r.function? name).isSome

/-- Calls the function of a name. -/
def invoke (r : Registry) (name : String) (arguments : List Value) : Except Error Value :=
  match r.function? name with
  | some function => function arguments
  | none => .error (.unknownFunction name)

/-- The relations that are decided here. -/
def spatial : Registry :=
  empty.register SpatialRelation.intersects.functionName (.ofPredicate Geometry.intersects)
    |>.register SpatialRelation.contains.functionName (.ofPredicate Geometry.contains)
    |>.register SpatialRelation.within.functionName (.ofPredicate fun a b => b.contains a)

/-- The names in the registry, in order. -/
def names (r : Registry) : List String := (r.functions.map (·.1)).mergeSort (· ≤ ·)

/-- The registry as a record. -/
def recordText (r : Registry) : String :=
  "FunctionRegistry \x7b functions: " ++ listText (r.names.map quoted) ++ " \x7d"

end Registry

end SpatialIndex
