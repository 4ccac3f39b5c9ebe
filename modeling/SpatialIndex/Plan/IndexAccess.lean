import SpatialIndex.Plan.Execute
import SpatialIndex.Plan.Match

/-!
# Scans through indexes

A sequential scan is turned into an index scan when a predicate on it can be served by one of the
table's indexes.  The predicate is the only one of a filter directly above the scan, or the only
arbitrary expression among the filters that the scan carries.  The index finds the rows whose key
has a box that meets the box of the constant, so all predicates still have to be tested: filters
that the scan carried move into a filter above it.

The outcome comes together with the plan that is left behind, also in a failure.
-/

namespace SpatialIndex

/-- How the key of an index is written in a predicate. -/
inductive KeyBinding
  /-- Over the output of the scan, as in a filter above it. -/
  | scanOutput
  /-- Over the one column of a filter that the scan carries. -/
  | filterColumn (column : Nat)

namespace KeyBinding

/-- A column of the table as a predicate on the scan reads it, if it can. -/
def column? (binding : KeyBinding) (g : Get) (column : Nat) (type : LogicalType) :
    Option Expression :=
  match binding with
  | scanOutput => (g.columns.idxOf? column).map fun position => .column (g.bindingAt position) type
  | filterColumn filtered => if filtered = column then some (.reference 0 type) else none

/-- The key of an index as a predicate on the scan would write it, if all columns of the key can be
read there. -/
def key? (binding : KeyBinding) (g : Get) (key : Expression) : Option Expression :=
  key.mapColumns fun column type => binding.column? g column.column type

end KeyBinding

/-- The value of an expression that reads no row. -/
def foldConstant? (registry : Registry) : Expression → Option Value
  | .constant value _ => some value
  | e => (e.evaluate registry []).toOption

/-- The box of the value of an expression that reads no row, if it is a shape with a valid box. -/
def constantBox? (registry : Registry) (e : Expression) : Option Box := do
  match ← foldConstant? registry e with
  | .geometry g => g.box?.filter (·.isValid)
  | _ => none

namespace Get

/-- The box to search an index for, if the index can serve a predicate on the scan. -/
def searchBox? (g : Get) (registry : Registry) (predicate : Expression) (binding : KeyBinding)
    (index : Index) : Option Box :=
  match index.keys with
  | [key] => do
    let key ← binding.key? g key
    let found ← matchRelation? key predicate
    constantBox? registry found.constant
  | _ => none

/-- The first of several indexes that can serve a predicate on the scan, and the box to search it
for. -/
def findIndex? (g : Get) (registry : Registry) (predicate : Expression) (binding : KeyBinding)
    (indexes : List Index) : Option (Index × Box) :=
  indexes.findSome? fun index =>
    (g.searchBox? registry predicate binding index).map fun box => (index, box)

/-- The scan may be turned into an index scan: it is sequential, on a table of our own, and takes
no filters from elsewhere. -/
def isEligible (g : Get) : Bool :=
  g.access.isSequential && g.dynamicFilters.isEmpty && g.table.isNative

/-- A filtered column as the output of a scan that gives all columns it reads. -/
def pulledColumn (g : Get) (column : Nat) : Except Error Expression :=
  match g.columns.idxOf? column with
  | none => .error (.filterNotFound column g.table.name)
  | some position =>
    match g.columnTypes[column]? with
    | none => .error (.filterOutOfRange column g.table.name)
    | some type => .ok (.column (g.bindingAt position) type)

/-- The filter to put above a scan in place of the filters that it carries, if it carries any. -/
def pulledFilter? (g : Get) : Except Error (Option Operator) :=
  if g.filters.isEmpty then .ok none
  else do
    let predicates ← g.filters.mapM fun (column, filter) =>
      return filter.toExpression (← g.pulledColumn column)
    return some (.filter predicates g.projection)

/-- The scan through an index, with the filter above it that takes the place of its own. -/
def withIndex (c : Catalog) (g : Get) (binding : ScanBinding) (residual : Option Operator)
    (children : List Plan) : Plan :=
  let scan := { g with access := .index binding, estimate := binding.cardinality c }
  match residual with
  | none => .node (.get scan) children
  | some filter =>
    .node filter [.node (.get { scan with filters := [], projection := [] }) children]

/-- The scan turned into an index scan, if one of the table's indexes can serve the predicate. -/
def turn? (c : Catalog) (registry : Registry) (g : Get) (children : List Plan)
    (predicate : Expression) (binding : KeyBinding) : Except Error (Option Plan) :=
  if !g.isEligible then .ok none
  else
    match g.findIndex? registry predicate binding (c.indexes g.table) with
    | none => .ok none
    | some (index, box) => do
      let residual ← g.pulledFilter?
      return some (g.withIndex c ⟨g.table, index, box⟩ residual children)

/-- The only filter of a scan that is an arbitrary expression, with its column. -/
def onlyExpression? (g : Get) : Option (Nat × Expression) :=
  let expressions := g.filters.filterMap fun (column, filter) =>
    match filter with
    | .expression predicate => some (column, predicate)
    | _ => none
  match expressions with
  | [only] => some only
  | _ => none

end Get

namespace Plan

variable (c : Catalog) (registry : Registry)

/-- The plan with an index scan in place of the scan at its top or right below a filter at its top,
if there is one to be turned. -/
def turnTop? : Plan → Except Error (Option Plan)
  | node (.filter [predicate] projection) [node (.get scan) children] => do
    let turned ← scan.turn? c registry children predicate .scanOutput
    return turned.map fun child => node (.filter [predicate] projection) [child]
  | node (.get scan) children =>
    match scan.onlyExpression? with
    | some (column, predicate) =>
      scan.turn? c registry children predicate (.filterColumn column)
    | none => .ok none
  | _ => .ok none

mutual

/-- Turns scans into index scans from the top down.  Below an operator that has been turned,
nothing else is tried.  The plan that is left behind is given also in a failure. -/
def useIndexes : Plan → Plan × Except Error Unit
  | node operator children =>
    match turnTop? c registry (node operator children) with
    | .error e => (node operator children, .error e)
    | .ok (some turned) => (turned, .ok ())
    | .ok none =>
      let (children, outcome) := useIndexesInAll children
      (node operator children, outcome)

/-- Turns the scans of several plans in order, up to the first failure. -/
def useIndexesInAll : List Plan → List Plan × Except Error Unit
  | [] => ([], .ok ())
  | child :: rest =>
    match useIndexes child with
    | (child, .error e) => (child :: rest, .error e)
    | (child, .ok ()) =>
      let (rest, outcome) := useIndexesInAll rest
      (child :: rest, outcome)

end

end Plan

end SpatialIndex
