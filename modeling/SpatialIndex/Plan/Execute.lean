import SpatialIndex.Plan.Basic

/-!
# The rows of a plan

Every operator works on all rows of its inputs.  Predicates and expressions are bound to the
output of the input before the input is executed, so a binding that is missing is the first
failure.
-/

namespace SpatialIndex

/-- The values of a row at the given places, null where there is none; no places stand for all. -/
def emitRow (positions : List Nat) (row : Row) : Row :=
  if positions.isEmpty then row else positions.map fun position => row[position]?.getD .null

/-- The rows that pass all predicates, and of each the given places. -/
def filterRows (registry : Registry) (predicates : List Expression) (positions : List Nat) :
    List Row → Except Error (List Row)
  | [] => .ok []
  | row :: rest => do
    let keep ← Expression.passesAll registry row predicates
    let rows ← filterRows registry predicates positions rest
    return if keep then emitRow positions row :: rows else rows

/-- The rows made of each row by expressions. -/
def projectRows (registry : Registry) (expressions : List Expression) (rows : List Row) :
    Except Error (List Row) :=
  rows.mapM fun row => Expression.evaluateAll registry row expressions

/-- Every row of the one list followed by every row of the other. -/
def productRows (left right : List Row) : List Row :=
  left.flatMap fun l => right.map fun r => l ++ r

namespace Get

/-- The place and type of a filtered column among the columns read. -/
def filterColumn (g : Get) (column : Nat) : Except Error Expression :=
  match g.columns.idxOf? column with
  | none => .error (.filterNotScanned column g.table.name)
  | some position =>
    match g.columnType? position with
    | none => .error (.unknownColumn column)
    | some type => .ok (.reference position type)

/-- The predicates of a scan, over the columns read. -/
def predicates (g : Get) : Except Error (List Expression) := do
  let pushed ← g.filters.mapM fun (column, filter) =>
    return filter.toExpression (← g.filterColumn column)
  let dynamic ← g.dynamicFilters.mapM (Expression.bind g.scanBindings)
  return pushed ++ dynamic

/-- The rows that a scan reads, before its filters. -/
def scanRows (c : Catalog) (batchSize : Nat) (g : Get) : Except Error (List Row) := do
  let rows ← match g.access with
    | .sequential => (c.storage g.table).scanAll g.columns
    | .index binding => do
      let scan ← IndexScan.start c binding g.columns batchSize
      scan.collect c
  return rows.map (·.2)

/-- The rows that a scan gives. -/
def execute (c : Catalog) (registry : Registry) (batchSize : Nat) (g : Get) :
    Except Error (List Row) := do
  let predicates ← g.predicates
  let rows ← g.scanRows c batchSize
  filterRows registry predicates g.projection rows

end Get

namespace Plan

variable (c : Catalog) (registry : Registry) (batchSize : Nat)

/-- The rows of a plan. -/
def execute : Plan → Except Error (List Row)
  | node (.get scan) _ => scan.execute c registry batchSize
  | node (.filter predicates projection) [child] => do
    let predicates ← predicates.mapM (Expression.bind child.outputBindings)
    let rows ← execute child
    filterRows registry predicates projection rows
  | node (.projection _ expressions) [child] => do
    let expressions ← expressions.mapM (Expression.bind child.outputBindings)
    let rows ← execute child
    projectRows registry expressions rows
  | node (.limit count offset) [child] => do
    let rows ← execute child
    return (rows.drop offset).take count
  | node .product [left, right] => do
    let left ← execute left
    let right ← execute right
    return productRows left right
  | node .product _ => .error .notTwoChildren
  | node operator children => .error (.notOneChild operator.name children.length)

end Plan

end SpatialIndex
