import SpatialIndex.Scan
import SpatialIndex.Table.Filter

/-!
# Query plans

A plan is a tree of operators.  Every operator has output columns that carry bindings, and the
expressions of an operator read the output of its inputs through these bindings, so an operator
can change how it makes its output without a change above it.  A scan numbers its output columns
by their place among the columns that it reads, also when it gives only some of them.
-/

namespace SpatialIndex

/-- How a scan gets at its rows. -/
inductive Access
  /-- All rows in order. -/
  | sequential
  /-- The rows that an index finds. -/
  | index (binding : ScanBinding)

namespace Access

/-- The name of a way of access. -/
def name : Access → String
  | sequential => "seq_scan"
  | index _ => "rtree_index_scan"

/-- All rows are read. -/
def isSequential : Access → Bool
  | sequential => true
  | index _ => false

/-- What is bound for an index scan. -/
def binding? : Access → Option ScanBinding
  | sequential => none
  | index binding => some binding

/-- The same way of access, with the same binding. -/
def equiv : Access → Access → Bool
  | sequential, sequential => true
  | index a, index b => a == b
  | _, _ => false

instance : BEq Access := ⟨equiv⟩

end Access

/-- A scan of a table. -/
structure Get where
  /-- The number of the scan in its plan. -/
  tableIndex : Nat
  /-- The table. -/
  table : Table
  /-- How it gets at the rows. -/
  access : Access
  /-- The columns of the table that it reads. -/
  columns : List Nat
  /-- The places among the columns read that it gives; none stands for all. -/
  projection : List Nat
  /-- The types of all columns of the table. -/
  columnTypes : List LogicalType
  /-- The filters by column of the table, in ascending order of the column. -/
  filters : List (Nat × TableFilter)
  /-- Filters that come from elsewhere in the plan, over the columns read. -/
  dynamicFilters : List Expression
  /-- How many rows it is expected to give. -/
  estimate : Nat

namespace Get

/-- The sequential scan of some columns of a table with the given number of rows. -/
def ofTable (tableIndex : Nat) (table : Table) (columns : List Nat) (cardinality : Nat) : Get where
  tableIndex := tableIndex
  table := table
  access := .sequential
  columns := columns
  projection := []
  columnTypes := table.columns.map (·.type)
  filters := []
  dynamicFilters := []
  estimate := cardinality

/-- Filters with one more, in its place by column; it takes the place of one on the same
column. -/
def insertFilter (column : Nat) (filter : TableFilter) :
    List (Nat × TableFilter) → List (Nat × TableFilter)
  | [] => [(column, filter)]
  | (c, f) :: rest =>
    if column < c then (column, filter) :: (c, f) :: rest
    else if column = c then (column, filter) :: rest
    else (c, f) :: insertFilter column filter rest

/-- The scan with a filter on a column of the table. -/
def withFilter (g : Get) (column : Nat) (filter : TableFilter) : Get :=
  { g with filters := insertFilter column filter g.filters }

/-- The places among the columns read that the scan gives, in order. -/
def outputPositions (g : Get) : List Nat :=
  if g.projection.isEmpty then List.range g.columns.length else g.projection

/-- The binding of a place among the columns read. -/
def bindingAt (g : Get) (position : Nat) : ColumnBinding := ⟨g.tableIndex, position⟩

/-- The bindings of the output. -/
def outputBindings (g : Get) : List ColumnBinding := g.outputPositions.map g.bindingAt

/-- The bindings of all columns read. -/
def scanBindings (g : Get) : List ColumnBinding := (List.range g.columns.length).map g.bindingAt

/-- The type of the column read at a place. -/
def columnType? (g : Get) (position : Nat) : Option LogicalType := do
  g.columnTypes[← g.columns[position]?]?

/-- The types of the output columns that are known. -/
def outputTypes (g : Get) : List LogicalType := g.outputPositions.filterMap g.columnType?

/-- The same scan of the same table. -/
def equiv (a b : Get) : Bool :=
  a.tableIndex == b.tableIndex && a.table.id == b.table.id && a.access == b.access &&
    a.columns == b.columns && a.projection == b.projection && a.columnTypes == b.columnTypes &&
    a.filters == b.filters && a.dynamicFilters == b.dynamicFilters && a.estimate == b.estimate

instance : BEq Get := ⟨equiv⟩

end Get

/-- One step of a plan, without its inputs. -/
inductive Operator
  /-- Reads a table. -/
  | get (scan : Get)
  /-- Keeps the rows that pass all predicates, and of each the given places; none stands for
  all. -/
  | filter (predicates : List Expression) (projection : List Nat)
  /-- Makes new columns out of each row. -/
  | projection (tableIndex : Nat) (expressions : List Expression)
  /-- Passes over some rows and keeps some of the rest. -/
  | limit (count offset : Nat)
  /-- Joins every row of one input with every row of the other. -/
  | product

namespace Operator

/-- The name of an operator. -/
def name : Operator → String
  | get scan => if scan.access.isSequential then "SEQ_SCAN" else "RTREE_INDEX_SCAN"
  | filter .. => "FILTER"
  | projection .. => "PROJECTION"
  | limit .. => "LIMIT"
  | product => "CROSS_PRODUCT"

/-- The scan of an operator that is one. -/
def get? : Operator → Option Get
  | get scan => some scan
  | _ => none

/-- The same operator with the same settings. -/
def equiv : Operator → Operator → Bool
  | get a, get b => a == b
  | filter ps as, filter qs bs => ps == qs && as == bs
  | projection i es, projection j fs => i == j && es == fs
  | limit m a, limit n b => m == n && a == b
  | product, product => true
  | _, _ => false

instance : BEq Operator := ⟨equiv⟩

/-- The operator as plans show it, with its settings. -/
def text (op : Operator) : String :=
  match op with
  | get scan =>
    let bound := match scan.access.binding? with
      | some b => s!" index={b.index.name} bbox={b.box.text}"
      | none => ""
    let filters := scan.filters.map fun (column, condition) =>
      let name := (scan.table.columns[column]?.map (·.name)).getD "?"
      s!" [{name}: {condition.text}]"
    op.name ++ " " ++ scan.table.name ++ bound ++ String.join filters ++ s!" ~{scan.estimate}"
  | filter predicates _ => op.name ++ String.join (predicates.map fun e => " " ++ e.text)
  | projection _ expressions => op.name ++ String.join (expressions.map fun e => " " ++ e.text)
  | limit count offset =>
    op.name ++ s!" {count}" ++ (if 0 < offset then s!" OFFSET {offset}" else "")
  | product => op.name

end Operator

/-- An operator with its inputs.  Nothing keeps an operator from having the wrong number of
inputs. -/
inductive Plan
  /-- An operator and its inputs. -/
  | node (operator : Operator) (children : List Plan)

namespace Plan

/-- The operator at the top. -/
def operator : Plan → Operator
  | node operator _ => operator

/-- The inputs of the operator at the top. -/
def children : Plan → List Plan
  | node _ children => children

mutual

/-- The bindings of the output columns. -/
def outputBindings : Plan → List ColumnBinding
  | node (.get scan) _ => scan.outputBindings
  | node (.filter _ projection) children =>
    let bindings := firstBindings children
    if projection.isEmpty then bindings else projection.filterMap (bindings[·]?)
  | node (.projection tableIndex expressions) _ =>
    (List.range expressions.length).map fun i => ⟨tableIndex, i⟩
  | node (.limit ..) children => firstBindings children
  | node .product children => allBindings children

/-- The bindings of the first of several inputs. -/
def firstBindings : List Plan → List ColumnBinding
  | [] => []
  | child :: _ => child.outputBindings

/-- The bindings of several inputs one after the other. -/
def allBindings : List Plan → List ColumnBinding
  | [] => []
  | child :: rest => child.outputBindings ++ allBindings rest

end

mutual

/-- The operators of a plan, each before its inputs. -/
def operators : Plan → List Operator
  | node operator children => operator :: operatorsOfAll children

/-- The operators of several plans. -/
def operatorsOfAll : List Plan → List Operator
  | [] => []
  | child :: rest => child.operators ++ operatorsOfAll rest

end

/-- The scans of a plan. -/
def gets (p : Plan) : List Get := p.operators.filterMap (·.get?)

mutual

/-- Two plans have the same operators in the same places. -/
def equiv : Plan → Plan → Bool
  | node a as, node b bs => a == b && equivAll as bs

/-- Two lists of plans are the same place by place. -/
def equivAll : List Plan → List Plan → Bool
  | [], [] => true
  | a :: as, b :: bs => a.equiv b && equivAll as bs
  | _, _ => false

end

instance : BEq Plan := ⟨equiv⟩

mutual

/-- The lines of a plan, an operator on each, inputs indented below it. -/
def lines (depth : Nat) : Plan → List String
  | node operator children =>
    ("".pushn ' ' (2 * depth) ++ operator.text) :: linesOfAll (depth + 1) children

/-- The lines of several plans. -/
def linesOfAll (depth : Nat) : List Plan → List String
  | [] => []
  | child :: rest => child.lines depth ++ linesOfAll depth rest

end

/-- The plan in words. -/
def text (p : Plan) : String := String.join ((p.lines 0).map (· ++ "\n"))

end Plan

end SpatialIndex
