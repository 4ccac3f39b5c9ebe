import SpatialIndex.Expression.Evaluate

/-!
# Definitions of indexes

An index is asked for by name, table and key.  Its key is an expression over the columns of the
table, read through bindings whose column is the column of the table.
-/

namespace SpatialIndex

/-- Numbers in ascending order, each once. -/
def ascendingColumns (columns : List Nat) : List Nat := (columns.mergeSort (· ≤ ·)).eraseReps

/-- What an index is to be. -/
structure IndexDefinition where
  /-- The name of the index. -/
  name : String
  /-- The name of the table. -/
  table : String
  /-- The keys; an index has exactly one. -/
  keys : List Expression
  /-- The columns of the table that the keys read. -/
  columns : List Nat

namespace IndexDefinition

/-- The definition whose columns are those that its keys read. -/
def ofKeys (name table : String) (keys : List Expression) : IndexDefinition where
  name := name
  table := table
  keys := keys
  columns := ascendingColumns ((keys.flatMap (·.columnBindings)).map (·.column))

/-- The key of a definition that an index can be made from. -/
def key (d : IndexDefinition) : Except Error Expression :=
  match d.keys with
  | [key] =>
    if key.type ≠ .geometry then .error .keyNotGeometry
    else if !key.isConsistent then .error .keyVolatile
    else .ok key
  | _ => .error .notOneKey

/-- Checks that an index can be made from the definition. -/
def validate (d : IndexDefinition) : Except Error Unit := d.key.map fun _ => ()

end IndexDefinition

end SpatialIndex
