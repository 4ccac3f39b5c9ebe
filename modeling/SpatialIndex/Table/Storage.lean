import SpatialIndex.Error

/-!
# Rows of a table

Rows are kept in the order in which they were appended, and the id of a row is its place in that
order.  Reading takes a list of columns and gives rows laid out in that order.
-/

namespace SpatialIndex

/-- The rows of a table. -/
structure Storage where
  /-- The number of values in every row. -/
  width : Nat
  /-- The rows by id. -/
  rows : Array Row := #[]

/-- The values of a row at the given columns. -/
def projectRow (columns : List Nat) (row : Row) : Except Error Row :=
  columns.mapM fun column =>
    match row[column]? with
    | some value => .ok value
    | none => .error (.columnOutOfRange column)

namespace Storage

/-- The number of rows. -/
def cardinality (s : Storage) : Nat := s.rows.size

/-- The storage with one more row, and the id of that row. -/
def append (s : Storage) (row : Row) : Except Error (Storage × RowId) :=
  if row.length ≠ s.width then .error (.rowWidth s.width row.length)
  else .ok ({ s with rows := s.rows.push row }, .ofNat s.rows.size)

/-- The row of an id. -/
def row? (s : Storage) (id : RowId) : Option Row :=
  if id < 0 then none else s.rows[id.toInt.toNat]?

/-- Every row with its id, in order. -/
def numbered (s : Storage) : List (RowId × Row) :=
  s.rows.toList.zipIdx.map fun (row, i) => (.ofNat i, row)

/-- Hands every row, laid out in the given columns, to a visitor, in order.  The first failure, of
the layout or of the visitor, ends the scan; what the visitor has noted until then stays. -/
def scan {σ : Type} (s : Storage) (columns : List Nat)
    (visit : RowId → Row → ExceptT Error (StateM σ) Unit) : ExceptT Error (StateM σ) Unit :=
  s.numbered.forM fun (id, row) => do visit id (← projectRow columns row)

/-- The rows of the given ids, laid out in the given columns.  Ids without a row are passed
over. -/
def fetch (s : Storage) (columns : List Nat) : List RowId → Except Error (List (RowId × Row))
  | [] => .ok []
  | id :: rest =>
    match s.row? id with
    | none => s.fetch columns rest
    | some row => do
      let row ← projectRow columns row
      let rows ← s.fetch columns rest
      return (id, row) :: rows

/-- Every row with its id, laid out in the given columns. -/
def scanAll (s : Storage) (columns : List Nat) : Except Error (List (RowId × Row)) :=
  s.numbered.mapM fun (id, row) => return (id, ← projectRow columns row)

end Storage

end SpatialIndex
