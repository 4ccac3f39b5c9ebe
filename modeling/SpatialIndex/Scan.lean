import SpatialIndex.Catalog

/-!
# Index scans

A plan binds a table, one of its indexes and a box.  When the scan is opened, that very index must
still be on that table; then the rows that the index finds are fetched batch by batch.
-/

namespace SpatialIndex

/-- What a plan binds for an index scan. -/
structure ScanBinding where
  /-- The table to read. -/
  table : Table
  /-- The index to search. -/
  index : Index
  /-- The box to search for. -/
  box : Box

namespace ScanBinding

/-- The same table, the same index, and numerically the same box. -/
def equiv (a b : ScanBinding) : Bool :=
  a.table.id == b.table.id && a.index.id == b.index.id && a.box.equiv b.box

instance : BEq ScanBinding := ⟨equiv⟩

/-- An upper bound for the rows that the scan gives: what the index estimates, but no more than the
table has. -/
def cardinality (c : Catalog) (b : ScanBinding) : Nat :=
  min (b.index.tree.estimate b.box).toNat (c.cardinality b.table)

/-- The very index that was bound is still on the table. -/
def isAttached (c : Catalog) (b : ScanBinding) : Bool :=
  match (c.indexes b.table).find? (·.name == b.index.name) with
  | some index => index.id == b.index.id
  | none => false

/-- The binding as a record. -/
def recordText (b : ScanBinding) : String :=
  s!"IndexScanBindData \x7b table: {quoted b.table.name}, index: {quoted b.index.name}, " ++
    s!"bbox: {b.box.recordText} \x7d"

end ScanBinding

/-- An index scan under way. -/
structure IndexScan where
  /-- The table to fetch from. -/
  table : Table
  /-- The columns to fetch. -/
  columns : List Nat
  /-- The rows that the index found. -/
  candidates : List RowId
  /-- How many of them have been fetched. -/
  position : Nat
  /-- How many are fetched at a time. -/
  batchSize : Nat

namespace IndexScan

/-- Searches the index and begins to fetch; a batch has at least one row. -/
def start (c : Catalog) (b : ScanBinding) (columns : List Nat) (batchSize : Nat) :
    Except Error IndexScan :=
  if b.isAttached c then .ok ⟨b.table, columns, b.index.tree.search b.box, 0, max batchSize 1⟩
  else .error (.detachedIndex b.index.name b.table.name)

/-- How many candidates have not been fetched. -/
def remaining (s : IndexScan) : Nat := s.candidates.length - s.position

/-- Fetches the next batch, or nothing when all candidates have been fetched.  A batch that cannot
be fetched leaves the scan where it was. -/
def nextBatch (c : Catalog) : ExceptT Error (StateM IndexScan) (Option (List (RowId × Row))) := do
  let s ← get
  if s.candidates.length ≤ s.position then return none
  let batch := (s.candidates.drop s.position).take s.batchSize
  let rows ← (c.storage s.table).fetch s.columns batch
  set { s with position := s.position + batch.length }
  return some rows

/-- Fetches at most `fuel` further batches. -/
def collectBatches (c : Catalog) (s : IndexScan) :
    (fuel : Nat) → Except Error (List (RowId × Row))
  | 0 => .ok []
  | fuel + 1 =>
    match (nextBatch c).run.run s with
    | (.error e, _) => .error e
    | (.ok none, _) => .ok []
    | (.ok (some rows), s) => do
      let rest ← s.collectBatches c fuel
      return rows ++ rest

/-- Fetches all candidates that are left. -/
def collect (c : Catalog) (s : IndexScan) : Except Error (List (RowId × Row)) :=
  s.collectBatches c s.remaining

end IndexScan

end SpatialIndex
