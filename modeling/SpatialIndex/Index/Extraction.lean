import SpatialIndex.Index.Definition
import SpatialIndex.Table.Storage

/-!
# Entries from rows

The key of an index is bound once to a scan of exactly the columns that it reads.  A row whose key
is null or an empty shape gives no entry; any other key must be a shape with a valid box.
-/

namespace SpatialIndex

/-- What a scan for entries has come across. -/
structure ExtractionSummary where
  /-- The rows that were scanned. -/
  rows : Nat := 0
  /-- Those that gave an entry. -/
  entries : Nat := 0
  /-- Those whose key is null. -/
  nullKeys : Nat := 0
  /-- Those whose key is an empty shape. -/
  emptyKeys : Nat := 0
deriving DecidableEq

/-- The entries handed out during a scan, with the counts. -/
structure Extraction where
  /-- The entries in the order of their rows. -/
  entries : Array Entry := #[]
  /-- The counts. -/
  summary : ExtractionSummary := {}

/-- A key bound to a scan of the columns that it reads. -/
structure KeyReader where
  /-- The key over the positions of the scan. -/
  key : Expression
  /-- The columns of the scan. -/
  columns : List Nat

namespace KeyReader

/-- Binds a key to a scan of exactly the columns that it reads. -/
def ofKey (key : Expression) : KeyReader :=
  let columns := ascendingColumns (key.columnBindings.map (·.column))
  let bound := key.mapColumns (m := Id) fun binding type =>
    match columns.idxOf? binding.column with
    | some position => .reference position type
    | none => .column binding type
  ⟨bound, columns⟩

variable (reader : KeyReader) (registry : Registry)

/-- The shape that is the key of a row, or nothing for a null. -/
def shape? (id : RowId) (row : Row) : Except Error (Option Geometry) :=
  match reader.key.evaluate registry row with
  | .error cause => .error (.keyFailed id cause)
  | .ok .null => .ok none
  | .ok (.geometry g) => .ok (some g)
  | .ok (.boolean _) => .error (.rowKeyNotGeometry id .boolean)
  | .ok (.bigint _) => .error (.rowKeyNotGeometry id .bigint)
  | .ok (.double _) => .error (.rowKeyNotGeometry id .double)
  | .ok (.varchar _) => .error (.rowKeyNotGeometry id .varchar)

/-- The entry of a row with the given key, or nothing for an empty shape. -/
def entryOf? (id : RowId) (g : Geometry) : Except Error (Option Entry) :=
  match g.box? with
  | none => .ok none
  | some box => if box.isValid then .ok (some ⟨box, id⟩) else .error (.rowKeyNotFinite id box)

/-- The entry of a row, laid out in the columns of the scan. -/
def entry? (id : RowId) (row : Row) : Except Error (Option Entry) := do
  match ← reader.shape? registry id row with
  | some g => entryOf? id g
  | none => return none

/-- Takes note of one row. -/
def visit (id : RowId) (row : Row) : ExceptT Error (StateM Extraction) Unit := do
  let count (f : ExtractionSummary → ExtractionSummary) : ExceptT Error (StateM Extraction) Unit :=
    modify fun e => { e with summary := f e.summary }
  count fun s => { s with rows := s.rows + 1 }
  match ← reader.shape? registry id row with
  | none => count fun s => { s with nullKeys := s.nullKeys + 1 }
  | some g =>
    match ← entryOf? id g with
    | some entry =>
      count fun s => { s with entries := s.entries + 1 }
      modify fun e => { e with entries := e.entries.push entry }
    | none => count fun s => { s with emptyKeys := s.emptyKeys + 1 }

/-- The outcome of scanning all rows, with what has been handed out and counted by then. -/
def scan (storage : Storage) : Except Error Unit × Extraction :=
  (storage.scan reader.columns (reader.visit registry)).run.run {}

/-- The counts of a scan of all rows, or the first failure, and the entries handed out before it
ended. -/
def extract (storage : Storage) : Except Error ExtractionSummary × List Entry :=
  let (outcome, extraction) := reader.scan registry storage
  (outcome.map fun () => extraction.summary, extraction.entries.toList)

end KeyReader

end SpatialIndex
