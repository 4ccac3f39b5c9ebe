import SpatialIndex.Index.Extraction
import SpatialIndex.Tree.Search
import SpatialIndex.Tree.Statistics

/-!
# Indexes

An index is a tree over the boxes of the keys of a table's rows.  It never changes once it is
made, and two indexes are the same only if they were published as one.
-/

namespace SpatialIndex

/-- The number under which an index was published. -/
abbrev IndexId := Nat

/-- A published index. -/
structure Index where
  /-- Its number. -/
  id : IndexId
  /-- Its name. -/
  name : String
  /-- The name of its table. -/
  table : String
  /-- The columns that its keys read. -/
  columns : List Nat
  /-- Its keys, over the columns of the table. -/
  keys : List Expression
  /-- The tree over the boxes of the keys. -/
  tree : Tree

namespace Index

/-- The name of the kind of index. -/
def kind : String := "RTREE"

/-- The index of a definition over a tree. -/
def ofTree (id : IndexId) (d : IndexDefinition) (tree : Tree) : Index :=
  ⟨id, d.name, d.table, d.columns, d.keys, tree⟩

end Index

/-- The tree over the rows of a table: the definition and the configuration are checked, then all
rows are read, and then their entries are packed. -/
def IndexDefinition.build (d : IndexDefinition) (storage : Storage) (registry : Registry)
    (config : Config) : Except Error Tree := do
  let key ← d.key
  config.validate.mapError .configuration
  let (outcome, entries) := (KeyReader.ofKey key).extract registry storage
  let _ ← outcome
  (config.packing.pack entries).mapError .packing

end SpatialIndex
