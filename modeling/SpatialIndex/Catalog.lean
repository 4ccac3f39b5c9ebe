import SpatialIndex.Index.Basic

/-!
# Catalogs

A catalog lists tables by name, and every table lists its indexes in the order in which they were
published.  A table that is dropped is no longer listed, but whoever holds it can go on using it.
Making an index takes three steps, between which other operations may come: the definition is
checked, the tree is built, and the index is published.  Publishing checks once more that the
table is the very one that is listed and that the name is free.
-/

namespace SpatialIndex

/-- The version of the library. -/
def version : String := "0.1.0"

/-- Where the rows of a table come from. -/
inductive TableKind
  /-- They are kept here. -/
  | native
  /-- They come from elsewhere. -/
  | external
deriving DecidableEq

/-- A column of a table. -/
structure ColumnDefinition where
  /-- Its name. -/
  name : String
  /-- The type of its values. -/
  type : LogicalType
deriving DecidableEq

/-- The number under which a table was created. -/
abbrev TableId := Nat

/-- What never changes of a table. -/
structure Table where
  /-- Its number, by which two tables of one name are told apart. -/
  id : TableId
  /-- Its name. -/
  name : String
  /-- Its columns. -/
  columns : List ColumnDefinition
  /-- Where its rows come from. -/
  kind : TableKind
deriving DecidableEq

namespace Table

/-- The rows of the table are kept here. -/
def isNative (t : Table) : Bool := t.kind = .native

/-- The column of a name, in any case. -/
def columnNamed? (t : Table) (name : String) : Option Nat :=
  t.columns.findIdx? fun column => lowerCase column.name == lowerCase name

end Table

/-- A table with what changes of it. -/
structure TableEntry where
  /-- The table. -/
  table : Table
  /-- Its rows. -/
  storage : Storage
  /-- Its indexes in the order in which they were published. -/
  indexes : List Index

namespace TableEntry

/-- The index of a name. -/
def index? (e : TableEntry) (name : String) : Option Index := e.indexes.find? (·.name == name)

/-- The table without the first index of a name. -/
def unlink (e : TableEntry) (name : String) : TableEntry :=
  { e with indexes := e.indexes.eraseP (·.name == name) }

/-- The table as a record. -/
def recordText (e : TableEntry) : String :=
  let column (c : ColumnDefinition) :=
    s!"ColumnDefinition \x7b name: {quoted c.name}, logical_type: {c.type.recordText} \x7d"
  let kind := if e.table.isNative then "Native" else "External"
  s!"TableEntry \x7b name: {quoted e.table.name}, columns: " ++
    listText (e.table.columns.map column) ++ s!", kind: {kind}, indexes: " ++
    listText (e.indexes.map fun index => quoted index.name) ++ " \x7d"

end TableEntry

/-- Tables and their indexes. -/
structure Catalog where
  /-- The settings of index construction, scanning and planning. -/
  config : Config
  /-- The functions that keys and predicates call. -/
  functions : Registry
  /-- Every table ever created, by number. -/
  entries : Array TableEntry := #[]
  /-- The tables that are listed. -/
  listed : List TableId := []
  /-- How many indexes have been published. -/
  published : Nat := 0

namespace Catalog

/-- An operation that reads and changes a catalog, and may fail. -/
abbrev Action (α : Type) := ExceptT Error (StateM Catalog) α

/-- A table by number, listed or not. -/
def entry? (c : Catalog) (id : TableId) : Option TableEntry := c.entries[id]?

/-- The tables that are listed. -/
def listedEntries (c : Catalog) : List TableEntry := c.listed.filterMap c.entry?

/-- The listed table of a name. -/
def listed? (c : Catalog) (name : String) : Option TableEntry :=
  c.listedEntries.find? (·.table.name == name)

/-- The table of a name. -/
def table (c : Catalog) (name : String) : Except Error Table :=
  match c.listed? name with
  | some entry => .ok entry.table
  | none => .error (.tableNotFound name)

/-- The index of a name, on whatever listed table. -/
def index? (c : Catalog) (name : String) : Option Index :=
  c.listedEntries.findSome? (·.index? name)

/-- The names of the listed tables in order. -/
def tableNames (c : Catalog) : List String :=
  (c.listedEntries.map (·.table.name)).mergeSort (· ≤ ·)

/-- The rows of a table, listed or not. -/
def storage (c : Catalog) (t : Table) : Storage := ((c.entry? t.id).map (·.storage)).getD ⟨0, #[]⟩

/-- The indexes of a table, listed or not, in the order in which they were published. -/
def indexes (c : Catalog) (t : Table) : List Index := ((c.entry? t.id).map (·.indexes)).getD []

/-- The number of rows of a table. -/
def cardinality (c : Catalog) (t : Table) : Nat := (c.storage t).cardinality

/-- The catalog with one table changed. -/
def modifyEntry (c : Catalog) (id : TableId) (f : TableEntry → TableEntry) : Catalog :=
  { c with entries := c.entries.modify id f }

/-- Creates a table and lists it. -/
def createTable (name : String) (columns : List ColumnDefinition) (kind : TableKind)
    (storage : Storage) : Action Table := do
  let c ← get
  if (c.listed? name).isSome then throw (.tableExists name)
  let table : Table := ⟨c.entries.size, name, columns, kind⟩
  set { c with
    entries := c.entries.push ⟨table, storage, []⟩
    listed := c.listed ++ [table.id] }
  return table

/-- Takes a table off the list, with its indexes. -/
def dropTable (name : String) : Action Table := do
  let c ← get
  let table ← c.table name
  set { c with listed := c.listed.filter (· != table.id) }
  return table

/-- Appends a row to a table, listed or not. -/
def append (t : Table) (row : Row) : Action RowId := do
  let c ← get
  let (storage, id) ← (c.storage t).append row
  set (c.modifyEntry t.id fun entry => { entry with storage })
  return id

/-- Checks a definition against the catalog and gives the table that the index would belong to. -/
def prepareIndex (d : IndexDefinition) : Action Table := do
  let c ← get
  d.validate
  let table ← c.table d.table
  if (c.index? d.name).isSome then throw (.indexExists d.name)
  match d.columns.find? fun column => table.columns.length ≤ column with
  | some column => throw (.noColumn table.name column)
  | none => return table

/-- Builds the tree of an index from the rows that the table has now. -/
def buildIndex (t : Table) (d : IndexDefinition) : Action Tree := do
  let c ← get
  d.build (c.storage t) c.functions c.config

/-- Publishes an index on a table, provided that this very table is listed and the name is
free. -/
def publishIndex (t : Table) (d : IndexDefinition) (tree : Tree) : Action Index := do
  let c ← get
  if (c.listed? t.name).map (·.table.id) ≠ some t.id then throw (.tableNotFound t.name)
  if (c.index? d.name).isSome then throw (.indexExists d.name)
  let index := Index.ofTree c.published d tree
  set { c.modifyEntry t.id (fun entry => { entry with indexes := entry.indexes ++ [index] }) with
    published := c.published + 1 }
  return index

/-- Makes an index from the rows that its table has now. -/
def createIndex (d : IndexDefinition) : Action Index := do
  let table ← prepareIndex d
  let tree ← buildIndex table d
  publishIndex table d tree

/-- Makes an index over a tree whose structure is sound. -/
def attachIndex (d : IndexDefinition) (tree : Tree) : Action Index := do
  let table ← prepareIndex d
  match tree.validate with
  | .error violation => throw (.unsound violation)
  | .ok () => publishIndex table d tree

/-- Takes an index off its table. -/
def dropIndex (name : String) : Action Index := do
  let c ← get
  match c.listedEntries.find? fun entry => (entry.index? name).isSome with
  | none => throw (.indexNotFound name)
  | some entry =>
    match entry.index? name with
    | none => throw (.indexNotFound name)
    | some index =>
      set (c.modifyEntry entry.table.id (·.unlink name))
      return index

/-- The catalog as a record. -/
def recordText (c : Catalog) : String :=
  s!"Catalog \x7b config: {c.config.recordText}, tables: " ++
    listText (c.tableNames.map quoted) ++ " \x7d"

end Catalog

end SpatialIndex
