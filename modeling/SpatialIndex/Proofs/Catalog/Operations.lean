import SpatialIndex.Scan
import SpatialIndex.Proofs.Index.Extraction
import Mathlib.Data.List.Nodup

/-!
# Catalogs that operations lead to

A catalog begins empty and changes by its operations alone, each of which leaves it as it is or
makes one of five changes.  Every table then is where its number says, and no two indexes of a
table have the same name, so an index that a table lists is the one that is found by its name when
a scan begins.
-/

namespace SpatialIndex

namespace Catalog

section Runs

variable {c : Catalog}

/-- Creating a table fails if a listed table has its name, and adds a listed table at the end if
none has. -/
theorem createTable_run {name : String} {columns : List ColumnDefinition} {kind : TableKind}
    {storage : Storage} :
    (createTable name columns kind storage).run.run c =
      if (c.listed? name).isSome then (.error (.tableExists name), c)
      else
        (.ok ⟨c.entries.size, name, columns, kind⟩,
          { c with
            entries := c.entries.push ⟨⟨c.entries.size, name, columns, kind⟩, storage, []⟩
            listed := c.listed ++ [c.entries.size] }) := by
  rw [createTable, run_get_bind]
  split <;> rfl

/-- Dropping a table takes it off the list and leaves its rows and indexes where they are. -/
theorem dropTable_run {name : String} :
    (dropTable name).run.run c =
      match c.table name with
      | .error e => (.error e, c)
      | .ok table => (.ok table, { c with listed := c.listed.filter (· != table.id) }) := by
  rw [dropTable, run_get_bind, run_lift_bind]
  cases c.table name <;> rfl

/-- Appending a row changes the rows of its table, or nothing if the row does not fit. -/
theorem append_run {t : Table} {row : Row} :
    (append t row).run.run c =
      match (c.storage t).append row with
      | .error e => (.error e, c)
      | .ok (storage, id) =>
        (.ok id, c.modifyEntry t.id fun entry => { entry with storage }) := by
  rw [append, run_get_bind, run_lift_bind]
  cases (c.storage t).append row <;> rfl

/-- An index is published if its very table is listed and its name is free, and otherwise nothing
changes. -/
theorem publishIndex_run {t : Table} {d : IndexDefinition} {tree : Tree} :
    (publishIndex t d tree).run.run c =
      if (c.listed? t.name).map (·.table.id) ≠ some t.id then (.error (.tableNotFound t.name), c)
      else if (c.index? d.name).isSome then (.error (.indexExists d.name), c)
      else
        (.ok (Index.ofTree c.published d tree),
          { c.modifyEntry t.id (fun entry =>
              { entry with indexes := entry.indexes ++ [Index.ofTree c.published d tree] }) with
            published := c.published + 1 }) := by
  rw [publishIndex, run_get_bind]
  by_cases hlisted : (c.listed? t.name).map (·.table.id) ≠ some t.id
  · rw [if_pos hlisted, if_pos hlisted]
    rfl
  · rw [if_neg hlisted, if_neg hlisted]
    dsimp only
    split <;> rfl

/-- A table is found by its name. -/
theorem table_eq_ok {name : String} {t : Table} (h : c.table name = .ok t) :
    t.name = name ∧ (c.listed? name).map (·.table) = some t := by
  unfold table at h
  split at h
  · rename_i entry hentry
    cases h
    have hname : entry.table.name = name := by simpa using List.find?_some hentry
    exact ⟨hname, by rw [hentry]; rfl⟩
  · cases h

/-- The table of an index to be made, if all checks pass. -/
def prepared (c : Catalog) (d : IndexDefinition) : Except Error Table := do
  d.validate
  let table ← c.table d.table
  if (c.index? d.name).isSome then throw (.indexExists d.name)
  match d.columns.find? fun column => table.columns.length ≤ column with
  | some column => throw (.noColumn table.name column)
  | none => return table

/-- Checking a definition changes nothing. -/
theorem prepareIndex_run {d : IndexDefinition} :
    (prepareIndex d).run.run c = (c.prepared d, c) := by
  rw [prepareIndex, run_get_bind, run_lift_bind, prepared]
  cases d.validate with
  | error e => rfl
  | ok _ =>
    dsimp only
    rw [run_lift_bind]
    cases c.table d.table with
    | error e => rfl
    | ok table =>
      simp only [bind, Except.bind]
      split
      · rfl
      · cases d.columns.find? fun column => table.columns.length ≤ column <;> rfl

/-- The checks find the table of the definition and that the name is free. -/
theorem of_prepared {d : IndexDefinition} {t : Table} (h : c.prepared d = .ok t) :
    c.table d.table = .ok t ∧ c.index? d.name = none := by
  obtain ⟨_, _, h⟩ := bind_eq_ok.mp h
  obtain ⟨table, htable, h⟩ := bind_eq_ok.mp h
  simp only [bind, Except.bind] at h
  split at h
  · cases h
  · rename_i hfree
    split at h
    · cases h
    · exact ⟨by rw [htable, ← Except.ok.inj h], by simpa using hfree⟩

/-- Building a tree changes nothing. -/
theorem buildIndex_run {t : Table} {d : IndexDefinition} :
    (buildIndex t d).run.run c = (d.build (c.storage t) c.functions c.config, c) := by
  rw [buildIndex, run_get_bind]
  cases d.build (c.storage t) c.functions c.config <;> rfl

/-- Making an index is publishing one over a tree that the table's rows give. -/
theorem createIndex_run {d : IndexDefinition} :
    (createIndex d).run.run c =
      match c.prepared d with
      | .error e => (.error e, c)
      | .ok t =>
        match d.build (c.storage t) c.functions c.config with
        | .error e => (.error e, c)
        | .ok tree => (publishIndex t d tree).run.run c := by
  rw [createIndex, run_bind, prepareIndex_run]
  cases c.prepared d with
  | error e => rfl
  | ok t =>
    dsimp only
    rw [run_bind, buildIndex_run]
    cases d.build (c.storage t) c.functions c.config <;> rfl

/-- An index over a given tree is published if the definition passes its checks and the tree is
sound. -/
theorem attachIndex_run {d : IndexDefinition} {tree : Tree} :
    (attachIndex d tree).run.run c =
      match c.prepared d with
      | .error e => (.error e, c)
      | .ok t =>
        match tree.validate with
        | .error violation => (.error (.unsound violation), c)
        | .ok () => (publishIndex t d tree).run.run c := by
  rw [attachIndex, run_bind, prepareIndex_run]
  cases c.prepared d with
  | error e => rfl
  | ok t =>
    dsimp only
    cases tree.validate <;> rfl

/-- Dropping an index takes it off the first listed table that has one of its name. -/
theorem dropIndex_run {name : String} :
    (dropIndex name).run.run c =
      match c.listedEntries.find? fun entry => (entry.index? name).isSome with
      | none => (.error (.indexNotFound name), c)
      | some entry =>
        match entry.index? name with
        | none => (.error (.indexNotFound name), c)
        | some index => (.ok index, c.modifyEntry entry.table.id (·.unlink name)) := by
  rw [dropIndex, run_get_bind]
  cases c.listedEntries.find? fun entry => (entry.index? name).isSome with
  | none => rfl
  | some entry =>
    dsimp only
    cases entry.index? name <;> rfl

end Runs

/-- What can be done to a catalog. -/
inductive Operation
  /-- Creates a table. -/
  | createTable (name : String) (columns : List ColumnDefinition) (kind : TableKind)
    (storage : Storage)
  /-- Takes a table off the list. -/
  | dropTable (name : String)
  /-- Appends a row. -/
  | append (t : Table) (row : Row)
  /-- Publishes an index. -/
  | publishIndex (t : Table) (d : IndexDefinition) (tree : Tree)
  /-- Makes an index from the rows of its table. -/
  | createIndex (d : IndexDefinition)
  /-- Makes an index over a given tree. -/
  | attachIndex (d : IndexDefinition) (tree : Tree)
  /-- Takes an index off its table. -/
  | dropIndex (name : String)

/-- The catalog after an operation, whether it succeeds or not. -/
def after (c : Catalog) : Operation → Catalog
  | .createTable name columns kind storage => ((createTable name columns kind storage).run.run c).2
  | .dropTable name => ((dropTable name).run.run c).2
  | .append t row => ((append t row).run.run c).2
  | .publishIndex t d tree => ((publishIndex t d tree).run.run c).2
  | .createIndex d => ((createIndex d).run.run c).2
  | .attachIndex d tree => ((attachIndex d tree).run.run c).2
  | .dropIndex name => ((dropIndex name).run.run c).2

/-- The catalog is what operations have made of an empty one. -/
inductive Reachable : Catalog → Prop
  /-- A catalog begins empty. -/
  | empty (config : Config) (functions : Registry) : Reachable ⟨config, functions, #[], [], 0⟩
  /-- One more operation. -/
  | after {c : Catalog} (h : Reachable c) (operation : Operation) : Reachable (c.after operation)

/-- The catalog with a new table, listed last and without indexes. -/
def withTable (c : Catalog) (name : String) (columns : List ColumnDefinition) (kind : TableKind)
    (storage : Storage) : Catalog :=
  { c with
    entries := c.entries.push ⟨⟨c.entries.size, name, columns, kind⟩, storage, []⟩
    listed := c.listed ++ [c.entries.size] }

/-- The catalog with a new index, the last one of its table. -/
def withIndex (c : Catalog) (id : TableId) (index : Index) : Catalog :=
  { c.modifyEntry id (fun entry => { entry with indexes := entry.indexes ++ [index] }) with
    published := c.published + 1 }

/-- An index is published on the table that its definition names. -/
def Operation.Fits : Operation → Prop
  | .publishIndex t d _ => t.name = d.table
  | _ => True

/-- What becomes of a catalog by an operation. -/
inductive Change (c : Catalog) : Operation → Catalog → Prop
  /-- Nothing changes. -/
  | none (operation : Operation) : Change c operation c
  /-- A table of a free name is created. -/
  | create {name : String} {columns : List ColumnDefinition} {kind : TableKind}
      {storage : Storage} (hfree : c.listed? name = none) :
      Change c (.createTable name columns kind storage) (c.withTable name columns kind storage)
  /-- A listed table is taken off the list. -/
  | dropTable {name : String} {t : Table} (h : c.table name = .ok t) :
      Change c (.dropTable name) { c with listed := c.listed.filter (· != t.id) }
  /-- A table gets other rows. -/
  | append {t : Table} {row : Row} (storage : Storage) :
      Change c (.append t row) (c.modifyEntry t.id fun entry => { entry with storage })
  /-- The very table that is listed gets an index of a free name. -/
  | publish {operation : Operation} {t : Table} {d : IndexDefinition} {tree : Tree}
      (hfits : operation.Fits → t.name = d.table)
      (hlisted : (c.listed? t.name).map (·.table.id) = some t.id)
      (hfree : c.index? d.name = none) :
      Change c operation (c.withIndex t.id (.ofTree c.published d tree))
  /-- A listed table loses the first index of a name. -/
  | dropIndex {name : String} {entry : TableEntry}
      (h : (c.listedEntries.find? fun entry => (entry.index? name).isSome) = some entry) :
      Change c (.dropIndex name) (c.modifyEntry entry.table.id (·.unlink name))

section Changes

variable {c c' : Catalog} {operation : Operation} {t : Table} {d : IndexDefinition} {tree : Tree}

/-- The checks find the table that the definition names. -/
theorem name_of_prepared (h : c.prepared d = .ok t) : t.name = d.table :=
  (table_eq_ok (of_prepared h).1).1

/-- Publishing an index changes the catalog as an operation may that publishes one on the table of
its definition. -/
theorem change_publishIndex (hfits : operation.Fits → t.name = d.table) :
    c.Change operation ((publishIndex t d tree).run.run c).2 := by
  rw [publishIndex_run]
  split
  · exact .none operation
  · rename_i hlisted
    split
    · exact .none operation
    · rename_i hfree
      exact .publish hfits (not_not.mp hlisted) (by simpa using hfree)

/-- Every operation, whether it succeeds or not, changes the catalog in one of the ways that there
are for it. -/
theorem change_after (c : Catalog) (operation : Operation) :
    c.Change operation (c.after operation) := by
  -- An operation that fails leaves the catalog as it was.
  cases operation with
  | createTable name columns kind storage =>
    rw [after, createTable_run]
    split
    · exact .none _
    · rename_i hfree
      exact .create (by simpa using hfree)
  | dropTable name =>
    rw [after, dropTable_run]
    split
    · exact .none _
    · rename_i htable
      exact .dropTable htable
  | append t row =>
    rw [after, append_run]
    split
    · exact .none _
    · exact .append _
  | publishIndex t d tree => exact change_publishIndex id
  | createIndex d =>
    rw [after, createIndex_run]
    split
    · exact .none _
    · rename_i hprepared
      split
      · exact .none _
      · exact change_publishIndex fun _ => name_of_prepared hprepared
  | attachIndex d tree =>
    rw [after, attachIndex_run]
    split
    · exact .none _
    · rename_i hprepared
      split
      · exact .none _
      · exact change_publishIndex fun _ => name_of_prepared hprepared
  | dropIndex name =>
    rw [after, dropIndex_run]
    split
    · exact .none _
    · rename_i hfind
      split
      · exact .none _
      · exact .dropIndex hfind

end Changes

/-- Changing one table leaves every other one as it is. -/
theorem getElem?_modifyEntry {c : Catalog} {id i : TableId} {f : TableEntry → TableEntry}
    {entry : TableEntry} : (c.modifyEntry id f).entries[i]? = some entry ↔
      ∃ old, c.entries[i]? = some old ∧ entry = if i = id then f old else old := by
  rw [modifyEntry, Array.getElem?_modify]
  by_cases heq : i = id
  · simp only [heq, if_true, Option.map_eq_some_iff]
    exact exists_congr fun old => and_congr_right fun _ => eq_comm
  · simp [heq, Ne.symm heq]

/-- A new table gets the next place and leaves the others at theirs. -/
theorem getElem?_withTable {c : Catalog} {name : String} {columns : List ColumnDefinition}
    {kind : TableKind} {storage : Storage} {i : TableId} {entry : TableEntry} :
    (c.withTable name columns kind storage).entries[i]? = some entry ↔
      c.entries[i]? = some entry ∨
        i = c.entries.size ∧ entry = ⟨⟨c.entries.size, name, columns, kind⟩, storage, []⟩ := by
  rw [withTable, Array.getElem?_push]
  by_cases heq : i = c.entries.size
  · simp [heq, eq_comm]
  · simp [heq]

/-- Tables are where their numbers say, and indexes of a table are told apart by their names. -/
structure Kept (c : Catalog) : Prop where
  /-- A table is at the place of its number. -/
  id : ∀ {i : Nat} {entry : TableEntry}, c.entries[i]? = some entry → entry.table.id = i
  /-- No two indexes of a table have one name. -/
  nodup : ∀ {i : Nat} {entry : TableEntry}, c.entries[i]? = some entry →
    (entry.indexes.map (·.name)).Nodup

namespace Kept

variable {c : Catalog}

/-- A new table has a place of its own, and no index yet. -/
theorem withTable (h : c.Kept) (name : String) (columns : List ColumnDefinition)
    (kind : TableKind) (storage : Storage) : (c.withTable name columns kind storage).Kept := by
  refine ⟨fun hentry => ?_, fun hentry => ?_⟩
  · rcases getElem?_withTable.mp hentry with hold | ⟨rfl, rfl⟩
    · exact h.id hold
    · rfl
  · rcases getElem?_withTable.mp hentry with hold | ⟨_, rfl⟩
    · exact h.nodup hold
    · exact List.nodup_nil

/-- Changing one table keeps a catalog if it keeps the table and its indexes apart. -/
theorem modifyEntry (h : c.Kept) (id : TableId) (f : TableEntry → TableEntry)
    (hf : ∀ entry, c.entries[id]? = some entry →
      (f entry).table = entry.table ∧ ((f entry).indexes.map (·.name)).Nodup) :
    (c.modifyEntry id f).Kept := by
  refine ⟨fun hentry => ?_, fun hentry => ?_⟩
  · obtain ⟨old, hold, rfl⟩ := getElem?_modifyEntry.mp hentry
    split
    · rename_i heq
      rw [(hf old (heq ▸ hold)).1, h.id hold]
    · exact h.id hold
  · obtain ⟨old, hold, rfl⟩ := getElem?_modifyEntry.mp hentry
    split
    · rename_i heq
      exact (hf old (heq ▸ hold)).2
    · exact h.nodup hold

/-- An index that is free is not on a listed table. -/
theorem index?_eq_none (h : c.Kept) {t : Table} {name : String}
    (hlisted : (c.listed? t.name).map (·.table.id) = some t.id) (hfree : c.index? name = none)
    {entry : TableEntry} (hentry : c.entries[t.id]? = some entry) :
    ∀ index ∈ entry.indexes, index.name ≠ name := by
  obtain ⟨found, hfound, hid⟩ := Option.map_eq_some_iff.mp hlisted
  have hmem := List.mem_of_find?_eq_some hfound
  obtain ⟨id, _, hlookup⟩ := List.mem_filterMap.mp hmem
  have hsame : found = entry := by
    unfold entry? at hlookup
    rw [← h.id hlookup, hid, hentry] at hlookup
    exact (Option.some.inj hlookup).symm
  have hnone : entry.index? name = none := by
    rw [← hsame]
    exact List.findSome?_eq_none_iff.mp hfree found hmem
  intro index hindex hname
  exact List.find?_eq_none.mp hnone index hindex (by simp [hname])

/-- An index that is free can be added to those of a listed table. -/
theorem nodup_append (h : c.Kept) {t : Table} {index : Index}
    (hlisted : (c.listed? t.name).map (·.table.id) = some t.id)
    (hfree : c.index? index.name = none) {entry : TableEntry}
    (hentry : c.entries[t.id]? = some entry) :
    ((entry.indexes ++ [index]).map (·.name)).Nodup := by
  rw [List.map_append, List.nodup_append]
  refine ⟨h.nodup hentry, List.nodup_singleton _, ?_⟩
  intro name hname other hother heq
  obtain ⟨old, hold, rfl⟩ := List.mem_map.mp hname
  rw [List.map_singleton, List.mem_singleton] at hother
  exact h.index?_eq_none hlisted hfree hentry old hold (heq.trans hother)

end Kept

/-- Every change keeps a catalog. -/
theorem Change.kept {c c' : Catalog} {operation : Operation} (hchange : c.Change operation c')
    (h : c.Kept) : c'.Kept := by
  cases hchange with
  | none => exact h
  | create => exact h.withTable _ _ _ _
  | dropTable => exact ⟨h.id, h.nodup⟩
  | append =>
    exact h.modifyEntry _ _ fun entry hentry =>
      ⟨rfl, show (entry.indexes.map (·.name)).Nodup from h.nodup hentry⟩
  | @publish _ t d tree _ hlisted hfree =>
    have hkept := h.modifyEntry t.id (fun entry =>
      { entry with indexes := entry.indexes ++ [Index.ofTree c.published d tree] })
      fun entry hentry => ⟨rfl, h.nodup_append hlisted hfree hentry⟩
    exact ⟨hkept.id, hkept.nodup⟩
  | dropIndex =>
    exact h.modifyEntry _ _ fun entry hentry =>
      ⟨rfl, (h.nodup hentry).sublist ((List.eraseP_sublist).map _)⟩

/-- What operations lead to is kept. -/
theorem Reachable.kept {c : Catalog} (h : c.Reachable) : c.Kept := by
  induction h with
  | empty config functions => exact ⟨by simp, by simp⟩
  | after _ operation ih => exact (change_after _ operation).kept ih

/-- Among indexes that are told apart by their names, each is found by its own. -/
theorem find?_name_eq_some {indexes : List Index} (hnodup : (indexes.map (·.name)).Nodup)
    {index : Index} (hindex : index ∈ indexes) :
    indexes.find? (·.name == index.name) = some index := by
  cases hfind : indexes.find? (·.name == index.name) with
  | none => exact absurd (beq_self_eq_true index.name) (List.find?_eq_none.mp hfind index hindex)
  | some found =>
    have hname : found.name = index.name := by simpa using List.find?_some hfind
    rw [List.inj_on_of_nodup_map hnodup (List.mem_of_find?_eq_some hfind) hindex hname]

/-- An index that a table lists is found when a scan of it begins. -/
theorem Kept.isAttached {c : Catalog} (h : c.Kept) {t : Table} {index : Index}
    (hindex : index ∈ c.indexes t) (box : Box) :
    (⟨t, index, box⟩ : ScanBinding).isAttached c = true := by
  unfold indexes at hindex
  cases hentry : c.entry? t.id with
  | none =>
    rw [hentry] at hindex
    cases hindex
  | some entry =>
    rw [hentry] at hindex
    change index ∈ entry.indexes at hindex
    have hfind := find?_name_eq_some (h.nodup hentry) hindex
    rw [ScanBinding.isAttached, indexes, hentry, Option.map_some, Option.getD_some, hfind]
    exact beq_self_eq_true index.id

end Catalog

end SpatialIndex
