import SpatialIndex.Proofs.Catalog.Current
import SpatialIndex.Proofs.Catalog.Names
import SpatialIndex.Proofs.Expression.Parts
import SpatialIndex.Proofs.Tree.Acceptance

/-!
# When an index can be made

An index can be made exactly if its definition fits the catalog and the key of every row of its
table can be indexed.  Attaching one asks for a sound tree in place of the rows.  The new index is
then the last one of its table, and nothing else has changed.  If it cannot be made, nothing has
changed.
-/

namespace SpatialIndex

/-- A row that can be laid out has all of the columns. -/
theorem lt_length_of_projectRow {columns : List Nat} {row out : Row}
    (h : projectRow columns row = .ok out) {column : Nat} (hmem : column ∈ columns) :
    column < row.length := by
  obtain ⟨hall, _⟩ := mapM_eq_ok_iff_filterMap.mp h
  obtain ⟨value, hvalue⟩ := hall column hmem
  split at hvalue
  · rename_i hget
    exact (List.getElem?_eq_some_iff.mp hget).1
  · cases hvalue

namespace Packing

/-- Entries are packed exactly if they are accepted. -/
theorem exists_pack_iff {p : Packing} {entries : List Entry} :
    (∃ tree, p.pack entries = .ok tree) ↔ p.Accepts entries := by
  have hsettles := (p.settles_packSorted (p.sortKey.sort entries)).perm
    (p.sortKey.sort_perm entries)
  constructor
  · rintro ⟨tree, htree⟩
    by_contra hrefuses
    obtain ⟨fault, hfault, _⟩ := hsettles.refused hrefuses
    cases htree.symm.trans hfault
  · intro haccepts
    obtain ⟨tree, htree, _⟩ := hsettles.accepted haccepts
    exact ⟨tree, htree⟩

end Packing

/-- The rows can be indexed by a key: each of them has the columns that the key reads, and there a
key that can be indexed, and no more of them have a box than can be counted in 32 bits. -/
structure Storage.Indexable (s : Storage) (registry : Registry) (key : Expression) : Prop where
  /-- Every row has the columns and a key that is null, empty or of a valid box. -/
  rows : ∀ row ∈ s.rows.toList, (∀ b ∈ key.columnBindings, b.column < row.length) ∧
    ∃ v, KeyReader.rowKey registry key row = .ok v ∧ v.IsIndexable
  /-- The rows with a box can be counted. -/
  count : (s.rows.toList.filter fun row =>
    (KeyReader.rowBox? registry key row).isSome).length ≤ 4294967295

namespace KeyReader

variable {registry : Registry} {key : Expression}

/-- A row whose key has a value has the columns that the key reads. -/
theorem lt_length_of_rowKey {row : Row} {v : Value} (h : rowKey registry key row = .ok v) :
    ∀ b ∈ key.columnBindings, b.column < row.length := by
  obtain ⟨out, hrow, _⟩ := bind_eq_ok.mp h
  exact fun b hb =>
    lt_length_of_projectRow hrow (mem_ascendingColumns.mpr (List.mem_map_of_mem hb))

/-- The box of a key that can be indexed is valid. -/
theorem isValid_of_rowBox? {row : Row} {v : Value} (h : rowKey registry key row = .ok v)
    (hv : v.IsIndexable) {box : Box} (hbox : rowBox? registry key row = some box) :
    box.isValid = true := by
  rw [rowBox?, h] at hbox
  cases v with
  | geometry g => exact hv box hbox
  | _ => cases hbox

/-- There are as many entries as rows whose key has a box. -/
theorem length_filterMap_boxedRow (box? : Row → Option Box) (s : Storage) :
    (s.numbered.filterMap (boxedRow box?)).length =
      (s.rows.toList.filter fun row => (box? row).isSome).length := by
  rw [List.length_filterMap_eq_countP, ← Storage.map_snd_numbered, ← List.countP_eq_length_filter,
    List.countP_map]
  congr 1
  funext r
  rw [boxedRow, Option.isSome_map]
  rfl

end KeyReader

namespace IndexDefinition

variable {d : IndexDefinition} {key : Expression} {storage : Storage} {registry : Registry}
  {config : Config}

/-- A definition has a key when it names one expression, which is a shape and consistent. -/
theorem key_eq_ok_iff : d.key = .ok key ↔
    d.keys = [key] ∧ key.type = .geometry ∧ key.isConsistent = true := by
  unfold IndexDefinition.key
  split
  · rename_i only hkeys
    rw [hkeys, List.cons.injEq, and_iff_left rfl]
    split
    · rename_i htype
      exact iff_of_false nofun fun ⟨heq, h, _⟩ => htype (heq ▸ h)
    · rename_i htype
      split
      · rename_i hvolatile
        exact iff_of_false nofun fun ⟨heq, _, h⟩ => by simp [heq, h] at hvolatile
      · rename_i hconsistent
        constructor
        · rintro ⟨⟩
          exact ⟨rfl, not_not.mp htype, by simpa using hconsistent⟩
        · rintro ⟨rfl, _, _⟩
          rfl
  · rename_i hkeys
    exact iff_of_false nofun fun ⟨h, _⟩ => hkeys key h

/-- A tree can be built exactly if the definition and the settings pass their checks and the rows
can be indexed. -/
theorem exists_build_iff : (∃ tree, d.build storage registry config = .ok tree) ↔
    ∃ key, d.key = .ok key ∧ config.validate = .ok () ∧ storage.Indexable registry key := by
  simp only [build_eq_ok_iff]
  constructor
  · rintro ⟨tree, key, hkey, hconfig, hrows, hpack⟩
    refine ⟨key, hkey, hconfig, ?_, ?_⟩
    · intro row hrow
      rw [← Storage.map_snd_numbered] at hrow
      obtain ⟨r, hr, rfl⟩ := List.mem_map.mp hrow
      obtain ⟨v, hv, hindexable⟩ := hrows r hr
      exact ⟨KeyReader.lt_length_of_rowKey hv, v, hv, hindexable⟩
    · rw [← KeyReader.length_filterMap_boxedRow]
      exact (Packing.exists_pack_iff.mp ⟨tree, hpack⟩).count
  · rintro ⟨key, hkey, hconfig, hindexable⟩
    have hrows : ∀ r ∈ storage.numbered, ∃ v, KeyReader.rowKey registry key r.2 = .ok v ∧
        v.IsIndexable := by
      intro r hr
      refine (hindexable.rows r.2 ?_).2
      rw [← Storage.map_snd_numbered]
      exact List.mem_map_of_mem hr
    have hfanout : isFanout config.fanout = true := by
      unfold Config.validate at hconfig
      split at hconfig
      · cases hconfig
      · rename_i hfanout
        simpa using hfanout
    -- What can be indexed has valid boxes, few enough of them to be packed.
    have haccepts : config.packing.Accepts
        (storage.numbered.filterMap (KeyReader.boxedRow (KeyReader.rowBox? registry key))) := by
      refine ⟨isFanout_iff.mp hfanout, ?_, fun e he => ?_⟩
      · rw [KeyReader.length_filterMap_boxedRow]
        exact hindexable.count
      · obtain ⟨r, hr, hboxed⟩ := List.mem_filterMap.mp he
        obtain ⟨box, hbox, rfl⟩ := Option.map_eq_some_iff.mp hboxed
        obtain ⟨v, hv, hv'⟩ := hrows r hr
        exact KeyReader.isValid_of_rowBox? hv hv' hbox
    obtain ⟨tree, hpack⟩ := Packing.exists_pack_iff.mpr haccepts
    exact ⟨tree, key, hkey, hconfig, hrows, hpack⟩

end IndexDefinition

namespace Catalog

variable {c : Catalog} {d : IndexDefinition} {t : Table}

/-- What the definition of an index has to be in a catalog: its one key is a shape and calls no
volatile function, its table is there, its name is free, and its columns are columns of the
table. -/
structure Admits (c : Catalog) (d : IndexDefinition) (t : Table) : Prop where
  /-- There is exactly one key, a shape, and no function anywhere in it is volatile. -/
  key : ∃ key, d.keys = [key] ∧ key.type = .geometry ∧ ∀ f ∈ key.signatures, f.volatile = false
  /-- The table of this name. -/
  table : c.table d.table = .ok t
  /-- No table has an index of this name. -/
  free : ∀ id entry, c.IsListed id entry → ∀ index ∈ entry.indexes, index.name ≠ d.name
  /-- Every column of the definition is a column of the table. -/
  columns : ∀ column ∈ d.columns, column < t.columns.length

/-- The outcomes of making an index, each with the catalog that it leaves. -/
inductive Creates (c : Catalog) (d : IndexDefinition) : Except Error Index × Catalog → Prop
  /-- The index is made and becomes the last one of its table. -/
  | made {entry : TableEntry} (tree : Tree) (hlisted : c.IsListed entry.table.id entry)
    (hname : entry.table.name = d.table) :
    Creates c d (.ok (.ofTree c.published d tree),
      c.withIndex entry.table.id (.ofTree c.published d tree))
  /-- Nothing is changed. -/
  | refused (cause : Error) : Creates c d (.error cause, c)

/-- A definition is valid when it names one expression, which is a shape and calls no volatile
function. -/
theorem validate_eq_ok_iff : d.validate = .ok () ↔
    ∃ key, d.keys = [key] ∧ key.type = .geometry ∧ ∀ f ∈ key.signatures, f.volatile = false := by
  simp only [IndexDefinition.validate, map_eq_ok, and_true, IndexDefinition.key_eq_ok_iff,
    Expression.isConsistent_iff]

/-- A definition passes the checks exactly if the catalog admits it. -/
theorem prepared_eq_ok_iff : c.prepared d = .ok t ↔ c.Admits d t := by
  have hcolumns {table : Table} :
      (d.columns.find? fun column => table.columns.length ≤ column) = none ↔
        ∀ column ∈ d.columns, column < table.columns.length := by
    rw [List.find?_eq_none]
    exact forall₂_congr fun column _ => by simp
  constructor
  · intro h
    obtain ⟨hvalidate, htable, hrest⟩ : d.validate = .ok () ∧ c.table d.table = .ok t ∧
        c.index? d.name = none ∧
          (d.columns.find? fun column => t.columns.length ≤ column) = none := by
      obtain ⟨_, hvalidate, h⟩ := bind_eq_ok.mp h
      obtain ⟨table, htable, h⟩ := bind_eq_ok.mp h
      simp only [bind, Except.bind] at h
      split at h
      · cases h
      · rename_i hfree
        split at h
        · cases h
        · rename_i hnone
          cases h
          exact ⟨hvalidate, htable, by simpa using hfree, hnone⟩
    exact ⟨validate_eq_ok_iff.mp hvalidate, htable, index?_eq_none_iff.mp hrest.1,
      hcolumns.mp hrest.2⟩
  · intro h
    have hfree := index?_eq_none_iff.mpr h.free
    refine bind_eq_ok.mpr ⟨(), validate_eq_ok_iff.mpr h.key, bind_eq_ok.mpr ⟨t, h.table, ?_⟩⟩
    simp only [hfree, hcolumns.mpr h.columns]
    rfl

/-- A table that is found by its name is listed under its number. -/
theorem Kept.isListed_of_table (h : c.Kept) {name : String} (htable : c.table name = .ok t) :
    ∃ entry, c.IsListed entry.table.id entry ∧ entry.table = t ∧ entry.table.name = name := by
  obtain ⟨hname, hlisted⟩ := table_eq_ok htable
  obtain ⟨entry, hentry, rfl⟩ := Option.map_eq_some_iff.mp hlisted
  obtain ⟨id, hid⟩ := mem_listedEntries.mp (List.mem_of_find?_eq_some hentry)
  refine ⟨entry, ?_, rfl, hname⟩
  rw [h.id hid.2]
  exact hid

/-- Publishing an index that has been prepared makes it. -/
theorem Kept.creates_publishIndex (h : c.Kept) (hprepared : c.prepared d = .ok t) (tree : Tree) :
    c.Creates d ((publishIndex t d tree).run.run c) := by
  obtain ⟨entry, hlisted, rfl, hname⟩ := h.isListed_of_table (of_prepared hprepared).1
  rw [publishIndex_of_prepared hprepared]
  exact .made tree hlisted hname

/-- Making an index succeeds exactly if its definition is admitted and a tree can be built. -/
theorem exists_createIndex_iff : (∃ index, ((createIndex d).run.run c).1 = .ok index) ↔
    ∃ t key, c.Admits d t ∧ d.keys = [key] ∧ c.config.validate = .ok () ∧
      (c.storage t).Indexable c.functions key := by
  constructor
  · rintro ⟨index, hindex⟩
    rcases createIndex_cases c d with ⟨e, he⟩ | ⟨t, tree, hprepared, htree⟩
    · rw [he] at hindex
      cases hindex
    · obtain ⟨key, hkey, hconfig, hrows⟩ := IndexDefinition.exists_build_iff.mp ⟨tree, htree⟩
      exact ⟨t, key, prepared_eq_ok_iff.mp hprepared,
        (IndexDefinition.key_eq_ok_iff.mp hkey).1, hconfig, hrows⟩
  · rintro ⟨t, key, hadmits, hkeys, hconfig, hrows⟩
    obtain ⟨key', hkeys', htype, hsignatures⟩ := hadmits.key
    obtain rfl : key = key' := by simpa using hkeys.symm.trans hkeys'
    have hkey := IndexDefinition.key_eq_ok_iff.mpr
      ⟨hkeys, htype, key.isConsistent_iff.mpr hsignatures⟩
    obtain ⟨tree, htree⟩ := IndexDefinition.exists_build_iff.mpr ⟨key, hkey, hconfig, hrows⟩
    exact ⟨_, (createIndex_of_build (prepared_eq_ok_iff.mpr hadmits) htree).1⟩

/-- Attaching an index succeeds exactly if its definition is admitted and its tree is sound. -/
theorem exists_attachIndex_iff {tree : Tree} :
    (∃ index, ((attachIndex d tree).run.run c).1 = .ok index) ↔
      ∃ t, c.Admits d t ∧ tree.validate = .ok () := by
  rw [attachIndex_run]
  constructor
  · rintro ⟨index, hindex⟩
    split at hindex
    · cases hindex
    · rename_i t hprepared
      split at hindex
      · cases hindex
      · exact ⟨t, prepared_eq_ok_iff.mp hprepared, ‹_›⟩
  · rintro ⟨t, hadmits, hsound⟩
    have hprepared := prepared_eq_ok_iff.mpr hadmits
    rw [hprepared]
    dsimp only
    rw [hsound]
    dsimp only
    rw [publishIndex_of_prepared hprepared]
    exact ⟨_, rfl⟩

/-- Making an index from the rows of a table has one of the outcomes of making an index. -/
theorem Kept.creates_createIndex (h : c.Kept) (d : IndexDefinition) :
    c.Creates d ((createIndex d).run.run c) := by
  rw [createIndex_run]
  split
  · exact .refused _
  · rename_i hprepared
    split
    · exact .refused _
    · exact h.creates_publishIndex hprepared _

/-- Making an index over a given tree has one of the outcomes of making an index. -/
theorem Kept.creates_attachIndex (h : c.Kept) (d : IndexDefinition) (tree : Tree) :
    c.Creates d ((attachIndex d tree).run.run c) := by
  rw [attachIndex_run]
  split
  · exact .refused _
  · rename_i hprepared
    split
    · exact .refused _
    · exact h.creates_publishIndex hprepared tree

/-- Making an index succeeds exactly if its definition is admitted, the settings are in range and
the rows of its table can be indexed; attaching one succeeds exactly if its definition is admitted
and its tree is sound.  Both add the index to its table and change nothing else, or else fail and
change nothing. -/
theorem createIndex_exact (hreachable : c.Reachable) (d : IndexDefinition) :
    ((∃ index, ((createIndex d).run.run c).1 = .ok index) ↔
      ∃ t key, c.Admits d t ∧ d.keys = [key] ∧ c.config.validate = .ok () ∧
        (c.storage t).Indexable c.functions key) ∧
    (∀ tree, (∃ index, ((attachIndex d tree).run.run c).1 = .ok index) ↔
      ∃ t, c.Admits d t ∧ tree.validate = .ok ()) ∧
    c.Creates d ((createIndex d).run.run c) ∧
    ∀ tree, c.Creates d ((attachIndex d tree).run.run c) :=
  ⟨exists_createIndex_iff, fun _ => exists_attachIndex_iff,
    hreachable.kept.creates_createIndex d, hreachable.kept.creates_attachIndex d⟩

end Catalog

namespace Places

/-- A point to search for. -/
def near : Coordinate := ⟨.ofInt 1, .ofInt 1⟩

/-- Another point. -/
def far : Coordinate := ⟨.ofInt 5, .ofInt 5⟩

/-- A table of places. -/
def table : Table := ⟨0, "places", [⟨"place", .geometry⟩], .native⟩

/-- The two points as rows of the table. -/
def storage : Storage := ⟨1, #[[.geometry (.point near)], [.geometry (.point far)]]⟩

/-- The key of the index, the place itself. -/
def key : Expression := .column ⟨0, 0⟩ .geometry

/-- An index on the places. -/
def definition : IndexDefinition := ⟨"by_place", table.name, [key], [0]⟩

/-- A catalog with the table alone. -/
def unindexed : Catalog :=
  (⟨{}, .spatial, #[], [], 0⟩ : Catalog).after
    (.createTable table.name table.columns table.kind storage)

/-- The catalog after the index was made. -/
def catalog : Catalog := unindexed.after (.createIndex definition)

/-- The catalog with the table alone, written out. -/
theorem unindexed_eq : unindexed = ⟨{}, .spatial, #[⟨table, storage, []⟩], [0], 0⟩ := rfl

/-- The definition passes all checks in the catalog with the table alone. -/
theorem prepared_eq : unindexed.prepared definition = .ok table := by
  rw [unindexed_eq]
  rfl

/-- The place is the only column that the key reads. -/
theorem ofKey_eq : KeyReader.ofKey key = ⟨.reference 0 .geometry, [0]⟩ :=
  KeyReader.ofKey_column 0 0 .geometry

/-- Both rows have an entry. -/
theorem extract_eq : ∃ summary entries,
    (KeyReader.ofKey key).extract .spatial storage = (.ok summary, entries) ∧
      entries.length = 2 ∧ ∀ e ∈ entries, e.box.isValid = true := by
  rw [ofKey_eq]
  generalize hextract : (⟨.reference 0 .geometry, [0]⟩ : KeyReader).extract .spatial storage =
    extraction
  have hsummary : extraction.1.toOption = some ⟨2, 2, 0, 0⟩ := by
    rw [← hextract]
    decide +kernel
  have hentries : extraction.2.length = 2 ∧ ∀ e ∈ extraction.2, e.box.isValid = true := by
    rw [← hextract]
    decide +kernel
  obtain ⟨_ | summary, entries⟩ := extraction
  · cases hsummary
  · exact ⟨summary, entries, rfl, hentries⟩

/-- The tree of the index can be built from the two points. -/
theorem exists_build : ∃ tree, definition.build storage .spatial {} = .ok tree := by
  obtain ⟨summary, entries, hextract, hlength, hvalid⟩ := extract_eq
  have hperm := SortKey.minX.sort_perm entries
  have hsize : (SortKey.minX.sort entries).length < UInt32.size := by
    rw [hperm.length_eq, hlength]
    decide
  obtain ⟨tree, hpack⟩ : ∃ tree, ({} : Config).packing.pack entries = .ok tree :=
    ⟨_, Packing.packSorted_eq_ok_iff.mpr
      ⟨by decide, hsize, fun e he => hvalid e (hperm.subset he), rfl⟩⟩
  refine ⟨tree, bind_eq_ok.mpr ⟨key, rfl, bind_eq_ok.mpr ⟨(), rfl, ?_⟩⟩⟩
  rw [hextract]
  exact bind_eq_ok.mpr ⟨summary, rfl, mapError_eq_ok.mpr hpack⟩

/-- The catalog after the index was made is the one before with the index. -/
theorem exists_lists : ∃ index, catalog.Lists unindexed table index := by
  obtain ⟨tree, hbuild⟩ := exists_build
  exact ⟨_, (Catalog.createIndex_of_build prepared_eq (by rw [unindexed_eq]; exact hbuild)).2⟩

end Places

open Places in
/-- An index on the places is made, and none on a table that is not there, which leaves the catalog
as it is. -/
theorem Catalog.createIndex_exact_places :
    unindexed.Reachable ∧ (∃ index, ((createIndex definition).run.run unindexed).1 = .ok index) ∧
      ∃ cause, (createIndex { definition with table := "roads" }).run.run unindexed =
        (.error cause, unindexed) := by
  have hreachable : unindexed.Reachable := (Reachable.empty _ _).after _
  obtain ⟨key, hkey, hconfig, hrows⟩ := IndexDefinition.exists_build_iff.mp exists_build
  refine ⟨hreachable, (createIndex_exact hreachable definition).1.mpr
    ⟨Places.table, key, prepared_eq_ok_iff.mp prepared_eq,
      (IndexDefinition.key_eq_ok_iff.mp hkey).1, hconfig, hrows⟩, ?_⟩
  obtain ⟨hiff, _, hcreates, _⟩ :=
    createIndex_exact hreachable { definition with table := "roads" }
  generalize (createIndex { definition with table := "roads" }).run.run unindexed = outcome
    at hiff hcreates ⊢
  cases hcreates with
  | refused cause => exact ⟨cause, rfl⟩
  | made tree =>
    obtain ⟨t, _, hadmits, _⟩ := hiff.mp ⟨_, rfl⟩
    have hmissing : unindexed.table "roads" = .error (.tableNotFound "roads") := by
      rw [unindexed_eq]
      rfl
    cases hmissing.symm.trans hadmits.table

end SpatialIndex
