import SpatialIndex.Proofs.Catalog.Creation
import SpatialIndex.Proofs.Scan

/-!
# Which rows an index covers

An index covers the rows that its table had when it was made, as far as their keys have a box.  Rows
keep their ids and values, and an index stays on its table until one of its name is dropped,
whatever else is done to the catalog.  So a scan through it finds the same rows later, with the
values that they have then, and none of those that were added.
-/

namespace SpatialIndex

/-- The key of a row has a box that meets the query. -/
def KeyReader.covers (registry : Registry) (key : Expression) (query : Box) (row : Row) : Bool :=
  (rowBox? registry key row).any (·.intersects query)

/-- A table that has been used further: it has the rows that it had, maybe with others after them,
and it still has an index if it had it before. -/
structure TableEntry.Extends (later earlier : TableEntry) (index : Index) : Prop where
  /-- The rows that were there come first. -/
  rows : earlier.storage.rows.toList <+: later.storage.rows.toList
  /-- The index has not gone. -/
  index : index ∈ earlier.indexes → index ∈ later.indexes

/-- A table extends itself. -/
theorem TableEntry.Extends.refl (entry : TableEntry) (index : Index) : entry.Extends entry index :=
  ⟨List.prefix_refl _, fun h => h⟩

namespace Catalog

variable {c c' : Catalog} {d : IndexDefinition} {t : Table} {id : TableId} {index : Index}
  {entry : TableEntry} {operation : Operation} {operations : List Operation}

/-- The catalog after several operations. -/
def afterAll (c : Catalog) (operations : List Operation) : Catalog := operations.foldl after c

/-- Operations on a catalog that operations have made of an empty one make another such catalog. -/
theorem Reachable.afterAll (h : c.Reachable) (operations : List Operation) :
    (c.afterAll operations).Reachable := by
  induction operations generalizing c with
  | nil => exact h
  | cons operation operations ih => exact ih (h.after operation)

/-- A catalog comes after another one, and in between no table has lost rows or the index. -/
def Keeps (c' c : Catalog) (index : Index) : Prop :=
  ∀ (id : TableId) (entry : TableEntry), c.entries[id]? = some entry →
    ∃ entry', c'.entries[id]? = some entry' ∧ entry'.Extends entry index

namespace Keeps

/-- A catalog keeps what it has. -/
theorem refl (c : Catalog) (index : Index) : c.Keeps c index :=
  fun _ entry h => ⟨entry, h, .refl entry index⟩

/-- What is kept up to a catalog and from there to another is kept up to that one. -/
theorem trans {c'' : Catalog} (h' : c''.Keeps c' index) (h : c'.Keeps c index) :
    c''.Keeps c index := by
  intro id entry hentry
  obtain ⟨entry', hentry', hextends⟩ := h id entry hentry
  obtain ⟨entry'', hentry'', hextends'⟩ := h' id entry' hentry'
  exact ⟨entry'', hentry'', hextends.rows.trans hextends'.rows,
    fun hindex => hextends'.index (hextends.index hindex)⟩

/-- Changing one table keeps rows and the index if it keeps those of this table. -/
theorem modifyEntry {f : TableEntry → TableEntry}
    (hf : ∀ entry, c.entries[id]? = some entry → (f entry).Extends entry index) :
    (c.modifyEntry id f).Keeps c index := by
  intro i entry hentry
  refine ⟨_, getElem?_modifyEntry.mpr ⟨entry, hentry, rfl⟩, ?_⟩
  split
  · rename_i heq
    exact hf entry (heq ▸ hentry)
  · exact .refl entry index

/-- The rows that a table had are still its first ones. -/
theorem rows (h : c'.Keeps c index) (t : Table) :
    (c.storage t).rows.toList <+: (c'.storage t).rows.toList := by
  unfold storage entry?
  cases hentry : c.entries[t.id]? with
  | none => exact List.nil_prefix
  | some entry =>
    obtain ⟨entry', hentry', hextends⟩ := h t.id entry hentry
    rw [hentry']
    exact hextends.rows

/-- A table that had the index still has it. -/
theorem mem_indexes (h : c'.Keeps c index) (hindex : index ∈ c.indexes t) :
    index ∈ c'.indexes t := by
  unfold indexes entry? at hindex ⊢
  cases hentry : c.entries[t.id]? with
  | none =>
    rw [hentry] at hindex
    cases hindex
  | some entry =>
    rw [hentry] at hindex
    obtain ⟨entry', hentry', hextends⟩ := h t.id entry hentry
    rw [hentry']
    exact hextends.index hindex

end Keeps

/-- Appending a row keeps the rows that were there. -/
theorem keeps_after_append (c : Catalog) (t : Table) (row : Row) (index : Index) :
    (c.after (.append t row)).Keeps c index := by
  rw [after, append_run]
  split
  · exact .refl c index
  · rename_i storage rowId happend
    refine .modifyEntry fun entry hentry => ⟨?_, fun h => h⟩
    have hstorage : c.storage t = entry.storage := by
      unfold Catalog.storage entry?
      rw [hentry]
      rfl
    unfold Storage.append at happend
    split at happend
    · cases happend
    · cases happend
      rw [← hstorage, Array.toList_push]
      exact List.prefix_append _ _

/-- Every change but dropping an index of this name keeps rows and the index. -/
theorem keeps_after (c : Catalog) (hkeep : operation ≠ .dropIndex index.name) :
    (c.after operation).Keeps c index := by
  have hchange := change_after c operation
  generalize hafter : c.after operation = c' at hchange
  cases hchange with
  | none => exact .refl c index
  | create => exact fun _ _ h => ⟨_, getElem?_withTable.mpr (.inl h), .refl _ index⟩
  | dropTable => exact fun _ _ h => ⟨_, h, .refl _ index⟩
  | append storage =>
    rw [← hafter]
    exact keeps_after_append c _ _ index
  | @publish _ t d tree =>
    have hmodified : (c.modifyEntry t.id fun entry =>
        { entry with indexes := entry.indexes ++ [Index.ofTree c.published d tree] }).Keeps
          c index :=
      .modifyEntry fun entry _ => ⟨List.prefix_refl _, fun h => List.mem_append_left _ h⟩
    exact hmodified
  | @dropIndex name =>
    refine .modifyEntry fun entry _ => ⟨List.prefix_refl _, fun h => ?_⟩
    have hne : ¬(index.name == name) = true := fun heq =>
      hkeep (by rw [beq_iff_eq.mp heq])
    exact (List.mem_eraseP_of_neg (p := fun other => other.name == name) hne).mpr h

/-- Operations of which none drops an index of this name keep rows and the index. -/
theorem keeps_afterAll (c : Catalog) (hkeep : .dropIndex index.name ∉ operations) :
    (c.afterAll operations).Keeps c index := by
  induction operations generalizing c with
  | nil => exact .refl c index
  | cons operation operations ih =>
    rw [List.mem_cons, not_or] at hkeep
    exact (ih _ hkeep.2).trans (keeps_after c (Ne.symm hkeep.1))

/-- An index that has been made is on its table, the rows of which are the same. -/
theorem Kept.mem_indexes_of_createIndex (h : c.Kept) (htable : c.table d.table = .ok t)
    (hcreate : ((createIndex d).run.run c).1 = .ok index) :
    index ∈ (c.after (.createIndex d)).indexes t ∧
      (c.after (.createIndex d)).storage t = c.storage t := by
  rcases createIndex_cases c d with ⟨e, he⟩ | ⟨t', tree, hprepared, hbuild⟩
  · rw [he] at hcreate
    cases hcreate
  · cases htable.symm.trans (of_prepared hprepared).1
    obtain ⟨hmade, hlists⟩ := createIndex_of_build hprepared hbuild
    cases hmade.symm.trans hcreate
    refine ⟨?_, hlists.storage_eq⟩
    obtain ⟨entry, hlisted, rfl, _⟩ := h.isListed_of_table htable
    rw [hlists.indexes_eq, entry?, hlisted.2]
    exact List.mem_append_right _ (List.mem_singleton_self _)

/-- What a scan through an index is to give: the ids that the index finds, each once, are those of
the rows it was made from whose key meets the query, and every one of them comes with the values
that its row has now. -/
structure Covers (c' : Catalog) (registry : Registry) (s : Storage) (key : Expression)
    (b : ScanBinding) (columns : List Nat) (rows : List (RowId × Row)) : Prop where
  /-- The index finds the rows whose key meets the query. -/
  found : (b.index.tree.search b.box).Perm
    ((s.numbered.filter fun r => KeyReader.covers registry key b.box r.2).map (·.1))
  /-- It finds no row twice. -/
  once : (b.index.tree.search b.box).Nodup
  /-- The rows that were there then are there still. -/
  kept : s.rows.toList <+: (c'.storage b.table).rows.toList
  /-- Each row found comes with its id and its values of now. -/
  fetched : List.Forall₂ ((c'.storage b.table).IsFetched columns)
    (b.index.tree.search b.box) rows

/-- An index covers exactly the rows that it was made from, as far as their key has a box.  After
any operations that do not drop an index of its name, be it that rows have been added, a scan
through it in batches of any size gives these rows, each once, with the values that they have
then. -/
theorem collect_of_createIndex (hreachable : c.Reachable) (htable : c.table d.table = .ok t)
    (hfits : (c.storage t).FitsIds) (hcreate : ((createIndex d).run.run c).1 = .ok index)
    (hkeep : .dropIndex index.name ∉ operations) {query : Box} (hquery : query.isValid = true)
    {columns : List Nat}
    (hcolumns : ∀ row ∈ (c.storage t).rows.toList, ∀ column ∈ columns, column < row.length)
    (batchSize : Nat) :
    ∃ key scan rows, d.keys = [key] ∧
      IndexScan.start ((c.after (.createIndex d)).afterAll operations) ⟨t, index, query⟩ columns
        batchSize = .ok scan ∧
      scan.collect ((c.after (.createIndex d)).afterAll operations) = .ok rows ∧
      ((c.after (.createIndex d)).afterAll operations).Covers c.functions (c.storage t) key
        ⟨t, index, query⟩ columns rows := by
  obtain ⟨hbuild, _⟩ := createIndex_eq_ok htable hcreate
  obtain ⟨key, hkey, _, _, hpack⟩ := IndexDefinition.build_eq_ok_iff.mp hbuild
  have hfound := IndexDefinition.search_of_pack hquery hpack
  have honce : (index.tree.search query).Nodup :=
    hfound.nodup_iff.mpr
      ((Storage.nodup_ids hfits).sublist (List.filter_sublist.map _))
  -- The index is still on the table, and the rows that it was made from are still the first ones.
  obtain ⟨hlisted, hstorage⟩ := hreachable.kept.mem_indexes_of_createIndex htable hcreate
  have hkeeps := keeps_afterAll (c.after (.createIndex d)) hkeep
  have hinitial := hkeeps.rows t
  rw [hstorage] at hinitial
  have hattached := ((hreachable.after (.createIndex d)).afterAll operations).kept.isAttached
    (hkeeps.mem_indexes hlisted) query
  -- So each id that the search finds is still that of the row it was made from.
  have hreadable : ∀ id ∈ index.tree.search query, ∃ row,
      (((c.after (.createIndex d)).afterAll operations).storage t).row? id = some row ∧
        ∀ column ∈ columns, column < row.length := by
    intro id hid
    obtain ⟨r, hr, rfl⟩ := List.mem_map.mp (hfound.mem_iff.mp hid)
    have hnumbered := (List.mem_filter.mp hr).1
    refine ⟨r.2, Storage.row?_of_prefix hinitial (Storage.row?_of_mem_numbered hfits hnumbered),
      hcolumns r.2 ?_⟩
    rw [← Storage.map_snd_numbered]
    exact List.mem_map_of_mem hnumbered
  obtain ⟨rows, hrows, hfetched⟩ := Storage.fetch_of_forall hreadable
  obtain ⟨scan, hstart, hcollect⟩ := IndexScan.start_collect columns batchSize hattached hrows
  exact ⟨key, scan, rows, IndexDefinition.keys_of_key_eq_ok hkey, hstart, hcollect, hfound, honce,
    hinitial, hfetched⟩

end Catalog

open Places in
/-- A place that is added after the index was made is not found through it, although it is the same
as the one that is. -/
theorem Catalog.collect_places :
    ∃ index scan rows, ((createIndex definition).run.run unindexed).1 = .ok index ∧
      IndexScan.start ((unindexed.after (.createIndex definition)).afterAll
        [.append Places.table [.geometry (.point near)]])
        ⟨Places.table, index, .ofPoint (.ofInt 1) (.ofInt 1)⟩ [0] 1 = .ok scan ∧
      scan.collect ((unindexed.after (.createIndex definition)).afterAll
        [.append Places.table [.geometry (.point near)]]) = .ok rows ∧
      rows.map (·.1) = [0] := by
  have hreachable : unindexed.Reachable := (Reachable.empty _ _).after _
  have htable := (of_prepared prepared_eq).1
  have hrows : unindexed.storage Places.table = Places.storage := by
    rw [unindexed_eq]
    rfl
  obtain ⟨tree, hbuild⟩ := exists_build
  obtain ⟨hcreate, _⟩ := createIndex_of_build prepared_eq (by rw [unindexed_eq]; exact hbuild)
  have hkeep : Operation.dropIndex (Index.ofTree unindexed.published definition tree).name ∉
      [Operation.append Places.table [.geometry (.point near)]] := by simp
  have hquery : (Box.ofPoint (.ofInt 1) (.ofInt 1)).isValid = true := by decide +kernel
  have hfits : (unindexed.storage Places.table).FitsIds := by
    rw [hrows]
    show (2 : Int) ≤ Int64.maxValue.toInt
    decide
  have hcolumns : ∀ row ∈ (unindexed.storage Places.table).rows.toList, ∀ column ∈ [0],
      column < row.length := by
    rw [hrows]
    decide
  obtain ⟨key, scan, rows, hkeys, hstart, hcollect, hcovers⟩ :=
    collect_of_createIndex hreachable htable hfits hcreate hkeep hquery hcolumns 1
  refine ⟨_, scan, rows, hcreate, hstart, hcollect, ?_⟩
  obtain rfl : Places.key = key := by simpa [definition] using hkeys
  have hcovered : ((Places.storage.numbered.filter fun r =>
      KeyReader.covers .spatial Places.key (.ofPoint (.ofInt 1) (.ofInt 1)) r.2).map (·.1)) =
        [0] := by
    simp only [KeyReader.covers, KeyReader.rowBox?, KeyReader.rowKey, ofKey_eq]
    decide +kernel
  have hfound := hcovers.found
  rw [hrows, show unindexed.functions = .spatial by rw [unindexed_eq], hcovered,
    List.perm_singleton] at hfound
  have hfetched := hcovers.fetched
  rw [hfound, List.forall₂_cons_left_iff] at hfetched
  obtain ⟨r, rest, hr, hrest, rfl⟩ := hfetched
  rw [List.forall₂_nil_left_iff.mp hrest, List.map_singleton, hr.1]

end SpatialIndex
