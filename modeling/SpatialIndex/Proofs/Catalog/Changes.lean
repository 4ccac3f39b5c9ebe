import SpatialIndex.Proofs.Catalog.Names

/-!
# What an operation changes

Every change that an operation makes to a catalog keeps names apart.  A table keeps its number, and
one that is off the list stays off it.  An index can be found until it is dropped or its table is.
-/

namespace SpatialIndex

namespace Catalog

/-- The operation drops an index of this name or a table of the name of its table. -/
def Operation.Drops (operation : Operation) (index : Index) : Prop :=
  operation = .dropIndex index.name ∨ operation = .dropTable index.table

variable {c c' : Catalog} {id i : TableId} {entry : TableEntry} {index : Index} {name : String}
  {t : Table} {d : IndexDefinition} {tree : Tree} {operation : Operation}

/-- A table is listed after one table was changed if it was before. -/
theorem isListed_modifyEntry {f : TableEntry → TableEntry} :
    (c.modifyEntry id f).IsListed i entry ↔
      ∃ old, c.IsListed i old ∧ entry = if i = id then f old else old := by
  simp only [IsListed, getElem?_modifyEntry, and_assoc, exists_and_left]
  rfl

/-- A change of one table keeps names apart if the table stays the same and what indexes it gets
have free names and name it. -/
theorem Orderly.modifyEntry (h : c.Orderly) {f : TableEntry → TableEntry}
    (htable : ∀ entry, (f entry).table = entry.table)
    (hnodup : ∀ entry, c.entries[id]? = some entry → ((f entry).indexes.map (·.name)).Nodup)
    (hindexes : ∀ entry, c.entries[id]? = some entry → ∀ index ∈ (f entry).indexes,
      index ∈ entry.indexes ∨ index.table = entry.table.name ∧ c.index? index.name = none) :
    (c.modifyEntry id f).Orderly := by
  have hsame (i : TableId) (old : TableEntry) :
      (if i = id then f old else old).table = old.table := by
    split
    · exact htable old
    · rfl
  have horigin {i : TableId} {old : TableEntry} {index : Index} (hold : c.entries[i]? = some old)
      (hindex : index ∈ (if i = id then f old else old).indexes) : index ∈ old.indexes ∨
        i = id ∧ index.table = old.table.name ∧ c.index? index.name = none := by
    split at hindex
    · rename_i heq
      exact (hindexes old (heq ▸ hold) index hindex).imp_right fun hnew => ⟨heq, hnew⟩
    · exact .inl hindex
  -- Of two indexes of one name both are old or both are new, since a new one has a free name.
  refine ⟨h.toKept.modifyEntry id f fun old hold => ⟨htable old, hnodup old hold⟩, ?_,
    h.listed_nodup, ?_, ?_, ?_⟩
  · intro i hi
    rw [Catalog.modifyEntry, Array.size_modify]
    exact h.listed_lt i hi
  · intro i j entry entry' hi hj hname
    obtain ⟨old, hold, rfl⟩ := isListed_modifyEntry.mp hi
    obtain ⟨old', hold', rfl⟩ := isListed_modifyEntry.mp hj
    rw [hsame, hsame] at hname
    exact h.table_unique hold hold' hname
  · intro i j entry entry' index index' hi hj hindex hindex' hname
    obtain ⟨old, hold, rfl⟩ := isListed_modifyEntry.mp hi
    obtain ⟨old', hold', rfl⟩ := isListed_modifyEntry.mp hj
    rcases horigin hold.2 hindex with hmem | ⟨hid, _, hfree⟩
    · rcases horigin hold'.2 hindex' with hmem' | ⟨_, _, hfree'⟩
      · exact h.index_unique hold hold' hmem hmem' hname
      · exact absurd hname (index?_eq_none_iff.mp hfree' i old hold index hmem)
    · rcases horigin hold'.2 hindex' with hmem' | ⟨hid', _, _⟩
      · exact absurd hname.symm (index?_eq_none_iff.mp hfree j old' hold' index' hmem')
      · exact hid.trans hid'.symm
  · intro i entry hentry index hindex
    obtain ⟨old, hold, rfl⟩ := getElem?_modifyEntry.mp hentry
    rw [hsame]
    rcases horigin hold hindex with hmem | ⟨_, htable, _⟩
    · exact h.owner hold index hmem
    · exact htable

/-- Creating a table of a free name keeps names apart. -/
theorem Orderly.withTable (h : c.Orderly) (hfree : c.listed? name = none)
    (columns : List ColumnDefinition) (kind : TableKind) (storage : Storage) :
    (c.withTable name columns kind storage).Orderly := by
  have hlisted {i : TableId} {entry : TableEntry}
      (hentry : (c.withTable name columns kind storage).IsListed i entry) :
      c.IsListed i entry ∨
        i = c.entries.size ∧ entry.table.name = name ∧ entry.indexes = [] := by
    rcases getElem?_withTable.mp hentry.2 with hold | ⟨hsize, rfl⟩
    · refine .inl ⟨?_, hold⟩
      have hlt := (Array.getElem?_eq_some_iff.mp hold).1
      rcases List.mem_append.mp hentry.1 with hmem | hmem
      · exact hmem
      · exact absurd (List.mem_singleton.mp hmem) (Nat.ne_of_lt hlt)
    · exact .inr ⟨hsize, rfl, rfl⟩
  have hother {i : TableId} {entry : TableEntry} (hentry : c.IsListed i entry) :
      entry.table.name ≠ name := by
    have hnone := List.find?_eq_none.mp hfree entry (mem_listedEntries.mpr ⟨i, hentry⟩)
    simpa using hnone
  -- The new table has no index, so that indexes are told apart as before.
  refine ⟨h.toKept.withTable name columns kind storage, ?_, ?_, ?_, ?_, ?_⟩
  · intro id hid
    rw [Catalog.withTable, Array.size_push]
    rcases List.mem_append.mp hid with hmem | hmem
    · exact Nat.lt_succ_of_lt (h.listed_lt id hmem)
    · exact Nat.lt_succ_of_le (Nat.le_of_eq (List.mem_singleton.mp hmem))
  · refine List.nodup_append.mpr ⟨h.listed_nodup, List.nodup_singleton _, ?_⟩
    intro id hid other hother
    rw [List.mem_singleton.mp hother]
    exact Nat.ne_of_lt (h.listed_lt id hid)
  · intro i j entry entry' hi hj hname
    rcases hlisted hi with hold | ⟨hsize, hnew, _⟩
    · rcases hlisted hj with hold' | ⟨_, hnew, _⟩
      · exact h.table_unique hold hold' hname
      · exact absurd (hname.trans hnew) (hother hold)
    · rcases hlisted hj with hold' | ⟨hsize', _⟩
      · exact absurd (hname.symm.trans hnew) (hother hold')
      · exact hsize.trans hsize'.symm
  · intro i j entry entry' index index' hi hj hindex hindex' hname
    rcases hlisted hi with hold | ⟨_, _, hnil⟩
    · rcases hlisted hj with hold' | ⟨_, _, hnil⟩
      · exact h.index_unique hold hold' hindex hindex' hname
      · rw [hnil] at hindex'
        cases hindex'
    · rw [hnil] at hindex
      cases hindex
  · intro i entry hentry index hindex
    rcases getElem?_withTable.mp hentry with hold | ⟨_, rfl⟩
    · exact h.owner hold index hindex
    · cases hindex

/-- Publishing an index of a free name on the table that it names keeps names apart. -/
theorem Orderly.withIndex (h : c.Orderly) (hname : t.name = index.table)
    (hlisted : (c.listed? t.name).map (·.table.id) = some t.id)
    (hfree : c.index? index.name = none) : (c.withIndex t.id index).Orderly := by
  have hmodified : (c.modifyEntry t.id fun entry =>
      { entry with indexes := entry.indexes ++ [index] }).Orderly := by
    refine h.modifyEntry (fun _ => rfl)
      (fun _ hentry => h.nodup_append hlisted hfree hentry) ?_
    intro entry hentry other hother
    refine (List.mem_append.mp hother).imp_right fun hnew => ?_
    rw [List.mem_singleton.mp hnew]
    obtain ⟨found, hfound, hfoundName⟩ := h.exists_isListed hlisted
    cases hfound.2.symm.trans hentry
    exact ⟨hname.symm.trans hfoundName.symm, hfree⟩
  exact ⟨⟨hmodified.id, hmodified.nodup⟩, hmodified.listed_lt, hmodified.listed_nodup,
    hmodified.table_unique, hmodified.index_unique, hmodified.owner⟩

/-- Every change keeps names apart. -/
theorem Change.orderly (hchange : c.Change operation c') (hfits : operation.Fits)
    (h : c.Orderly) : c'.Orderly := by
  cases hchange with
  | none => exact h
  | create hfree => exact h.withTable hfree _ _ _
  | dropTable =>
    exact h.relist (h.listed_nodup.filter _) fun id hid => List.mem_of_mem_filter hid
  | append storage =>
    exact h.modifyEntry (fun _ => rfl)
      (fun entry hentry => show (entry.indexes.map (·.name)).Nodup from h.nodup hentry)
      fun _ _ _ hindex => .inl hindex
  | publish hname hlisted hfree => exact h.withIndex (hname hfits) hlisted hfree
  | @dropIndex name entry _ =>
    have hsub (old : TableEntry) : (old.unlink name).indexes.Sublist old.indexes :=
      List.eraseP_sublist
    exact h.modifyEntry (fun _ => rfl) (fun old hold => (h.nodup hold).sublist ((hsub old).map _))
      fun old _ index hindex => .inl ((hsub old).subset hindex)

/-- A catalog comes after another one: no table has changed its number, and none that was off the
list has come back. -/
structure Follows (c' c : Catalog) : Prop where
  /-- The tables of before are at their places. -/
  table : ∀ {id : TableId} {entry : TableEntry}, c.entries[id]? = some entry →
    ∃ entry', c'.entries[id]? = some entry' ∧ entry'.table = entry.table
  /-- What is listed of them was listed before. -/
  listed : ∀ {id : TableId}, id < c.entries.size → id ∈ c'.listed → id ∈ c.listed

namespace Follows

/-- A catalog comes after itself. -/
theorem refl (c : Catalog) : c.Follows c := ⟨fun h => ⟨_, h, rfl⟩, fun _ h => h⟩

/-- A table that has been created keeps its place. -/
theorem size_le (h : c'.Follows c) (hid : id < c.entries.size) : id < c'.entries.size := by
  obtain ⟨entry, hentry, _⟩ := h.table (Array.getElem?_eq_getElem hid)
  exact (Array.getElem?_eq_some_iff.mp hentry).1

/-- A catalog that comes after one that comes after a third comes after the third. -/
theorem trans {c'' : Catalog} (h' : c''.Follows c') (h : c'.Follows c) : c''.Follows c := by
  constructor
  · intro id entry hentry
    obtain ⟨entry', hentry', htable⟩ := h.table hentry
    obtain ⟨entry'', hentry'', htable'⟩ := h'.table hentry'
    exact ⟨entry'', hentry'', htable'.trans htable⟩
  · intro id hid hlisted
    exact h.listed hid (h'.listed (h.size_le hid) hlisted)

/-- A table that is listed has been listed at all times since it was created. -/
theorem listed?_table (hfollows : c'.Follows c) (h : c.Orderly) (h' : c'.Orderly)
    (hlisted : (c'.listed? t.name).map (·.table) = some t) (hcreated : t.id < c.entries.size) :
    (c.listed? t.name).map (·.table) = some t := by
  obtain ⟨now, hnow, rfl⟩ := h'.listed?_table_iff.mp hlisted
  have hthen := Array.getElem?_eq_getElem hcreated
  -- At the place of its number the same table was then, and it cannot have come back to the list.
  obtain ⟨now', hnow', htable⟩ := hfollows.table hthen
  cases hnow.2.symm.trans hnow'
  exact h.listed?_table_iff.mpr ⟨_, ⟨hfollows.listed hcreated hnow.1, hthen⟩, htable.symm⟩

/-- A change of one table that keeps what never changes of it leads to a catalog that comes
after. -/
theorem modifyEntry (c : Catalog) (id : TableId) {f : TableEntry → TableEntry}
    (hf : ∀ entry, (f entry).table = entry.table) : (c.modifyEntry id f).Follows c := by
  refine ⟨fun {i} {entry} hentry => ?_, fun _ h => h⟩
  refine ⟨_, getElem?_modifyEntry.mpr ⟨entry, hentry, rfl⟩, ?_⟩
  split
  · exact hf entry
  · rfl

end Follows

/-- Whatever an operation does, the catalog that it leaves comes after the one before. -/
theorem Change.follows (hchange : c.Change operation c') : c'.Follows c := by
  cases hchange with
  | none => exact .refl c
  | create =>
    constructor
    · intro id entry hentry
      exact ⟨entry, getElem?_withTable.mpr (.inl hentry), rfl⟩
    · intro id hid hlisted
      rcases List.mem_append.mp hlisted with hmem | hmem
      · exact hmem
      · exact absurd (List.mem_singleton.mp hmem) (Nat.ne_of_lt hid)
  | dropTable => exact ⟨fun h => ⟨_, h, rfl⟩, fun _ h => List.mem_of_mem_filter h⟩
  | append => exact .modifyEntry c _ fun _ => rfl
  | @publish _ t d tree =>
    have hmodified : (c.modifyEntry t.id fun entry =>
        { entry with indexes := entry.indexes ++ [Index.ofTree c.published d tree] }).Follows c :=
      .modifyEntry c t.id fun _ => rfl
    exact ⟨hmodified.table, hmodified.listed⟩
  | dropIndex => exact .modifyEntry c _ fun _ => rfl

/-- An index that can be found still can after a change that drops neither it nor its table. -/
theorem Change.index?_eq_some (hchange : c.Change operation c') (hfits : operation.Fits)
    (h : c.Orderly) (hindex : c.index? index.name = some index) (hkeeps : ¬operation.Drops index) :
    c'.index? index.name = some index := by
  obtain ⟨id, entry, hlisted, hmem, _⟩ := h.index?_eq_some_iff.mp hindex
  have hmodified {i : TableId} {f : TableEntry → TableEntry}
      (hf : index ∈ (f entry).indexes) : ∃ id entry, (c.modifyEntry i f).IsListed id entry ∧
        index ∈ entry.indexes ∧ index.name = index.name := by
    refine ⟨id, _, isListed_modifyEntry.mpr ⟨entry, hlisted, rfl⟩, ?_, rfl⟩
    split
    · exact hf
    · exact hmem
  refine (hchange.orderly hfits h).index?_eq_some_iff.mpr ?_
  cases hchange with
  | none => exact ⟨id, entry, hlisted, hmem, rfl⟩
  | create =>
    exact ⟨id, entry, ⟨List.mem_append_left _ hlisted.1,
      getElem?_withTable.mpr (.inl hlisted.2)⟩, hmem, rfl⟩
  | @dropTable name t htable =>
    refine ⟨id, entry, ⟨List.mem_filter.mpr ⟨hlisted.1, ?_⟩, hlisted.2⟩, hmem, rfl⟩
    rw [bne_iff_ne]
    rintro rfl
    -- A table of this number is the one that is dropped, so it has the name that the index gives.
    obtain ⟨hname, hlookup⟩ := table_eq_ok htable
    obtain ⟨found, hfound, rfl⟩ := Option.map_eq_some_iff.mp hlookup
    obtain ⟨⟨i, hi⟩, _⟩ := h.listed?_eq_some_iff.mp hfound
    rw [h.id hi.2] at hlisted
    cases hi.2.symm.trans hlisted.2
    exact hkeeps (.inr (by rw [h.owner hi.2 index hmem, hname]))
  | append => exact hmodified hmem
  | publish => exact hmodified (List.mem_append_left _ hmem)
  | @dropIndex name entry' =>
    refine hmodified ((List.mem_eraseP_of_neg ?_).mpr hmem)
    rw [beq_iff_eq]
    rintro rfl
    exact hkeeps (.inl rfl)

/-- Publishing succeeds for the very table that is listed and a name that is free. -/
theorem of_publishIndex (h : ((publishIndex t d tree).run.run c).1 = .ok index) :
    (c.listed? t.name).map (·.table.id) = some t.id ∧ c.index? d.name = none ∧
      index = Index.ofTree c.published d tree := by
  rw [publishIndex_run] at h
  split at h
  · cases h
  · rename_i hlisted
    split at h
    · cases h
    · rename_i hfree
      exact ⟨not_not.mp hlisted, by simpa using hfree, (Except.ok.inj h).symm⟩

/-- An index that was published is found by its name. -/
theorem Orderly.index?_of_publishIndex (h : c.Orderly) (hname : t.name = d.table)
    (hok : ((publishIndex t d tree).run.run c).1 = .ok index) :
    (c.after (.publishIndex t d tree)).index? index.name = some index := by
  obtain ⟨hlisted, hfree, rfl⟩ := of_publishIndex hok
  obtain ⟨entry, hentry, _⟩ := h.exists_isListed hlisted
  rw [after, publishIndex_run, if_neg (not_not.mpr hlisted), if_neg (by simp [hfree])]
  refine (h.withIndex hname hlisted hfree).index?_eq_some_iff.mpr
    ⟨t.id, _, isListed_modifyEntry.mpr ⟨entry, hentry, rfl⟩, ?_, rfl⟩
  rw [if_pos rfl]
  exact List.mem_append_right _ (List.mem_singleton_self _)

end Catalog

end SpatialIndex
