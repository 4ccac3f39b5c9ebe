import SpatialIndex.Proofs.Catalog.Operations

/-!
# Current indexes

Making an index succeeds exactly if the definition passes the checks and a tree can be built from
the rows of the table.  The index is then current until the rows change: its tree is over the keys
of the rows that the table has now.
-/

namespace SpatialIndex

namespace Catalog

variable {c c' : Catalog} {t : Table} {index : Index} {d : IndexDefinition}

/-- A catalog is another one with an index listed last of those of its table. -/
structure Lists (c' c : Catalog) (t : Table) (index : Index) : Prop where
  /-- The settings are the same. -/
  config : c'.config = c.config
  /-- The functions are the same. -/
  functions : c'.functions = c.functions
  /-- The tables are the same but for the index. -/
  entries : c'.entries =
    c.entries.modify t.id fun entry => { entry with indexes := entry.indexes ++ [index] }

namespace Lists

/-- Listing an index leaves the rows of its table alone. -/
theorem storage_eq (h : c'.Lists c t index) : c'.storage t = c.storage t := by
  unfold storage entry?
  rw [h.entries, Array.getElem?_modify, if_pos rfl]
  cases c.entries[t.id]? <;> rfl

/-- The new index comes after those that its table had. -/
theorem indexes_eq (h : c'.Lists c t index) :
    c'.indexes t = ((c.entry? t.id).map fun entry => entry.indexes ++ [index]).getD [] := by
  unfold indexes entry?
  rw [h.entries, Array.getElem?_modify, if_pos rfl]
  cases c.entries[t.id]? <;> rfl

/-- An index of the table is one that it had or the new one. -/
theorem mem_indexes (h : c'.Lists c t index) {other : Index} (hother : other ∈ c'.indexes t) :
    other ∈ c.indexes t ∨ other = index := by
  rw [h.indexes_eq] at hother
  unfold indexes
  cases hentry : c.entry? t.id with
  | none =>
    rw [hentry] at hother
    cases hother
  | some entry =>
    rw [hentry] at hother
    exact (List.mem_append.mp hother).imp_right List.mem_singleton.mp

end Lists

/-- Publishing an index right after its definition has passed the checks succeeds: what is checked
again has not changed by then. -/
theorem publishIndex_of_prepared (hprepared : c.prepared d = .ok t) (tree : Tree) :
    (publishIndex t d tree).run.run c =
      (.ok (Index.ofTree c.published d tree),
        c.withIndex t.id (Index.ofTree c.published d tree)) := by
  obtain ⟨htable, hfree⟩ := of_prepared hprepared
  obtain ⟨hname, hlisted⟩ := table_eq_ok htable
  have hid : (c.listed? t.name).map (·.table.id) = some t.id := by
    rw [hname]
    simpa using congrArg (Option.map (·.id)) hlisted
  rw [publishIndex_run, if_neg (not_not.mpr hid), if_neg (by simp [hfree])]
  rfl

/-- An index whose definition passes the checks and whose tree can be built is made. -/
theorem createIndex_of_build {tree : Tree} (hprepared : c.prepared d = .ok t)
    (hbuild : d.build (c.storage t) c.functions c.config = .ok tree) :
    ((createIndex d).run.run c).1 = .ok (Index.ofTree c.published d tree) ∧
      (c.after (.createIndex d)).Lists c t (Index.ofTree c.published d tree) := by
  rw [after, createIndex_run, hprepared]
  dsimp only
  rw [hbuild]
  dsimp only
  rw [publishIndex_of_prepared hprepared]
  exact ⟨rfl, rfl, rfl, rfl⟩

/-- Making an index fails and changes nothing, or its definition has passed the checks and its
tree has been built. -/
theorem createIndex_cases (c : Catalog) (d : IndexDefinition) :
    (∃ e, (createIndex d).run.run c = (.error e, c)) ∨
      ∃ t tree, c.prepared d = .ok t ∧
        d.build (c.storage t) c.functions c.config = .ok tree := by
  rw [createIndex_run]
  cases c.prepared d with
  | error e => exact .inl ⟨e, rfl⟩
  | ok t =>
    dsimp only
    cases hbuild : d.build (c.storage t) c.functions c.config with
    | error e => exact .inl ⟨e, rfl⟩
    | ok tree => exact .inr ⟨t, tree, rfl, hbuild⟩

/-- Making an index that succeeds has built its tree from the rows of its table. -/
theorem createIndex_eq_ok (htable : c.table d.table = .ok t)
    (h : ((createIndex d).run.run c).1 = .ok index) :
    d.build (c.storage t) c.functions c.config = .ok index.tree ∧ index.keys = d.keys := by
  rcases createIndex_cases c d with ⟨e, he⟩ | ⟨t', tree, hprepared, hbuild⟩
  · rw [he] at h
    cases h
  · cases htable.symm.trans (of_prepared hprepared).1
    rw [(createIndex_of_build hprepared hbuild).1] at h
    rw [← Except.ok.inj h]
    exact ⟨hbuild, rfl⟩

/-- The index was made from exactly the rows that its table has now, with a key that reads columns
only through bindings. -/
def IsCurrent (c : Catalog) (t : Table) (index : Index) : Prop :=
  ∃ (before : Catalog) (d : IndexDefinition),
    before.config = c.config ∧ before.functions = c.functions ∧ before.storage t = c.storage t ∧
      before.table d.table = .ok t ∧ ((createIndex d).run.run before).1 = .ok index ∧
        ∀ key ∈ d.keys, key.references = []

/-- The key of a current index has a value on every row, and searching the index finds the rows
whose key meets the query. -/
theorem IsCurrent.exists_key (h : c.IsCurrent t index) :
    ∃ key, index.keys = [key] ∧ key.references = [] ∧
      (∀ row ∈ (c.storage t).rows.toList, ∃ v, key.evaluate c.functions row = .ok v) ∧
      ∀ query : Box, query.isValid = true → (index.tree.search query).Perm
        (((c.storage t).numbered.filter fun r => key.keyMeets c.functions query r.2).map
          (·.1)) := by
  obtain ⟨before, d, hconfig, hfunctions, hstorage, htable, hcreate, hreferences⟩ := h
  obtain ⟨hbuild, hkeys⟩ := createIndex_eq_ok htable hcreate
  rw [hconfig, hfunctions, hstorage] at hbuild
  obtain ⟨key, hkey, hvalues, hpack⟩ := IndexDefinition.build_eq_ok hbuild hreferences
  refine ⟨key, hkeys.trans hkey, hreferences key (by simp [hkey]), ?_, ?_⟩
  · intro row hrow
    rw [← Storage.map_snd_numbered] at hrow
    obtain ⟨r, hr, rfl⟩ := List.mem_map.mp hrow
    exact hvalues r hr
  · intro query hquery
    exact IndexDefinition.search_of_build hquery hpack

/-- Whether an index is current depends on the rows of its table, not on other indexes. -/
theorem IsCurrent.of_storage_eq (h : c.IsCurrent t index) (hconfig : c'.config = c.config)
    (hfunctions : c'.functions = c.functions) (hstorage : c'.storage t = c.storage t) :
    c'.IsCurrent t index := by
  obtain ⟨before, d, hconfig', hfunctions', hstorage', hrest⟩ := h
  exact ⟨before, d, hconfig'.trans hconfig.symm, hfunctions'.trans hfunctions.symm,
    hstorage'.trans hstorage.symm, hrest⟩

/-- Making an index on a table with current indexes leaves them current, and so is the new one. -/
theorem isCurrent_after_createIndex (h : ∀ index ∈ c.indexes t, c.IsCurrent t index)
    (htable : c.table d.table = .ok t) (hreferences : ∀ key ∈ d.keys, key.references = []) :
    ∀ index ∈ (c.after (.createIndex d)).indexes t,
      (c.after (.createIndex d)).IsCurrent t index := by
  rcases createIndex_cases c d with ⟨e, he⟩ | ⟨t', tree, hprepared, hbuild⟩
  · have hsame : c.after (.createIndex d) = c := by rw [after, he]
    rw [hsame]
    exact h
  · cases htable.symm.trans (of_prepared hprepared).1
    obtain ⟨hmade, hlists⟩ := createIndex_of_build hprepared hbuild
    intro index hindex
    have hcurrent : c.IsCurrent t index := by
      rcases hlists.mem_indexes hindex with hold | rfl
      · exact h index hold
      · exact ⟨c, d, rfl, rfl, rfl, htable, hmade, hreferences⟩
    exact hcurrent.of_storage_eq hlists.config hlists.functions hlists.storage_eq

end Catalog

end SpatialIndex
