import SpatialIndex.Proofs.Catalog.Coverage
import SpatialIndex.Proofs.Tree.Acceptance
import SpatialIndex.Proofs.Tree.Estimate

/-!
# Estimates of index scans

What a plan expects of an index scan is what the index estimates, but no more than the table has
rows.  An index has no more entries than its table had rows when it was made, and a scan fetches
the row of every entry at most once, so it never gives more rows than were expected.
-/

namespace SpatialIndex

namespace IndexDefinition

variable {d : IndexDefinition} {storage : Storage} {registry : Registry} {config : Config}
  {tree : Tree}

/-- A tree built from rows has at most one entry for each. -/
theorem size_le_of_build (h : d.build storage registry config = .ok tree) :
    tree.size ≤ storage.cardinality := by
  obtain ⟨key, _, _, _, hpack⟩ := build_eq_ok_iff.mp h
  have hentries := congrArg List.length (Packing.entries_of_packSorted hpack)
  rw [(SortKey.sort_perm _ _).length_eq, KeyReader.length_filterMap_boxedRow,
    Array.length_toList] at hentries
  rw [Tree.size, hentries, Storage.cardinality, ← Array.length_toList]
  exact List.length_filter_le _ _

/-- The estimates of a tree that was built from rows bound what its searches find. -/
theorem estimateBounds_of_build (h : d.build storage registry config = .ok tree) :
    tree.EstimateBounds := by
  obtain ⟨_, _, _, _, hpack⟩ := build_eq_ok_iff.mp h
  exact Packing.estimateBounds_of_packSorted hpack

end IndexDefinition

namespace Catalog

variable {c : Catalog} {d : IndexDefinition} {t : Table} {index : Index}
  {planning scanning : List Operation}

/-- What a plan expects of an index scan bounds the rows that the scan gives when it is carried
out. -/
structure BoundsScan (planned scanned : Catalog) (b : ScanBinding) : Prop where
  /-- The scan can be opened. -/
  starts : ∀ (columns : List Nat) (batchSize : Nat),
    ∃ scan, IndexScan.start scanned b columns batchSize = .ok scan
  /-- It gives no more rows than were expected, whatever happens to the catalog between the
  batches. -/
  delivered : ∀ (columns : List Nat) (batchSize : Nat) (scan : IndexScan),
    IndexScan.start scanned b columns batchSize = .ok scan →
      ∀ rows, scan.Delivers rows → rows.length ≤ b.cardinality planned
  /-- So there are no more when all are collected. -/
  collected : ∀ (columns : List Nat) (batchSize : Nat) (scan : IndexScan),
    IndexScan.start scanned b columns batchSize = .ok scan →
      ∀ rows, scan.collect scanned = .ok rows → rows.length ≤ b.cardinality planned
  /-- No more rows are expected than the table has. -/
  table : b.cardinality planned ≤ planned.cardinality b.table

/-- A scan through an attached index gives no more rows than were expected, if the index has at most
one entry for each row of the table. -/
theorem boundsScan_of_isAttached {planned scanned : Catalog} {b : ScanBinding}
    (hattached : b.isAttached scanned = true) (hbounds : b.index.tree.EstimateBounds)
    (hsize : b.index.tree.size ≤ planned.cardinality b.table) : BoundsScan planned scanned b := by
  have hstart (columns : List Nat) (batchSize : Nat) :
      IndexScan.start scanned b columns batchSize =
        .ok ⟨b.table, columns, b.index.tree.search b.box, 0, max batchSize 1⟩ := if_pos hattached
  have hdelivered : ∀ (columns : List Nat) (batchSize : Nat) (scan : IndexScan),
      IndexScan.start scanned b columns batchSize = .ok scan →
        ∀ rows, scan.Delivers rows → rows.length ≤ b.cardinality planned := by
    intro columns batchSize scan hscan rows hrows
    rw [hstart] at hscan
    cases hscan
    have hestimate := hbounds.count_le b.box
    refine Nat.le_trans hrows.length_le (Nat.le_min.mpr ⟨hestimate, ?_⟩)
    calc b.index.tree.countIntersecting b.box
        ≤ (b.index.tree.estimate b.box).toNat := hestimate
      _ ≤ b.index.tree.size := hbounds.le_size b.box
      _ ≤ planned.cardinality b.table := hsize
  exact ⟨fun columns batchSize => ⟨_, hstart columns batchSize⟩, hdelivered,
    fun columns batchSize scan hscan rows hrows =>
      hdelivered columns batchSize scan hscan rows (IndexScan.delivers_of_collectBatches hrows),
    Nat.min_le_right _ _⟩

/-- A scan through an index that was made may be planned and carried out after any operations that
do not drop an index of its name, be they the same or not. -/
theorem boundsScan_of_createIndex (hreachable : c.Reachable) (htable : c.table d.table = .ok t)
    (hcreate : ((createIndex d).run.run c).1 = .ok index)
    (hplanning : .dropIndex index.name ∉ planning) (hscanning : .dropIndex index.name ∉ scanning)
    (query : Box) :
    BoundsScan ((c.after (.createIndex d)).afterAll planning)
      ((c.after (.createIndex d)).afterAll scanning) ⟨t, index, query⟩ := by
  obtain ⟨hbuild, _⟩ := createIndex_eq_ok htable hcreate
  obtain ⟨hlisted, hstorage⟩ := hreachable.kept.mem_indexes_of_createIndex htable hcreate
  have hgrown := ((keeps_afterAll (c.after (.createIndex d)) hplanning).rows t).length_le
  rw [hstorage, Array.length_toList, Array.length_toList] at hgrown
  have hscanned := keeps_afterAll (c.after (.createIndex d)) hscanning
  have hattached := ((hreachable.after (.createIndex d)).afterAll scanning).kept.isAttached
    (hscanned.mem_indexes hlisted) query
  exact boundsScan_of_isAttached hattached (IndexDefinition.estimateBounds_of_build hbuild)
    (Nat.le_trans (IndexDefinition.size_le_of_build hbuild) hgrown)

/-- Estimates bound results.  In a tree that passes its check, with boxes free of NaN, and in every
packed tree, a search finds no more than was estimated for its query, which is no more than all
entries, and a wider query lowers neither of the two.  A scan through an index that was made gives
no more rows than its binding leads to expect, which are no more than its table has, be it that
rows have been added before the one or the other. -/
theorem estimates_bound_results :
    (∀ t : Tree, t.validate = .ok () → (∀ e ∈ t.entries.toList, e.box.IsNumeric) →
      t.EstimateBounds) ∧
    (∀ (p : Packing) (entries : List Entry) (t : Tree),
      p.pack entries = .ok t ∨ p.packSorted entries = .ok t → t.EstimateBounds) ∧
    ∀ (c : Catalog) (d : IndexDefinition) (t : Table) (index : Index)
      (planning scanning : List Operation) (query : Box), c.Reachable →
      c.table d.table = .ok t → ((createIndex d).run.run c).1 = .ok index →
      .dropIndex index.name ∉ planning → .dropIndex index.name ∉ scanning →
      BoundsScan ((c.after (.createIndex d)).afterAll planning)
        ((c.after (.createIndex d)).afterAll scanning) ⟨t, index, query⟩ := by
  refine ⟨fun t => Tree.estimateBounds_of_validate, ?_, ?_⟩
  · rintro p entries t (h | h)
    · exact Packing.estimateBounds_of_packSorted h
    · exact Packing.estimateBounds_of_packSorted h
  · intro c d t index planning scanning query hreachable htable hcreate hplanning hscanning
    exact boundsScan_of_createIndex hreachable htable hcreate hplanning hscanning query

end Catalog

open Places in
/-- The estimates of a tree that packing does not give, of a packed tree, and of an index on the
places whose table grows before a scan through it is planned and once more before it is opened. -/
theorem Catalog.estimates_bound_results_places :
    Tree.crossedLeaves.EstimateBounds ∧
    (∃ t, (⟨2, 2, 0, .minX⟩ : Packing).pack [⟨.ofPoint (.ofInt 1) (.ofInt 1), 7⟩] = .ok t ∧
      t.EstimateBounds) ∧
    ∃ index, ((createIndex definition).run.run unindexed).1 = .ok index ∧
      BoundsScan ((unindexed.after (.createIndex definition)).afterAll
          [.append Places.table [.geometry (.point near)]])
        ((unindexed.after (.createIndex definition)).afterAll
          [.append Places.table [.geometry (.point near)],
            .append Places.table [.geometry (.point far)]])
        ⟨Places.table, index, .ofPoint (.ofInt 1) (.ofInt 1)⟩ := by
  obtain ⟨hsound, hpacked, hscan⟩ := estimates_bound_results
  have hnumeric : ∀ e ∈ Tree.crossedLeaves.entries.toList, e.box.IsNumeric := by
    intro e he
    simp only [Tree.crossedLeaves, List.mem_cons, List.not_mem_nil, or_false] at he
    rcases he with rfl | rfl | rfl <;>
      exact ⟨by decide +kernel, by decide +kernel, by decide +kernel, by decide +kernel⟩
  have haccepts : (⟨2, 2, 0, .minX⟩ : Packing).Accepts [⟨.ofPoint (.ofInt 1) (.ofInt 1), 7⟩] :=
    ⟨by decide, by decide, by decide +kernel⟩
  obtain ⟨t, ht, _⟩ := (haccepts.perm (SortKey.minX.sort_perm _).symm).packSorted
  have hreachable : unindexed.Reachable := (Reachable.empty _ _).after _
  obtain ⟨tree, hbuild⟩ := exists_build
  obtain ⟨hcreate, _⟩ := createIndex_of_build prepared_eq (by rw [unindexed_eq]; exact hbuild)
  refine ⟨hsound _ rfl hnumeric, ⟨t, ht, hpacked _ _ _ (.inl ht)⟩, _, hcreate, ?_⟩
  exact hscan unindexed definition Places.table _ _ _ _ hreachable (of_prepared prepared_eq).1
    hcreate (by simp) (by simp)

end SpatialIndex
