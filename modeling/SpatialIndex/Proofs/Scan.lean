import SpatialIndex.Proofs.Catalog.Current

/-!
# Index scans to their end

Fetching batch by batch gives what fetching all candidates at once gives.
-/

namespace SpatialIndex

/-- Fetching ids is fetching the first ones and then the others. -/
theorem Storage.fetch_append (s : Storage) (columns : List Nat) (ids ids' : List RowId) :
    s.fetch columns (ids ++ ids') = (do
      let first ← s.fetch columns ids
      let rest ← s.fetch columns ids'
      return first ++ rest) := by
  rw [fetch_eq, List.filterMap_append, List.mapM_append, ← fetch_eq, ← fetch_eq]

namespace IndexScan

variable {c : Catalog}

/-- A scan with its next batch behind it. -/
def advance (s : IndexScan) : IndexScan :=
  { s with position := s.position + ((s.candidates.drop s.position).take s.batchSize).length }

/-- A scan moves on by a batch, or by as many candidates as are left. -/
theorem position_advance (s : IndexScan) : s.advance.position =
    s.position + min s.batchSize (s.candidates.length - s.position) := by
  rw [advance, List.length_take, List.length_drop]

/-- The next batch is fetched from the storage that there is; the scan moves on if that succeeds and
stays where it is if it fails. -/
theorem nextBatch_run {s : IndexScan} :
    (nextBatch c).run.run s =
      if s.candidates.length ≤ s.position then (.ok none, s)
      else
        match (c.storage s.table).fetch s.columns
            ((s.candidates.drop s.position).take s.batchSize) with
        | .error e => (.error e, s)
        | .ok rows => (.ok (some rows), s.advance) := by
  rw [nextBatch, run_get_bind]
  split
  · rfl
  · dsimp only
    rw [run_lift_bind]
    cases (c.storage s.table).fetch s.columns ((s.candidates.drop s.position).take s.batchSize) <;>
      rfl

/-- What is left of the candidates is the next batch and what is left after it. -/
theorem drop_position (s : IndexScan) : s.candidates.drop s.position =
    (s.candidates.drop s.position).take s.batchSize ++
      s.candidates.drop s.advance.position := by
  conv_lhs => rw [← List.take_append_drop s.batchSize (s.candidates.drop s.position)]
  congr 1
  rw [List.drop_drop, position_advance]
  by_cases h : s.batchSize ≤ s.candidates.length - s.position
  · rw [Nat.min_eq_left h]
  · rw [Nat.min_eq_right (by omega), List.drop_of_length_le (by omega),
      List.drop_of_length_le (by omega)]

/-- Fetching what is left of the candidates is fetching the next batch and what is left after it. -/
theorem fetch_drop_position (c : Catalog) (s : IndexScan) :
    (c.storage s.table).fetch s.columns (s.candidates.drop s.position) = (do
      let first ← (c.storage s.table).fetch s.columns
        ((s.candidates.drop s.position).take s.batchSize)
      let rest ← (c.storage s.table).fetch s.columns (s.candidates.drop s.advance.position)
      return first ++ rest) := by
  rw [← Storage.fetch_append, ← drop_position]

/-- Fetching batches until none is left comes to what fetching all candidates that are left comes
to. -/
theorem collectBatches_eq {fuel : Nat} {s : IndexScan} (hbatch : 0 < s.batchSize)
    (hfuel : s.remaining ≤ fuel) : s.collectBatches c fuel =
      (c.storage s.table).fetch s.columns (s.candidates.drop s.position) := by
  induction fuel generalizing s with
  | zero =>
    rw [List.drop_of_length_le (by unfold remaining at hfuel; omega)]
    rfl
  | succ fuel ih =>
    rw [collectBatches, nextBatch_run]
    by_cases hdone : s.candidates.length ≤ s.position
    · rw [if_pos hdone, List.drop_of_length_le hdone]
      rfl
    · have hless : s.advance.remaining ≤ fuel := by
        unfold remaining at hfuel ⊢
        rw [position_advance]
        show s.candidates.length - _ ≤ fuel
        omega
      rw [if_neg hdone, fetch_drop_position]
      cases (c.storage s.table).fetch s.columns
          ((s.candidates.drop s.position).take s.batchSize) with
      | error cause => rfl
      | ok first =>
        show (s.advance.collectBatches c fuel >>= fun rest => pure (first ++ rest)) = _
        rw [ih (s := s.advance) hbatch hless]
        rfl

/-- A scan fetches at once what the index finds, unless the index is not attached any more. -/
theorem start_bind_collect (c : Catalog) (b : ScanBinding) (columns : List Nat) (batchSize : Nat) :
    (do
      let scan ← IndexScan.start c b columns batchSize
      scan.collect c) =
      if b.isAttached c then (c.storage b.table).fetch columns (b.index.tree.search b.box)
      else .error (.detachedIndex b.index.name b.table.name) := by
  rw [start]
  by_cases hattached : b.isAttached c = true
  · rw [if_pos hattached, if_pos hattached]
    apply collectBatches_eq
    · exact Nat.le_max_right batchSize 1
    · exact Nat.le_refl _
  · rw [if_neg hattached, if_neg hattached]
    rfl

/-- A scan of an attached index fetches all rows that the index finds. -/
theorem start_collect {b : ScanBinding} (columns : List Nat) (batchSize : Nat)
    (hattached : b.isAttached c = true) {out : List (RowId × Row)}
    (h : (c.storage b.table).fetch columns (b.index.tree.search b.box) = .ok out) :
    ∃ scan, IndexScan.start c b columns batchSize = .ok scan ∧ scan.collect c = .ok out := by
  apply bind_eq_ok.mp
  rw [start_bind_collect, if_pos hattached, h]

/-- A scan may give these rows in several batches, each of them fetched from whatever catalog is
there by then. -/
inductive Delivers : IndexScan → List (RowId × Row) → Prop
  /-- No batch has been asked for. -/
  | none {s : IndexScan} : Delivers s []
  /-- A batch, and then further ones. -/
  | batch {c : Catalog} {s s' : IndexScan} {rows rest : List (RowId × Row)}
      (hbatch : (nextBatch c).run.run s = (.ok (some rows), s')) (hrest : Delivers s' rest) :
      Delivers s (rows ++ rest)

/-- Every batch uses up at least as many candidates as it has rows. -/
theorem Delivers.length_le {s : IndexScan} {rows : List (RowId × Row)} (h : s.Delivers rows) :
    rows.length ≤ s.remaining := by
  induction h with
  | none => exact Nat.zero_le _
  | @batch c s s' rows rest hbatch _ ih =>
    rw [nextBatch_run] at hbatch
    split at hbatch
    · cases hbatch
    · split at hbatch
      · cases hbatch
      · rename_i hleft fetched hfetch
        cases hbatch
        have hrows := Storage.length_le_of_fetch hfetch
        rw [List.length_take, List.length_drop] at hrows
        rw [remaining, position_advance] at ih
        rw [List.length_append, remaining]
        have hcandidates : s.advance.candidates = s.candidates := rfl
        rw [hcandidates] at ih
        omega

/-- Rows that are collected come in batches. -/
theorem delivers_of_collectBatches {fuel : Nat} {s : IndexScan} {rows : List (RowId × Row)}
    (h : s.collectBatches c fuel = .ok rows) : s.Delivers rows := by
  induction fuel generalizing s rows with
  | zero =>
    cases h
    exact .none
  | succ fuel ih =>
    rw [collectBatches] at h
    split at h
    · cases h
    · cases h
      exact .none
    · rename_i first s' hbatch
      obtain ⟨rest, hrest, hout⟩ := bind_eq_ok.mp h
      cases hout
      exact .batch hbatch (ih hrest)

end IndexScan

end SpatialIndex
