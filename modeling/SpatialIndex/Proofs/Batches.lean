import SpatialIndex.Proofs.Number.Fitting
import SpatialIndex.Proofs.Scan
import SpatialIndex.Proofs.Tree.Grouping

/-!
# Batches of a scan

The candidates that a scan has not fetched are cut into the batches in which they will be.  Asking
for a batch takes the first of them away if it can be fetched, and takes nothing away otherwise.
Asking is written once more with steps on machine words that can go wrong.  No step does: a scan
stands at its start, a whole batch or more behind it, or at the end, so the end of the next batch
is no farther than twice the number of candidates or the size of one batch.
-/

namespace SpatialIndex

namespace IndexScan

/-- What asking for a batch comes to. -/
abbrev Answer := Except Error (Option (List (RowId × Row)))

/-- A scan that has found its candidates and fetched none of them. -/
def fresh (table : Table) (columns : List Nat) (candidates : List RowId) (batchSize : Nat) :
    IndexScan :=
  ⟨table, columns, candidates, 0, max batchSize 1⟩

/-- The batches that have not been fetched. -/
def batches (s : IndexScan) : List (List RowId) :=
  groupsOf s.batchSize (s.candidates.drop s.position)

/-- Asks for a batch once from each of the catalogs, one after the other. -/
def ask (s : IndexScan) : List Catalog → List Answer × IndexScan
  | [] => ([], s)
  | c :: rest =>
    let (answer, s) := (nextBatch c).run.run s
    let (answers, s) := s.ask rest
    (answer :: answers, s)

/-- Fetches the first of the batches, and drops it if it could be fetched. -/
def fetchFirst (table : Table) (columns : List Nat) (c : Catalog) :
    List (List RowId) → Answer × List (List RowId)
  | [] => (.ok none, [])
  | batch :: rest =>
    match (c.storage table).fetch columns batch with
    | .error cause => (.error cause, batch :: rest)
    | .ok rows => (.ok (some rows), rest)

/-- Fetches the first of the batches once from each of the catalogs, one after the other: the
answers, and the batches that are left. -/
def fetchInTurn (table : Table) (columns : List Nat) (batches : List (List RowId)) :
    List Catalog → List Answer × List (List RowId)
  | [] => ([], batches)
  | c :: rest =>
    let (answer, batches) := fetchFirst table columns c batches
    let (answers, left) := fetchInTurn table columns batches rest
    (answer :: answers, left)

/-- How many candidates have not been fetched. -/
def remainingSafely (s : IndexScan) : Option Nat := difference? s.candidates.length s.position

/-- Fetches the next batch, or nothing when all candidates have been fetched. -/
def nextBatchSafely (c : Catalog) (s : IndexScan) : Option (Answer × IndexScan) :=
  if s.candidates.length ≤ s.position then return (.ok none, s)
  else do
    let last ← fit? 64 (s.position + s.batchSize)
    let stop := min last s.candidates.length
    let batch ← slice? s.candidates s.position stop
    match (c.storage s.table).fetch s.columns batch with
    | .error cause => return (.error cause, s)
    | .ok rows => return (.ok (some rows), { s with position := stop })

/-- Asks for a batch once from each of the catalogs, and each time before how much is left. -/
def askSafely (s : IndexScan) : List Catalog → Option (List Answer × IndexScan)
  | [] => some ([], s)
  | c :: rest => do
    let _ ← s.remainingSafely
    let (answer, s) ← s.nextBatchSafely c
    let (answers, s) ← s.askSafely rest
    return (answer :: answers, s)

/-- Asks for batches until there is none, which may be so many times. -/
def collectSafely (c : Catalog) :
    (times : Nat) → (s : IndexScan) → ExceptT Error Option (List (RowId × Row))
  | 0, _ => .mk none
  | times + 1, s => do
    let (answer, s) ← (s.nextBatchSafely c : Option (Answer × IndexScan))
    match ← (answer : Except Error _) with
    | none => return []
    | some rows =>
      let rest ← collectSafely c times s
      return rows ++ rest

/-- A scan stands between two batches, and its numbers fit machine words. -/
structure Aligned (s : IndexScan) : Prop where
  /-- A batch has at least one member, and their number fits 64 bits. -/
  batchSize : 0 < s.batchSize ∧ s.batchSize < 2 ^ 64
  /-- No more candidates than a list in memory can have. -/
  candidates : s.candidates.length < 2 ^ 63
  /-- There are no more candidates behind the scan than there are. -/
  inside : s.position ≤ s.candidates.length
  /-- Nothing is behind the scan, or a whole batch, or everything. -/
  position : s.position = 0 ∨ s.batchSize ≤ s.position ∨ s.position = s.candidates.length

/-- A scan that has fetched nothing stands before its first batch. -/
theorem fresh_aligned (table : Table) (columns : List Nat) {candidates : List RowId}
    {batchSize : Nat} (hbatch : batchSize < 2 ^ 64) (hcount : candidates.length < 2 ^ 63) :
    (fresh table columns candidates batchSize).Aligned := by
  refine ⟨⟨?_, ?_⟩, hcount, Nat.zero_le _, .inl rfl⟩
  · exact Nat.le_max_right batchSize 1
  · show max batchSize 1 < 2 ^ 64
    omega

section Step

variable {s : IndexScan} {c : Catalog} {batch : List RowId} {rest : List (List RowId)}

/-- A batch that cannot be fetched leaves the scan where it was. -/
theorem eq_of_nextBatch_error {s' : IndexScan} {cause : Error}
    (h : (nextBatch c).run.run s = (.error cause, s')) : s' = s := by
  rw [nextBatch_run] at h
  split at h
  · cases h
  · split at h
    · exact (Prod.mk.inj h).2.symm
    · cases h

/-- No batch is left when the scan has passed all its candidates. -/
theorem batches_eq_nil_iff : s.batches = [] ↔ s.candidates.length ≤ s.position :=
  groupsOf_eq_nil_iff.trans List.drop_eq_nil_iff

/-- When no batch is left nothing is fetched and the scan stays where it is. -/
theorem nextBatch_of_nil (hnone : s.batches = []) : (nextBatch c).run.run s = (.ok none, s) := by
  rw [nextBatch_run, if_pos (batches_eq_nil_iff.mp hnone)]

namespace Aligned

variable (h : s.Aligned)

include h

/-- The batches that are left are made of the candidates that have not been passed. -/
theorem flatten_batches : s.batches.flatten = s.candidates.drop s.position :=
  flatten_groupsOf h.batchSize.1 _

/-- The first batch is the next one, and those after it are left when it has been fetched. -/
theorem of_batches_eq_cons (hfirst : s.batches = batch :: rest) :
    ¬s.candidates.length ≤ s.position ∧
      (s.candidates.drop s.position).take s.batchSize = batch ∧ s.advance.batches = rest := by
  have hleft : ¬s.candidates.length ≤ s.position := by
    rw [← batches_eq_nil_iff, hfirst]
    exact List.cons_ne_nil _ _
  have hne : s.candidates.drop s.position ≠ [] := by
    rw [Ne, List.drop_eq_nil_iff]
    exact hleft
  have hrest : (s.candidates.drop s.position).drop s.batchSize =
      s.candidates.drop s.advance.position := by
    apply List.append_cancel_left
    rw [List.take_append_drop, ← drop_position]
  rw [batches, groupsOf_eq_cons h.batchSize.1 hne, hrest] at hfirst
  exact ⟨hleft, List.cons.inj hfirst⟩

/-- Behind the next batch a scan stands between two batches again. -/
theorem advance : s.advance.Aligned := by
  have hposition := s.position_advance
  have hinside := h.inside
  refine ⟨h.batchSize, h.candidates, ?_, ?_⟩
  · show s.advance.position ≤ s.candidates.length
    omega
  · show s.advance.position = 0 ∨ s.batchSize ≤ s.advance.position ∨
      s.advance.position = s.candidates.length
    omega

/-- Asking for a batch fetches the first of those that are left, and leaves the scan between two
batches. -/
theorem of_nextBatch (c : Catalog) {answer : Answer} {s' : IndexScan}
    (hask : (nextBatch c).run.run s = (answer, s')) :
    (s'.Aligned ∧ s'.table = s.table ∧ s'.columns = s.columns) ∧
      fetchFirst s.table s.columns c s.batches = (answer, s'.batches) := by
  cases hbatches : s.batches with
  | nil =>
    rw [nextBatch_of_nil hbatches] at hask
    cases hask
    exact ⟨⟨h, rfl, rfl⟩, by rw [fetchFirst, hbatches]⟩
  | cons batch rest =>
    obtain ⟨hleft, rfl, rfl⟩ := h.of_batches_eq_cons hbatches
    rw [nextBatch_run, if_neg hleft] at hask
    rw [fetchFirst]
    cases hfetch : (c.storage s.table).fetch s.columns
      ((s.candidates.drop s.position).take s.batchSize) with
    | error cause =>
      rw [hfetch] at hask
      cases hask
      exact ⟨⟨h, rfl, rfl⟩, by rw [hbatches]⟩
    | ok rows =>
      rw [hfetch] at hask
      cases hask
      exact ⟨⟨h.advance, rfl, rfl⟩, rfl⟩

/-- What is left is counted without going below zero. -/
theorem remainingSafely_eq : s.remainingSafely = some s.batches.flatten.length := by
  rw [h.flatten_batches, List.length_drop]
  exact difference?_of_le h.inside

/-- No step of asking for a batch goes wrong. -/
theorem nextBatchSafely_eq : s.nextBatchSafely c = some ((nextBatch c).run.run s) := by
  rw [nextBatch_run, nextBatchSafely]
  by_cases hdone : s.candidates.length ≤ s.position
  · rw [if_pos hdone, if_pos hdone]
    rfl
  · have hbatch := h.batchSize
    have hcandidates := h.candidates
    have hposition := h.position
    have hstop : min (s.position + s.batchSize) s.candidates.length = s.advance.position := by
      rw [position_advance]
      omega
    have hslice : slice? s.candidates s.position s.advance.position =
        some ((s.candidates.drop s.position).take s.batchSize) := by
      rw [slice?_of_le (by omega) (by omega), List.extract_eq_take_drop, position_advance,
        Nat.add_sub_cancel_left, ← List.length_drop, ← List.take_eq_take_min]
    rw [if_neg hdone, if_neg hdone, fit?_of_lt (by omega)]
    dsimp only [bind, Option.bind]
    rw [hstop, hslice]
    dsimp only
    cases (c.storage s.table).fetch s.columns
      ((s.candidates.drop s.position).take s.batchSize) <;> rfl

/-- Asking for batches again and again fetches them in turn. -/
theorem ask_eq (catalogs : List Catalog) : (s.ask catalogs).2.Aligned ∧
    fetchInTurn s.table s.columns s.batches catalogs =
      ((s.ask catalogs).1, (s.ask catalogs).2.batches) := by
  induction catalogs generalizing s with
  | nil => exact ⟨h, rfl⟩
  | cons c rest ih =>
    rcases hask : (nextBatch c).run.run s with ⟨answer, s'⟩
    obtain ⟨⟨hnext, htable, hcolumns⟩, hfirst⟩ := h.of_nextBatch c hask
    have hrest := ih hnext
    rw [htable, hcolumns] at hrest
    rw [fetchInTurn, hfirst, ask, hask]
    dsimp only
    rw [hrest.2]
    exact ⟨hrest.1, rfl⟩

/-- No step of asking for batches again and again goes wrong. -/
theorem askSafely_eq (catalogs : List Catalog) : s.askSafely catalogs = some (s.ask catalogs) := by
  induction catalogs generalizing s with
  | nil => rfl
  | cons c rest ih =>
    rcases hask : (nextBatch c).run.run s with ⟨answer, s'⟩
    have hrest := ih (h.of_nextBatch c hask).1.1
    rw [askSafely, h.remainingSafely_eq, h.nextBatchSafely_eq, hask, ask, hask]
    dsimp only [bind, Option.bind]
    rw [hrest]
    rfl

/-- Asking for every batch that is left and once more, no step goes wrong, and it comes to what
fetching all candidates that are left at once comes to. -/
theorem collectSafely_comesTo (c : Catalog) {times : Nat} (htimes : s.batches.length < times) :
    ComesTo (collectSafely c times s)
      ((c.storage s.table).fetch s.columns (s.candidates.drop s.position)) := by
  obtain ⟨times, rfl⟩ := Nat.exists_eq_add_of_le' (Nat.one_le_of_lt htimes)
  induction hbatches : s.batches generalizing s times with
  | nil =>
    have hdone := batches_eq_nil_iff.mp hbatches
    rw [collectSafely, h.nextBatchSafely_eq, nextBatch_of_nil hbatches,
      List.drop_of_length_le hdone]
    exact ComesTo.step rfl (.pure _)
  | cons batch rest ih =>
    obtain ⟨hleft, rfl, rfl⟩ := h.of_batches_eq_cons hbatches
    rw [hbatches, List.length_cons] at htimes
    obtain ⟨times, rfl⟩ := Nat.exists_eq_add_of_le' (by omega : 1 ≤ times)
    have hrest := ih h.advance times (by omega) rfl
    rw [collectSafely, h.nextBatchSafely_eq, nextBatch_run, if_neg hleft, fetch_drop_position]
    refine ComesTo.step rfl ?_
    cases (c.storage s.table).fetch s.columns
      ((s.candidates.drop s.position).take s.batchSize) with
    | error cause => exact .throw cause
    | ok rows => exact hrest.bind fun _ _ => .pure _

end Aligned

end Step

section Turn

variable {table : Table} {columns : List Nat} {c : Catalog} {n : Nat}

/-- Where no batch is left every catalog that is asked answers that there is none. -/
theorem fetchInTurn_nil (table : Table) (columns : List Nat) (c : Catalog) (n : Nat) :
    fetchInTurn table columns [] (.replicate n c) = (.replicate n (.ok none), []) := by
  induction n with
  | zero => rfl
  | succ n ih =>
    rw [List.replicate_succ, fetchInTurn, fetchFirst]
    dsimp only
    rw [ih, List.replicate_succ]

/-- If no batch fails, each is fetched once, then there is none any more, and the rows of all are
those of all candidates at once. -/
theorem fetchInTurn_of_ok {batches : List (List RowId)}
    (hok : ∀ answer ∈ (fetchInTurn table columns batches (.replicate (batches.length + n) c)).1,
      ∃ rows?, answer = .ok rows?) :
    ∃ parts : List (List (RowId × Row)),
      (fetchInTurn table columns batches (.replicate (batches.length + n) c)).1 =
        parts.map (fun rows => .ok (some rows)) ++ .replicate n (.ok none) ∧
      (c.storage table).fetch columns batches.flatten = .ok parts.flatten := by
  induction batches with
  | nil =>
    refine ⟨[], ?_, rfl⟩
    rw [List.length_nil, Nat.zero_add, fetchInTurn_nil]
    rfl
  | cons batch rest ih =>
    rw [List.length_cons, Nat.add_right_comm, List.replicate_succ, fetchInTurn, fetchFirst] at hok ⊢
    cases hfetch : (c.storage table).fetch columns batch with
    | error cause =>
      rw [hfetch] at hok
      obtain ⟨_, habsurd⟩ := hok _ List.mem_cons_self
      cases habsurd
    | ok rows =>
      rw [hfetch] at hok
      obtain ⟨parts, hanswers, hrest⟩ := ih fun answer hanswer =>
        hok answer (List.mem_cons_of_mem _ hanswer)
      refine ⟨rows :: parts, congrArg (_ :: ·) hanswers, ?_⟩
      rw [List.flatten_cons, Storage.fetch_append, hfetch, hrest]
      rfl

end Turn

/-- A scan of which nothing has been fetched will fetch its candidates in batches of this size,
whatever the catalogs that are there when it is asked for them. -/
structure FetchesInBatches (s : IndexScan) (size : Nat) : Prop where
  /-- The batches follow each other and hold all candidates. -/
  consecutive : s.batches.flatten = s.candidates
  /-- Every batch but the last has this size. -/
  full : ∀ batch ∈ s.batches.dropLast, batch.length = size
  /-- No batch is empty or larger. -/
  bounded : ∀ batch ∈ s.batches, 0 < batch.length ∧ batch.length ≤ size
  /-- Every time the first batch that is left is fetched, and no step goes wrong. -/
  asked : ∀ catalogs, s.askSafely catalogs = some (s.ask catalogs) ∧
    (s.ask catalogs).1 = (fetchInTurn s.table s.columns s.batches catalogs).1
  /-- What remains are at any time the candidates of the batches that are left. -/
  remaining : ∀ catalogs,
    (s.ask catalogs).2.remainingSafely = some (s.ask catalogs).2.remaining ∧
    (s.ask catalogs).2.remaining =
      (fetchInTurn s.table s.columns s.batches catalogs).2.flatten.length
  /-- A batch that cannot be fetched leaves the scan where it was. -/
  failed : ∀ catalogs c cause s',
    (nextBatch c).run.run (s.ask catalogs).2 = (.error cause, s') → s' = (s.ask catalogs).2
  /-- If no batch fails, there is none after the last one, and all together give the rows that all
  candidates give at once. -/
  ends : ∀ c n,
    (∀ answer ∈ (s.ask (.replicate (s.batches.length + n) c)).1, ∃ rows?, answer = .ok rows?) →
    ∃ parts : List (List (RowId × Row)),
      (s.ask (.replicate (s.batches.length + n) c)).1 =
        parts.map (fun rows => .ok (some rows)) ++ .replicate n (.ok none) ∧
      (c.storage s.table).fetch s.columns s.candidates = .ok parts.flatten
  /-- Asking for batches until there is none takes no more times than there are batches and once
  more, and comes to fetching all candidates at once, also if that fails. -/
  collected : ∀ c,
    ComesTo (collectSafely c (s.batches.length + 1) s)
      ((c.storage s.table).fetch s.columns s.candidates) ∧
    s.collect c = (c.storage s.table).fetch s.columns s.candidates

/-- A scan fetches all of its candidates, in batches of the given size or of one. -/
theorem fresh_fetchesInBatches (table : Table) (columns : List Nat) {candidates : List RowId}
    {batchSize : Nat} (hbatch : batchSize < 2 ^ 64) (hcount : candidates.length < 2 ^ 63) :
    (fresh table columns candidates batchSize).FetchesInBatches (max batchSize 1) := by
  have h := fresh_aligned table columns hbatch hcount
  have hanswers := fun catalogs => (congrArg Prod.fst (h.ask_eq catalogs).2).symm
  refine ⟨h.flatten_batches, ?_, ?_, fun catalogs => ⟨h.askSafely_eq catalogs, hanswers catalogs⟩,
    fun catalogs => ⟨?_, ?_⟩, fun _ _ _ _ => eq_of_nextBatch_error, ?_,
    fun c => ⟨h.collectSafely_comesTo c (Nat.lt_succ_self _), ?_⟩⟩
  · exact fun batch hbatch => length_of_mem_dropLast_groupsOf h.batchSize.1 hbatch
  · exact fun batch hbatch => length_of_mem_groupsOf h.batchSize.1 hbatch
  · exact difference?_of_le (h.ask_eq catalogs).1.inside
  · rw [(h.ask_eq catalogs).2, (h.ask_eq catalogs).1.flatten_batches, List.length_drop]
    rfl
  · intro c n hok
    rw [hanswers] at hok ⊢
    obtain ⟨parts, hparts, hrows⟩ := fetchInTurn_of_ok hok
    rw [h.flatten_batches] at hrows
    exact ⟨parts, hparts, hrows⟩
  · exact collectBatches_eq h.batchSize.1 (Nat.le_refl _)

end IndexScan

end SpatialIndex
