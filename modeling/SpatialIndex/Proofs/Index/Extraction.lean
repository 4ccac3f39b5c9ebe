import Mathlib.Data.List.Induction
import SpatialIndex.Index.Basic
import SpatialIndex.Proofs.Expression.Substitution
import SpatialIndex.Proofs.Table.Storage
import SpatialIndex.Proofs.Tree.Search

/-!
# What a build puts into the tree

A build that succeeds has found a value for the key of every row.  The tree then holds one entry for
each row whose key is a shape with a box, so searching it finds exactly the rows whose key has a
box that meets the query.
-/

namespace SpatialIndex

/-- Dropping what repeats keeps the members. -/
theorem mem_eraseReps_loop {n a : Nat} {l acc : List Nat} :
    n ∈ List.eraseRepsBy.loop (· == ·) a l acc ↔ n ∈ a :: l ∨ n ∈ acc := by
  induction l generalizing a acc with
  | nil => simp [List.eraseRepsBy.loop, or_comm]
  | cons b l ih =>
    rw [List.eraseRepsBy.loop]
    split
    · rename_i heq
      obtain rfl := beq_iff_eq.mp heq
      rw [ih]
      simp
    · rw [ih]
      simp only [List.mem_cons]
      tauto

/-- What is left of an ascending list after dropping what repeats ascends strictly. -/
theorem pairwise_eraseReps_loop {a : Nat} {l acc : List Nat} (hl : (a :: l).Pairwise (· ≤ ·))
    (hacc : (a :: acc).Pairwise (· > ·)) :
    (List.eraseRepsBy.loop (· == ·) a l acc).Pairwise (· < ·) := by
  induction l generalizing a acc with
  | nil => exact List.pairwise_reverse.mpr hacc
  | cons b l ih =>
    obtain ⟨hfirst, hrest⟩ := List.pairwise_cons.mp hl
    have hle : a ≤ b := hfirst b List.mem_cons_self
    rw [List.eraseRepsBy.loop]
    split
    · rename_i heq
      obtain rfl := beq_iff_eq.mp heq
      exact ih hrest hacc
    · rename_i hne
      have hlt : a < b := Nat.lt_of_le_of_ne hle fun heq => by simp [heq] at hne
      refine ih hrest (List.pairwise_cons.mpr ⟨fun n hn => ?_, hacc⟩)
      rcases List.mem_cons.mp hn with rfl | hn
      · exact hlt
      · exact Nat.lt_trans ((List.pairwise_cons.mp hacc).1 n hn) hlt

/-- Numbers put in ascending order are all there, and no others. -/
theorem mem_ascendingColumns {columns : List Nat} {n : Nat} :
    n ∈ ascendingColumns columns ↔ n ∈ columns := by
  have hsorted : n ∈ columns.mergeSort (· ≤ ·) ↔ n ∈ columns := List.mem_mergeSort
  rw [← hsorted, ascendingColumns, List.eraseReps]
  cases columns.mergeSort (· ≤ ·) with
  | nil => rfl
  | cons a l => exact mem_eraseReps_loop.trans (or_iff_left List.not_mem_nil)

/-- Numbers put in ascending order ascend, and none is there twice. -/
theorem pairwise_ascendingColumns (columns : List Nat) :
    (ascendingColumns columns).Pairwise (· < ·) := by
  have hsorted : (columns.mergeSort (· ≤ ·)).Pairwise (· ≤ ·) := by
    have htrans (a b c : Nat) (hab : decide (a ≤ b) = true) (hbc : decide (b ≤ c) = true) :
        decide (a ≤ c) = true := by
      simp only [decide_eq_true_eq] at *
      omega
    have htotal (a b : Nat) : (decide (a ≤ b) || decide (b ≤ a)) = true := by
      simp only [Bool.or_eq_true, decide_eq_true_eq]
      omega
    simpa using List.pairwise_mergeSort htrans htotal columns
  rw [ascendingColumns, List.eraseReps]
  cases hcolumns : columns.mergeSort (· ≤ ·) with
  | nil => exact .nil
  | cons a l =>
    rw [hcolumns] at hsorted
    exact pairwise_eraseReps_loop hsorted (List.pairwise_singleton _ a)

/-- A value that the key of a row may have: null, an empty shape, or a shape with a valid box. -/
def Value.IsIndexable : Value → Prop
  | null => True
  | geometry g => ∀ box, g.box? = some box → box.isValid = true
  | _ => False

/-- What the key of a row is to an index. -/
inductive KeyKind
  /-- It is null. -/
  | null
  /-- It is an empty shape. -/
  | empty
  /-- It is a shape with a valid box. -/
  | boxed
deriving DecidableEq

/-- What the value is as the key of a row, if it can be one. -/
def Value.keyKind? : Value → Option KeyKind
  | null => some .null
  | geometry g =>
    match g.box? with
    | none => some .empty
    | some box => if box.isValid then some .boxed else none
  | _ => none

/-- The counts with one more row whose key is of this kind. -/
def ExtractionSummary.note (s : ExtractionSummary) : KeyKind → ExtractionSummary
  | .null => { s with rows := s.rows + 1, nullKeys := s.nullKeys + 1 }
  | .empty => { s with rows := s.rows + 1, emptyKeys := s.emptyKeys + 1 }
  | .boxed => { s with rows := s.rows + 1, entries := s.entries + 1 }

/-- A scan for entries after one more row whose key is of this kind. -/
def Extraction.note (e : Extraction) (kind : KeyKind) (entry : Option Entry) : Extraction :=
  ⟨e.entries ++ entry.toArray, e.summary.note kind⟩

/-- The box of the key of a row, if the key is a shape that has one. -/
def Expression.keyBox? (registry : Registry) (key : Expression) (row : Row) : Option Box :=
  match key.evaluate registry row with
  | .ok (.geometry g) => g.box?
  | _ => none

namespace KeyReader

/-- A key that is a column is the only column of the scan. -/
theorem ofKey_column (table column : Nat) (type : LogicalType) :
    ofKey (.column ⟨table, column⟩ type) = ⟨.reference 0 type, [column]⟩ := by
  have hcolumns : ascendingColumns [column] = [column] := by
    rw [ascendingColumns, List.mergeSort_singleton]
    rfl
  have hplace : [column].idxOf? column = some 0 := by simp
  simp only [ofKey, Expression.columnBindings, List.map_cons, List.map_nil, hcolumns,
    Expression.mapColumns, hplace]

/-- A key bound to a scan of its columns has there the value that it has on the whole row. -/
theorem evaluate_ofKey (registry : Registry) {key : Expression} (hkey : key.references = [])
    {row out : Row} (hrow : projectRow (ofKey key).columns row = .ok out) :
    (ofKey key).key.evaluate registry out = key.evaluate registry row := by
  rw [Expression.evaluate_eq, Expression.evaluate_eq]
  refine Expression.evaluateFrom_mapColumns Returning.id key _ ?_ (by simp [hkey]) rfl
  rintro b hb type r rfl
  have hmem : b.column ∈ (ofKey key).columns :=
    mem_ascendingColumns.mpr (List.mem_map_of_mem hb)
  split
  · rename_i position hposition
    exact valueAt_projectRow hrow (getElem?_of_idxOf? hposition)
  · rename_i hnone
    exact absurd hmem (List.idxOf?_eq_none_iff.mp hnone)

section Visit

variable {registry : Registry} {reader : KeyReader} {id : RowId} {row : Row} {e : Extraction}

/-- Taking note of a row that has an entry, or none, counts it by its key and hands out the
entry. -/
theorem visit_run_of_ok {entry : Option Entry} (h : reader.entry? registry id row = .ok entry) :
    ∃ v kind, reader.key.evaluate registry row = .ok v ∧ v.keyKind? = some kind ∧
      (reader.visit registry id row).run.run e = (.ok (), e.note kind entry) := by
  unfold entry? at h
  simp only [visit, run_modify_bind, run_lift_bind]
  unfold shape? at h ⊢
  cases hvalue : reader.key.evaluate registry row with
  | error cause =>
    rw [hvalue] at h
    cases h
  | ok v =>
    rw [hvalue] at h
    cases v with
    | null =>
      cases h
      exact ⟨.null, .null, rfl, rfl, rfl⟩
    | geometry g =>
      change entryOf? id g = .ok entry at h
      dsimp only
      rw [run_lift_bind, h]
      unfold entryOf? at h
      cases hbox : g.box? with
      | none =>
        rw [hbox] at h
        cases h
        exact ⟨.geometry g, .empty, rfl, by rw [Value.keyKind?, hbox], rfl⟩
      | some box =>
        rw [hbox] at h
        dsimp only at h
        split at h
        · rename_i hvalid
          cases h
          refine ⟨.geometry g, .boxed, rfl, ?_, ?_⟩
          · rw [Value.keyKind?, hbox]
            exact if_pos hvalid
          · rw [Extraction.note, Option.toArray_some, ← Array.push_eq_append]
            rfl
        · cases h
    | _ => cases h

/-- Taking note of a row that cannot have an entry fails as making its entry does, and hands out
nothing. -/
theorem visit_run_of_error {cause : Error} (h : reader.entry? registry id row = .error cause) :
    ∃ e', (reader.visit registry id row).run.run e = (.error cause, e') ∧
      e'.entries = e.entries := by
  unfold entry? at h
  simp only [visit, run_modify_bind, run_lift_bind]
  cases hshape : reader.shape? registry id row with
  | error cause =>
    rw [hshape] at h
    cases h
    exact ⟨_, rfl, rfl⟩
  | ok shape =>
    rw [hshape] at h
    cases shape with
    | none => cases h
    | some g =>
      change entryOf? id g = .error cause at h
      dsimp only
      rw [run_lift_bind, h]
      exact ⟨_, rfl, rfl⟩

/-- A row has an entry exactly if its key can be indexed and has a box, and then the entry is of
that box. -/
theorem entry?_eq_ok_iff {entry : Option Entry} :
    reader.entry? registry id row = .ok entry ↔
      (∃ v, reader.key.evaluate registry row = .ok v ∧ v.IsIndexable) ∧
        entry = (reader.key.keyBox? registry row).map fun box => ⟨box, id⟩ := by
  unfold entry? shape? Expression.keyBox?
  cases hvalue : reader.key.evaluate registry row with
  | error cause => exact iff_of_false nofun (by simp)
  | ok v =>
    simp only [Except.ok.injEq, exists_eq_left']
    cases v with
    | null => exact ⟨fun h => ⟨trivial, (Except.ok.inj h).symm⟩, fun h => congrArg _ h.2.symm⟩
    | geometry g =>
      change entryOf? id g = .ok entry ↔
        (∀ box, g.box? = some box → box.isValid = true) ∧
          entry = g.box?.map fun box => ⟨box, id⟩
      unfold entryOf?
      cases g.box? with
      | none => exact ⟨fun h => ⟨nofun, (Except.ok.inj h).symm⟩, fun h => congrArg _ h.2.symm⟩
      | some box =>
        simp only [Option.some.injEq, forall_eq', Option.map_some]
        split
        · exact ⟨fun h => ⟨‹_›, (Except.ok.inj h).symm⟩, fun h => congrArg _ h.2.symm⟩
        · exact iff_of_false nofun fun h => absurd h.1 ‹_›
    | _ => exact iff_of_false nofun (fun h => h.1)

end Visit

/-- The value of the key of a row, which is laid out in the columns that the key reads. -/
def rowKey (registry : Registry) (key : Expression) (row : Row) : Except Error Value := do
  (ofKey key).key.evaluate registry (← projectRow (ofKey key).columns row)

/-- The box of the key of a row, if the key is a shape that has one. -/
def rowBox? (registry : Registry) (key : Expression) (row : Row) : Option Box :=
  match rowKey registry key row with
  | .ok (.geometry g) => g.box?
  | _ => none

/-- The entry of a numbered row, or nothing if its key is null or an empty shape. -/
def rowEntry (registry : Registry) (key : Expression) (r : RowId × Row) :
    Except Error (Option Entry) := do
  entry? (ofKey key) registry r.1 (← projectRow (ofKey key).columns r.2)

/-- The entry of a numbered row, given the boxes of rows. -/
def boxedRow (box? : Row → Option Box) (r : RowId × Row) : Option Entry :=
  (box? r.2).map fun box => ⟨box, r.1⟩

variable {registry : Registry} {key : Expression}

/-- A row has an entry exactly if its key can be indexed and has a box. -/
theorem rowEntry_eq_ok_iff {r : RowId × Row} {entry : Option Entry} :
    rowEntry registry key r = .ok entry ↔
      (∃ v, rowKey registry key r.2 = .ok v ∧ v.IsIndexable) ∧
        entry = boxedRow (rowBox? registry key) r := by
  unfold boxedRow rowBox? rowEntry rowKey
  cases projectRow (ofKey key).columns r.2 with
  | error cause => exact iff_of_false nofun (by simp [bind, Except.bind])
  | ok out => exact entry?_eq_ok_iff

/-- The entry of a row, read off the whole row. -/
def wholeEntry (registry : Registry) (key : Expression) (r : RowId × Row) : Option Entry :=
  (key.keyBox? registry r.2).map fun box => ⟨box, r.1⟩

/-- A key that reads columns only through bindings has the value that it has on the whole row. -/
theorem evaluate_of_rowKey (hkey : key.references = []) {row : Row} {v : Value}
    (h : rowKey registry key row = .ok v) : key.evaluate registry row = .ok v := by
  obtain ⟨out, hrow, hvalue⟩ := bind_eq_ok.mp h
  rw [← evaluate_ofKey registry hkey hrow, hvalue]

/-- The box of a key is the same whether the row is first laid out in the columns of the key or
not. -/
theorem rowBox?_eq_keyBox? (hkey : key.references = []) {row : Row} {v : Value}
    (h : rowKey registry key row = .ok v) :
    rowBox? registry key row = key.keyBox? registry row := by
  rw [rowBox?, h, Expression.keyBox?, evaluate_of_rowKey hkey h]

/-- The step of a scan for entries. -/
def step (registry : Registry) (key : Expression) (r : RowId × Row) :
    ExceptT Error (StateM Extraction) Unit := do
  (ofKey key).visit registry r.1 (← projectRow (ofKey key).columns r.2)

/-- What the key of a row is to the index, if it can be indexed. -/
def rowKind? (registry : Registry) (key : Expression) (row : Row) : Option KeyKind :=
  match rowKey registry key row with
  | .ok v => v.keyKind?
  | .error _ => none

/-- The counts of rows by the kinds of their keys. -/
def summaryOf (registry : Registry) (key : Expression) (rows : List (RowId × Row)) :
    ExtractionSummary where
  rows := rows.length
  entries := rows.countP fun r => rowKind? registry key r.2 = some .boxed
  nullKeys := rows.countP fun r => rowKind? registry key r.2 = some .null
  emptyKeys := rows.countP fun r => rowKind? registry key r.2 = some .empty

/-- A scan for entries has handed out the entries of these rows, in order, and counted the rows by
the kinds of their keys. -/
structure Accounts (registry : Registry) (key : Expression) (rows : List (RowId × Row))
    (e : Extraction) : Prop where
  /-- The entries are those of the rows that have one. -/
  entries : e.entries.toList = rows.filterMap (boxedRow (rowBox? registry key))
  /-- Every row is counted. -/
  summary : e.summary = summaryOf registry key rows

section Step

variable {rows : List (RowId × Row)} {r : RowId × Row} {e : Extraction}

/-- One more row is counted under the kind of its key. -/
theorem summaryOf_append {kind : KeyKind} (hkind : rowKind? registry key r.2 = some kind) :
    summaryOf registry key (rows ++ [r]) = (summaryOf registry key rows).note kind := by
  unfold summaryOf
  rw [List.length_append, List.countP_append, List.countP_append, List.countP_append,
    List.countP_singleton, List.countP_singleton, List.countP_singleton, hkind]
  cases kind <;> rfl

/-- Every row is of one kind. -/
theorem summaryOf_total (hrows : ∀ r ∈ rows, ∃ kind, rowKind? registry key r.2 = some kind) :
    (summaryOf registry key rows).entries + (summaryOf registry key rows).nullKeys +
      (summaryOf registry key rows).emptyKeys = (summaryOf registry key rows).rows := by
  induction rows using List.reverseRecOn with
  | nil => rfl
  | append_singleton rows r ih =>
    obtain ⟨kind, hkind⟩ := hrows r (List.mem_append_right _ (List.mem_singleton_self r))
    have hrest := ih fun r hr => hrows r (List.mem_append_left _ hr)
    rw [summaryOf_append hkind]
    cases kind <;> simp only [ExtractionSummary.note] <;> omega

/-- A row with an entry, or with none, is accounted for. -/
theorem Accounts.step (he : Accounts registry key rows e) {entry : Option Entry}
    (h : rowEntry registry key r = .ok entry) :
    ∃ e', (KeyReader.step registry key r).run.run e = (.ok (), e') ∧
      Accounts registry key (rows ++ [r]) e' := by
  obtain ⟨_, rfl⟩ := rowEntry_eq_ok_iff.mp h
  obtain ⟨out, hrow, hentry⟩ := bind_eq_ok.mp h
  obtain ⟨v, kind, hvalue, hkind, hvisit⟩ := visit_run_of_ok (e := e) hentry
  have hkey : rowKey registry key r.2 = .ok v := bind_eq_ok.mpr ⟨out, hrow, hvalue⟩
  refine ⟨_, by rw [KeyReader.step, run_lift_bind, hrow]; exact hvisit, ?_, ?_⟩
  · rw [Extraction.note, Array.toList_append, he.entries, List.filterMap_append]
    cases hboxed : boxedRow (rowBox? registry key) r <;> simp [hboxed]
  · rw [Extraction.note, he.summary, summaryOf_append (by rw [rowKind?, hkey]; exact hkind)]

/-- A row that cannot have an entry ends the scan, and nothing is handed out for it. -/
theorem step_of_error {cause : Error} (h : rowEntry registry key r = .error cause) :
    ∃ e', (step registry key r).run.run e = (.error cause, e') ∧ e'.entries = e.entries := by
  rw [step, run_lift_bind]
  cases hrow : projectRow (ofKey key).columns r.2 with
  | error cause' =>
    rw [rowEntry, hrow] at h
    cases h
    exact ⟨e, rfl, rfl⟩
  | ok out =>
    rw [rowEntry, hrow] at h
    exact visit_run_of_error h

/-- Rows that have entries, or none, are accounted for one after the other. -/
theorem Accounts.forM (he : Accounts registry key rows e) {l : List (RowId × Row)}
    (hl : ∀ r ∈ l, ∃ entry, rowEntry registry key r = .ok entry) :
    ∃ e', (l.forM (KeyReader.step registry key)).run.run e = (.ok (), e') ∧
      Accounts registry key (rows ++ l) e' := by
  induction l generalizing rows e with
  | nil => exact ⟨e, rfl, by rwa [List.append_nil]⟩
  | cons r l ih =>
    obtain ⟨⟨entry, hentry⟩, hl⟩ := List.forall_mem_cons.mp hl
    obtain ⟨e', hstep, he'⟩ := he.step hentry
    obtain ⟨e'', hrest, he''⟩ := ih he' hl
    refine ⟨e'', ?_, by rwa [List.append_assoc] at he''⟩
    have hcons : ((r :: l).forM (KeyReader.step registry key)) =
        (KeyReader.step registry key r >>= fun _ => l.forM (KeyReader.step registry key)) := rfl
    rw [hcons, run_bind, hstep]
    exact hrest

end Step

section Extract

variable {storage : Storage}

/-- Before the first row nothing has been handed out or counted. -/
theorem accounts_nil : Accounts registry key [] {} := ⟨rfl, rfl⟩

/-- An extraction is a scan of all rows. -/
theorem extract_of_forM {outcome : Except Error Unit} {e : Extraction}
    (h : (storage.numbered.forM (step registry key)).run.run {} = (outcome, e)) :
    (ofKey key).extract registry storage =
      (outcome.map fun _ => e.summary, e.entries.toList) := by
  have hscan : (ofKey key).scan registry storage = (outcome, e) := h
  rw [extract, hscan]

/-- If all rows have entries, or none, an extraction hands these out and counts all rows. -/
theorem extract_of_ok (h : ∀ r ∈ storage.numbered, ∃ entry, rowEntry registry key r = .ok entry) :
    (ofKey key).extract registry storage =
      (.ok (summaryOf registry key storage.numbered),
        storage.numbered.filterMap (boxedRow (rowBox? registry key))) := by
  obtain ⟨e, hscan, he⟩ := accounts_nil.forM h
  rw [extract_of_forM hscan, he.entries, he.summary, List.nil_append]
  rfl

/-- The first row that cannot have an entry ends an extraction, which has handed out the entries of
the rows before it. -/
theorem extract_of_error {before after : List (RowId × Row)} {r : RowId × Row} {cause : Error}
    (hnumbered : storage.numbered = before ++ r :: after)
    (hbefore : ∀ b ∈ before, ∃ entry, rowEntry registry key b = .ok entry)
    (h : rowEntry registry key r = .error cause) :
    (ofKey key).extract registry storage =
      (.error cause, before.filterMap (boxedRow (rowBox? registry key))) := by
  obtain ⟨e, hscan, he⟩ := accounts_nil.forM hbefore
  obtain ⟨e', hstep, hentries⟩ := step_of_error (e := e) h
  have hfails : (storage.numbered.forM (step registry key)).run.run {} = (.error cause, e') := by
    have hsplit : (before ++ r :: after).forM (step registry key) =
        (before.forM (step registry key) >>= fun _ => (r :: after).forM (step registry key)) :=
      List.forM_append
    have hcons : (r :: after).forM (step registry key) =
        (step registry key r >>= fun _ => after.forM (step registry key)) := rfl
    rw [hnumbered, hsplit, run_bind, hscan]
    dsimp only
    rw [hcons, run_bind, hstep]
  rw [extract_of_forM hfails, hentries, he.entries, List.nil_append]
  rfl

/-- An extraction succeeds exactly if the keys of all rows can be indexed, and hands out the entries
of the rows. -/
theorem extract_eq_ok_iff :
    (∃ summary, ((ofKey key).extract registry storage).1 = .ok summary) ↔
      ∀ r ∈ storage.numbered, ∃ v, rowKey registry key r.2 = .ok v ∧ v.IsIndexable := by
  constructor
  · rintro ⟨summary, hsummary⟩
    rcases forall_ok_or_exists_error (rowEntry registry key) storage.numbered with
      hall | ⟨before, r, after, cause, hnumbered, hbefore, hr⟩
    · intro r hr
      obtain ⟨entry, hentry⟩ := hall r hr
      exact (rowEntry_eq_ok_iff.mp hentry).1
    · rw [extract_of_error hnumbered hbefore hr] at hsummary
      cases hsummary
  · intro hall
    have hentries : ∀ r ∈ storage.numbered, ∃ entry, rowEntry registry key r = .ok entry :=
      fun r hr => ⟨_, rowEntry_eq_ok_iff.mpr ⟨hall r hr, rfl⟩⟩
    exact ⟨_, congrArg Prod.fst (extract_of_ok hentries)⟩

/-- If all rows can be indexed, an extraction hands out the entries that have boxes, in row
order. -/
theorem extract_entries
    (h : ∀ r ∈ storage.numbered, ∃ v, rowKey registry key r.2 = .ok v ∧ v.IsIndexable) :
    ((ofKey key).extract registry storage).2 =
      storage.numbered.filterMap (boxedRow (rowBox? registry key)) := by
  have hentries : ∀ r ∈ storage.numbered, ∃ entry, rowEntry registry key r = .ok entry :=
    fun r hr => ⟨_, rowEntry_eq_ok_iff.mpr ⟨h r hr, rfl⟩⟩
  rw [extract_of_ok hentries]

end Extract

end KeyReader

/-- The key of a row has a box that meets the query. -/
def Expression.keyMeets (registry : Registry) (key : Expression) (query : Box) (row : Row) : Bool :=
  (key.keyBox? registry row).any (·.intersects query)

namespace IndexDefinition

variable {d : IndexDefinition} {storage : Storage} {registry : Registry} {config : Config}
  {tree : Tree}

/-- A definition that has a key has no other. -/
theorem keys_of_key_eq_ok {key : Expression} (h : d.key = .ok key) : d.keys = [key] := by
  unfold IndexDefinition.key at h
  split at h
  · rename_i only hkeys
    split at h
    · cases h
    · split at h
      · cases h
      · rw [hkeys, Except.ok.inj h]
  · cases h

/-- A build succeeds exactly if the definition and the settings pass their checks, the keys of all
rows can be indexed, and the entries of the rows can be packed. -/
theorem build_eq_ok_iff : d.build storage registry config = .ok tree ↔
    ∃ key, d.key = .ok key ∧ config.validate = .ok () ∧
      (∀ r ∈ storage.numbered, ∃ v, KeyReader.rowKey registry key r.2 = .ok v ∧
        v.IsIndexable) ∧
      config.packing.pack (storage.numbered.filterMap
        (KeyReader.boxedRow (KeyReader.rowBox? registry key))) = .ok tree := by
  simp only [IndexDefinition.build, bind_eq_ok, mapError_eq_ok]
  refine exists_congr fun key => and_congr_right fun _ => ?_
  constructor
  · rintro ⟨_, hconfig, _, hextract, hpack⟩
    have hrows := KeyReader.extract_eq_ok_iff.mp ⟨_, hextract⟩
    rw [KeyReader.extract_entries hrows] at hpack
    exact ⟨hconfig, hrows, hpack⟩
  · rintro ⟨hconfig, hrows, hpack⟩
    obtain ⟨summary, hextract⟩ := KeyReader.extract_eq_ok_iff.mpr hrows
    rw [← KeyReader.extract_entries hrows] at hpack
    exact ⟨(), hconfig, summary, hextract, hpack⟩

/-- A build that succeeds has found a value for the key of every row and packed the entries. -/
theorem build_eq_ok (h : d.build storage registry config = .ok tree)
    (hkeys : ∀ key ∈ d.keys, key.references = []) :
    ∃ key, d.keys = [key] ∧ (∀ r ∈ storage.numbered, ∃ v, key.evaluate registry r.2 = .ok v) ∧
      config.packing.pack (storage.numbered.filterMap (KeyReader.wholeEntry registry key)) =
        .ok tree := by
  obtain ⟨key, hkey, _, hrows, hpack⟩ := build_eq_ok_iff.mp h
  have hlist := keys_of_key_eq_ok hkey
  have hreferences := hkeys key (by rw [hlist]; exact List.mem_singleton_self key)
  refine ⟨key, hlist, fun r hr => ?_, ?_⟩
  · obtain ⟨v, hv, _⟩ := hrows r hr
    exact ⟨v, KeyReader.evaluate_of_rowKey hreferences hv⟩
  · rw [← hpack]
    refine congrArg _ (List.filterMap_congr fun r hr => ?_)
    obtain ⟨v, hv, _⟩ := hrows r hr
    rw [KeyReader.boxedRow, KeyReader.rowBox?_eq_keyBox? hreferences hv]
    rfl

/-- Searching a tree that was packed from the boxes of rows finds the ids of the rows whose box
meets the query. -/
theorem search_of_pack {box? : Row → Option Box} {query : Box} (hquery : query.isValid = true)
    (h : config.packing.pack (storage.numbered.filterMap (KeyReader.boxedRow box?)) = .ok tree) :
    (tree.search query).Perm
      ((storage.numbered.filter fun r => (box? r.2).any (·.intersects query)).map (·.1)) := by
  rw [(Packing.search_of_packSorted h query).1, if_pos hquery]
  refine (((SortKey.sort_perm _ _).filter _).map _).trans ?_
  rw [List.filter_filterMap, List.map_filterMap, ← List.filterMap_eq_map, List.filterMap_filter]
  refine .of_eq (congrArg (fun f => storage.numbered.filterMap f) (funext fun r => ?_))
  unfold KeyReader.boxedRow
  cases box? r.2 with
  | none => rfl
  | some box => cases hmeets : box.intersects query <;> simp [hmeets]

/-- Searching the tree of a build finds the ids of the rows whose key meets the query. -/
theorem search_of_build {key : Expression} {query : Box} (hquery : query.isValid = true)
    (h : config.packing.pack (storage.numbered.filterMap (KeyReader.wholeEntry registry key)) =
      .ok tree) :
    (tree.search query).Perm
      ((storage.numbered.filter fun r => key.keyMeets registry query r.2).map (·.1)) :=
  search_of_pack hquery h

end IndexDefinition

end SpatialIndex
