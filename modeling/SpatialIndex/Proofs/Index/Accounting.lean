import SpatialIndex.Proofs.Index.Extraction

/-!
# An account of every row

Extracting entries goes through all rows in one scan, and a row can also be made into an entry by
itself.  Both agree: an extraction that comes to an end has handed out the entries that the rows
have by themselves and has counted every row under one kind of key, and an extraction that fails has
met the first row that fails by itself.
-/

namespace SpatialIndex

namespace KeyReader

variable {registry : Registry} {key : Expression} {storage : Storage} {r : RowId × Row}

/-- A row cannot be made into an entry: it lacks a column that the key reads, or its key has no
value, or a value other than null and shapes, or is a shape with a box that is not valid. -/
def Fails (registry : Registry) (key : Expression) (r : RowId × Row) : Prop :=
  (∃ column ∈ (ofKey key).columns, r.2.length ≤ column) ∨
    ∃ row, projectRow (ofKey key).columns r.2 = .ok row ∧
      ¬∃ v, (ofKey key).key.evaluate registry row = .ok v ∧ v.IsIndexable

/-- The entry that a row has by itself. -/
def entryFrom? (registry : Registry) (key : Expression) (r : RowId × Row) : Option Entry :=
  (rowEntry registry key r).toOption.join

/-- A row fails when making it into an entry does. -/
theorem fails_iff : Fails registry key r ↔ ∃ cause, rowEntry registry key r = .error cause := by
  by_cases hcolumns : ∀ column ∈ (ofKey key).columns, column < r.2.length
  · obtain ⟨row, hrow⟩ := Storage.exists_projectRow hcolumns
    have hkey : rowKey registry key r.2 = (ofKey key).key.evaluate registry row := by
      rw [rowKey, hrow]
      rfl
    constructor
    · rintro (⟨column, hcolumn, hlacks⟩ | ⟨row', hrow', hvalue⟩)
      · exact absurd (hcolumns column hcolumn) (by omega)
      · obtain rfl := Except.ok.inj (hrow.symm.trans hrow')
        cases hentry : rowEntry registry key r with
        | error cause => exact ⟨cause, rfl⟩
        | ok entry => exact absurd (hkey ▸ (rowEntry_eq_ok_iff.mp hentry).1) hvalue
    · rintro ⟨cause, hcause⟩
      refine .inr ⟨row, hrow, fun hvalue => ?_⟩
      have hentry := rowEntry_eq_ok_iff.mpr ⟨hkey ▸ hvalue, rfl⟩
      rw [hcause] at hentry
      cases hentry
  · have hlacks : ∃ column ∈ (ofKey key).columns, r.2.length ≤ column := by
      simpa only [not_forall, Nat.not_lt, exists_prop] using hcolumns
    refine iff_of_true (.inl hlacks) ?_
    cases hrow : projectRow (ofKey key).columns r.2 with
    | error cause => exact ⟨cause, by rw [rowEntry, hrow]; rfl⟩
    | ok row => exact absurd (fun column => Storage.lt_of_projectRow hrow) hcolumns

/-- A row does not fail when it can be made into an entry, or into none. -/
theorem not_fails_iff :
    ¬Fails registry key r ↔ ∃ entry, rowEntry registry key r = .ok entry := by
  rw [fails_iff]
  cases rowEntry registry key r <;> simp

/-- The entry of a row that does not fail has the box of its key. -/
theorem entryFrom?_eq_boxedRow (h : ¬Fails registry key r) :
    entryFrom? registry key r = boxedRow (rowBox? registry key) r := by
  obtain ⟨entry, hentry⟩ := not_fails_iff.mp h
  obtain ⟨_, rfl⟩ := rowEntry_eq_ok_iff.mp hentry
  rw [entryFrom?, hentry]
  rfl

/-- The entries of rows of which none fails have the boxes of their keys. -/
theorem filterMap_entryFrom? {rows : List (RowId × Row)}
    (h : ∀ r ∈ rows, ¬Fails registry key r) :
    rows.filterMap (entryFrom? registry key) = rows.filterMap (boxedRow (rowBox? registry key)) :=
  List.filterMap_congr fun r hr => entryFrom?_eq_boxedRow (h r hr)

/-- A value that can be indexed is of one kind. -/
theorem exists_keyKind? {v : Value} (h : v.IsIndexable) : ∃ kind, v.keyKind? = some kind := by
  cases v with
  | null => exact ⟨.null, rfl⟩
  | geometry g =>
    rw [Value.keyKind?]
    cases hbox : g.box? with
    | none => exact ⟨.empty, rfl⟩
    | some box => exact ⟨.boxed, if_pos (h box hbox)⟩
  | _ => exact h.elim

/-- The key of a row that does not fail is of one kind. -/
theorem exists_rowKind? (h : ¬Fails registry key r) :
    ∃ kind, rowKind? registry key r.2 = some kind := by
  obtain ⟨_, hentry⟩ := not_fails_iff.mp h
  obtain ⟨⟨v, hv, hindexable⟩, _⟩ := rowEntry_eq_ok_iff.mp hentry
  rw [rowKind?, hv]
  exact exists_keyKind? hindexable

/-- A row has an entry by itself exactly if its key has a box. -/
theorem isSome_entryFrom?_iff (h : ¬Fails registry key r) :
    (entryFrom? registry key r).isSome = true ↔ rowKind? registry key r.2 = some .boxed := by
  obtain ⟨_, hentry⟩ := not_fails_iff.mp h
  obtain ⟨⟨v, hv, hindexable⟩, _⟩ := rowEntry_eq_ok_iff.mp hentry
  rw [entryFrom?_eq_boxedRow h, boxedRow, Option.isSome_map, rowBox?, rowKind?, hv]
  dsimp only
  cases v with
  | null => exact iff_of_false Bool.false_ne_true fun h => by cases h
  | geometry g =>
    show g.box?.isSome = true ↔ (Value.geometry g).keyKind? = some .boxed
    rw [Value.keyKind?]
    cases hbox : g.box? with
    | none => exact iff_of_false Bool.false_ne_true fun h => by cases h
    | some box => exact iff_of_true rfl (if_pos (hindexable box hbox))
  | _ => exact hindexable.elim

/-- What an extraction that comes to an end has counted and handed out. -/
structure Reports (registry : Registry) (key : Expression) (storage : Storage)
    (summary : ExtractionSummary) (entries : List Entry) : Prop where
  /-- No row fails. -/
  sound : ∀ r ∈ storage.numbered, ¬Fails registry key r
  /-- The entries are those that the rows have by themselves. -/
  handed : entries = storage.numbered.filterMap (entryFrom? registry key)
  /-- The ids of their rows ascend. -/
  ascending : storage.FitsIds → entries.Pairwise fun a b => a.row < b.row
  /-- Each count is that of the rows with this kind of key. -/
  counts : summary = summaryOf registry key storage.numbered
  /-- All rows are counted. -/
  rows : summary.rows = storage.rows.size
  /-- As many entries are counted as are handed out. -/
  counted : summary.entries = entries.length
  /-- Every row is counted under one kind of key. -/
  total : summary.entries + summary.nullKeys + summary.emptyKeys = summary.rows

/-- An extraction ends with the failure of the first row that fails, and has handed out the entries
that the rows before it have by themselves. -/
def StopsAtFirst (registry : Registry) (key : Expression) (storage : Storage) : Prop :=
  ∃ before first after cause, storage.numbered = before ++ first :: after ∧
    (∀ r ∈ before, ¬Fails registry key r) ∧ Fails registry key first ∧
    rowEntry registry key first = .error cause ∧
    (ofKey key).extract registry storage =
      (.error cause, before.filterMap (entryFrom? registry key))

/-- Without a row that fails, an extraction reports on all rows. -/
theorem reports_of_forall (h : ∀ r ∈ storage.numbered, ¬Fails registry key r) :
    ∃ summary entries, (ofKey key).extract registry storage = (.ok summary, entries) ∧
      Reports registry key storage summary entries := by
  have hentries := filterMap_entryFrom? h
  refine ⟨_, _, extract_of_ok fun r hr => not_fails_iff.mp (h r hr), h, hentries.symm, ?_, rfl, ?_,
    ?_, summaryOf_total fun r hr => exists_rowKind? (h r hr)⟩
  · intro hsize
    refine (List.pairwise_map.mp (Storage.pairwise_ids hsize)).filterMap _ ?_
    intro r r' hlt entry hentry entry' hentry'
    obtain ⟨box, _, rfl⟩ := Option.map_eq_some_iff.mp hentry
    obtain ⟨box', _, rfl⟩ := Option.map_eq_some_iff.mp hentry'
    exact hlt
  · show storage.numbered.length = storage.rows.size
    rw [← Array.length_toList, ← Storage.map_snd_numbered, List.length_map]
  · rw [← hentries, List.length_filterMap_eq_countP]
    apply List.countP_congr
    intro r hr
    rw [decide_eq_true_eq, isSome_entryFrom?_iff (h r hr)]

/-- If a row fails, an extraction stops at the first one that does. -/
theorem stopsAtFirst_of_exists (h : ∃ r ∈ storage.numbered, Fails registry key r) :
    StopsAtFirst registry key storage := by
  rcases forall_ok_or_exists_error (rowEntry registry key) storage.numbered with
    hall | ⟨before, first, after, cause, hnumbered, hbefore, hfirst⟩
  · obtain ⟨r, hr, hfails⟩ := h
    exact absurd hfails (not_fails_iff.mpr (hall r hr))
  · have hnone : ∀ r ∈ before, ¬Fails registry key r :=
      fun r hr => not_fails_iff.mpr (hbefore r hr)
    refine ⟨before, first, after, cause, hnumbered, hnone, fails_iff.mpr ⟨cause, hfirst⟩, hfirst,
      ?_⟩
    rw [extract_of_error hnumbered hbefore hfirst, filterMap_entryFrom? hnone]

/-- An extraction agrees with making every row into an entry by itself: an extraction that comes to
an end reports on all rows, one that meets a row that fails stops at the first of these, and without
such a row an extraction comes to an end. -/
theorem extract_row_by_row (registry : Registry) (key : Expression) (storage : Storage) :
    (∀ summary entries, (ofKey key).extract registry storage = (.ok summary, entries) →
      Reports registry key storage summary entries) ∧
    ((∃ r ∈ storage.numbered, Fails registry key r) → StopsAtFirst registry key storage) ∧
    ((∀ r ∈ storage.numbered, ¬Fails registry key r) →
      ∃ summary entries, (ofKey key).extract registry storage = (.ok summary, entries)) := by
  refine ⟨fun summary entries hextract => ?_, stopsAtFirst_of_exists, fun h => ?_⟩
  · by_cases hfails : ∃ r ∈ storage.numbered, Fails registry key r
    · obtain ⟨_, _, _, _, _, _, _, _, hstops⟩ := stopsAtFirst_of_exists hfails
      cases hextract.symm.trans hstops
    · obtain ⟨_, _, hagain, hreports⟩ := reports_of_forall fun r hr hfail => hfails ⟨r, hr, hfail⟩
      cases hextract.symm.trans hagain
      exact hreports
  · obtain ⟨summary, entries, hextract, _⟩ := reports_of_forall h
    exact ⟨summary, entries, hextract⟩

/-- A null and a point are both counted, a number between them ends the extraction at its row, and
a key on a column that the rows do not have ends it at the first row. -/
theorem extract_row_by_row_points :
    let key (column : Nat) : Expression := .column ⟨0, column⟩ .geometry
    let point : Row := [.geometry (.point ⟨.ofInt 1, .ofInt 1⟩)]
    (∃ entries, Reports .spatial (key 0) ⟨1, #[[.null], point]⟩ ⟨2, 1, 1, 0⟩ entries) ∧
      StopsAtFirst .spatial (key 0) ⟨1, #[[.null], [.bigint 1], point]⟩ ∧
      StopsAtFirst .spatial (key 1) ⟨1, #[point, point]⟩ := by
  intro key point
  have hkey (column : Nat) : ofKey (key column) = ⟨.reference 0 .geometry, [column]⟩ :=
    ofKey_column 0 column .geometry
  have hsummary : ((ofKey (key 0)).extract .spatial ⟨1, #[[.null], point]⟩).1 =
      .ok ⟨2, 1, 1, 0⟩ := by
    rw [hkey]
    apply toOption_eq_some_iff.mp
    decide +kernel
  have hnumber : Fails .spatial (key 0) (1, [.bigint 1]) := by
    refine .inr ⟨[.bigint 1], ?_, ?_⟩ <;> rw [hkey]
    · rfl
    · rintro ⟨v, hv, hindexable⟩
      cases hv
      exact hindexable
  have hbeyond : Fails .spatial (key 1) (0, point) := by
    refine .inl ⟨1, ?_, Nat.le_refl 1⟩
    rw [hkey]
    exact List.mem_singleton_self 1
  have hrow : (1, [.bigint 1]) ∈
      (⟨1, #[[.null], [.bigint 1], point]⟩ : Storage).numbered :=
    List.mem_cons_of_mem _ List.mem_cons_self
  have hfirst : (0, point) ∈ (⟨1, #[point, point]⟩ : Storage).numbered := List.mem_cons_self
  exact ⟨⟨_, (extract_row_by_row .spatial (key 0) _).1 _ _ (Prod.ext hsummary rfl)⟩,
    (extract_row_by_row .spatial (key 0) _).2.1 ⟨_, hrow, hnumber⟩,
    (extract_row_by_row .spatial (key 1) _).2.1 ⟨_, hfirst, hbeyond⟩⟩

end KeyReader

end SpatialIndex
