import SpatialIndex.Proofs.Catalog.Coverage
import SpatialIndex.Proofs.Plan.Execute

/-!
# The very index that was bound

An index is told from every other one by its number, which no index gets again.  Once an index is
off its table it is off for good: one that is made later under the same name, on the same table and
with the same key is another one.  So a scan of a bound index begins as long as no operation has
dropped just that index, and then finds the rows that it would have found at the time of planning.
-/

namespace SpatialIndex

namespace Catalog

variable {c c' : Catalog} {id : TableId} {t t' : Table} {index other : Index} {entry : TableEntry}
  {name : String} {operation : Operation} {operations : List Operation}

/-- An index is on a table if the entry at the number of the table has it. -/
theorem mem_indexes : index ∈ c.indexes t ↔
    ∃ entry, c.entries[t.id]? = some entry ∧ index ∈ entry.indexes := by
  unfold indexes entry?
  cases c.entries[t.id]? <;> simp

/-- After a change of one table, the indexes of that table are those of the changed one and the
others have their own. -/
theorem mem_indexes_modifyEntry {f : TableEntry → TableEntry} :
    index ∈ (c.modifyEntry id f).indexes t ↔ ∃ entry, c.entries[t.id]? = some entry ∧
      index ∈ (if t.id = id then f entry else entry).indexes := by
  rw [mem_indexes]
  simp only [getElem?_modifyEntry]
  constructor
  · rintro ⟨_, ⟨entry, hentry, rfl⟩, hindex⟩
    exact ⟨entry, hentry, hindex⟩
  · rintro ⟨entry, hentry, hindex⟩
    exact ⟨_, ⟨entry, hentry, rfl⟩, hindex⟩

/-- Publishing an index adds it to one table. -/
theorem of_mem_indexes_withIndex (h : other ∈ (c.withIndex id index).indexes t) :
    other ∈ c.indexes t ∨ t.id = id ∧ other = index := by
  obtain ⟨entry, hentry, hother⟩ := mem_indexes_modifyEntry.mp h
  split at hother
  · rename_i hid
    rcases List.mem_append.mp hother with hold | hnew
    · exact .inl (mem_indexes.mpr ⟨entry, hentry, hold⟩)
    · exact .inr ⟨hid, List.mem_singleton.mp hnew⟩
  · exact .inl (mem_indexes.mpr ⟨entry, hentry, hother⟩)

/-- A change adds no index to any table, or publishes one under the next number. -/
theorem Change.indexes (h : c.Change operation c') :
    c'.published = c.published ∧ (∀ t, c'.indexes t ⊆ c.indexes t) ∨
      ∃ id index, index.id = c.published ∧ c' = c.withIndex id index := by
  have hmodify {id : TableId} {f : TableEntry → TableEntry}
      (hf : ∀ entry, (f entry).indexes ⊆ entry.indexes) (t : Table) :
      (c.modifyEntry id f).indexes t ⊆ c.indexes t := by
    intro index hindex
    obtain ⟨entry, hentry, hmem⟩ := mem_indexes_modifyEntry.mp hindex
    split at hmem
    · exact mem_indexes.mpr ⟨entry, hentry, hf entry hmem⟩
    · exact mem_indexes.mpr ⟨entry, hentry, hmem⟩
  cases h with
  | none => exact .inl ⟨rfl, fun _ => List.Subset.refl _⟩
  | create =>
    refine .inl ⟨rfl, fun t index hindex => ?_⟩
    obtain ⟨entry, hentry, hmem⟩ := mem_indexes.mp hindex
    rcases getElem?_withTable.mp hentry with hold | ⟨_, rfl⟩
    · exact mem_indexes.mpr ⟨entry, hold, hmem⟩
    · cases hmem
  | dropTable => exact .inl ⟨rfl, fun _ => List.Subset.refl _⟩
  | append => exact .inl ⟨rfl, hmodify fun _ => List.Subset.refl _⟩
  | publish => exact .inr ⟨_, _, rfl, rfl⟩
  | dropIndex => exact .inl ⟨rfl, hmodify fun _ => List.eraseP_subset⟩

/-- The number of an index has been given out, and nothing but this index has it, on one table. -/
structure Knows (c : Catalog) (index : Index) : Prop where
  /-- The number will not be given out again. -/
  lt : index.id < c.published
  /-- An index with this number is this one. -/
  eq : ∀ {t : Table} {other : Index}, other ∈ c.indexes t → other.id = index.id → other = index
  /-- The index is on no two tables. -/
  place : ∀ {t t' : Table}, index ∈ c.indexes t → index ∈ c.indexes t' → t.id = t'.id

/-- No change puts an index on a table that is known already. -/
theorem Knows.of_mem_change (h : c.Knows index) (hchange : c.Change operation c')
    (hindex : index ∈ c'.indexes t) : index ∈ c.indexes t := by
  rcases hchange.indexes with ⟨_, hsub⟩ | ⟨id, new, hid, rfl⟩
  · exact hsub t hindex
  · rcases of_mem_indexes_withIndex hindex with hold | ⟨_, rfl⟩
    · exact hold
    · exact absurd hid (Nat.ne_of_lt h.lt)

/-- An index stays known, be it that it is dropped: a new one gets another number. -/
theorem Knows.change (h : c.Knows index) (hchange : c.Change operation c') : c'.Knows index := by
  have hplace {t t' : Table} (hmem : index ∈ c'.indexes t) (hmem' : index ∈ c'.indexes t') :
      t.id = t'.id := h.place (h.of_mem_change hchange hmem) (h.of_mem_change hchange hmem')
  rcases hchange.indexes with ⟨hpublished, hsub⟩ | ⟨id, new, hid, rfl⟩
  · exact ⟨hpublished ▸ h.lt, fun hother => h.eq (hsub _ hother), hplace⟩
  · refine ⟨Nat.lt_succ_of_lt h.lt, fun hother heq => ?_, hplace⟩
    rcases of_mem_indexes_withIndex hother with hold | ⟨_, rfl⟩
    · exact h.eq hold heq
    · exact absurd (heq.symm.trans hid) (Nat.ne_of_lt h.lt)

/-- The indexes that are on tables are known. -/
theorem Reachable.knows (h : c.Reachable) (hindex : index ∈ c.indexes t) : c.Knows index := by
  induction h generalizing t index with
  | empty => simp [mem_indexes] at hindex
  | @after c _ operation ih =>
    have hchange := change_after c operation
    rcases hchange.indexes with ⟨_, hsub⟩ | ⟨id, new, hid, hafter⟩
    · exact (ih (hsub t hindex)).change hchange
    · rw [hafter] at hchange hindex ⊢
      rcases of_mem_indexes_withIndex hindex with hold | ⟨_, rfl⟩
      · exact (ih hold).change hchange
      · -- The new number is higher than that of every index that was there.
        have hnone {t : Table} {other : Index} (hother : other ∈ c.indexes t) :
            other.id ≠ index.id := fun heq => Nat.ne_of_lt (ih hother).lt (heq.trans hid)
        refine ⟨hid ▸ Nat.lt_succ_self _, fun hother heq => ?_, fun hmem hmem' => ?_⟩
        · rcases of_mem_indexes_withIndex hother with hold | ⟨_, rfl⟩
          · exact absurd heq (hnone hold)
          · rfl
        · rcases of_mem_indexes_withIndex hmem with hold | ⟨hplace, _⟩
          · exact absurd rfl (hnone hold)
          · rcases of_mem_indexes_withIndex hmem' with hold | ⟨hplace', _⟩
            · exact absurd rfl (hnone hold)
            · exact hplace.trans hplace'.symm

/-- The index was published in the catalog at some time, and may have been dropped since. -/
def HasIssued (c : Catalog) (index : Index) : Prop :=
  ∃ (before : Catalog) (t : Table) (operations : List Operation),
    before.Reachable ∧ index ∈ before.indexes t ∧ c = before.afterAll operations

/-- An index stays known whatever operations follow. -/
theorem Knows.afterAll (h : c.Knows index) (operations : List Operation) :
    (c.afterAll operations).Knows index := by
  induction operations generalizing c with
  | nil => exact h
  | cons operation operations ih => exact ih (h.change (change_after c operation))

/-- A catalog in which an index was published is what operations have made of an empty one. -/
theorem HasIssued.reachable (h : c.HasIssued index) : c.Reachable := by
  obtain ⟨before, _, operations, hreachable, _, rfl⟩ := h
  exact hreachable.afterAll operations

/-- An index that was published is known by its number, which no other index has. -/
theorem HasIssued.knows (h : c.HasIssued index) : c.Knows index := by
  obtain ⟨before, t, operations, hreachable, hindex, rfl⟩ := h
  exact (hreachable.knows hindex).afterAll operations

/-- Dropping an index by its name leaves all others on the table. -/
theorem mem_unlink (hnodup : (entry.indexes.map (·.name)).Nodup)
    (hfound : entry.index? name = some index) :
    other ∈ (entry.unlink name).indexes ↔ other ∈ entry.indexes ∧ other ≠ index := by
  have hmem : index ∈ entry.indexes := List.mem_of_find?_eq_some hfound
  have hname : index.name = name := by simpa using List.find?_some hfound
  obtain ⟨erased, before, rest, _, herased, hsplit, hleft⟩ :=
    List.exists_of_eraseP (p := fun index : Index => index.name == name) hmem
      (beq_iff_eq.mpr hname)
  have hon : erased ∈ entry.indexes := by
    rw [hsplit]
    exact List.mem_append_right _ List.mem_cons_self
  obtain rfl : erased = index :=
    List.inj_on_of_nodup_map hnodup hon hmem ((beq_iff_eq.mp herased).trans hname.symm)
  have hgone : erased ∉ before ++ rest := by
    have hapart := hnodup.of_map
    rw [hsplit, List.nodup_middle] at hapart
    exact (List.nodup_cons.mp hapart).1
  have hall : other ∈ entry.indexes ↔ other = erased ∨ other ∈ before ++ rest := by
    rw [hsplit, List.perm_middle.mem_iff, List.mem_cons]
  show other ∈ entry.indexes.eraseP (fun index : Index => index.name == name) ↔ _
  rw [hleft, hall]
  constructor
  · intro hother
    exact ⟨.inr hother, fun heq => hgone (heq ▸ hother)⟩
  · rintro ⟨heq | hother, hne⟩
    · exact absurd heq hne
    · exact hother

/-- Dropping an index fails and changes nothing, or takes the index it gives off its table. -/
theorem Kept.dropIndex_cases (h : c.Kept) (name : String) :
    (∃ e, (dropIndex name).run.run c = (.error e, c)) ∨
      ∃ (entry : TableEntry) (index : Index),
        c.entries[entry.table.id]? = some entry ∧ entry.index? name = some index ∧
        (dropIndex name).run.run c =
          (.ok index, c.modifyEntry entry.table.id (·.unlink name)) := by
  rw [dropIndex_run]
  split
  · exact .inl ⟨_, rfl⟩
  · rename_i entry hfind
    split
    · exact .inl ⟨_, rfl⟩
    · rename_i index hindex
      obtain ⟨i, _, hentry⟩ := mem_listedEntries.mp (List.mem_of_find?_eq_some hfind)
      exact .inr ⟨entry, index, (h.id hentry).symm ▸ hentry, hindex, rfl⟩

/-- Of all indexes on all tables, dropping one leaves the others. -/
theorem Reachable.mem_indexes_unlink (h : c.Reachable)
    (hentry : c.entries[entry.table.id]? = some entry) (hfound : entry.index? name = some index) :
    other ∈ (c.modifyEntry entry.table.id (·.unlink name)).indexes t ↔
      other ∈ c.indexes t ∧ other ≠ index := by
  have hnodup := h.kept.nodup hentry
  have hindex : index ∈ c.indexes entry.table :=
    mem_indexes.mpr ⟨entry, hentry, List.mem_of_find?_eq_some hfound⟩
  rw [mem_indexes_modifyEntry]
  by_cases hid : t.id = entry.table.id
  · simp only [hid, if_true, hentry, Option.some.injEq, exists_eq_left', mem_indexes,
      mem_unlink hnodup hfound]
  · simp only [hid, if_false, ← mem_indexes]
    refine ⟨fun hother => ⟨hother, ?_⟩, And.left⟩
    -- On another table than its own the index that is dropped cannot be met.
    rintro rfl
    exact hid ((h.knows hindex).place hother hindex)

/-- The operation is a call that drops just this index, and succeeds. -/
def Operation.Takes (operation : Operation) (c : Catalog) (index : Index) : Prop :=
  ∃ name, operation = .dropIndex name ∧ ((Catalog.dropIndex name).run.run c).1 = .ok index

/-- One operation leaves a known index on its table unless it drops just this index, and puts it on
no table. -/
theorem Knows.mem_indexes_after (hknows : c.Knows index) (h : c.Reachable) :
    index ∈ (c.after operation).indexes t ↔
      index ∈ c.indexes t ∧ ¬operation.Takes c index := by
  -- An operation of any other kind, or on any other name, leaves the index where it is.
  by_cases hdrop : operation = .dropIndex index.name
  · subst hdrop
    have htakes : (Operation.dropIndex index.name).Takes c index ↔
        ((dropIndex index.name).run.run c).1 = .ok index := by
      simp [Operation.Takes]
    rw [htakes, after]
    rcases h.kept.dropIndex_cases index.name with ⟨e, hrun⟩ | ⟨entry, found, hentry, hfound, hrun⟩
    · simp [hrun]
    · rw [hrun, h.mem_indexes_unlink hentry hfound, Except.ok.injEq, ne_comm]
  · have hkeeps := keeps_after c hdrop
    have hnot : ¬operation.Takes c index := by
      rintro ⟨name, rfl, hok⟩
      rcases h.kept.dropIndex_cases name with ⟨e, hrun⟩ | ⟨entry, found, hentry, hfound, hrun⟩
      · rw [hrun] at hok
        cases hok
      · rw [hrun] at hok
        cases hok
        have hname : index.name = name := by simpa using List.find?_some hfound
        exact hdrop (by rw [hname])
    exact ⟨fun hindex => ⟨hknows.of_mem_change (change_after c operation) hindex, hnot⟩,
      fun hindex => hkeeps.mem_indexes hindex.1⟩

/-- One of several operations drops just this index, in the catalog that those before it leave. -/
def TakesAmong (c : Catalog) (operations : List Operation) (index : Index) : Prop :=
  ∃ before operation rest, operations = before ++ operation :: rest ∧
    operation.Takes (c.afterAll before) index

/-- An index is dropped by the first of several operations or, in the catalog which that leaves, by
one of the others. -/
theorem takesAmong_cons : c.TakesAmong (operation :: operations) index ↔
    operation.Takes c index ∨ (c.after operation).TakesAmong operations index := by
  constructor
  · rintro ⟨before, taken, rest, hsplit, htakes⟩
    cases before with
    | nil =>
      cases hsplit
      exact .inl htakes
    | cons first before =>
      cases hsplit
      exact .inr ⟨before, taken, rest, rfl, htakes⟩
  · rintro (htakes | ⟨before, taken, rest, rfl, htakes⟩)
    · exact ⟨[], operation, operations, rfl, htakes⟩
    · exact ⟨operation :: before, taken, rest, rfl, htakes⟩

/-- Operations leave a known index on its table unless one of them drops just this index, and put it
on no table. -/
theorem Knows.mem_indexes_afterAll (hknows : c.Knows index) (h : c.Reachable)
    (operations : List Operation) : index ∈ (c.afterAll operations).indexes t ↔
      index ∈ c.indexes t ∧ ¬c.TakesAmong operations index := by
  induction operations generalizing c with
  | nil => simp [Catalog.afterAll, TakesAmong]
  | cons operation operations ih =>
    have hnext := hknows.change (change_after c operation)
    show index ∈ ((c.after operation).afterAll operations).indexes t ↔ _
    rw [ih hnext (h.after operation), hknows.mem_indexes_after h, takesAmong_cons, not_or,
      and_assoc]

/-- A scan finds the index it was bound to on the table if the very index is there. -/
theorem Knows.isAttached_iff {b : ScanBinding} (hknows : c.Knows b.index) (h : c.Reachable) :
    b.isAttached c = true ↔ b.index ∈ c.indexes b.table := by
  refine ⟨fun hattached => ?_, fun hindex => h.kept.isAttached hindex b.box⟩
  unfold ScanBinding.isAttached at hattached
  split at hattached
  · rename_i found hfind
    have hfound := List.mem_of_find?_eq_some hfind
    rwa [hknows.eq hfound (beq_iff_eq.mp hattached)] at hfound
  · cases hattached

section Scans

variable {b : ScanBinding} {columns : List Nat} {batchSize : Nat} {scan : IndexScan}

/-- A scan through a known index starts when the index is still on the table of the scan, and then
with what the index finds. -/
theorem Knows.start_eq_ok_iff (hknows : c.Knows b.index) (h : c.Reachable) :
    IndexScan.start c b columns batchSize = .ok scan ↔ b.index ∈ c.indexes b.table ∧
      scan = ⟨b.table, columns, b.index.tree.search b.box, 0, max batchSize 1⟩ := by
  rw [IndexScan.start, ← hknows.isAttached_iff h]
  cases b.isAttached c <;> simp [eq_comm]

/-- A scan through a known index that is no longer on the table of the scan fails and reports the
index as detached. -/
theorem Knows.start_eq_error (hknows : c.Knows b.index) (h : c.Reachable)
    (hnot : b.index ∉ c.indexes b.table) : IndexScan.start c b columns batchSize =
      .error (.detachedIndex b.index.name b.table.name) :=
  if_neg (mt (hknows.isAttached_iff h).mp hnot)

/-- Rows that an index scan cannot begin to read are not given. -/
theorem execute_ne_ok_of_start {g : Get} {cause : Error} (haccess : g.access = .index b)
    (hstart : IndexScan.start c b g.columns batchSize = .error cause) (registry : Registry)
    (rows : List Row) : g.execute c registry batchSize ≠ .ok rows := by
  have hscan : g.scanRows c batchSize = .error cause := by
    unfold Get.scanRows
    rw [haccess]
    dsimp only
    rw [hstart]
    rfl
  intro hok
  obtain ⟨_, _, read, hread, _⟩ := Get.execute_eq_ok_iff.mp hok
  cases hscan.symm.trans hread

/-- What becomes of a scan that is bound to an index of the catalog, whatever is done to the catalog
before it begins.  The index is on the table that was bound if it was there at the time of planning
and no operation has dropped just this index since.  If it is, the scan begins and finds the rows
that it would have found at the time of planning; otherwise it fails as an inconsistency, and a plan
that reads through it gives no rows. -/
theorem start_after_operations (hissued : c.HasIssued b.index) (operations : List Operation)
    (columns : List Nat) (batchSize : Nat) :
    ((∃ scan, IndexScan.start (c.afterAll operations) b columns batchSize = .ok scan) ↔
      b.index ∈ (c.afterAll operations).indexes b.table) ∧
    (b.index ∈ (c.afterAll operations).indexes b.table ↔
      b.index ∈ c.indexes b.table ∧ ¬c.TakesAmong operations b.index) ∧
    (∀ scan, IndexScan.start (c.afterAll operations) b columns batchSize = .ok scan →
      scan.candidates = b.index.tree.search b.box ∧
        IndexScan.start c b columns batchSize = .ok scan) ∧
    (b.index ∉ (c.afterAll operations).indexes b.table → ∃ cause,
      IndexScan.start (c.afterAll operations) b columns batchSize = .error cause ∧
        cause.category = .inconsistency ∧
        ∀ (g : Get) (registry : Registry) (rows : List Row), g.access = .index b →
          g.execute (c.afterAll operations) registry batchSize ≠ .ok rows) := by
  have hknows := hissued.knows
  have hknows' := hknows.afterAll operations
  have hreachable' := hissued.reachable.afterAll operations
  have hstays := hknows.mem_indexes_afterAll (t := b.table) hissued.reachable operations
  refine ⟨?_, hstays, fun scan hscan => ?_, fun hnot => ?_⟩
  · simp only [hknows'.start_eq_ok_iff hreachable', exists_and_left, exists_eq, and_true]
  · obtain ⟨hindex, rfl⟩ := (hknows'.start_eq_ok_iff hreachable').mp hscan
    exact ⟨rfl, (hknows.start_eq_ok_iff hissued.reachable).mpr ⟨(hstays.mp hindex).1, rfl⟩⟩
  · refine ⟨_, hknows'.start_eq_error hreachable' hnot, rfl, fun g registry rows haccess => ?_⟩
    exact execute_ne_ok_of_start haccess (hknows'.start_eq_error hreachable' hnot) registry rows

end Scans

end Catalog

namespace Places

/-- The catalog with the table alone, after some indexes have been published and dropped. -/
def cleared (published : Nat) : Catalog :=
  ⟨{}, .spatial, #[⟨table, storage, []⟩], [0], published⟩

/-- Whatever indexes there were before, one on the places is made under the next number. -/
theorem createIndex_cleared {tree : Tree} (hbuild : definition.build storage .spatial {} = .ok tree)
    (published : Nat) : (Catalog.createIndex definition).run.run (cleared published) =
      (.ok (.ofTree published definition tree), ⟨{}, .spatial,
        #[⟨table, storage, [.ofTree published definition tree]⟩], [0], published + 1⟩) := by
  have hprepared : (cleared published).prepared definition = .ok table := rfl
  have hstorage : definition.build ((cleared published).storage table) (cleared published).functions
      (cleared published).config = .ok tree := hbuild
  rw [Catalog.createIndex_run, hprepared]
  dsimp only
  rw [hstorage]
  dsimp only
  rw [Catalog.publishIndex_of_prepared hprepared]
  rfl

/-- The only index is dropped. -/
theorem dropIndex_cleared (published : Nat) (tree : Tree) :
    (Catalog.dropIndex "by_place").run.run ⟨{}, .spatial,
      #[⟨table, storage, [.ofTree published definition tree]⟩], [0], published + 1⟩ =
        (.ok (.ofTree published definition tree), cleared (published + 1)) := rfl

/-- A search for a place through an index. -/
def bound (index : Index) : ScanBinding := ⟨table, index, .ofPoint (.ofInt 1) (.ofInt 1)⟩

end Places

open Places in
/-- A scan of the index on the places goes on after the table was dropped, and does not after the
index was dropped, although there is another one under its name, with its key and its tree. -/
theorem Catalog.start_after_operations_places : ∃ index other,
    catalog.indexes Places.table = [index] ∧
    (catalog.afterAll [.dropIndex "by_place", .createIndex definition]).indexes Places.table =
      [other] ∧
    other.name = index.name ∧ other.keys = index.keys ∧ other.tree = index.tree ∧
    (∃ scan, IndexScan.start (catalog.afterAll [.dropTable "places"]) (bound index) [0] 1 =
      .ok scan) ∧
    ∃ cause, IndexScan.start
      (catalog.afterAll [.dropIndex "by_place", .createIndex definition]) (bound index) [0] 1 =
        .error cause ∧ cause.category = .inconsistency := by
  obtain ⟨tree, hbuild⟩ := exists_build
  have hcatalog : catalog = ⟨{}, .spatial,
      #[⟨Places.table, Places.storage, [.ofTree 0 definition tree]⟩], [0], 1⟩ := by
    rw [catalog, after, unindexed_eq]
    exact congrArg Prod.snd (createIndex_cleared hbuild 0)
  have hremade : catalog.afterAll [.dropIndex "by_place", .createIndex definition] =
      ⟨{}, .spatial, #[⟨Places.table, Places.storage, [.ofTree 1 definition tree]⟩], [0], 2⟩ := by
    show ((createIndex definition).run.run ((dropIndex "by_place").run.run catalog).2).2 = _
    rw [hcatalog, dropIndex_cleared, createIndex_cleared hbuild]
  have hindexes : catalog.indexes Places.table = [.ofTree 0 definition tree] := by
    rw [hcatalog]
    rfl
  have hissued : catalog.HasIssued (bound (.ofTree 0 definition tree)).index := by
    refine ⟨catalog, Places.table, [], ((Reachable.empty _ _).after _).after _, ?_, rfl⟩
    rw [hindexes]
    exact List.mem_singleton_self _
  obtain ⟨hstart, _⟩ := start_after_operations hissued [.dropTable "places"] [0] 1
  obtain ⟨_, _, _, hfails⟩ := start_after_operations hissued
    [.dropIndex "by_place", .createIndex definition] [0] 1
  refine ⟨.ofTree 0 definition tree, .ofTree 1 definition tree, hindexes, ?_, rfl, rfl, rfl,
    hstart.mpr ?_, ?_⟩
  · rw [hremade]
    rfl
  · show _ ∈ ((dropTable "places").run.run catalog).2.indexes Places.table
    rw [hcatalog]
    exact List.mem_singleton_self _
  · have hother : (bound (.ofTree 0 definition tree)).index ∉
        (catalog.afterAll [.dropIndex "by_place", .createIndex definition]).indexes
          (bound (.ofTree 0 definition tree)).table := by
      rw [hremade]
      intro hmem
      have hid : 0 = 1 := congrArg Index.id (List.mem_singleton.mp hmem)
      cases hid
    obtain ⟨cause, hcause, hcategory, _⟩ := hfails hother
    exact ⟨cause, hcause, hcategory⟩

end SpatialIndex
