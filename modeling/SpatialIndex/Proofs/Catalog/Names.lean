import SpatialIndex.Proofs.Catalog.Operations

/-!
# Names in a catalog

No two listed tables have one name, and no two of their indexes do, so what a name finds does not
depend on the order in which tables are looked at.  Every operation keeps it that way.  A table that
is off the list never comes back, even if another one of its name does, and an index can be found
until it is dropped or its table is.
-/

namespace SpatialIndex

/-- Where at most one member of a list will do, it is the one that is found. -/
theorem find?_eq_some_iff_of_unique {α : Type} {p : α → Bool} {l : List α} {a : α}
    (h : ∀ b ∈ l, ∀ b' ∈ l, p b = true → p b' = true → b = b') :
    l.find? p = some a ↔ a ∈ l ∧ p a = true := by
  refine ⟨fun hfind => ⟨List.mem_of_find?_eq_some hfind, List.find?_some hfind⟩, ?_⟩
  rintro ⟨hmem, ha⟩
  cases hfind : l.find? p with
  | none => exact absurd ha (List.find?_eq_none.mp hfind a hmem)
  | some b =>
    rw [h b (List.mem_of_find?_eq_some hfind) a hmem (List.find?_some hfind) ha]

/-- The first value is that of the first member that has one. -/
theorem findSome?_eq_bind_find? {α β : Type} {f : α → Option β} {l : List α} :
    l.findSome? f = (l.find? fun a => (f a).isSome).bind f := by
  induction l with
  | nil => rfl
  | cons a l ih =>
    cases ha : f a with
    | none =>
      rw [List.findSome?_cons_of_isNone (by simp [ha]), ih, List.find?_cons_of_neg (by simp [ha])]
    | some b =>
      rw [List.findSome?_cons_of_isSome (by simp [ha]), List.find?_cons_of_pos (by simp [ha])]
      rfl

namespace TableEntry

variable {entry : TableEntry} {name : String}

/-- A table has an index of a name when one of its indexes has the name. -/
theorem index?_isSome_iff :
    (entry.index? name).isSome = true ↔ ∃ index ∈ entry.indexes, index.name = name := by
  simp [index?]

end TableEntry

namespace Catalog

variable {c c' : Catalog} {id i j : TableId} {entry entry' : TableEntry} {index index' : Index}
  {name : String}

/-- A table is listed under a number. -/
def IsListed (c : Catalog) (id : TableId) (entry : TableEntry) : Prop :=
  id ∈ c.listed ∧ c.entries[id]? = some entry

/-- The listed tables are those that are listed under a number. -/
theorem mem_listedEntries : entry ∈ c.listedEntries ↔ ∃ id, c.IsListed id entry := by
  simp [listedEntries, entry?, IsListed]

/-- The first listed table that has an index of a name. -/
def holder? (c : Catalog) (name : String) : Option TableEntry :=
  c.listedEntries.find? fun entry => (entry.index? name).isSome

/-- The index of a name is the one that the first listed table with such an index has. -/
theorem index?_eq_bind_holder? : c.index? name = (c.holder? name).bind (·.index? name) :=
  findSome?_eq_bind_find?

/-- A name is free when no listed table has an index of it. -/
theorem index?_eq_none_iff : c.index? name = none ↔
    ∀ id entry, c.IsListed id entry → ∀ index ∈ entry.indexes, index.name ≠ name := by
  rw [index?, List.findSome?_eq_none_iff]
  constructor
  · intro h id entry hlisted index hindex hname
    have hnone := h entry (mem_listedEntries.mpr ⟨id, hlisted⟩)
    exact List.find?_eq_none.mp hnone index hindex (by simpa using hname)
  · intro h entry hentry
    obtain ⟨id, hlisted⟩ := mem_listedEntries.mp hentry
    exact List.find?_eq_none.mpr fun index hindex => by simpa using h id entry hlisted index hindex

/-- Names tell the listed tables apart, and so they do the indexes of all listed tables. -/
structure Orderly (c : Catalog) : Prop extends Kept c where
  /-- Only tables that were created are listed. -/
  listed_lt : ∀ id ∈ c.listed, id < c.entries.size
  /-- No table is listed twice. -/
  listed_nodup : c.listed.Nodup
  /-- No two listed tables have one name. -/
  table_unique : ∀ {i j : TableId} {entry entry' : TableEntry}, c.IsListed i entry →
    c.IsListed j entry' → entry.table.name = entry'.table.name → i = j
  /-- No two listed tables have indexes of one name. -/
  index_unique : ∀ {i j : TableId} {entry entry' : TableEntry} {index index' : Index},
    c.IsListed i entry → c.IsListed j entry' → index ∈ entry.indexes → index' ∈ entry'.indexes →
      index.name = index'.name → i = j
  /-- An index names the table that it is on. -/
  owner : ∀ {i : TableId} {entry : TableEntry}, c.entries[i]? = some entry →
    ∀ index ∈ entry.indexes, index.table = entry.table.name

namespace Orderly

/-- Listed tables that agree in something by which they are told apart are the same. -/
theorem eq_of_eq (hi : c.IsListed i entry) (hj : c.IsListed j entry') (h : i = j) :
    entry = entry' := by
  rw [h, IsListed, hj.2] at hi
  exact (Option.some.inj hi.2).symm

/-- A name finds the listed table that has it. -/
theorem listed?_eq_some_iff (h : c.Orderly) : c.listed? name = some entry ↔
    (∃ id, c.IsListed id entry) ∧ entry.table.name = name := by
  rw [listed?, find?_eq_some_iff_of_unique, mem_listedEntries, beq_iff_eq]
  intro first hfirst second hsecond hname hname'
  obtain ⟨i, hi⟩ := mem_listedEntries.mp hfirst
  obtain ⟨j, hj⟩ := mem_listedEntries.mp hsecond
  rw [beq_iff_eq] at hname hname'
  exact eq_of_eq hi hj (h.table_unique hi hj (hname.trans hname'.symm))

/-- The table that is listed under a name is the one at the place of its number. -/
theorem exists_isListed (h : c.Orderly) {t : Table}
    (hlisted : (c.listed? t.name).map (·.table.id) = some t.id) :
    ∃ entry, c.IsListed t.id entry ∧ entry.table.name = t.name := by
  obtain ⟨entry, hentry, hid⟩ := Option.map_eq_some_iff.mp hlisted
  obtain ⟨⟨id, hplace⟩, hname⟩ := h.listed?_eq_some_iff.mp hentry
  rw [h.id hplace.2] at hid
  exact ⟨entry, hid ▸ hplace, hname⟩

/-- A table is found by its name when it is listed under its number. -/
theorem listed?_table_iff (h : c.Orderly) {t : Table} :
    (c.listed? t.name).map (·.table) = some t ↔
      ∃ entry, c.IsListed t.id entry ∧ entry.table = t := by
  constructor
  · intro hfound
    obtain ⟨entry, hentry, rfl⟩ := Option.map_eq_some_iff.mp hfound
    obtain ⟨⟨id, hlisted⟩, _⟩ := h.listed?_eq_some_iff.mp hentry
    exact ⟨entry, (h.id hlisted.2).symm ▸ hlisted, rfl⟩
  · rintro ⟨entry, hlisted, rfl⟩
    rw [h.listed?_eq_some_iff.mpr ⟨⟨_, hlisted⟩, rfl⟩]
    rfl

/-- A name of an index finds the listed table that has an index of it. -/
theorem holder?_eq_some_iff (h : c.Orderly) : c.holder? name = some entry ↔
    (∃ id, c.IsListed id entry) ∧ ∃ index ∈ entry.indexes, index.name = name := by
  rw [holder?, find?_eq_some_iff_of_unique, mem_listedEntries, TableEntry.index?_isSome_iff]
  intro first hfirst second hsecond hhas hhas'
  obtain ⟨i, hi⟩ := mem_listedEntries.mp hfirst
  obtain ⟨j, hj⟩ := mem_listedEntries.mp hsecond
  obtain ⟨index, hindex, hname⟩ := TableEntry.index?_isSome_iff.mp hhas
  obtain ⟨index', hindex', hname'⟩ := TableEntry.index?_isSome_iff.mp hhas'
  exact eq_of_eq hi hj (h.index_unique hi hj hindex hindex' (hname.trans hname'.symm))

/-- A name finds the index of a listed table that has it. -/
theorem index?_eq_some_iff (h : c.Orderly) : c.index? name = some index ↔
    ∃ id entry, c.IsListed id entry ∧ index ∈ entry.indexes ∧ index.name = name := by
  rw [index?_eq_bind_holder?, Option.bind_eq_some_iff]
  constructor
  · rintro ⟨entry, hholder, hfind⟩
    obtain ⟨⟨id, hlisted⟩, _⟩ := h.holder?_eq_some_iff.mp hholder
    have hname : index.name = name := by simpa using List.find?_some hfind
    exact ⟨id, entry, hlisted, List.mem_of_find?_eq_some hfind, hname⟩
  · rintro ⟨id, entry, hlisted, hindex, rfl⟩
    refine ⟨entry, h.holder?_eq_some_iff.mpr ⟨⟨id, hlisted⟩, index, hindex, rfl⟩, ?_⟩
    exact find?_name_eq_some (h.nodup hlisted.2) hindex

/-- The names of the indexes of all listed tables are different. -/
theorem nodup_names (h : c.Orderly) :
    (c.listedEntries.flatMap fun entry => entry.indexes.map (·.name)).Nodup := by
  rw [List.nodup_flatMap]
  constructor
  · intro entry hentry
    obtain ⟨id, hlisted⟩ := mem_listedEntries.mp hentry
    exact h.nodup hlisted.2
  · rw [listedEntries, List.pairwise_filterMap]
    refine (List.pairwise_iff_forall_sublist.mpr ?_ : c.listed.Pairwise _)
    intro i j hsub entry hentry entry' hentry'
    have hi : c.IsListed i entry := ⟨hsub.subset List.mem_cons_self, hentry⟩
    have hj : c.IsListed j entry' :=
      ⟨hsub.subset (List.mem_cons_of_mem _ List.mem_cons_self), hentry'⟩
    intro name hname hname'
    obtain ⟨index, hindex, rfl⟩ := List.mem_map.mp hname
    obtain ⟨index', hindex', heq⟩ := List.mem_map.mp hname'
    have hij := h.index_unique hi hj hindex hindex' heq.symm
    have hne := h.listed_nodup.sublist hsub
    simp [hij] at hne

/-- Listing some of the tables, in whatever order, keeps them apart. -/
theorem relist (h : c.Orderly) {l : List TableId} (hnodup : l.Nodup)
    (hsub : ∀ id ∈ l, id ∈ c.listed) : ({ c with listed := l } : Catalog).Orderly := by
  have hlisted {id : TableId} {entry : TableEntry}
      (hentry : ({ c with listed := l } : Catalog).IsListed id entry) : c.IsListed id entry :=
    ⟨hsub id hentry.1, hentry.2⟩
  exact ⟨⟨h.id, h.nodup⟩, fun id hid => h.listed_lt id (hsub id hid), hnodup,
    fun hi hj => h.table_unique (hlisted hi) (hlisted hj),
    fun hi hj => h.index_unique (hlisted hi) (hlisted hj), h.owner⟩

/-- Which table has an index of a name does not depend on the order of the list. -/
theorem holder?_perm (h : c.Orderly) {l : List TableId} (hl : l.Perm c.listed) (name : String) :
    ({ c with listed := l } : Catalog).holder? name = c.holder? name := by
  have hrelisted := h.relist (hl.nodup_iff.mpr h.listed_nodup) fun id hid => hl.mem_iff.mp hid
  apply Option.ext
  intro entry
  rw [hrelisted.holder?_eq_some_iff, h.holder?_eq_some_iff]
  simp only [IsListed, hl.mem_iff]

/-- Finding an index and dropping it do not depend on the order in which the tables are listed. -/
theorem lookup_perm (h : c.Orderly) {l : List TableId} (hl : l.Perm c.listed) (name : String) :
    ({ c with listed := l } : Catalog).index? name = c.index? name ∧
      (dropIndex name).run.run { c with listed := l } =
        (((dropIndex name).run.run c).1,
          { ((dropIndex name).run.run c).2 with listed := l }) := by
  have hholder := h.holder?_perm hl name
  constructor
  · rw [index?_eq_bind_holder?, index?_eq_bind_holder?, hholder]
  · unfold holder? at hholder
    rw [dropIndex_run, dropIndex_run, hholder]
    cases c.listedEntries.find? fun entry => (entry.index? name).isSome with
    | none => rfl
    | some entry =>
      dsimp only
      cases entry.index? name <;> rfl

end Orderly

end Catalog

end SpatialIndex
