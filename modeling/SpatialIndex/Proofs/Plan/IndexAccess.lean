import SpatialIndex.Proofs.Plan.Serving

/-!
# Scans through indexes

A scan that has been turned reads only the rows whose key meets the box to search for.  The
predicate that the index serves holds of no other row, so the filters above the scan keep the same
rows as before.
-/

namespace SpatialIndex

/-- A table that can be read by id, all of whose indexes are current. -/
structure Catalog.IsIndexed (c : Catalog) (t : Table) : Prop where
  /-- There are no more rows than ids, as no memory could hold more. -/
  fits : (c.storage t).FitsIds
  /-- Every index was made from the rows that the table has now. -/
  current : ∀ index ∈ c.indexes t, c.IsCurrent t index

/-- The output of a scan can be read through its bindings, and its filters read only their own
columns. -/
structure Get.IsWellBuilt (g : Get) : Prop where
  /-- It gives only columns that it reads. -/
  projection : ∀ place ∈ g.projection, place < g.columns.length
  /-- No expression in a filter reads a binding. -/
  filters : ∀ f ∈ g.filters, f.2.columnBindings = []

/-- A plan put together from scans, filters, projections and products, over tables with current
indexes. -/
inductive Plan.IsBuilt (c : Catalog) : Plan → Prop
  /-- A scan of a table. -/
  | get {g : Get} (hbuilt : g.IsWellBuilt) (hindexed : c.IsIndexed g.table) :
    IsBuilt c (.node (.get g) [])
  /-- A filter. -/
  | filter {child : Plan} (predicates : List Expression) (projection : List Nat)
    (hchild : IsBuilt c child) : IsBuilt c (.node (.filter predicates projection) [child])
  /-- A projection. -/
  | projection {child : Plan} (tableIndex : Nat) (expressions : List Expression)
    (hchild : IsBuilt c child) : IsBuilt c (.node (.projection tableIndex expressions) [child])
  /-- A product. -/
  | product {left right : Plan} (hleft : IsBuilt c left) (hright : IsBuilt c right) :
    IsBuilt c (.node .product [left, right])

/-- Rows that a test keeps may be looked for among those that pass another test that it implies. -/
theorem filter_filterMap_of_imp {α β : Type} {f : α → Option β} {narrow : α → Bool}
    {keep : β → Bool} {l : List α}
    (h : ∀ a ∈ l, ∀ b, f a = some b → keep b = true → narrow a = true) :
    ((l.filter narrow).filterMap f).filter keep = (l.filterMap f).filter keep := by
  induction l with
  | nil => rfl
  | cons a l ih =>
    rw [List.forall_mem_cons] at h
    cases hnarrow : narrow a with
    | true =>
      rw [List.filter_cons_of_pos hnarrow, List.filterMap_cons, List.filterMap_cons]
      cases f a with
      | none => exact ih h.2
      | some b => rw [List.filter_cons, List.filter_cons, ih h.2]
    | false =>
      rw [List.filter_cons_of_neg (by simp [hnarrow]), ih h.2, List.filterMap_cons]
      cases hf : f a with
      | none => rfl
      | some b =>
        have hdrop : ¬keep b = true := fun hkeep => by
          rw [h.1 b hf hkeep] at hnarrow
          cases hnarrow
        rw [List.filter_cons_of_neg hdrop]

namespace Get

section Output

variable {g : Get}

/-- The value of an output column is that of the column read whose binding it has. -/
theorem valueAt_emitRow (hprojection : ∀ place ∈ g.projection, place < g.columns.length)
    {row : Row} (hrow : row.length = g.columns.length) {place : Nat} {b : ColumnBinding}
    (hb : g.outputBindings[place]? = some b) :
    valueAt (emitRow g.projection row) place = valueAt row b.column := by
  unfold outputBindings outputPositions at hb
  unfold emitRow
  rw [List.getElem?_map] at hb
  split at hb
  · rename_i hempty
    obtain ⟨position, hposition, rfl⟩ := Option.map_eq_some_iff.mp hb
    obtain ⟨_, rfl⟩ := List.getElem?_eq_some_iff.mp hposition
    rw [if_pos hempty, bindingAt, List.getElem_range]
  · rename_i hsome
    obtain ⟨position, hposition, rfl⟩ := Option.map_eq_some_iff.mp hb
    have hlt : position < row.length := by
      rw [hrow]
      exact hprojection position (List.mem_of_getElem? hposition)
    rw [if_neg hsome, valueAt, valueAt, List.getElem?_map, hposition, bindingAt,
      List.getElem?_eq_getElem hlt]
    simp [hlt]

/-- What takes the place of a scan has the same output. -/
theorem outputBindings_withIndex (c : Catalog)
    (hprojection : ∀ place ∈ g.projection, place < g.columns.length) (binding : ScanBinding)
    (pulled : List Expression) :
    (g.withIndex c binding (some (.filter pulled g.projection)) []).outputBindings =
      g.outputBindings := by
  show (if g.projection.isEmpty then g.scanBindings
    else g.projection.filterMap (g.scanBindings[·]?)) = g.outputBindings
  unfold outputBindings outputPositions
  split
  · rfl
  · rw [← List.filterMap_eq_map]
    refine List.filterMap_congr fun place hplace => ?_
    exact g.getElem?_scanBindings (hprojection place hplace)

end Output

section Rows

variable {c : Catalog} {registry : Registry} {batchSize : Nat} {g : Get} {out : List Row}

/-- The rows of the table of a scan that it can lay out, as far as they pass a test. -/
def laidOutRows (c : Catalog) (g : Get) (keep : Row → Bool) : List Row :=
  ((c.storage g.table).rows.toList.filter keep).filterMap (Storage.laidOut? g.columns)

/-- The rows that pass a test are among those that can be laid out. -/
theorem laidOutRows_subset (c : Catalog) (g : Get) (keep : Row → Bool) :
    g.laidOutRows c keep ⊆ g.laidOutRows c fun _ => true := by
  intro row hrow
  obtain ⟨stored, hstored, hrow⟩ := List.mem_filterMap.mp hrow
  exact List.mem_filterMap.mpr
    ⟨stored, List.mem_filter.mpr ⟨(List.mem_filter.mp hstored).1, rfl⟩, hrow⟩

/-- A sequential scan reads all rows. -/
theorem scanRows_sequential {rows : List Row} (haccess : g.access = .sequential)
    (h : g.scanRows c batchSize = .ok rows) :
    ∃ all, (c.storage g.table).scanAll g.columns = .ok all ∧
      rows = g.laidOutRows c fun _ => true := by
  rw [scanRows, haccess, bind_eq_ok] at h
  obtain ⟨all, hall, hrows⟩ := h
  refine ⟨all, hall, ?_⟩
  rw [laidOutRows, List.filter_true, ← (Storage.scanAll_eq_ok hall).2]
  exact (Except.ok.inj hrows).symm

/-- A scan through a current index reads the rows whose key meets the box. -/
theorem scanRows_index (batchSize : Nat) (hkept : c.Kept) (hindexed : c.IsIndexed g.table)
    {index : Index} (hindex : index ∈ c.indexes g.table) {key : Expression} {query : Box}
    (hsearch : (index.tree.search query).Perm
      (((c.storage g.table).numbered.filter fun r => key.keyMeets c.functions query r.2).map
        (·.1)))
    {all : List (RowId × Row)} (hall : (c.storage g.table).scanAll g.columns = .ok all)
    (haccess : g.access = .index ⟨g.table, index, query⟩) :
    ∃ rows, g.scanRows c batchSize = .ok rows ∧
      rows.Perm (g.laidOutRows c (key.keyMeets c.functions query)) := by
  obtain ⟨fetched, hfetch, hperm⟩ := Storage.fetch_of_perm hindexed.fits hall hsearch
  obtain ⟨scan, hstart, hcollect⟩ := IndexScan.start_collect g.columns batchSize
    (hkept.isAttached hindex query) hfetch
  refine ⟨_, ?_, hperm⟩
  rw [scanRows, haccess, bind_eq_ok]
  refine ⟨scan, hstart, ?_⟩
  rw [hcollect]
  rfl

end Rows

section Serving

variable {c : Catalog} {g : Get} {predicate : Expression} {binding : KeyBinding} {index : Index}
  {query : Box}

/-- Where a predicate that the index serves holds, the key meets the box to search for.  The
predicate reads the columns of the key from where the key has been bound to. -/
theorem keyMeets_of_holds {registry : Registry} (hequality : registry.RespectsEquality)
    (hmeet : registry.RelationsMeet) {key constant : Expression} (hreferences : key.references = [])
    (hreads : ∀ b ∈ key.columnBindings, binding.Reads g b)
    (hrelates : (binding.key g key).Relates predicate constant)
    (hbox : constant.HasBox registry query) {row : Row} {v : Value}
    (hvalue : key.evaluate registry row = .ok v) {source : Source}
    (hsource : ∀ column type r, binding.column? g column type = some r →
      r.evaluateFrom registry source = valueAt row column)
    (hholds : predicate.evaluateFrom registry source = .ok (.boolean true)) :
    key.keyMeets registry query row = true := by
  have hsame : (binding.key g key).evaluateFrom registry source = .ok v := by
    rw [← hvalue, Expression.evaluate_eq]
    exact Expression.evaluateFrom_mapColumns Returning.option key _
      (fun b _ type r hr => hsource b.column type r hr) (by simp [hreferences])
      (KeyBinding.key?_eq_some_iff.mpr ⟨hreads, rfl⟩)
  obtain ⟨shape, box, rfl, hshape, hmeets⟩ :=
    intersects_of_relates hequality hmeet hrelates hbox hholds hsame
  rw [Expression.keyMeets, Expression.keyBox?, hvalue]
  show Option.any _ shape.box? = true
  rw [hshape]
  exact hmeets

/-- A scan is left alone, or one of its table's indexes serves the predicate. -/
theorem turn?_cases (registry : Registry) (children : List Plan) (predicate : Expression)
    (binding : KeyBinding) {predicates : List Expression}
    (hfilters : ∀ f ∈ g.filters, f.2.columnBindings = [])
    (hpredicates : g.predicates = .ok predicates) :
    g.turn? c registry children predicate binding = .ok none ∨
      ∃ index query residual, g.isEligible = true ∧
        g.FirstServing c registry predicate binding index query ∧
        g.pulledFilter? = .ok residual ∧
        g.turn? c registry children predicate binding =
          .ok (some (g.withIndex c ⟨g.table, index, query⟩ residual children)) := by
  by_cases hserving : g.isEligible = true ∧
      ∃ index query, g.FirstServing c registry predicate binding index query
  · obtain ⟨heligible, index, query, hfirst⟩ := hserving
    obtain ⟨residual, hresidual⟩ : ∃ residual, g.pulledFilter? = .ok residual := by
      rcases pulledFilter?_of_predicates heligible hfilters hpredicates with
        ⟨_, _, hnone⟩ | ⟨_, hsome, _⟩
      · exact ⟨_, hnone⟩
      · exact ⟨_, hsome⟩
    exact .inr ⟨index, query, residual, heligible, hfirst, hresidual,
      by rw [turn?_of_firstServing heligible hfirst, hresidual]; rfl⟩
  · exact .inl (turn?_of_not_serving
      (fun heligible index query hfirst => hserving ⟨heligible, index, query, hfirst⟩) children)

/-- What takes the place of a scan keeps, of the rows that the index finds, those that pass the
scan's predicates. -/
theorem execute_withIndex {batchSize : Nat} (hkept : c.Kept) (hindexed : c.IsIndexed g.table)
    (hprojection : ∀ place ∈ g.projection, place < g.columns.length)
    (hfilters : ∀ f ∈ g.filters, f.2.columnBindings = []) {predicates : List Expression}
    (hpredicates : g.predicates = .ok predicates) {all : List (RowId × Row)}
    (hall : (c.storage g.table).scanAll g.columns = .ok all)
    (htested : ∀ row ∈ g.laidOutRows c fun _ => true,
      ∃ b, Expression.passesAll c.functions row predicates = .ok b)
    (heligible : g.isEligible = true) (hindex : index ∈ c.indexes g.table) {key : Expression}
    (hsearch : (index.tree.search query).Perm
      (((c.storage g.table).numbered.filter fun r => key.keyMeets c.functions query r.2).map
        (·.1)))
    {residual : Option Operator} (hresidual : g.pulledFilter? = .ok residual) :
    (g.withIndex c ⟨g.table, index, query⟩ residual []).outputBindings = g.outputBindings ∧
      ∃ rows : List Row, rows.Perm (g.laidOutRows c (key.keyMeets c.functions query)) ∧
        (g.withIndex c ⟨g.table, index, query⟩ residual []).execute c c.functions batchSize =
          .ok ((rows.filter (passed c.functions predicates)).map (emitRow g.projection)) := by
  obtain ⟨_, hdynamic, _⟩ := isEligible_iff.mp heligible
  let scan : Get := { g with
    access := .index ⟨g.table, index, query⟩
    estimate := (⟨g.table, index, query⟩ : ScanBinding).cardinality c }
  have hfilter {rows : List Row}
      (hperm : rows.Perm (g.laidOutRows c (key.keyMeets c.functions query))) :
      filterRows c.functions predicates g.projection rows =
        .ok ((rows.filter (passed c.functions predicates)).map (emitRow g.projection)) := by
    exact filterRows_eq_ok_iff.mpr
      ⟨fun row hrow => htested row (laidOutRows_subset c g _ (hperm.subset hrow)), rfl⟩
  -- Without filters the scan keeps its projection; with filters it gives all columns that it reads,
  -- and the filter above it projects in its place.
  rcases pulledFilter?_of_predicates heligible hfilters hpredicates with
    ⟨_, _, hnone⟩ | ⟨pulled, hsome, hbind⟩
  · cases hnone.symm.trans hresidual
    obtain ⟨rows, hrows, hperm⟩ := scanRows_index batchSize (g := scan)
      hkept hindexed hindex hsearch hall rfl
    exact ⟨rfl, rows, hperm, execute_eq_ok_iff.mpr ⟨predicates, hpredicates, rows, hrows,
      hfilter hperm⟩⟩
  · cases hsome.symm.trans hresidual
    obtain ⟨rows, hrows, hperm⟩ := scanRows_index batchSize
      (g := { scan with filters := [], projection := [] }) hkept hindexed hindex hsearch hall rfl
    have hchild : ({ scan with filters := [], projection := [] } : Get).execute c c.functions
        batchSize = .ok rows :=
      execute_eq_ok_iff.mpr ⟨[], predicates_of_nil rfl hdynamic, rows, hrows,
        filterRows_nil c.functions rows⟩
    exact ⟨outputBindings_withIndex c hprojection _ pulled, rows, hperm,
      Plan.execute_filter_eq_ok_iff.mpr ⟨predicates, hbind, rows, hchild, hfilter hperm⟩⟩

end Serving

section Turning

variable {c : Catalog} {batchSize : Nat} {g : Get} {predicate : Expression} {binding : KeyBinding}
  {out : List Row}

/-- What takes the place of a scan that gives certain rows.  It has the same output and tests the
same predicates, on the rows that an index finds, and the index finds every row with the
predicate. -/
structure IsTurned (c : Catalog) (batchSize : Nat) (g : Get) (predicate : Expression)
    (binding : KeyBinding) (out : List Row) (turned : Plan) (predicates : List Expression)
    (rows : List Row) (narrow : Row → Bool) : Prop where
  /-- It is put together from a scan and a filter. -/
  built : turned.IsBuilt c
  /-- Its columns have the same bindings. -/
  bindings : turned.outputBindings = g.outputBindings
  /-- Only a scan without filters from elsewhere is turned. -/
  eligible : g.isEligible = true
  /-- The predicates of the scan. -/
  predicates_eq : g.predicates = .ok predicates
  /-- What the scan gives. -/
  out_eq : out = ((g.laidOutRows c fun _ => true).filter (passed c.functions predicates)).map
    (emitRow g.projection)
  /-- What is given in its place. -/
  execute : turned.execute c c.functions batchSize =
    .ok ((rows.filter (passed c.functions predicates)).map (emitRow g.projection))
  /-- The rows that the index finds, in some order. -/
  perm : rows.Perm (g.laidOutRows c narrow)
  /-- Only rows that the index finds have the predicate. -/
  holds : ∀ row ∈ (c.storage g.table).rows.toList, ∀ source : Source,
    (∀ column type r, binding.column? g column type = some r →
      r.evaluateFrom c.functions source = valueAt row column) →
    predicate.evaluateFrom c.functions source = .ok (.boolean true) → narrow row = true

/-- A scan that goes through an index, with its filters above it, is put together as plans are. -/
theorem isBuilt_withIndex (hindexed : c.IsIndexed g.table) (hbuilt : g.IsWellBuilt)
    (scanned : ScanBinding) {residual : Option Operator} (h : g.pulledFilter? = .ok residual) :
    (g.withIndex c scanned residual []).IsBuilt c := by
  unfold pulledFilter? at h
  split at h
  · rw [← Except.ok.inj h]
    exact .get ⟨hbuilt.projection, hbuilt.filters⟩ hindexed
  · obtain ⟨pulled, _, h⟩ := bind_eq_ok.mp h
    rw [← Except.ok.inj h]
    exact .filter pulled g.projection (.get ⟨by simp, by simp⟩ hindexed)

/-- A scan that gives its rows is left alone or turned. -/
theorem turn?_spec (hkept : c.Kept) (hequality : c.functions.RespectsEquality)
    (hmeet : c.functions.RelationsMeet) (hindexed : c.IsIndexed g.table) (hbuilt : g.IsWellBuilt)
    (predicate : Expression) (binding : KeyBinding)
    (h : g.execute c c.functions batchSize = .ok out) :
    g.turn? c c.functions [] predicate binding = .ok none ∨
      ∃ turned predicates rows narrow,
        g.turn? c c.functions [] predicate binding = .ok (some turned) ∧
        g.IsTurned c batchSize predicate binding out turned predicates rows narrow := by
  obtain ⟨predicates, hpredicates, rows, hrows, hfilter⟩ := execute_eq_ok_iff.mp h
  rcases turn?_cases (c := c) c.functions [] predicate binding hbuilt.filters hpredicates with
    hnone | ⟨index, query, residual, heligible, hfirst, hresidual, hturn⟩
  · exact .inl hnone
  · obtain ⟨haccess, _⟩ := isEligible_iff.mp heligible
    obtain ⟨all, hall, rfl⟩ := scanRows_sequential haccess hrows
    obtain ⟨htested, rfl⟩ := filterRows_eq_ok_iff.mp hfilter
    obtain ⟨hkeys, hreads, hrelates, hbox⟩ := hfirst.serves
    obtain ⟨key, hkeys', hreferences, hvalues, hfound⟩ :=
      (hindexed.current index hfirst.mem).exists_key
    cases hkeys.symm.trans hkeys'
    obtain ⟨hbindings, narrowed, hperm, hexecute⟩ := execute_withIndex hkept hindexed
      hbuilt.projection hbuilt.filters hpredicates hall htested heligible hfirst.mem
      (hfound query hbox.isValid) hresidual
    refine .inr ⟨_, predicates, narrowed, _, hturn, isBuilt_withIndex hindexed hbuilt _ hresidual,
      hbindings, heligible, hpredicates, rfl, hexecute, hperm, ?_⟩
    intro row hrow source hsource hholds
    obtain ⟨v, hv⟩ := hvalues row hrow
    exact keyMeets_of_holds hequality hmeet hreferences hreads hrelates hbox hv hsource hholds

/-- A further test that only rows with the predicate pass keeps the same rows. -/
theorem IsTurned.filter_perm {turned : Plan} {predicates : List Expression} {rows : List Row}
    {narrow : Row → Bool}
    (h : g.IsTurned c batchSize predicate binding out turned predicates rows narrow)
    (keep : Row → Bool)
    (hkeep : ∀ row ∈ (c.storage g.table).rows.toList, ∀ r, projectRow g.columns row = .ok r →
      keep r = true → narrow row = true) :
    (rows.filter keep).Perm ((g.laidOutRows c fun _ => true).filter keep) := by
  refine (h.perm.filter keep).trans (.of_eq ?_)
  rw [laidOutRows, laidOutRows, List.filter_true]
  exact filter_filterMap_of_imp fun row hrow r hr =>
    hkeep row hrow r (Storage.laidOut?_eq_some.mp hr)

/-- A row that passes all predicates of a scan passes its only arbitrary expression, which reads its
column as position zero. -/
theorem holds_of_onlyExpression {registry : Registry} {column : Nat} {predicates : List Expression}
    (honly : g.onlyExpression? = some (column, predicate)) (heligible : g.isEligible = true)
    (hpredicates : g.predicates = .ok predicates) {r : Row}
    (hpassed : passed registry predicates r = true) :
    ∃ place type, g.columns.idxOf? column = some place ∧
      predicate.evaluateFrom registry
        ((Source.ofRow r).withPosition registry 0 (.reference place type)) =
          .ok (.boolean true) := by
  have hmem : (column, TableFilter.expression predicate) ∈ g.filters := by
    refine List.mem_of_mem_filter (p := fun f => f.2.isExpression) ?_
    rw [onlyExpression?_eq_some_iff.mp honly]
    exact List.mem_singleton_self _
  rw [predicates_of_isEligible heligible] at hpredicates
  obtain ⟨hall, rfl⟩ := mapM_eq_ok_iff_filterMap.mp hpredicates
  obtain ⟨pushed, hpushed⟩ := hall _ hmem
  obtain ⟨e, he, hexpression⟩ := bind_eq_ok.mp hpushed
  obtain ⟨place, type, rfl, hplace, _⟩ := filterColumn_eq_ok he
  refine ⟨place, type, hplace, ?_⟩
  have hholds := evaluate_of_passed hpassed
    (List.mem_filterMap.mpr ⟨_, hmem, by rw [hpushed]; rfl⟩)
  rw [← Except.ok.inj hexpression, TableFilter.toExpression, Expression.evaluate_eq,
    Expression.evaluateFrom_replaceReference] at hholds
  exact hholds

/-- A row of the output that passes a predicate above the scan passes it where the predicate reads
the columns read, not only those given. -/
theorem holds_of_scanOutput {registry : Registry} {bound : Expression} (hbuilt : g.IsWellBuilt)
    (hbound : predicate.bind g.outputBindings = .ok bound) {r : Row}
    (hlength : r.length = g.columns.length)
    (hholds : bound.evaluate registry (emitRow g.projection r) = .ok (.boolean true)) :
    predicate.evaluateFrom registry
      ⟨fun b => valueAt r b.column, valueAt (emitRow g.projection r)⟩ = .ok (.boolean true) := by
  have hsame : bound.evaluateFrom registry (.ofRow (emitRow g.projection r)) =
      predicate.evaluateFrom registry
        ⟨fun b => valueAt r b.column, valueAt (emitRow g.projection r)⟩ := by
    refine Expression.evaluateFrom_mapColumns Returning.except predicate bound ?_
      (fun _ _ => rfl) hbound
    intro b _ type e he
    change _ = Except.ok e at he
    split at he
    · rename_i position hposition
      rw [← Except.ok.inj he]
      exact valueAt_emitRow hbuilt.projection hlength (getElem?_of_idxOf? hposition)
    · cases he
  rw [← hsame, ← Expression.evaluate_eq, hholds]

end Turning

end Get

end SpatialIndex
