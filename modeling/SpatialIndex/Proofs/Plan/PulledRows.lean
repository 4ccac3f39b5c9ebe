import SpatialIndex.Proofs.Plan.Interruption

/-!
# The rows of a scan and of the filter in place of its filters

The filters that a scan carries read a place among the columns read.  Moved above the scan, they
read the binding of that place, and binding them to the output of the scan gives the place back.  So
the filter tests the same predicates in the same order on the same rows, and ends in the same
failure, however the scan gets at its rows.  It can be made unless the scan itself fails.
-/

namespace SpatialIndex

namespace Get

variable {c : Catalog} {registry : Registry} {batchSize : Nat} {g : Get}

/-- The scan without the filters that it carries, giving all columns that it reads. -/
def bare (g : Get) : Get := { g with filters := [], projection := [] }

/-- A bare scan gives the rows that it reads. -/
theorem execute_bare (hdynamic : g.dynamicFilters = []) :
    g.bare.execute c registry batchSize = g.scanRows c batchSize := by
  have hpredicates : g.bare.predicates = .ok [] := predicates_of_nil rfl hdynamic
  rw [execute, hpredicates]
  show (do
    let rows ← g.scanRows c batchSize
    filterRows registry [] [] rows) = g.scanRows c batchSize
  simp only [filterRows_nil]
  cases g.scanRows c batchSize <;> rfl

/-- A filtered column is found among the columns read, be it for the scan or for a filter above it,
or it is missing for both in the same way. -/
theorem filterColumn_cases (g : Get) (column : Nat) :
    (∃ place type, g.pulledColumn column = .ok (.column (g.bindingAt place) type) ∧
      g.filterColumn column = .ok (.reference place type)) ∨
    (g.pulledColumn column = .error (.filterNotFound column g.table.name) ∧
      g.filterColumn column = .error (.filterNotScanned column g.table.name)) ∨
    (g.pulledColumn column = .error (.filterOutOfRange column g.table.name) ∧
      g.filterColumn column = .error (.unknownColumn column)) := by
  unfold pulledColumn filterColumn
  cases hplace : g.columns.idxOf? column with
  | none => exact .inr (.inl ⟨rfl, rfl⟩)
  | some place =>
    have htype : g.columnType? place = g.columnTypes[column]? := by
      rw [columnType?, getElem?_of_idxOf? hplace]
      rfl
    simp only [htype]
    cases g.columnTypes[column]? with
    | none => exact .inr (.inr ⟨rfl, rfl⟩)
    | some type => exact .inl ⟨place, type, rfl, rfl⟩

/-- A filter of a scan that can be moved out stands for a predicate of the scan. -/
theorem exists_filterPredicate {column : Nat} {filter : TableFilter} {pulled : Expression}
    (h : (do return filter.toExpression (← g.pulledColumn column)) = Except.ok pulled) :
    ∃ predicate, (do return filter.toExpression (← g.filterColumn column)) =
      Except.ok predicate := by
  obtain ⟨e, he, _⟩ := bind_eq_ok.mp h
  rcases g.filterColumn_cases column with
    ⟨place, type, _, hcolumn⟩ | ⟨hpulled, _⟩ | ⟨hpulled, _⟩
  · exact ⟨_, bind_eq_ok.mpr ⟨_, hcolumn, rfl⟩⟩
  · cases hpulled.symm.trans he
  · cases hpulled.symm.trans he

/-- A filter that can be put above a scan has the predicates of the scan, once it is bound to the
columns that the scan reads. -/
theorem predicates_of_pulledFilter? (hdynamic : g.dynamicFilters = [])
    (hfilters : ∀ f ∈ g.filters, f.2.columnBindings = []) {filter : Operator}
    (h : g.pulledFilter? = .ok (some filter)) :
    ∃ pulled predicates, filter = .filter pulled g.projection ∧ g.predicates = .ok predicates ∧
      pulled.mapM (Expression.bind g.scanBindings) = .ok predicates := by
  unfold pulledFilter? at h
  split at h
  · cases h
  · obtain ⟨pulled, hpulled, h⟩ := bind_eq_ok.mp h
    cases h
    obtain ⟨predicates, hpredicates⟩ : ∃ predicates, g.predicates = .ok predicates := by
      rw [predicates_of_dynamicFilters hdynamic]
      refine ⟨_, mapM_eq_ok_iff_filterMap.mpr ⟨fun f hf => ?_, rfl⟩⟩
      obtain ⟨_, hmoved⟩ := (mapM_eq_ok_iff_filterMap.mp hpulled).1 f hf
      exact exists_filterPredicate hmoved
    have hpushed := hpredicates
    rw [predicates_of_dynamicFilters hdynamic] at hpushed
    obtain ⟨pulled', hpulled', hbound⟩ := pulledFilters_of_filters hfilters hpushed
    cases hpulled.symm.trans hpulled'
    exact ⟨pulled, predicates, rfl, hpredicates, hbound⟩

/-- A scan fails because of the first filter whose column cannot be read. -/
theorem execute_of_filterColumn_eq_error {before after : List (Nat × TableFilter)}
    {f : Nat × TableFilter} {cause : Error} (hsplit : g.filters = before ++ f :: after)
    (hbefore : ∀ f ∈ before, ∃ predicate,
      (do return f.2.toExpression (← g.filterColumn f.1)) = Except.ok predicate)
    (h : g.filterColumn f.1 = .error cause) : g.execute c registry batchSize = .error cause := by
  have hpushed : (g.filters.mapM fun f => do
      return f.2.toExpression (← g.filterColumn f.1)) = .error cause :=
    mapM_eq_error_iff.mpr ⟨before, f, after, hsplit, hbefore, bind_eq_error.mpr (.inl h)⟩
  have hpredicates : g.predicates = .error cause := bind_eq_error.mpr (.inl hpushed)
  exact bind_eq_error.mpr (.inl hpredicates)

/-- Filters that cannot be moved out of a scan make the scan fail, because of the same column. -/
theorem execute_of_pulledFilter?_eq_error {cause : Error} (h : g.pulledFilter? = .error cause) :
    ∃ column, cause = .filterNotFound column g.table.name ∧
        g.execute c registry batchSize = .error (.filterNotScanned column g.table.name) ∨
      cause = .filterOutOfRange column g.table.name ∧
        g.execute c registry batchSize = .error (.unknownColumn column) := by
  unfold pulledFilter? at h
  split at h
  · cases h
  · have hfails : (g.filters.mapM fun f => do
        return f.2.toExpression (← g.pulledColumn f.1)) = .error cause := by
      rcases bind_eq_error.mp h with hfails | ⟨_, _, hdone⟩
      · exact hfails
      · cases hdone
    obtain ⟨before, f, after, hsplit, hbefore, hfirst⟩ := mapM_eq_error_iff.mp hfails
    -- The scan makes its predicates in the same order, so it comes to the same filter first.
    have hpushed : ∀ f ∈ before, ∃ predicate,
        (do return f.2.toExpression (← g.filterColumn f.1)) = Except.ok predicate := by
      intro f hf
      obtain ⟨_, hmoved⟩ := hbefore f hf
      exact exists_filterPredicate hmoved
    have hcause : g.pulledColumn f.1 = .error cause := by
      rcases bind_eq_error.mp hfirst with hcause | ⟨_, _, hdone⟩
      · exact hcause
      · cases hdone
    refine ⟨f.1, ?_⟩
    rcases g.filterColumn_cases f.1 with
      ⟨place, type, hpulled, _⟩ | ⟨hpulled, hcolumn⟩ | ⟨hpulled, hcolumn⟩
    · cases hpulled.symm.trans hcause
    · exact .inl ⟨Except.error.inj (hcause.symm.trans hpulled),
        execute_of_filterColumn_eq_error hsplit hpushed hcolumn⟩
    · exact .inr ⟨Except.error.inj (hcause.symm.trans hpulled),
        execute_of_filterColumn_eq_error hsplit hpushed hcolumn⟩

/-- A scan gives what the filter in place of its filters gives above the bare scan: the same rows in
the same order, or the same failure.  That filter can be made unless the scan fails, because of the
same column. -/
theorem execute_pulledFilter? (hdynamic : g.dynamicFilters = [])
    (hfilters : ∀ f ∈ g.filters, f.2.columnBindings = []) (c : Catalog) (registry : Registry)
    (batchSize : Nat) :
    (∀ filter, g.pulledFilter? = .ok (some filter) →
      (Plan.node filter [.node (.get g.bare) []]).execute c registry batchSize =
        (Plan.node (.get g) []).execute c registry batchSize) ∧
    ∀ cause, g.pulledFilter? = .error cause → ∃ column,
      cause = .filterNotFound column g.table.name ∧
          (Plan.node (.get g) []).execute c registry batchSize =
            .error (.filterNotScanned column g.table.name) ∨
        cause = .filterOutOfRange column g.table.name ∧
          (Plan.node (.get g) []).execute c registry batchSize =
            .error (.unknownColumn column) := by
  have hscan : (Plan.node (.get g) []).execute c registry batchSize =
      g.execute c registry batchSize := by rw [Plan.execute]
  rw [hscan]
  refine ⟨fun filter h => ?_, fun cause => execute_of_pulledFilter?_eq_error⟩
  obtain ⟨pulled, predicates, rfl, hpredicates, hbound⟩ :=
    predicates_of_pulledFilter? hdynamic hfilters h
  have houtput : (Plan.node (.get g.bare) []).outputBindings = g.scanBindings := rfl
  rw [Plan.execute, houtput, hbound, Plan.execute, execute_bare hdynamic, execute, hpredicates]

end Get

namespace Places

/-- A scan of the places that gives each place twice if it is there and passes the test. -/
def tested : Get :=
  { (Get.ofTable 0 table [0] 2).withFilter 0
      (.all [.isNotNull, .expression (predicate (.reference 0 .geometry))]) with
    projection := [0, 0] }

end Places

open Places in
/-- Conditions joined in one filter can be tested above the scan, and a filter on a column that is
not read can be tested nowhere. -/
theorem Get.execute_pulledFilter?_places :
    (Plan.node (.filter [.conjunction .and [.isNotNull key, predicate key]] [0, 0])
        [.node (.get tested.bare) []]).execute unindexed .spatial 2048 =
      (Plan.node (.get tested) []).execute unindexed .spatial 2048 ∧
    (Plan.node (.get unread) []).execute unindexed .spatial 2048 =
      .error (.filterNotScanned 5 "places") := by
  have hpulled : tested.pulledFilter? =
      .ok (some (.filter [.conjunction .and [.isNotNull key, predicate key]] [0, 0])) := rfl
  have hfails : unread.pulledFilter? = .error (.filterNotFound 5 "places") := rfl
  have htested : ∀ f ∈ tested.filters, f.2.columnBindings = [] :=
    List.forall_mem_singleton.mpr rfl
  have hunread : ∀ f ∈ unread.filters, f.2.columnBindings = [] :=
    List.forall_mem_singleton.mpr rfl
  refine ⟨(execute_pulledFilter? rfl htested unindexed .spatial 2048).1 _ hpulled, ?_⟩
  obtain ⟨column, ⟨hcause, hfailure⟩ | ⟨hcause, _⟩⟩ :=
    (execute_pulledFilter? rfl hunread unindexed .spatial 2048).2 _ hfails
  · cases hcause
    exact hfailure
  · cases hcause

end SpatialIndex
