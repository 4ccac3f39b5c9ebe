import SpatialIndex.Plan.IndexAccess
import SpatialIndex.Proofs.Plan.Execute

/-!
# Filters moved out of a scan

The filter that takes the place of the filters of a scan has one predicate for each of them, in the
order of their columns, and has the same predicates once it is bound to the columns that the scan
reads.
-/

namespace SpatialIndex

namespace TableFilter

mutual

/-- The bindings that the expressions in a filter read. -/
def columnBindings : TableFilter → List ColumnBinding
  | comparison .. | isNull | isNotNull => []
  | all filters => columnBindingsOfAll filters
  | expression predicate => predicate.columnBindings

/-- The bindings that the expressions in any of the filters read. -/
def columnBindingsOfAll : List TableFilter → List ColumnBinding
  | [] => []
  | filter :: rest => filter.columnBindings ++ columnBindingsOfAll rest

end

variable {replace : ColumnBinding → LogicalType → Except Error Expression}
  {b : ColumnBinding} {type : LogicalType} {r : Expression}

mutual

/-- Replacing the column of a filter that reads no other gives the filter over the replacement. -/
theorem mapColumns_toExpression (hreplace : replace b type = .ok r) :
    ∀ filter : TableFilter, filter.columnBindings = [] →
    (filter.toExpression (.column b type)).mapColumns replace = .ok (filter.toExpression r)
  | comparison .., _ => by
    rw [toExpression, Expression.mapColumns, Expression.mapColumns, hreplace]
    rfl
  | isNull, _ => by
    rw [toExpression, Expression.mapColumns, Expression.mapColumns, hreplace]
    rfl
  | isNotNull, _ => by
    rw [toExpression, Expression.mapColumns, Expression.mapColumns, hreplace]
    rfl
  | all filters, h => by
    rw [toExpression, Expression.mapColumns, mapColumnsOfAll_toExpressions hreplace filters h]
    rfl
  | expression predicate, h =>
    Expression.mapColumns_replaceReference 0 hreplace predicate h

/-- Replacing the column of filters that read no other gives the filters over the replacement. -/
theorem mapColumnsOfAll_toExpressions (hreplace : replace b type = .ok r) :
    ∀ filters : List TableFilter, columnBindingsOfAll filters = [] →
    Expression.mapColumnsOfAll replace (toExpressions (.column b type) filters) =
      .ok (toExpressions r filters)
  | [], _ => rfl
  | filter :: rest, h => by
    rw [columnBindingsOfAll, List.append_eq_nil_iff] at h
    rw [toExpressions, Expression.mapColumnsOfAll, mapColumns_toExpression hreplace filter h.1,
      mapColumnsOfAll_toExpressions hreplace rest h.2]
    rfl

end

end TableFilter

namespace Get

/-- The filters of a scan ascend by their columns. -/
def IsOrdered (g : Get) : Prop := (g.filters.map (·.1)).Pairwise (· < ·)

section Ordered

variable {g : Get} {column : Nat} {filter : TableFilter} {filters : List (Nat × TableFilter)}

/-- After a filter has been put in its place there is no filter but it and the earlier ones. -/
theorem mem_insertFilter {f : Nat × TableFilter} (h : f ∈ insertFilter column filter filters) :
    f = (column, filter) ∨ f ∈ filters := by
  fun_induction insertFilter column filter filters with
  | case1 => exact .inl (List.mem_singleton.mp h)
  | case2 => exact List.mem_cons.mp h
  | case3 =>
    rcases List.mem_cons.mp h with rfl | h
    · exact .inl rfl
    · exact .inr (List.mem_cons_of_mem _ h)
  | case4 first condition rest _ _ ih =>
    rcases List.mem_cons.mp h with rfl | h
    · exact .inr List.mem_cons_self
    · exact (ih h).imp_right (List.mem_cons_of_mem _)

/-- A filter is put in its place by column. -/
theorem pairwise_insertFilter (h : (filters.map (·.1)).Pairwise (· < ·)) :
    ((insertFilter column filter filters).map (·.1)).Pairwise (· < ·) := by
  fun_induction insertFilter column filter filters with
  | case1 => exact List.pairwise_singleton _ _
  | case2 first condition rest hlt =>
    refine List.pairwise_cons.mpr ⟨fun other hother => ?_, h⟩
    rcases List.mem_cons.mp hother with rfl | hother
    · exact hlt
    · exact Nat.lt_trans hlt ((List.pairwise_cons.mp h).1 other hother)
  | case3 => exact h
  | case4 first condition rest hlt hne ih =>
    obtain ⟨hfirst, hrest⟩ := List.pairwise_cons.mp h
    refine List.pairwise_cons.mpr ⟨fun other hother => ?_, ih hrest⟩
    obtain ⟨f, hf, rfl⟩ := List.mem_map.mp hother
    rcases mem_insertFilter hf with rfl | hf
    · exact Nat.lt_of_le_of_ne (Nat.le_of_not_lt hlt) (Ne.symm hne)
    · exact hfirst f.1 (List.mem_map_of_mem hf)

/-- A scan with one more filter keeps its filters in order. -/
theorem IsOrdered.withFilter (h : g.IsOrdered) (column : Nat) (filter : TableFilter) :
    (g.withFilter column filter).IsOrdered :=
  pairwise_insertFilter h

/-- A scan without filters has them in order. -/
theorem isOrdered_ofTable (tableIndex : Nat) (table : Table) (columns : List Nat)
    (cardinality : Nat) : (ofTable tableIndex table columns cardinality).IsOrdered :=
  List.Pairwise.nil

end Ordered

variable {g : Get}

/-- The binding of a column that is read names its place. -/
theorem getElem?_scanBindings (g : Get) {place : Nat} (h : place < g.columns.length) :
    g.scanBindings[place]? = some (g.bindingAt place) := by
  rw [scanBindings, List.getElem?_map, List.getElem?_range h]
  rfl

/-- A column read is found at its place among the columns read. -/
theorem idxOf?_scanBindings (g : Get) {place : Nat} (h : place < g.columns.length) :
    g.scanBindings.idxOf? (g.bindingAt place) = some place := by
  have hlength : g.scanBindings.length = g.columns.length := by simp [scanBindings]
  refine List.idxOf?_eq_some_iff.mpr ⟨by omega, ?_, ?_⟩
  · simp [scanBindings]
  · intro j hj heq
    simp only [scanBindings, List.getElem_map, List.getElem_range, bindingAt,
      ColumnBinding.mk.injEq, true_and] at heq
    omega

/-- The predicate that a filter of a scan stands for reads its column at a place. -/
theorem filterColumn_eq_ok {column : Nat} {e : Expression} (h : g.filterColumn column = .ok e) :
    ∃ (place : Nat) (type : LogicalType), e = .reference place type ∧
      g.columns.idxOf? column = some place ∧ g.columnTypes[column]? = some type := by
  unfold filterColumn at h
  split at h
  · cases h
  · rename_i place hplace
    split at h
    · cases h
    · rename_i type htype
      refine ⟨place, type, (Except.ok.inj h).symm, hplace, ?_⟩
      unfold columnType? at htype
      rw [getElem?_of_idxOf? hplace] at htype
      exact htype

/-- A filtered column as the output of a scan has the place and the type of the column. -/
theorem pulledColumn_eq_ok_iff {column : Nat} {e : Expression} : g.pulledColumn column = .ok e ↔
    ∃ place type, g.columns.idxOf? column = some place ∧ g.columnTypes[column]? = some type ∧
      e = .column (g.bindingAt place) type := by
  unfold pulledColumn
  cases g.columns.idxOf? column with
  | none => simp
  | some place =>
    cases g.columnTypes[column]? with
    | none => simp
    | some type => simp [eq_comm]

/-- The place of a column is among the columns read. -/
theorem place_lt {column place : Nat} (h : g.columns.idxOf? column = some place) :
    place < g.columns.length :=
  (List.getElem?_eq_some_iff.mp (getElem?_of_idxOf? h)).1

/-- One filter of a scan, moved out and bound again. -/
theorem pulledColumn_of_filterColumn {column : Nat} {filter : TableFilter} {e : Expression}
    (hfilter : filter.columnBindings = []) (h : g.filterColumn column = .ok e) :
    ∃ pulled, g.pulledColumn column = .ok pulled ∧
      Expression.bind g.scanBindings (filter.toExpression pulled) =
        .ok (filter.toExpression e) := by
  obtain ⟨place, type, rfl, hplace, htype⟩ := filterColumn_eq_ok h
  refine ⟨.column (g.bindingAt place) type,
    pulledColumn_eq_ok_iff.mpr ⟨place, type, hplace, htype, rfl⟩, ?_⟩
  refine TableFilter.mapColumns_toExpression ?_ filter hfilter
  rw [g.idxOf?_scanBindings (place_lt hplace)]

/-- All filters of a scan, moved out and bound again. -/
theorem pulledFilters_of_filters {filters : List (Nat × TableFilter)} {pushed : List Expression}
    (hfilters : ∀ f ∈ filters, f.2.columnBindings = [])
    (h : (filters.mapM fun (column, filter) =>
      return filter.toExpression (← g.filterColumn column)) = .ok pushed) :
    ∃ pulled, (filters.mapM fun (column, filter) =>
      return filter.toExpression (← g.pulledColumn column)) = .ok pulled ∧
        pulled.mapM (Expression.bind g.scanBindings) = .ok pushed := by
  induction filters generalizing pushed with
  | nil =>
    cases h
    exact ⟨[], rfl, rfl⟩
  | cons f filters ih =>
    obtain ⟨column, filter⟩ := f
    rw [List.forall_mem_cons] at hfilters
    simp only [List.mapM_cons, bind_eq_ok] at h ⊢
    obtain ⟨first, ⟨e, he, hfirst⟩, rest, hrest, h⟩ := h
    obtain ⟨pulled, hpulled, hbind⟩ := pulledColumn_of_filterColumn hfilters.1 he
    obtain ⟨pulledRest, hpulledRest, hbindRest⟩ := ih hfilters.2 hrest
    refine ⟨filter.toExpression pulled :: pulledRest,
      ⟨_, ⟨pulled, hpulled, rfl⟩, _, hpulledRest, rfl⟩, ?_⟩
    rw [List.mapM_cons, hbind, hbindRest, ← Except.ok.inj h, ← Except.ok.inj hfirst]
    rfl

/-- A scan without filters has no predicates. -/
theorem predicates_of_nil (hfilters : g.filters = []) (hdynamic : g.dynamicFilters = []) :
    g.predicates = .ok [] := by
  rw [predicates, hfilters, hdynamic]
  rfl

/-- A scan may be turned if it is sequential, takes no filters from elsewhere and reads a table of
our own. -/
theorem isEligible_iff : g.isEligible = true ↔
    g.access = .sequential ∧ g.dynamicFilters = [] ∧ g.table.kind = .native := by
  have hsequential : g.access.isSequential = true ↔ g.access = .sequential := by
    cases g.access <;> simp [Access.isSequential]
  simp only [isEligible, Bool.and_eq_true, List.isEmpty_iff, hsequential, Table.isNative,
    decide_eq_true_eq, and_assoc]

/-- Without filters from elsewhere the predicates of a scan are those of the filters it carries. -/
theorem predicates_of_dynamicFilters (hdynamic : g.dynamicFilters = []) :
    g.predicates = g.filters.mapM fun (column, filter) =>
      return filter.toExpression (← g.filterColumn column) := by
  rw [predicates, hdynamic]
  cases g.filters.mapM fun (column, filter) =>
    return filter.toExpression (← g.filterColumn column) with
  | error e => rfl
  | ok pushed => exact congrArg Except.ok (List.append_nil pushed)

/-- A scan that may be turned has no predicates but those of its own filters. -/
theorem predicates_of_isEligible (heligible : g.isEligible = true) :
    g.predicates = g.filters.mapM fun (column, filter) =>
      return filter.toExpression (← g.filterColumn column) :=
  predicates_of_dynamicFilters (isEligible_iff.mp heligible).2.1

/-- A scan that has its predicates has a filter to put in their place. -/
theorem pulledFilter?_of_predicates (heligible : g.isEligible = true)
    (hfilters : ∀ f ∈ g.filters, f.2.columnBindings = []) {predicates : List Expression}
    (h : g.predicates = .ok predicates) :
    g.filters = [] ∧ predicates = [] ∧ g.pulledFilter? = .ok none ∨
      ∃ pulled, g.pulledFilter? = .ok (some (.filter pulled g.projection)) ∧
        pulled.mapM (Expression.bind g.scanBindings) = .ok predicates := by
  rw [predicates_of_isEligible heligible] at h
  by_cases hempty : g.filters = []
  · rw [hempty] at h
    exact .inl ⟨hempty, (Except.ok.inj h).symm, by rw [pulledFilter?, hempty]; rfl⟩
  · obtain ⟨pulled, hpulled, hbind⟩ := pulledFilters_of_filters hfilters h
    refine .inr ⟨pulled, ?_, hbind⟩
    rw [pulledFilter?, if_neg (by simpa using hempty), hpulled]
    rfl

section Pulled

/-- The predicates over the output of a scan that its filters stand for, one for each filter in
ascending order of the columns. -/
def Pulls (g : Get) (predicates : List Expression) : Prop :=
  g.IsOrdered ∧ List.Forall₂ (fun f predicate => ∃ place type,
    g.columns.idxOf? f.1 = some place ∧ g.columnTypes[f.1]? = some type ∧
      predicate = f.2.toExpression (.column (g.bindingAt place) type)) g.filters predicates

/-- A filter can be written above its scan when the scan reads its column and the type of that is
known. -/
theorem pulledPredicate_eq_ok_iff {column : Nat} {filter : TableFilter} {predicate : Expression} :
    (do return filter.toExpression (← g.pulledColumn column)) = Except.ok predicate ↔
      ∃ place type, g.columns.idxOf? column = some place ∧ g.columnTypes[column]? = some type ∧
        predicate = filter.toExpression (.column (g.bindingAt place) type) := by
  simp only [bind_eq_ok, pulledColumn_eq_ok_iff, pure_eq_ok]
  constructor
  · rintro ⟨_, ⟨place, type, hplace, htype, rfl⟩, rfl⟩
    exact ⟨place, type, hplace, htype, rfl⟩
  · rintro ⟨place, type, hplace, htype, rfl⟩
    exact ⟨_, ⟨place, type, hplace, htype, rfl⟩, rfl⟩

/-- The filter to put above a scan has the predicates that the filters of the scan stand for. -/
theorem pulledFilter?_eq_ok_iff (hordered : g.IsOrdered) {residual : Option Operator} :
    g.pulledFilter? = .ok residual ↔ g.filters = [] ∧ residual = none ∨
      g.filters ≠ [] ∧ ∃ predicates, g.Pulls predicates ∧
        residual = some (.filter predicates g.projection) := by
  by_cases hempty : g.filters = []
  · rw [pulledFilter?, if_pos (List.isEmpty_iff.mpr hempty)]
    simp [hempty, eq_comm]
  · rw [pulledFilter?, if_neg (mt List.isEmpty_iff.mp hempty), bind_eq_ok]
    simp only [mapM_eq_ok_iff, pulledPredicate_eq_ok_iff, pure_eq_ok, hempty, false_and, false_or,
      ne_eq, not_false_eq_true, true_and, Pulls, hordered]

end Pulled

end Get

end SpatialIndex
