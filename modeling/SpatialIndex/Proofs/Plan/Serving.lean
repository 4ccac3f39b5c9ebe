import SpatialIndex.Proofs.Plan.Match
import SpatialIndex.Proofs.Plan.PulledFilter

/-!
# Indexes that serve a predicate

An index serves a predicate on a scan when all columns of its key can be read where the predicate
stands and the predicate relates the key, as it is written there, to a constant with a box.  Of the
indexes that serve a predicate the first is chosen, for a predicate above the scan before one that
the scan carries.
-/

namespace SpatialIndex

namespace KeyBinding

variable {binding : KeyBinding} {g : Get} {e bound : Expression}

/-- A predicate on the scan can read a column of the table. -/
def Reads (binding : KeyBinding) (g : Get) (b : ColumnBinding) : Prop :=
  match binding with
  | scanOutput => b.column ∈ g.columns
  | filterColumn filtered => b.column = filtered

instance (binding : KeyBinding) (g : Get) : DecidablePred (binding.Reads g) := fun b =>
  match binding with
  | scanOutput => inferInstanceAs (Decidable (b.column ∈ g.columns))
  | filterColumn filtered => inferInstanceAs (Decidable (b.column = filtered))

/-- A column of the table as a predicate on the scan writes it: over the output of the scan by its
place among the columns read, in a filter of the scan as position zero. -/
def column (binding : KeyBinding) (g : Get) (b : ColumnBinding) (type : LogicalType) :
    Expression :=
  match binding with
  | scanOutput => .column (g.bindingAt (g.columns.idxOf b.column)) type
  | filterColumn _ => .reference 0 type

/-- The key of an index as a predicate on the scan writes it. -/
def key (binding : KeyBinding) (g : Get) (e : Expression) : Expression :=
  e.mapColumns (m := Id) (binding.column g)

/-- A predicate can read a column in one way, if it can read it. -/
theorem column?_eq (b : ColumnBinding) (type : LogicalType) :
    binding.column? g b.column type =
      if decide (binding.Reads g b) then some (binding.column g b type) else none := by
  cases binding with
  | scanOutput =>
    rw [column?, column, idxOf?_eq_ite]
    by_cases hread : b.column ∈ g.columns
    · rw [if_pos hread]
      exact (if_pos (decide_eq_true hread)).symm
    · rw [if_neg hread]
      exact (if_neg fun h => hread (of_decide_eq_true h)).symm
  | filterColumn filtered =>
    rw [column?, column]
    simp only [Reads, decide_eq_true_eq, @eq_comm _ b.column]

/-- The key can be written if all of its columns can be read. -/
theorem key?_eq_some_iff : binding.key? g e = some bound ↔
    (∀ b ∈ e.columnBindings, binding.Reads g b) ∧ bound = binding.key g e := by
  rw [key?, Expression.mapColumns_of_readable column?_eq]
  split
  · rename_i hread
    simp only [List.all_eq_true, decide_eq_true_eq] at hread
    exact ⟨fun h => ⟨hread, (Option.some.inj h).symm⟩, fun h => congrArg some h.2.symm⟩
  · rename_i hread
    simp only [List.all_eq_true, decide_eq_true_eq] at hread
    exact ⟨nofun, fun h => absurd h.1 hread⟩

end KeyBinding

namespace Get

variable {c : Catalog} {registry : Registry} {g : Get} {predicate : Expression}
  {binding : KeyBinding} {index index' : Index} {box box' : Box}

/-- An index serves a predicate on a scan, with the box to search it for. -/
inductive Serves (registry : Registry) (g : Get) (predicate : Expression) (binding : KeyBinding)
    (index : Index) (box : Box) : Prop
  /-- All columns of its only key can be read, and the predicate relates the key to a constant. -/
  | intro {key constant : Expression} (hkeys : index.keys = [key])
    (hreads : ∀ b ∈ key.columnBindings, binding.Reads g b)
    (hrelates : (binding.key g key).Relates predicate constant)
    (hbox : constant.HasBox registry box) : Serves registry g predicate binding index box

/-- There is a box to search an index for when the index serves the predicate with it. -/
theorem searchBox?_eq_some_iff : g.searchBox? registry predicate binding index = some box ↔
    g.Serves registry predicate binding index box := by
  constructor
  · intro h
    unfold searchBox? at h
    split at h
    · rename_i key hkeys
      obtain ⟨bound, hbound, h⟩ := Option.bind_eq_some_iff.mp h
      obtain ⟨found, hfound, hbox⟩ := Option.bind_eq_some_iff.mp h
      obtain ⟨hreads, rfl⟩ := KeyBinding.key?_eq_some_iff.mp hbound
      exact .intro hkeys hreads (matchRelation?_eq_some_iff.mp ⟨found, hfound, rfl⟩)
        (constantBox?_eq_some_iff.mp hbox)
    · cases h
  · rintro ⟨hkeys, hreads, hrelates, hbox⟩
    obtain ⟨found, hfound, rfl⟩ := matchRelation?_eq_some_iff.mpr hrelates
    rw [searchBox?, hkeys]
    exact Option.bind_eq_some_iff.mpr ⟨_, KeyBinding.key?_eq_some_iff.mpr ⟨hreads, rfl⟩,
      Option.bind_eq_some_iff.mpr ⟨found, hfound, constantBox?_eq_some_iff.mpr hbox⟩⟩

/-- Of the indexes of its table, in the order in which they were published, the first that serves a
predicate on the scan. -/
structure FirstServing (c : Catalog) (registry : Registry) (g : Get) (predicate : Expression)
    (binding : KeyBinding) (index : Index) (box : Box) : Prop where
  /-- It serves the predicate. -/
  serves : g.Serves registry predicate binding index box
  /-- No index before it does. -/
  first : ∃ before after, c.indexes g.table = before ++ index :: after ∧
    ∀ earlier ∈ before, ∀ box, ¬g.Serves registry predicate binding earlier box

/-- The index that is found is the first that serves the predicate. -/
theorem findIndex?_eq_some_iff :
    g.findIndex? registry predicate binding (c.indexes g.table) = some (index, box) ↔
      g.FirstServing c registry predicate binding index box := by
  have hnone (index : Index) :
      (g.searchBox? registry predicate binding index).map (fun box => (index, box)) = none ↔
        ∀ box, ¬g.Serves registry predicate binding index box := by
    rw [Option.map_eq_none_iff, Option.eq_none_iff_forall_ne_some]
    simp only [ne_eq, searchBox?_eq_some_iff]
  rw [findIndex?, List.findSome?_eq_some_iff]
  constructor
  · rintro ⟨before, found, after, hindexes, hfound, hbefore⟩
    obtain ⟨_, hbox, hpair⟩ := Option.map_eq_some_iff.mp hfound
    cases hpair
    exact ⟨searchBox?_eq_some_iff.mp hbox, before, after, hindexes,
      fun earlier hearlier => (hnone earlier).mp (hbefore earlier hearlier)⟩
  · rintro ⟨hserves, before, after, hindexes, hbefore⟩
    refine ⟨before, index, after, hindexes, ?_,
      fun earlier hearlier => (hnone earlier).mpr (hbefore earlier hearlier)⟩
    rw [searchBox?_eq_some_iff.mpr hserves]
    rfl

/-- No two indexes are the first that serves a predicate, and there is one box to search it for. -/
theorem FirstServing.unique (h : g.FirstServing c registry predicate binding index box)
    (h' : g.FirstServing c registry predicate binding index' box') :
    index' = index ∧ box' = box := by
  have hsame := (findIndex?_eq_some_iff.mpr h').symm.trans (findIndex?_eq_some_iff.mpr h)
  exact Prod.mk.inj (Option.some.inj hsame)

/-- The first index that serves a predicate is on the table of the scan. -/
theorem FirstServing.mem (h : g.FirstServing c registry predicate binding index box) :
    index ∈ c.indexes g.table := by
  obtain ⟨before, after, hindexes, _⟩ := h.first
  rw [hindexes]
  exact List.mem_append_right _ List.mem_cons_self

section Turn

variable {children : List Plan} {q : Plan}

/-- A scan that may be turned goes through the first index that serves the predicate, unless the
filter above it cannot be made. -/
theorem turn?_of_firstServing (heligible : g.isEligible = true)
    (h : g.FirstServing c registry predicate binding index box) (children : List Plan) :
    g.turn? c registry children predicate binding = do
      let residual ← g.pulledFilter?
      return some (g.withIndex c ⟨g.table, index, box⟩ residual children) := by
  rw [turn?, if_neg (by simp [heligible]), findIndex?_eq_some_iff.mpr h]

/-- A scan that may not be turned or is served by no index is left alone. -/
theorem turn?_of_not_serving
    (h : g.isEligible = true → ∀ index box, ¬g.FirstServing c registry predicate binding index box)
    (children : List Plan) : g.turn? c registry children predicate binding = .ok none := by
  unfold turn?
  split
  · rfl
  · rename_i heligible
    split
    · rfl
    · rename_i index box hfind
      exact absurd (findIndex?_eq_some_iff.mp hfind) (h (by simpa using heligible) index box)

/-- A scan is turned to the index that serves the predicate first. -/
theorem turn?_eq_some (h : g.turn? c registry children predicate binding = .ok (some q)) :
    g.isEligible = true ∧ ∃ index box residual,
      g.FirstServing c registry predicate binding index box ∧ g.pulledFilter? = .ok residual ∧
        q = g.withIndex c ⟨g.table, index, box⟩ residual children := by
  by_cases hserving : g.isEligible = true ∧
      ∃ index box, g.FirstServing c registry predicate binding index box
  · obtain ⟨heligible, index, box, hfirst⟩ := hserving
    rw [turn?_of_firstServing heligible hfirst, bind_eq_ok] at h
    obtain ⟨residual, hresidual, h⟩ := h
    exact ⟨heligible, index, box, residual, hfirst, hresidual,
      (Option.some.inj (Except.ok.inj h)).symm⟩
  · rw [turn?_of_not_serving fun heligible index box hfirst =>
      hserving ⟨heligible, index, box, hfirst⟩] at h
    cases h

/-- If a scan that may be turned is not, no index serves the predicate. -/
theorem not_firstServing_of_turn? (h : g.turn? c registry children predicate binding = .ok none)
    (heligible : g.isEligible = true) (index : Index) (box : Box) :
    ¬g.FirstServing c registry predicate binding index box := by
  intro hfirst
  rw [turn?_of_firstServing heligible hfirst, bind_eq_ok] at h
  obtain ⟨_, _, h⟩ := h
  cases h

end Turn

section Choice

variable {above : Option Operator} {column : Nat}

/-- The index for the predicate of the operator above a scan, if that is a filter with just one. -/
def ChosenAbove (c : Catalog) (registry : Registry) (above : Option Operator) (g : Get)
    (index : Index) (box : Box) : Prop :=
  ∃ predicate projection, above = some (.filter [predicate] projection) ∧
    g.FirstServing c registry predicate .scanOutput index box

/-- The index for the only arbitrary expression among the filters that a scan carries. -/
def ChosenWithin (c : Catalog) (registry : Registry) (g : Get) (index : Index) (box : Box) : Prop :=
  ∃ column predicate,
    (g.filters.filter fun f => f.2.isExpression) = [(column, .expression predicate)] ∧
      g.FirstServing c registry predicate (.filterColumn column) index box

/-- The index that a scan below an operator is turned to, and the box to search it for.  The
operator is looked at first. -/
structure Chosen (c : Catalog) (registry : Registry) (above : Option Operator) (g : Get)
    (index : Index) (box : Box) : Prop where
  /-- It reads all rows so far. -/
  sequential : g.access = .sequential
  /-- It takes no filters from elsewhere. -/
  dynamicFilters : g.dynamicFilters = []
  /-- The rows of its table are kept here. -/
  native : g.table.kind = .native
  /-- The index serves the predicate above, or that within if none serves the one above. -/
  choice : g.ChosenAbove c registry above index box ∨
    (∀ index box, ¬g.ChosenAbove c registry above index box) ∧
      g.ChosenWithin c registry index box

section Picked

variable {pick : Nat × TableFilter → Option (Nat × Expression)}
  (hpick : ∀ f only, pick f = some only ↔ f = (only.1, .expression only.2))

include hpick

/-- Picking the arbitrary expressions among filters keeps those that are one. -/
theorem filter_isExpression (filters : List (Nat × TableFilter)) :
    (filters.filter fun f => f.2.isExpression) =
      (filters.filterMap pick).map fun only => (only.1, .expression only.2) := by
  induction filters with
  | nil => rfl
  | cons f filters ih =>
    cases hf : pick f with
    | some only =>
      obtain rfl := (hpick f only).mp hf
      rw [List.filterMap_cons_some hf, List.map_cons, ← ih]
      exact List.filter_cons_of_pos rfl
    | none =>
      have hother : ¬f.2.isExpression = true := fun h => by
        obtain ⟨column, filter⟩ := f
        cases filter with
        | expression predicate =>
          rw [(hpick _ (column, predicate)).mpr rfl] at hf
          cases hf
        | _ => cases h
      rw [List.filterMap_cons_none hf, ← ih]
      exact List.filter_cons_of_neg hother

/-- One expression is picked from the filters when one filter is an expression, and it is that. -/
theorem filterMap_eq_singleton_iff {filters : List (Nat × TableFilter)} {only : Nat × Expression} :
    filters.filterMap pick = [only] ↔
      (filters.filter fun f => f.2.isExpression) = [(only.1, .expression only.2)] := by
  rw [filter_isExpression hpick, List.map_eq_singleton_iff]
  constructor
  · intro h
    exact ⟨only, h, rfl⟩
  · rintro ⟨other, h, hsame⟩
    cases other
    cases hsame
    exact h

end Picked

/-- The filter that a scan is turned by is the only one that is an arbitrary expression. -/
theorem onlyExpression?_eq_some_iff : g.onlyExpression? = some (column, predicate) ↔
    (g.filters.filter fun f => f.2.isExpression) = [(column, .expression predicate)] := by
  simp only [onlyExpression?]
  generalize hpicked : g.filters.filterMap _ = picked
  have honly : picked = [(column, predicate)] ↔
      (g.filters.filter fun f => f.2.isExpression) = [(column, .expression predicate)] := by
    rw [← hpicked]
    refine filterMap_eq_singleton_iff ?_
    rintro ⟨_, filter⟩ ⟨_, _⟩
    cases filter <;> simp
  rw [← honly]
  split
  · rw [List.singleton_inj, Option.some.injEq]
  · rename_i hother
    exact ⟨nofun, fun h => absurd h (hother (column, predicate))⟩

/-- An index for the filter above a scan that may be turned is chosen. -/
theorem ChosenAbove.chosen (h : g.ChosenAbove c registry above index box)
    (heligible : g.isEligible = true) : g.Chosen c registry above index box := by
  obtain ⟨hsequential, hdynamic, hnative⟩ := isEligible_iff.mp heligible
  exact ⟨hsequential, hdynamic, hnative, .inl h⟩

/-- An index for the expression that a scan carries is chosen if there is none for the filter
above. -/
theorem ChosenWithin.chosen (h : g.ChosenWithin c registry index box)
    (heligible : g.isEligible = true)
    (habove : ∀ index box, ¬g.ChosenAbove c registry above index box) :
    g.Chosen c registry above index box := by
  obtain ⟨hsequential, hdynamic, hnative⟩ := isEligible_iff.mp heligible
  exact ⟨hsequential, hdynamic, hnative, .inr ⟨habove, h⟩⟩

/-- A scan for which an index is chosen may be turned. -/
theorem Chosen.isEligible (h : g.Chosen c registry above index box) : g.isEligible = true :=
  isEligible_iff.mpr ⟨h.sequential, h.dynamicFilters, h.native⟩

/-- A chosen index is on the table of the scan. -/
theorem Chosen.mem (h : g.Chosen c registry above index box) : index ∈ c.indexes g.table := by
  rcases h.choice with ⟨_, _, _, hfirst⟩ | ⟨_, _, _, _, hfirst⟩
  · exact hfirst.mem
  · exact hfirst.mem

/-- No two indexes are chosen for a scan, and there is one box to search for. -/
theorem Chosen.unique (h : g.Chosen c registry above index box)
    (h' : g.Chosen c registry above index' box') : index' = index ∧ box' = box := by
  rcases h.choice with habove | ⟨hnone, hwithin⟩ <;>
    rcases h'.choice with habove' | ⟨hnone', hwithin'⟩
  · obtain ⟨predicate, projection, hoperator, hfirst⟩ := habove
    obtain ⟨predicate', projection', hoperator', hfirst'⟩ := habove'
    cases hoperator.symm.trans hoperator'
    exact hfirst.unique hfirst'
  · exact absurd habove (hnone' index box)
  · exact absurd habove' (hnone index' box')
  · obtain ⟨column, predicate, honly, hfirst⟩ := hwithin
    obtain ⟨column', predicate', honly', hfirst'⟩ := hwithin'
    cases honly.symm.trans honly'
    exact hfirst.unique hfirst'

end Choice

end Get

end SpatialIndex
