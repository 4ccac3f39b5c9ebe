import SpatialIndex.Proofs.Plan.Optimize

/-!
# What turning scans does to a plan

Turning the scans of a plan touches only scans for which an index is chosen.  What stands in the
place of a scan afterwards is given by `Get.Becomes`, and the plan around the scans is kept.
-/

namespace SpatialIndex

/-- How many inputs an operator takes. -/
def Operator.inputs : Operator → Nat
  | get _ => 0
  | filter .. | projection .. | limit .. => 1
  | product => 2

/-- A plan whose operators have as many inputs as they take, over scans with their filters in
order. -/
inductive Plan.IsShaped : Plan → Prop
  /-- A scan. -/
  | get {g : Get} (hordered : g.IsOrdered) : IsShaped (.node (.get g) [])
  /-- A filter, a projection or a limit. -/
  | unary {operator : Operator} {child : Plan} (hone : operator.inputs = 1)
    (hchild : IsShaped child) : IsShaped (.node operator [child])
  /-- A product. -/
  | binary {operator : Operator} {left right : Plan} (htwo : operator.inputs = 2)
    (hleft : IsShaped left) (hright : IsShaped right) : IsShaped (.node operator [left, right])

namespace Plan

mutual

/-- The scans of a plan in order, each with the operator that it is an input of. -/
def sites (above : Option Operator) : Plan → List (Option Operator × Get)
  | node operator children =>
    (operator.get?.map fun g => (above, g)).toList ++ sitesOfAll operator children

/-- The scans of the inputs of an operator in order. -/
def sitesOfAll (above : Operator) : List Plan → List (Option Operator × Get)
  | [] => []
  | child :: rest => child.sites (some above) ++ sitesOfAll above rest

end

end Plan

namespace Get

section Becoming

variable {c : Catalog} {registry : Registry} {above : Option Operator} {g g' : Get}
  {predicate : Expression} {binding : KeyBinding} {index : Index} {box : Box} {q : Plan}

/-- The scan through an index, with all else as it was. -/
def through (c : Catalog) (g : Get) (index : Index) (box : Box) : Get :=
  { g with
    access := .index ⟨g.table, index, box⟩
    estimate := (⟨g.table, index, box⟩ : ScanBinding).cardinality c }

/-- What stands in the place of a scan below an operator once scans have been turned. -/
inductive Becomes (c : Catalog) (registry : Registry) (above : Option Operator) (g : Get) :
    Plan → Prop
  /-- No index is chosen for the scan, and it is kept. -/
  | kept (hchosen : ∀ index box, ¬g.Chosen c registry above index box) :
    Becomes c registry above g (.node (.get g) [])
  /-- The scan carries no filters and goes through the chosen index. -/
  | turned {index : Index} {box : Box} (hchosen : g.Chosen c registry above index box)
    (hfilters : g.filters = []) :
    Becomes c registry above g (.node (.get (g.through c index box)) [])
  /-- The scan goes through the chosen index, and a filter above it takes the place of its own
  filters and gives the columns that it gave. -/
  | pulled {index : Index} {box : Box} {predicates : List Expression}
    (hchosen : g.Chosen c registry above index box) (hfilters : g.filters ≠ [])
    (hpredicates : g.Pulls predicates) :
    Becomes c registry above g (.node (.filter predicates g.projection)
      [.node (.get { g.through c index box with filters := [], projection := [] }) []])

/-- What takes the place of a scan for which an index is chosen. -/
theorem Chosen.becomes (hchosen : g.Chosen c registry above index box) (hordered : g.IsOrdered)
    {residual : Option Operator} (hresidual : g.pulledFilter? = .ok residual) :
    g.Becomes c registry above (g.withIndex c ⟨g.table, index, box⟩ residual []) := by
  rcases (pulledFilter?_eq_ok_iff hordered).mp hresidual with
    ⟨hempty, rfl⟩ | ⟨hfilters, predicates, hpredicates, rfl⟩
  · exact .turned hchosen hempty
  · exact .pulled hchosen hfilters hpredicates

end Becoming

end Get

/-- A plan after scans have been turned, below an operator: all operators are kept but scans. -/
inductive Plan.Turns (c : Catalog) (registry : Registry) : Option Operator → Plan → Plan → Prop
  /-- A scan may be turned. -/
  | get {above : Option Operator} {g : Get} {q : Plan} (h : g.Becomes c registry above q) :
    Turns c registry above (.node (.get g) []) q
  /-- An operator is kept over its input. -/
  | unary {above : Option Operator} {operator : Operator} {child child' : Plan}
    (hone : operator.inputs = 1) (hchild : Turns c registry (some operator) child child') :
    Turns c registry above (.node operator [child]) (.node operator [child'])
  /-- An operator is kept over its inputs. -/
  | binary {above : Option Operator} {operator : Operator} {left left' right right' : Plan}
    (htwo : operator.inputs = 2) (hleft : Turns c registry (some operator) left left')
    (hright : Turns c registry (some operator) right right') :
    Turns c registry above (.node operator [left, right]) (.node operator [left', right'])

namespace Plan

variable {c : Catalog} {registry : Registry} {above : Option Operator} {operator : Operator}
  {children : List Plan} {p q child : Plan} {g : Get} {index : Index} {box : Box}

section Sites

/-- An operator that takes inputs is no scan. -/
theorem get?_eq_none (h : 0 < operator.inputs) : operator.get? = none := by
  cases operator with
  | get => cases h
  | _ => rfl

/-- The scans below an operator with one input are those of the input, where the operator stands
above one at its top. -/
theorem sites_unary (hone : operator.inputs = 1) (child : Plan) :
    (node operator [child]).sites above = child.sites (some operator) := by
  rw [sites, get?_eq_none (by omega), sitesOfAll, sitesOfAll, List.append_nil]
  rfl

/-- The scans below an operator with two inputs are those of the first and then those of the
second. -/
theorem sites_binary (htwo : operator.inputs = 2) (left right : Plan) :
    (node operator [left, right]).sites above =
      left.sites (some operator) ++ right.sites (some operator) := by
  rw [sites, get?_eq_none (by omega), sitesOfAll, sitesOfAll, sitesOfAll, List.append_nil]
  rfl

/-- An operator with one input has the scans of that. -/
theorem gets_unary (hone : operator.inputs = 1) (child : Plan) :
    (node operator [child]).gets = child.gets := by
  rw [gets, operators, List.filterMap_cons_none (get?_eq_none (by omega)), operatorsOfAll,
    operatorsOfAll, List.append_nil, gets]

/-- An operator with two inputs has the scans of the first and then those of the second. -/
theorem gets_binary (htwo : operator.inputs = 2) (left right : Plan) :
    (node operator [left, right]).gets = left.gets ++ right.gets := by
  rw [gets, operators, List.filterMap_cons_none (get?_eq_none (by omega)), operatorsOfAll,
    operatorsOfAll, operatorsOfAll, List.append_nil, List.filterMap_append, gets, gets]

/-- The sites of a plan are those of its scans. -/
theorem map_sites (hshaped : p.IsShaped) : (p.sites above).map (·.2) = p.gets := by
  induction hshaped generalizing above with
  | get => rfl
  | unary hone _ ih => rw [sites_unary hone, gets_unary hone, ih]
  | binary htwo _ _ ihleft ihright =>
    rw [sites_binary htwo, gets_binary htwo, List.map_append, ihleft, ihright]

end Sites

section Turning

/-- A plan is turned at its top or in its inputs. -/
theorem useIndexes_eq_ok (h : (node operator children).useIndexes c registry = (q, .ok ())) :
    turnTop? c registry (node operator children) = .ok (some q) ∨
      turnTop? c registry (node operator children) = .ok none ∧
        ∃ children', useIndexesInAll c registry children = (children', .ok ()) ∧
          q = node operator children' := by
  rw [useIndexes] at h
  split at h
  · cases h
  · rename_i hturned
    cases h
    exact .inl hturned
  · rename_i hnone
    obtain ⟨rfl, houtcome⟩ := Prod.mk.inj h
    exact .inr ⟨hnone, _, Prod.ext rfl houtcome, rfl⟩

/-- Several plans are turned without a failure when the first is and then the others are. -/
theorem useIndexesInAll_cons_eq_ok {rest all' : List Plan}
    (h : useIndexesInAll c registry (child :: rest) = (all', .ok ())) :
    ∃ child' rest', child.useIndexes c registry = (child', .ok ()) ∧
      useIndexesInAll c registry rest = (rest', .ok ()) ∧ all' = child' :: rest' := by
  rw [useIndexesInAll] at h
  split at h
  · cases h
  · rename_i child' hchild
    obtain ⟨rfl, houtcome⟩ := Prod.mk.inj h
    exact ⟨child', _, hchild, Prod.ext rfl houtcome, rfl⟩

/-- A scan is turned by the only arbitrary expression that it carries. -/
theorem turnTop?_get_eq_some (h : turnTop? c registry (node (.get g) []) = .ok (some q)) :
    ∃ column predicate, g.onlyExpression? = some (column, predicate) ∧
      g.turn? c registry [] predicate (.filterColumn column) = .ok (some q) := by
  rw [turnTop?] at h
  split at h
  · rename_i column predicate honly
    exact ⟨column, predicate, honly, h⟩
  · cases h

/-- Of the operators with one input only a filter with one predicate directly above a scan is
turned. -/
theorem turnTop?_unary_eq_some (hone : operator.inputs = 1)
    (h : turnTop? c registry (node operator [child]) = .ok (some q)) :
    ∃ predicate projection g below child', operator = .filter [predicate] projection ∧
      child = node (.get g) below ∧
        g.turn? c registry below predicate .scanOutput = .ok (some child') ∧
          q = node operator [child'] := by
  unfold turnTop? at h
  split at h
  · rename_i predicate projection g below heq
    cases heq
    obtain ⟨turned, hturned, h⟩ := bind_eq_ok.mp h
    obtain ⟨child', rfl, rfl⟩ := Option.map_eq_some_iff.mp (Except.ok.inj h)
    exact ⟨predicate, projection, g, below, child', rfl, rfl, hturned, rfl⟩
  · rename_i heq
    cases heq
    cases hone
  · cases h

/-- Nothing is turned at the top of an operator with two inputs. -/
theorem turnTop?_binary (htwo : operator.inputs = 2) (left right : Plan) :
    turnTop? c registry (node operator [left, right]) = .ok none := by
  cases operator with
  | product => rfl
  | _ => cases htwo

/-- If a filter above a scan is not turned, no index is chosen because of it. -/
theorem not_chosenAbove_of_turnTop?
    (h : turnTop? c registry (node operator [node (.get g) []]) = .ok none)
    (heligible : g.isEligible = true) (index : Index) (box : Box) :
    ¬g.ChosenAbove c registry (some operator) index box := by
  rintro ⟨predicate, projection, hoperator, hfirst⟩
  cases hoperator
  rw [turnTop?, bind_eq_ok] at h
  obtain ⟨turned, hturned, h⟩ := h
  cases turned with
  | none => exact Get.not_firstServing_of_turn? hturned heligible index box hfirst
  | some _ => cases h

/-- No index is chosen because of an operator with two inputs. -/
theorem not_chosenAbove_of_binary (htwo : operator.inputs = 2) (index : Index) (box : Box) :
    ¬g.ChosenAbove c registry (some operator) index box := by
  rintro ⟨predicate, projection, hoperator, _⟩
  cases hoperator
  cases htwo

/-- A scan becomes what turning it leaves, if no index is chosen because of the operator above. -/
theorem becomes_of_useIndexes (hordered : g.IsOrdered)
    (habove : g.isEligible = true → ∀ index box, ¬g.ChosenAbove c registry above index box)
    (h : (node (.get g) []).useIndexes c registry = (q, .ok ())) :
    g.Becomes c registry above q := by
  rcases useIndexes_eq_ok h with hturned | ⟨hnone, _, hrest, rfl⟩
  · obtain ⟨column, predicate, honly, hturn⟩ := turnTop?_get_eq_some hturned
    obtain ⟨heligible, index, box, residual, hfirst, hresidual, rfl⟩ := Get.turn?_eq_some hturn
    have hwithin : g.ChosenWithin c registry index box :=
      ⟨column, predicate, Get.onlyExpression?_eq_some_iff.mp honly, hfirst⟩
    exact (hwithin.chosen heligible (habove heligible)).becomes hordered hresidual
  · cases hrest
    refine .kept fun index box hchosen => ?_
    rcases hchosen.choice with habove' | ⟨_, column, predicate, honly, hfirst⟩
    · exact habove hchosen.isEligible index box habove'
    · rw [turnTop?, Get.onlyExpression?_eq_some_iff.mpr honly] at hnone
      exact Get.not_firstServing_of_turn? hnone hchosen.isEligible index box hfirst

/-- Turning scans leaves a plan in which scans have become what they should.  When a scan is
reached, no index has been chosen because of the operator above it. -/
theorem turns_of_useIndexes (hshaped : p.IsShaped)
    (habove : ∀ g, p = node (.get g) [] → g.isEligible = true →
      ∀ index box, ¬g.ChosenAbove c registry above index box)
    (h : p.useIndexes c registry = (q, .ok ())) : p.Turns c registry above q := by
  induction hshaped generalizing above q with
  | @get g hordered => exact .get (becomes_of_useIndexes hordered (habove g rfl) h)
  | @unary operator child hone hchild ih =>
    rcases useIndexes_eq_ok h with hturned | ⟨hnone, _, hall, rfl⟩
    · obtain ⟨predicate, projection, g, below, child', rfl, rfl, hturn, rfl⟩ :=
        turnTop?_unary_eq_some hone hturned
      cases hchild with
      | get hordered =>
        obtain ⟨heligible, index, box, residual, hfirst, hresidual, rfl⟩ :=
          Get.turn?_eq_some hturn
        have habove : g.ChosenAbove c registry (some (.filter [predicate] projection)) index box :=
          ⟨predicate, projection, rfl, hfirst⟩
        exact .unary hone (.get ((habove.chosen heligible).becomes hordered hresidual))
      | unary hzero => cases hzero
      | binary hzero => cases hzero
    · obtain ⟨child', _, hchild', hrest, rfl⟩ := useIndexesInAll_cons_eq_ok hall
      cases hrest
      -- A scan below a filter that was not turned is tried again by itself, so that the filter it
      -- carries counts only if the one above chooses no index.
      refine .unary hone (ih ?_ hchild')
      rintro g rfl heligible
      exact not_chosenAbove_of_turnTop? hnone heligible
  | @binary operator left right htwo _ _ ihleft ihright =>
    rcases useIndexes_eq_ok h with hturned | ⟨_, _, hall, rfl⟩
    · rw [turnTop?_binary htwo] at hturned
      cases hturned
    · obtain ⟨left', _, hleft', hright, rfl⟩ := useIndexesInAll_cons_eq_ok hall
      obtain ⟨right', _, hright', hrest, rfl⟩ := useIndexesInAll_cons_eq_ok hright
      cases hrest
      exact .binary htwo (ihleft (fun _ _ _ => not_chosenAbove_of_binary htwo) hleft')
        (ihright (fun _ _ _ => not_chosenAbove_of_binary htwo) hright')

/-- A whole plan, below no operator, is turned as plans are. -/
theorem turns_of_useIndexes_top (hshaped : p.IsShaped)
    (h : p.useIndexes c registry = (q, .ok ())) : p.Turns c registry none q := by
  refine turns_of_useIndexes hshaped (fun g _ _ index box => ?_) h
  rintro ⟨_, _, hnone, _⟩
  cases hnone

/-- A scan at the top of a plan stays if no index is chosen for it. -/
theorem turnTop?_get_of_not_chosen
    (h : ∀ index box, ¬g.Chosen c registry above index box) :
    turnTop? c registry (node (.get g) []) = .ok none := by
  rw [turnTop?]
  split
  · rename_i column predicate honly
    refine Get.turn?_of_not_serving (fun heligible index box hfirst => ?_) []
    have hwithin : g.ChosenWithin c registry index box :=
      ⟨column, predicate, Get.onlyExpression?_eq_some_iff.mp honly, hfirst⟩
    exact h index box (hwithin.chosen heligible fun index box habove =>
      h index box (habove.chosen heligible))
  · rfl

/-- Nothing is turned at the top of an operator with one input if no index is chosen for a scan
right below. -/
theorem turnTop?_unary_of_not_chosen (hone : operator.inputs = 1)
    (h : ∀ g below, child = node (.get g) below →
      ∀ index box, ¬g.Chosen c registry (some operator) index box) :
    turnTop? c registry (node operator [child]) = .ok none := by
  unfold turnTop?
  split
  · rename_i predicate projection g below heq
    cases heq
    have hnone (heligible : g.isEligible = true) (index : Index) (box : Box)
        (hfirst : g.FirstServing c registry predicate .scanOutput index box) : False := by
      have habove : g.ChosenAbove c registry (some (.filter [predicate] projection)) index box :=
        ⟨predicate, projection, rfl, hfirst⟩
      exact h g below rfl index box (habove.chosen heligible)
    rw [Get.turn?_of_not_serving hnone]
    rfl
  · rename_i heq
    cases heq
    cases hone
  · rfl

/-- A plan for none of whose scans an index is chosen is left as it is. -/
theorem useIndexes_of_not_chosen (hshaped : p.IsShaped)
    (h : ∀ site ∈ p.sites above, ∀ index box, ¬site.2.Chosen c registry site.1 index box) :
    p.useIndexes c registry = (p, .ok ()) := by
  induction hshaped generalizing above with
  | @get g =>
    have hnone : turnTop? c registry (node (.get g) []) = .ok none :=
      turnTop?_get_of_not_chosen (h (above, g) (List.mem_singleton_self _))
    rw [useIndexes_of_none hnone]
    rfl
  | @unary operator child hone _ ih =>
    rw [sites_unary hone] at h
    have hnone : turnTop? c registry (node operator [child]) = .ok none := by
      refine turnTop?_unary_of_not_chosen hone ?_
      rintro g below rfl
      exact h (some operator, g) List.mem_cons_self
    rw [useIndexes_of_none hnone, useIndexesInAll_cons (ih h)]
    rfl
  | binary htwo _ _ ihleft ihright =>
    rw [sites_binary htwo, List.forall_mem_append] at h
    rw [useIndexes_of_none (turnTop?_binary htwo _ _), useIndexesInAll_cons (ihleft h.1),
      useIndexesInAll_cons (ihright h.2)]
    rfl

/-- What stands in the place of a scan is one scan, perhaps under a filter. -/
theorem exists_gets_of_becomes (h : g.Becomes c registry above q) : ∃ g', q.gets = [g'] := by
  cases h <;> exact ⟨_, rfl⟩

/-- The scans of a plan are turned one by one, and none is moved. -/
theorem Turns.forall₂_sites (h : p.Turns c registry above q) :
    List.Forall₂ (fun site g' => ∃ q, site.2.Becomes c registry site.1 q ∧ q.gets = [g'])
      (p.sites above) q.gets := by
  induction h with
  | get hbecomes =>
    obtain ⟨g', hgets⟩ := exists_gets_of_becomes hbecomes
    rw [hgets]
    exact .cons ⟨_, hbecomes, hgets⟩ .nil
  | unary hone _ ih =>
    rw [sites_unary hone, gets_unary hone]
    exact ih
  | binary htwo _ _ ihleft ihright =>
    rw [sites_binary htwo, gets_binary htwo]
    exact List.rel_append ihleft ihright

end Turning

section Results

variable {g' : Get}

/-- A scan that is turned changes in four fields, and gives up its projection only with filters. -/
theorem get_of_becomes (h : g.Becomes c registry above q) (hgets : q.gets = [g']) :
    g' = g ∨ g.access = .sequential ∧ ∃ b estimate, g' = { g with
      access := .index b
      estimate
      filters := []
      projection := if g.filters = [] then g.projection else [] } := by
  cases h with
  | kept =>
    cases hgets
    exact .inl rfl
  | turned hchosen hfilters =>
    cases hgets
    exact .inr ⟨hchosen.sequential, _, _, by rw [if_pos hfilters, ← hfilters]; rfl⟩
  | pulled hchosen hfilters =>
    cases hgets
    exact .inr ⟨hchosen.sequential, _, _, by rw [if_neg hfilters]; rfl⟩

/-- Turning the scans of a plan changes nothing but scans for which an index is chosen, and these
only as far as they have to.  A plan without any such scan is left as it is. -/
theorem useIndexes_frame (hshaped : p.IsShaped) :
    (∀ q, p.useIndexes c registry = (q, .ok ()) → p.Turns c registry none q ∧
      List.Forall₂ (fun g g' => g' = g ∨ g.access = .sequential ∧ ∃ b estimate, g' = { g with
        access := .index b
        estimate
        filters := []
        projection := if g.filters = [] then g.projection else [] }) p.gets q.gets) ∧
      ((∀ site ∈ p.sites none, ∀ index box, ¬site.2.Chosen c registry site.1 index box) →
        p.useIndexes c registry = (p, .ok ())) := by
  refine ⟨fun q h => ?_, useIndexes_of_not_chosen hshaped⟩
  have hturns : p.Turns c registry none q := turns_of_useIndexes_top hshaped h
  refine ⟨hturns, ?_⟩
  have hgets : (p.sites none).map (·.2) = p.gets := map_sites hshaped
  rw [← hgets, List.forall₂_map_left_iff]
  refine hturns.forall₂_sites.imp ?_
  rintro site g' ⟨turned, hbecomes, hgets⟩
  exact get_of_becomes hbecomes hgets

end Results

end Plan

namespace Places

open SpatialIndex.Geometry

/-- A scan of the places that carries the test of a place as its only filter. -/
def filtered : Get :=
  (Get.ofTable 0 table [0] 2).withFilter 0 (.expression (predicate (.reference 0 .geometry)))

/-- The box of the point to search for. -/
def box : Box := .ofRect ⟨near, near⟩

/-- The table of places has one index, whose key is the place. -/
theorem exists_index : ∃ index, catalog.indexes table = [index] ∧ index.keys = [key] := by
  obtain ⟨tree, hbuild⟩ := exists_build
  have hlists := (Catalog.createIndex_of_build prepared_eq (by rw [unindexed_eq]; exact hbuild)).2
  exact ⟨_, hlists.indexes_eq, rfl⟩

/-- The point to search for has a box without reading a row. -/
theorem hasBox : (Expression.constant (.geometry (.point near)) .geometry).HasBox .spatial box := by
  have hbounds : (point near).bounds? = some ⟨near, near⟩ := by
    simp only [bounds?, Rect.ofCorners, ite_self]
  exact ⟨point near, rfl, by rw [Geometry.box?, hbounds]; rfl, by decide +kernel⟩

/-- Being within another shape is a relation that an index can serve. -/
theorem isRelation : SpatialRelation.within.signature.IsRelation :=
  ⟨by decide +kernel, rfl, rfl, rfl⟩

/-- The only index serves the test of a place, wherever that reads the column of the places. -/
theorem firstServing {g : Get} {binding : KeyBinding} {index : Index} {place : Expression}
    (hindexes : catalog.indexes g.table = [index]) (hkeys : index.keys = [key])
    (hreads : binding.Reads g ⟨0, 0⟩) (hplace : binding.key g key = place)
    (htype : place.type = .geometry) (hequal : place.equiv place = true) :
    g.FirstServing catalog .spatial (predicate place) binding index box := by
  refine ⟨.intro hkeys ?_ ?_ hasBox, [], [], hindexes, nofun⟩
  · simpa [key, Expression.columnBindings] using hreads
  · rw [hplace]
    exact .call isRelation htype rfl (.second hequal rfl)

end Places

open Places in
/-- The filter that a scan carries moves out of it when the scan goes through the index, and without
an index a plan is kept. -/
theorem Plan.useIndexes_frame_places :
    (∃ scan, (node (.get filtered) []).Turns catalog .spatial none
      (node (.filter [predicate key] []) [node (.get scan) []])) ∧
        plan.useIndexes unindexed .spatial = (plan, .ok ()) := by
  obtain ⟨index, hindexes, hkeys⟩ := exists_index
  have hfirst : filtered.FirstServing catalog .spatial (predicate (.reference 0 .geometry))
      (.filterColumn 0) index box :=
    firstServing hindexes hkeys rfl rfl rfl (by decide)
  have hturn : turnTop? catalog .spatial (node (.get filtered) []) =
      .ok (some (filtered.withIndex catalog ⟨table, index, box⟩
        (some (.filter [predicate key] [])) [])) := by
    rw [turnTop?, Get.onlyExpression?_eq_some_iff.mpr rfl]
    exact Get.turn?_of_firstServing rfl hfirst []
  have hordered : filtered.IsOrdered := (Get.isOrdered_ofTable 0 table [0] 2).withFilter 0 _
  have hshaped : plan.IsShaped :=
    .unary rfl (.get (Get.isOrdered_ofTable 0 table [0] 2))
  refine ⟨⟨_, ((useIndexes_frame (.get hordered)).1 _ (useIndexes_of_some hturn)).1⟩, ?_⟩
  refine (useIndexes_frame hshaped).2 fun site hsite index box hchosen => ?_
  obtain rfl := List.mem_singleton.mp hsite
  have hmem := hchosen.mem
  cases hmem

end SpatialIndex
