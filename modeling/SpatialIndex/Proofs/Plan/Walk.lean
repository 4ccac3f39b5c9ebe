import SpatialIndex.Proofs.Plan.Turning

/-!
# Walking plans of any shape

Plans may have operators with the wrong number of inputs, and turning scans may end in a failure
half way.  Whatever the plan and the outcome, what is left behind differs from the plan only in
scans: each of them is kept, or it was sequential and goes through an index now.
-/

namespace SpatialIndex

namespace Plan

/-- What holds of an operator whenever it holds of its inputs holds of every plan. -/
theorem induction {motive : Plan → Prop}
    (node : ∀ operator children, (∀ child ∈ children, motive child) →
      motive (node operator children)) : ∀ p, motive p :=
  @Plan.rec motive (fun children => ∀ child ∈ children, motive child) node
    (fun _ h => nomatch h) fun _ _ hchild hrest => List.forall_mem_cons.mpr ⟨hchild, hrest⟩

section Gets

/-- The operators of several plans are those of each in turn. -/
theorem operatorsOfAll_eq_flatMap (children : List Plan) :
    operatorsOfAll children = children.flatMap operators := by
  induction children with
  | nil => rfl
  | cons child rest ih => rw [operatorsOfAll, ih, List.flatMap_cons]

/-- The scans of a plan are the operator itself, if it is one, and those of its inputs. -/
theorem gets_node (operator : Operator) (children : List Plan) :
    (node operator children).gets = operator.get?.toList ++ children.flatMap gets := by
  rw [gets, operators, operatorsOfAll_eq_flatMap, List.filterMap_cons, List.filterMap_flatMap]
  cases operator.get? <;> rfl

end Gets

end Plan

namespace Get

variable {c : Catalog} {registry : Registry} {g g' : Get} {below : List Plan}
  {predicate : Expression} {binding : KeyBinding} {cause : Error} {residual : Option Operator}

/-- The filter to put above a scan, if it has filters, gives the columns that the scan gives. -/
theorem pulledFilter?_cases (h : g.pulledFilter? = .ok residual) :
    g.filters = [] ∧ residual = none ∨
      g.filters ≠ [] ∧ ∃ predicates, residual = some (.filter predicates g.projection) := by
  unfold pulledFilter? at h
  split at h
  · rename_i hempty
    exact .inl ⟨List.isEmpty_iff.mp hempty, (Except.ok.inj h).symm⟩
  · rename_i hfilters
    obtain ⟨predicates, _, h⟩ := bind_eq_ok.mp h
    exact .inr ⟨mt List.isEmpty_iff.mpr hfilters, predicates, (Except.ok.inj h).symm⟩

/-- A scan fails to be turned because of its filters. -/
theorem turn?_eq_error (h : g.turn? c registry below predicate binding = .error cause) :
    g.isEligible = true ∧ g.pulledFilter? = .error cause := by
  by_cases hserving : g.isEligible = true ∧
      ∃ index box, g.FirstServing c registry predicate binding index box
  · obtain ⟨heligible, index, box, hfirst⟩ := hserving
    rw [turn?_of_firstServing heligible hfirst] at h
    cases hpulled : g.pulledFilter? with
    | error e =>
      rw [hpulled] at h
      exact ⟨heligible, congrArg Except.error (Except.error.inj h)⟩
    | ok residual =>
      rw [hpulled] at h
      cases h
  · rw [turn?_of_not_serving fun heligible index box hfirst =>
      hserving ⟨heligible, index, box, hfirst⟩] at h
    cases h

/-- A scan is kept, or it was sequential and goes through an index, without filters of its own, and
gives all columns that it reads if it had any. -/
def Redirects (g g' : Get) : Prop :=
  g' = g ∨ g.access = .sequential ∧ ∃ b estimate, g' = { g with
    access := .index b
    estimate
    filters := []
    projection := if g.filters = [] then g.projection else [] }

/-- A scan may be kept. -/
theorem Redirects.refl (g : Get) : g.Redirects g := .inl rfl

/-- A scan that is turned stands where it stood, with the same inputs. -/
theorem exists_gets_withIndex (hsequential : g.access = .sequential)
    (hresidual : g.pulledFilter? = .ok residual) (b : ScanBinding) :
    ∃ g', g.Redirects g' ∧ g' ≠ g ∧
      (g.withIndex c b residual below).gets = g' :: below.flatMap Plan.gets := by
  have hne {g' : Get} (haccess : g'.access = .index b) : g' ≠ g := by
    rintro rfl
    cases hsequential.symm.trans haccess
  rcases pulledFilter?_cases hresidual with ⟨hempty, rfl⟩ | ⟨hfilters, predicates, rfl⟩
  · refine ⟨{ g with access := .index b, estimate := b.cardinality c },
      .inr ⟨hsequential, b, b.cardinality c, ?_⟩, hne rfl, Plan.gets_node _ _⟩
    rw [if_pos hempty, ← hempty]
  · refine ⟨{ g with
      access := .index b
      estimate := b.cardinality c
      filters := []
      projection := [] },
      .inr ⟨hsequential, b, b.cardinality c, by rw [if_neg hfilters]⟩, hne rfl, ?_⟩
    rw [withIndex, Plan.gets_node, List.flatMap_singleton, Plan.gets_node]
    rfl

end Get

namespace Plan

variable {c : Catalog} {registry : Registry} {p q child : Plan} {operator : Operator}
  {children children' : List Plan} {cause : Error}

/-- Where a scan can be turned: it stands at the top of a plan, or right below a filter there that
has one predicate.  The place is given by the plan around the scan. -/
inductive IsTop : (Plan → Plan) → Prop
  /-- The scan is the plan. -/
  | scan : IsTop id
  /-- The scan is below a filter. -/
  | filter (predicate : Expression) (projection : List Nat) :
    IsTop fun scan => node (.filter [predicate] projection) [scan]

/-- The scans of a plan around a place are those of what stands there. -/
theorem IsTop.gets {place : Plan → Plan} (h : IsTop place) (scan : Plan) :
    (place scan).gets = scan.gets := by
  cases h with
  | scan => rfl
  | filter predicate projection =>
    rw [gets_node, List.flatMap_singleton]
    rfl

/-- Turning what stands at the top of a plan is trying to turn one scan there. -/
theorem turnTop?_cases (c : Catalog) (registry : Registry) (p : Plan) :
    turnTop? c registry p = .ok none ∨
      ∃ place g below predicate binding, IsTop place ∧ p = place (node (.get g) below) ∧
        turnTop? c registry p =
          (g.turn? c registry below predicate binding).map (Option.map place) := by
  unfold turnTop?
  split
  · rename_i predicate projection g below
    refine .inr ⟨_, g, below, predicate, .scanOutput, .filter predicate projection, rfl, ?_⟩
    cases g.turn? c registry below predicate .scanOutput <;> rfl
  · rename_i g below
    split
    · rename_i column predicate _
      refine .inr ⟨id, g, below, predicate, .filterColumn column, .scan, rfl, ?_⟩
      rcases g.turn? c registry below predicate (.filterColumn column) with _ | _ | _ <;> rfl
    · exact .inl rfl
  · exact .inl rfl

/-- What is turned at the top of a plan is one sequential scan, with the filters that it carried
above it. -/
theorem turnTop?_eq_some (h : turnTop? c registry p = .ok (some q)) :
    ∃ place g below b residual, IsTop place ∧ p = place (node (.get g) below) ∧
      g.access = .sequential ∧ g.pulledFilter? = .ok residual ∧
        q = place (g.withIndex c b residual below) := by
  rcases turnTop?_cases c registry p with
    hnone | ⟨place, g, below, predicate, binding, htop, hp, hturn⟩
  · cases hnone.symm.trans h
  · obtain ⟨turned, hturned, hq⟩ := map_eq_ok.mp (hturn.symm.trans h)
    obtain ⟨turned, rfl, rfl⟩ := Option.map_eq_some_iff.mp hq
    obtain ⟨heligible, index, box, residual, _, hresidual, rfl⟩ := Get.turn?_eq_some hturned
    exact ⟨place, g, below, _, residual, htop, hp, (Get.isEligible_iff.mp heligible).1, hresidual,
      rfl⟩

/-- Turning fails at the top of a plan for one reason, that the filters of a scan which may be
turned cannot be pulled above it. -/
theorem turnTop?_eq_error (h : turnTop? c registry p = .error cause) :
    ∃ place g below, IsTop place ∧ p = place (node (.get g) below) ∧
      g.isEligible = true ∧ g.pulledFilter? = .error cause := by
  rcases turnTop?_cases c registry p with
    hnone | ⟨place, g, below, predicate, binding, htop, hp, hturn⟩
  · cases hnone.symm.trans h
  · have herror : g.turn? c registry below predicate binding = .error cause := by
      rw [hturn] at h
      cases hturned : g.turn? c registry below predicate binding with
      | error e =>
        rw [hturned] at h
        exact congrArg Except.error (Except.error.inj h)
      | ok turned =>
        rw [hturned] at h
        cases h
    exact ⟨place, g, below, htop, hp, Get.turn?_eq_error herror⟩

/-- A plan that fails at its top stays as it is. -/
theorem useIndexes_of_error (h : turnTop? c registry p = .error cause) :
    p.useIndexes c registry = (p, .error cause) := by
  cases p
  rw [useIndexes, h]

/-- What holds between a plan and itself, between plans of which one has a scan turned at the top,
and between operators if it holds between their inputs, holds between every plan and what turning
its scans leaves behind, be it in a failure. -/
theorem useIndexes_induction (c : Catalog) (registry : Registry) {motive : Plan → Plan → Prop}
    (kept : ∀ p, motive p p)
    (turned : ∀ place g below b residual, IsTop place → g.access = .sequential →
      g.pulledFilter? = .ok residual →
      motive (place (node (.get g) below)) (place (g.withIndex c b residual below)))
    (below : ∀ operator children children', List.Forall₂ motive children children' →
      motive (node operator children) (node operator children')) (p : Plan) :
    motive p (p.useIndexes c registry).1 := by
  have hall (children : List Plan)
      (h : ∀ child ∈ children, motive child (child.useIndexes c registry).1) :
      List.Forall₂ motive children (useIndexesInAll c registry children).1 := by
    induction children with
    | nil => exact .nil
    | cons child rest ih =>
      obtain ⟨hchild, hrest⟩ := List.forall_mem_cons.mp h
      rw [useIndexesInAll]
      split
      · -- After a failure the other inputs are kept.
        rename_i child' _ heq
        rw [heq] at hchild
        exact .cons hchild (List.forall₂_same.mpr fun p _ => kept p)
      · rename_i child' heq
        rw [heq] at hchild
        exact .cons hchild (ih hrest)
  induction p using Plan.induction with
  | node operator children ih =>
    cases hturn : turnTop? c registry (node operator children) with
    | error e =>
      rw [useIndexes_of_error hturn]
      exact kept _
    | ok outcome =>
      cases outcome with
      | none =>
        rw [useIndexes_of_none hturn]
        exact below _ _ _ (hall children ih)
      | some q =>
        obtain ⟨place, g, under, b, residual, htop, hp, hsequential, hresidual, rfl⟩ :=
          turnTop?_eq_some hturn
        rw [useIndexes_of_some hturn, hp]
        exact turned place g under b residual htop hsequential hresidual

/-- The scans of a plan are redirected one by one, and the plan is the same if they all are. -/
def Redirects (p q : Plan) : Prop :=
  List.Forall₂ Get.Redirects p.gets q.gets ∧ (q.gets = p.gets → q = p)

/-- Plans that are redirected one by one are the same if their scans are. -/
theorem eq_of_flatMap_gets (hall : List.Forall₂ Redirects children children')
    (h : children'.flatMap gets = children.flatMap gets) : children' = children := by
  induction hall with
  | nil => rfl
  | cons hchild _ ih =>
    rw [List.flatMap_cons, List.flatMap_cons] at h
    obtain ⟨hgets, hrest⟩ := List.append_inj h hchild.1.length_eq.symm
    rw [hchild.2 hgets, ih hrest]

/-- What is left behind has the scans of the plan, one by one, some of them through an index, and
nothing else has changed. -/
theorem redirects_useIndexes (c : Catalog) (registry : Registry) (p : Plan) :
    p.Redirects (p.useIndexes c registry).1 := by
  have hrefl (l : List Get) : List.Forall₂ Get.Redirects l l :=
    List.forall₂_same.mpr fun g _ => .refl g
  induction p using useIndexes_induction c registry with
  | kept p => exact ⟨hrefl _, fun _ => rfl⟩
  | turned place g below b residual htop hsequential hresidual =>
    obtain ⟨g', hredirects, hne, hgets⟩ := Get.exists_gets_withIndex hsequential hresidual b
    rw [Redirects, htop.gets, htop.gets, hgets, gets_node]
    exact ⟨.cons hredirects (hrefl _), fun h => absurd (List.cons.inj h).1 hne⟩
  | below operator children children' hall =>
    rw [Redirects, gets_node, gets_node]
    have hgets : List.Forall₂ Get.Redirects (children.flatMap gets) (children'.flatMap gets) :=
      List.rel_flatMap hall fun _ _ h => h.1
    refine ⟨List.rel_append (hrefl _) hgets, fun h => ?_⟩
    rw [eq_of_flatMap_gets hall (List.append_cancel_left h)]

end Plan

namespace Places

/-- The scan below the test of a place goes through the index. -/
theorem exists_useIndexes_plan : ∃ index, plan.useIndexes catalog .spatial =
    (.node (.filter [predicate key] [])
      [.node (.get ((Get.ofTable 0 table [0] 2).through catalog index box)) []], .ok ()) := by
  obtain ⟨index, hindexes, hkeys⟩ := exists_index
  have hfirst : (Get.ofTable 0 table [0] 2).FirstServing catalog .spatial (predicate key)
      .scanOutput index box :=
    firstServing hindexes hkeys (List.mem_singleton_self 0) rfl rfl (by decide)
  have hturn : Plan.turnTop? catalog .spatial plan = .ok (some
      (.node (.filter [predicate key] [])
        [.node (.get ((Get.ofTable 0 table [0] 2).through catalog index box)) []])) := by
    rw [plan, Plan.turnTop?, Get.turn?_of_firstServing rfl hfirst]
    rfl
  exact ⟨index, Plan.useIndexes_of_some hturn⟩

end Places

end SpatialIndex
