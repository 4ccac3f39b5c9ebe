import SpatialIndex.Plan.Optimize
import SpatialIndex.Proofs.Catalog.Creation
import SpatialIndex.Proofs.Function
import SpatialIndex.Proofs.Plan.IndexAccess
import Mathlib.Data.List.Permutation

/-!
# Plans that use indexes

Turning the scans of a plan into index scans changes no rows.
-/

namespace SpatialIndex

namespace Plan

/-- A plan may stand for another one that gives certain rows: it has the same output and gives the
same rows in some order. -/
structure StandsFor (c : Catalog) (batchSize : Nat) (p' p : Plan) (out : List Row) : Prop where
  /-- It is put together like the other one. -/
  built : p'.IsBuilt c
  /-- Its columns have the same bindings. -/
  bindings : p'.outputBindings = p.outputBindings
  /-- It gives the same rows. -/
  rows : ∃ out', p'.execute c c.functions batchSize = .ok out' ∧ out'.Perm out

section Congruence

variable {c : Catalog} {batchSize : Nat} {p p' left left' right right' : Plan}
  {out rows rows' : List Row}

/-- A plan that gives rows stands for itself. -/
theorem StandsFor.refl (hbuilt : p.IsBuilt c)
    (h : p.execute c c.functions batchSize = .ok out) : StandsFor c batchSize p p out :=
  ⟨hbuilt, rfl, out, h, .refl out⟩

/-- A filter over what stands for its input stands for the filter. -/
theorem StandsFor.filter (h : StandsFor c batchSize p' p rows) {predicates : List Expression}
    {projection : List Nat} (hrows : p.execute c c.functions batchSize = .ok rows)
    (hout : (node (.filter predicates projection) [p]).execute c c.functions batchSize = .ok out) :
    StandsFor c batchSize (node (.filter predicates projection) [p'])
      (node (.filter predicates projection) [p]) out := by
  obtain ⟨bound, hbound, rows₁, hrows₁, hfilter⟩ := execute_filter_eq_ok_iff.mp hout
  cases hrows.symm.trans hrows₁
  obtain ⟨rows', hrows', hperm⟩ := h.rows
  obtain ⟨out', hout', hperm'⟩ := filterRows_perm hperm hfilter
  refine ⟨.filter predicates projection h.built, ?_, out', ?_, hperm'⟩
  · simp only [outputBindings, firstBindings, h.bindings]
  · exact execute_filter_eq_ok_iff.mpr ⟨bound, h.bindings ▸ hbound, rows', hrows', hout'⟩

/-- A projection over what stands for its input stands for the projection. -/
theorem StandsFor.projection (h : StandsFor c batchSize p' p rows) {tableIndex : Nat}
    {expressions : List Expression} (hrows : p.execute c c.functions batchSize = .ok rows)
    (hout : (node (.projection tableIndex expressions) [p]).execute c c.functions batchSize =
      .ok out) :
    StandsFor c batchSize (node (.projection tableIndex expressions) [p'])
      (node (.projection tableIndex expressions) [p]) out := by
  obtain ⟨bound, hbound, rows₁, hrows₁, hproject⟩ := execute_projection_eq_ok_iff.mp hout
  cases hrows.symm.trans hrows₁
  obtain ⟨rows', hrows', hperm⟩ := h.rows
  obtain ⟨out', hout', hperm'⟩ := projectRows_perm hperm hproject
  exact ⟨.projection tableIndex expressions h.built, rfl, out',
    execute_projection_eq_ok_iff.mpr ⟨bound, h.bindings ▸ hbound, rows', hrows', hout'⟩, hperm'⟩

/-- A product of what stands for its inputs stands for the product. -/
theorem StandsFor.product (hleft : StandsFor c batchSize left' left rows)
    (hright : StandsFor c batchSize right' right rows') :
    StandsFor c batchSize (node .product [left', right']) (node .product [left, right])
      (productRows rows rows') := by
  obtain ⟨l, hl, hlperm⟩ := hleft.rows
  obtain ⟨r, hr, hrperm⟩ := hright.rows
  refine ⟨.product hleft.built hright.built, ?_, productRows l r, ?_,
    productRows_perm hlperm hrperm⟩
  · simp only [outputBindings, allBindings, hleft.bindings, hright.bindings]
  · exact execute_product_eq_ok_iff.mpr ⟨l, hl, r, hr, rfl⟩

end Congruence

section Turning

variable {c : Catalog} {batchSize : Nat} {g : Get} {out : List Row}

/-- A row of a scan has the columns that the scan reads. -/
theorem column?_filterColumn {registry : Registry} {row r : Row} {column place : Nat}
    {type : LogicalType} (hrow : projectRow g.columns row = .ok r)
    (hplace : g.columns.idxOf? column = some place) (read : Nat) (type' : LogicalType)
    (e : Expression) (he : (KeyBinding.filterColumn column).column? g read type' = some e) :
    e.evaluateFrom registry
      ((Source.ofRow r).withPosition registry 0 (.reference place type)) = valueAt row read := by
  change (if column = read then some (Expression.reference 0 type') else none) = some e at he
  split at he
  · rename_i heq
    rw [← Option.some.inj he, ← heq]
    exact valueAt_projectRow hrow (getElem?_of_idxOf? hplace)
  · cases he

/-- A column of the table that a predicate reads over the output of a scan has the value that it has
in the table. -/
theorem column?_scanOutput {registry : Registry} {row r : Row} {position : Nat → Except Error Value}
    (hrow : projectRow g.columns row = .ok r) (read : Nat) (type : LogicalType) (e : Expression)
    (he : KeyBinding.scanOutput.column? g read type = some e) :
    e.evaluateFrom registry ⟨fun b => valueAt r b.column, position⟩ = valueAt row read := by
  obtain ⟨place, hplace, rfl⟩ := Option.map_eq_some_iff.mp he
  exact valueAt_projectRow hrow (getElem?_of_idxOf? hplace)

variable (hkept : c.Kept) (hequality : c.functions.RespectsEquality)
  (hmeet : c.functions.RelationsMeet)

include hkept hequality hmeet

/-- A scan is left alone, or what takes its place stands for it. -/
theorem turnTop?_get (hindexed : c.IsIndexed g.table) (hbuilt : g.IsWellBuilt)
    (h : g.execute c c.functions batchSize = .ok out) :
    turnTop? c c.functions (node (.get g) []) = .ok none ∨
      ∃ turned, turnTop? c c.functions (node (.get g) []) = .ok (some turned) ∧
        turned.StandsFor c batchSize (node (.get g) []) out := by
  rw [turnTop?]
  split
  · rename_i column predicate honly
    rcases Get.turn?_spec hkept hequality hmeet hindexed hbuilt predicate (.filterColumn column) h
      with hnone | ⟨turned, predicates, rows, narrow, hturn, hturned⟩
    · exact .inl hnone
    · refine .inr ⟨turned, hturn, hturned.built, hturned.bindings, _, hturned.execute, ?_⟩
      rw [hturned.out_eq]
      refine (hturned.filter_perm _ fun row hrow r hr hkeep => ?_).map _
      obtain ⟨place, type, hplace, hholds⟩ := Get.holds_of_onlyExpression honly hturned.eligible
        hturned.predicates_eq hkeep
      exact hturned.holds row hrow _ (column?_filterColumn hr hplace) hholds
  · exact .inl rfl

/-- A filter above a scan is left alone, or what takes its place stands for it. -/
theorem turnTop?_filter (hindexed : c.IsIndexed g.table) (hbuilt : g.IsWellBuilt)
    {predicate : Expression} {projection : List Nat}
    (h : (node (.filter [predicate] projection) [node (.get g) []]).execute c c.functions
      batchSize = .ok out) :
    turnTop? c c.functions (node (.filter [predicate] projection) [node (.get g) []]) =
        .ok none ∨
      ∃ turned, turnTop? c c.functions
          (node (.filter [predicate] projection) [node (.get g) []]) = .ok (some turned) ∧
        turned.StandsFor c batchSize
          (node (.filter [predicate] projection) [node (.get g) []]) out := by
  obtain ⟨bound, hbound, given, hgiven, hfilter⟩ := execute_filter_eq_ok_iff.mp h
  have hget : g.execute c c.functions batchSize = .ok given := by rwa [execute] at hgiven
  obtain ⟨bound, _, hpredicate, hnil, rfl⟩ :=
    List.forall₂_cons_left_iff.mp (mapM_eq_ok_iff.mp hbound)
  obtain rfl := List.forall₂_nil_left_iff.mp hnil
  rw [turnTop?]
  rcases Get.turn?_spec hkept hequality hmeet hindexed hbuilt predicate .scanOutput hget
    with hnone | ⟨turned, predicates, rows, narrow, hturn, hturned⟩
  · rw [hnone]
    exact .inl rfl
  · rw [hturn]
    obtain ⟨htested, rfl⟩ := filterRows_eq_ok_iff.mp hfilter
    -- A row that passes the filter above is among those that the index finds, so that it does not
    -- matter that the scan gives no others.
    let keep (r : Row) : Bool :=
      passed c.functions [bound] (emitRow g.projection r) && passed c.functions predicates r
    have hsplit (rows : List Row) : ((rows.filter (passed c.functions predicates)).map
        (emitRow g.projection)).filter (passed c.functions [bound]) =
          (rows.filter keep).map (emitRow g.projection) := by
      rw [List.filter_map, List.filter_filter]
      rfl
    have hperm := hturned.filter_perm keep fun row hrow r hr hkeep => by
      rw [Bool.and_eq_true] at hkeep
      exact hturned.holds row hrow _ (column?_scanOutput hr)
        (Get.holds_of_scanOutput hbuilt hpredicate (length_projectRow hr)
          (evaluate_of_passed hkeep.1 (List.mem_singleton_self bound)))
    refine .inr ⟨_, rfl, .filter [predicate] projection hturned.built, ?_, ?_⟩
    · simp only [outputBindings, firstBindings, hturned.bindings]
    · refine ⟨_, execute_filter_eq_ok_iff.mpr ⟨[bound], hturned.bindings ▸ hbound, _,
        hturned.execute, filterRows_eq_ok_iff.mpr ⟨?_, rfl⟩⟩, ?_⟩
      · rw [hturned.out_eq] at htested
        intro row hrow
        obtain ⟨r, hr, rfl⟩ := List.mem_map.mp hrow
        obtain ⟨hmem, hpassed⟩ := List.mem_filter.mp hr
        have hread := Get.laidOutRows_subset c g narrow (hturned.perm.subset hmem)
        exact htested _ (List.mem_map_of_mem (List.mem_filter.mpr ⟨hread, hpassed⟩))
      · rw [hturned.out_eq, hsplit, hsplit]
        exact (hperm.map _).map _

/-- Filters on other than one predicate and over other than scans are not turned. -/
theorem turnTop?_filter_cases {child : Plan} (hchild : child.IsBuilt c)
    {predicates : List Expression} {projection : List Nat}
    (h : (node (.filter predicates projection) [child]).execute c c.functions batchSize =
      .ok out) :
    turnTop? c c.functions (node (.filter predicates projection) [child]) = .ok none ∨
      ∃ turned, turnTop? c c.functions (node (.filter predicates projection) [child]) =
          .ok (some turned) ∧
        turned.StandsFor c batchSize (node (.filter predicates projection) [child]) out := by
  cases hchild with
  | get hbuilt hindexed =>
    match predicates with
    | [] => exact .inl rfl
    | [_] => exact turnTop?_filter hkept hequality hmeet hindexed hbuilt h
    | _ :: _ :: _ => exact .inl rfl
  | _ =>
    match predicates with
    | [] => exact .inl rfl
    | [_] => exact .inl rfl
    | _ :: _ :: _ => exact .inl rfl

end Turning

section Indexes

variable {c : Catalog} {batchSize : Nat} {p : Plan} {operator : Operator} {children : List Plan}
  {out : List Row}

/-- A plan that can be turned at its top is turned there and nowhere below. -/
theorem useIndexes_of_some {registry : Registry} {turned : Plan}
    (h : turnTop? c registry (node operator children) = .ok (some turned)) :
    (node operator children).useIndexes c registry = (turned, .ok ()) := by
  rw [useIndexes, h]

/-- A plan that cannot be turned at its top is turned in its inputs. -/
theorem useIndexes_of_none {registry : Registry}
    (h : turnTop? c registry (node operator children) = .ok none) :
    (node operator children).useIndexes c registry =
      (node operator (useIndexesInAll c registry children).1,
        (useIndexesInAll c registry children).2) := by
  rw [useIndexes, h]

/-- After an input that has been turned without a failure the others are turned. -/
theorem useIndexesInAll_cons {registry : Registry} {child child' : Plan}
    (h : child.useIndexes c registry = (child', .ok ())) (rest : List Plan) :
    useIndexesInAll c registry (child :: rest) =
      (child' :: (useIndexesInAll c registry rest).1, (useIndexesInAll c registry rest).2) := by
  rw [useIndexesInAll, h]

/-- Turning scans does not fail on a plan that gives rows, and gives a plan that stands for it. -/
theorem useIndexes_standsFor (hkept : c.Kept) (hequality : c.functions.RespectsEquality)
    (hmeet : c.functions.RelationsMeet) (hbuilt : p.IsBuilt c)
    (h : p.execute c c.functions batchSize = .ok out) :
    ∃ p', p.useIndexes c c.functions = (p', .ok ()) ∧ p'.StandsFor c batchSize p out := by
  -- The induction is on how the plan was put together.  Only a scan, or a filter right above one,
  -- is turned itself; elsewhere what stands for the inputs is put below the same operator.
  induction hbuilt generalizing out with
  | get hbuilt hindexed =>
    have hget := h
    rw [execute] at hget
    rcases turnTop?_get hkept hequality hmeet hindexed hbuilt hget with
      hnone | ⟨turned, hturned, hstands⟩
    · exact ⟨_, useIndexes_of_none hnone, .refl (.get hbuilt hindexed) h⟩
    · exact ⟨turned, useIndexes_of_some hturned, hstands⟩
  | filter predicates projection hchild ih =>
    rcases turnTop?_filter_cases hkept hequality hmeet hchild h with
      hnone | ⟨turned, hturned, hstands⟩
    · obtain ⟨_, _, rows, hrows, _⟩ := execute_filter_eq_ok_iff.mp h
      obtain ⟨child', hchild', hstands⟩ := ih hrows
      refine ⟨_, ?_, hstands.filter hrows h⟩
      rw [useIndexes_of_none hnone, useIndexesInAll_cons hchild']
      rfl
    · exact ⟨turned, useIndexes_of_some hturned, hstands⟩
  | projection tableIndex expressions hchild ih =>
    obtain ⟨_, _, rows, hrows, _⟩ := execute_projection_eq_ok_iff.mp h
    obtain ⟨child', hchild', hstands⟩ := ih hrows
    refine ⟨_, ?_, hstands.projection hrows h⟩
    rw [useIndexes_of_none rfl, useIndexesInAll_cons hchild']
    rfl
  | product hleft hright ihleft ihright =>
    obtain ⟨rows, hrows, rows', hrows', rfl⟩ := execute_product_eq_ok_iff.mp h
    obtain ⟨left', hleft', hstandsLeft⟩ := ihleft hrows
    obtain ⟨right', hright', hstandsRight⟩ := ihright hrows'
    refine ⟨_, ?_, hstandsLeft.product hstandsRight⟩
    rw [useIndexes_of_none rfl, useIndexesInAll_cons hleft', useIndexesInAll_cons hright']
    rfl

end Indexes

section Limits

variable {c : Catalog} {batchSize : Nat} {registry : Registry}

/-- The plan with limits on top, each a count and an offset, the last one innermost. -/
def limited (limits : List (Nat × Nat)) (p : Plan) : Plan :=
  limits.foldr (fun limit p => node (.limit limit.1 limit.2) [p]) p

/-- The rows that limits leave. -/
def limitRows (limits : List (Nat × Nat)) (rows : List Row) : List Row :=
  limits.foldr (fun limit rows => (rows.drop limit.2).take limit.1) rows

/-- Limits on top of a plan leave rows out of those that it gives, and nothing else. -/
theorem execute_limited (limits : List (Nat × Nat)) (p : Plan) :
    (p.limited limits).execute c registry batchSize =
      (p.execute c registry batchSize).map (limitRows limits) := by
  induction limits with
  | nil => cases h : p.execute c registry batchSize <;> exact h
  | cons limit limits ih =>
    show (node (.limit limit.1 limit.2) [p.limited limits]).execute c registry batchSize = _
    rw [execute_limit, ih]
    cases p.execute c registry batchSize <;> rfl

/-- Limits are left alone. -/
theorem useIndexes_limited (limits : List (Nat × Nat)) (p : Plan) :
    (p.limited limits).useIndexes c registry =
      ((p.useIndexes c registry).1.limited limits, (p.useIndexes c registry).2) := by
  induction limits with
  | nil => rfl
  | cons limit limits ih =>
    show (node (.limit limit.1 limit.2) [p.limited limits]).useIndexes c registry = _
    rw [useIndexes_of_none rfl, useIndexesInAll, ih]
    cases (p.useIndexes c registry).2 <;> rfl

/-- How many rows limits leave depends on nothing but how many there are. -/
theorem length_limitRows {rows rows' : List Row} (h : rows'.length = rows.length)
    (limits : List (Nat × Nat)) :
    (limitRows limits rows').length = (limitRows limits rows).length := by
  induction limits with
  | nil => exact h
  | cons limit limits ih =>
    show (((limitRows limits rows').drop limit.2).take limit.1).length =
      (((limitRows limits rows).drop limit.2).take limit.1).length
    rw [List.length_take, List.length_take, List.length_drop, List.length_drop, ih]

/-- Limits leave only rows that are there. -/
theorem limitRows_sublist (limits : List (Nat × Nat)) (rows : List Row) :
    (limitRows limits rows).Sublist rows := by
  induction limits with
  | nil => exact List.Sublist.refl rows
  | cons limit limits ih =>
    exact ((List.take_sublist _ _).trans (List.drop_sublist _ _)).trans ih

end Limits

end Plan

namespace Planner

variable {c : Catalog} {batchSize : Nat}

/-- The rule for index scans hands what it makes of a plan to the rules after it, unless it
fails. -/
theorem optimize_cons (config : Config) (rules : List Rule) (p : Plan) :
    optimize ⟨config, .indexScan :: rules⟩ c p =
      match p.useIndexes c c.functions with
      | (turned, .ok ()) => optimize ⟨config, rules⟩ c turned
      | (_, .error e) => .error e := by
  rw [optimize, List.foldlM_cons]
  show ((p.useIndexes c c.functions).2.map fun () => (p.useIndexes c c.functions).1) >>= _ = _
  rcases p.useIndexes c c.functions with ⟨turned, _ | _⟩ <;> rfl

/-- Planning does not look at limits on top. -/
theorem optimize_limited (planner : Planner) (limits : List (Nat × Nat)) (p : Plan) :
    planner.optimize c (p.limited limits) = (planner.optimize c p).map (Plan.limited limits) := by
  obtain ⟨config, rules⟩ := planner
  induction rules generalizing p with
  | nil => rfl
  | cons rule rules ih =>
    cases rule
    rw [optimize_cons, optimize_cons, Plan.useIndexes_limited]
    rcases p.useIndexes c c.functions with ⟨turned, _ | _⟩
    · rfl
    · exact ih turned

/-- Planning does not fail on a plan that gives rows, and gives a plan that stands for it. -/
theorem optimize_standsFor (planner : Planner) (hkept : c.Kept)
    (hequality : c.functions.RespectsEquality) (hmeet : c.functions.RelationsMeet) {p : Plan}
    (hbuilt : p.IsBuilt c) {out : List Row} (h : p.execute c c.functions batchSize = .ok out) :
    ∃ p', planner.optimize c p = .ok p' ∧ p'.StandsFor c batchSize p out := by
  obtain ⟨config, rules⟩ := planner
  induction rules generalizing p out with
  | nil => exact ⟨p, rfl, .refl hbuilt h⟩
  | cons rule rules ih =>
    cases rule
    obtain ⟨turned, hturned, hstands⟩ :=
      Plan.useIndexes_standsFor hkept hequality hmeet hbuilt h
    obtain ⟨out', hout', hperm⟩ := hstands.rows
    obtain ⟨p', hp', hstands'⟩ := ih hstands.built hout'
    refine ⟨p', ?_, hstands'.built, hstands'.bindings.trans hstands.bindings, ?_⟩
    · rw [optimize_cons, hturned]
      exact hp'
    · obtain ⟨out'', hout'', hperm'⟩ := hstands'.rows
      exact ⟨out'', hout'', hperm'.trans hperm⟩

/-- A plan that gives rows is planned, and the plan that is made of it gives the same rows in some
order.  With limits on top it gives as many rows, all of them rows of the plan without the
limits. -/
theorem execute_optimize (planner : Planner) (batchSize : Nat) (hreachable : c.Reachable)
    (hequality : c.functions.RespectsEquality) (hmeet : c.functions.RelationsMeet) {p : Plan}
    (hbuilt : p.IsBuilt c) (limits : List (Nat × Nat)) {rows : List Row}
    (h : (p.limited limits).execute c c.functions batchSize = .ok rows) :
    ∃ all p' rows', p.execute c c.functions batchSize = .ok all ∧
      planner.optimize c (p.limited limits) = .ok p' ∧
      p'.execute c c.functions batchSize = .ok rows' ∧ rows'.length = rows.length ∧
      rows'.Subperm all ∧ (limits = [] → rows'.Perm rows) := by
  rw [Plan.execute_limited, map_eq_ok] at h
  obtain ⟨all, hall, rfl⟩ := h
  obtain ⟨p', hp', hstands⟩ :=
    planner.optimize_standsFor hreachable.kept hequality hmeet hbuilt hall
  obtain ⟨all', hall', hperm⟩ := hstands.rows
  refine ⟨all, p'.limited limits, Plan.limitRows limits all', hall, ?_, ?_, ?_, ?_, ?_⟩
  · rw [optimize_limited, hp']
    rfl
  · rw [Plan.execute_limited, hall']
    rfl
  · exact Plan.length_limitRows hperm.length_eq limits
  · exact (Plan.limitRows_sublist limits all').subperm.trans hperm.subperm
  · rintro rfl
    exact hperm

end Planner

namespace Places

open SpatialIndex.Geometry

/-- The test of a place, over a scan of the table. -/
def predicate (place : Expression) : Expression :=
  .call SpatialRelation.within.signature [place, .constant (.geometry (.point near)) .geometry]

/-- The places at the point to search for. -/
def plan : Plan :=
  .node (.filter [predicate key] []) [.node (.get (.ofTable 0 table [0] 2)) []]

/-- The table of places can be read by id, and its index is current. -/
theorem isIndexed : catalog.IsIndexed table := by
  obtain ⟨index, hlists⟩ := exists_lists
  refine ⟨?_, Catalog.isCurrent_after_createIndex ?_ (Catalog.of_prepared prepared_eq).1 ?_⟩
  · rw [hlists.storage_eq]
    show (2 : Int) ≤ Int64.maxValue.toInt
    decide
  · intro index hindex
    cases hindex
  · decide

/-- A point contains itself. -/
theorem contains_near : (point near).contains (point near) = true := by
  have hposition : near.position = ⟨1, 1⟩ := by decide +kernel
  have hx : near.x.toRat = 1 := by decide +kernel
  have hparts : (point near).parts = [.points [⟨1, 1⟩]] := by
    rw [parts, Part.ofPoints, List.map_singleton, hposition]
  have hbounds : (point near).bounds? = some ⟨near, near⟩ := by
    simp only [bounds?, Rect.ofCorners, ite_self]
  have hlines : commonLines (point near) (point near) = [1] := by
    rw [commonLines, hparts, hbounds]
    simp only [ite_self, hx]
    rw [if_pos (by decide +kernel)]
    cbv
  have henclose : boundsEnclose (point near) (point near) = true := by
    rw [boundsEnclose, hbounds]
    decide +kernel
  rw [contains, henclose, hlines, hparts]
  cbv

/-- A place passes the test when the point contains it. -/
theorem passesAll_predicate (g : Geometry) : Expression.passesAll .spatial [.geometry g]
    [predicate (.reference 0 .geometry)] = .ok ((point near).contains g) := by
  have hfunction : Registry.spatial.function? SpatialRelation.within.signature.name =
      some (.ofPredicate fun a b => b.contains a) := Registry.function?_register _ _ _
  have hinvoke : Registry.spatial.invoke SpatialRelation.within.signature.name
      [.geometry g, .geometry (.point near)] = .ok (.boolean ((point near).contains g)) := by
    rw [Registry.invoke, hfunction]
    rfl
  have hvalue : (predicate (.reference 0 .geometry)).evaluate .spatial [.geometry g] =
      .ok (.boolean ((point near).contains g)) := hinvoke
  rw [Expression.passesAll, Expression.passes, hvalue]
  cases (point near).contains g <;> rfl

/-- The plan gives the one place that is the point to search for. -/
theorem execute_plan {c : Catalog} (hfunctions : c.functions = .spatial)
    (hstorage : c.storage table = storage) :
    plan.execute c c.functions 2048 = .ok [[.geometry (.point near)]] := by
  have hscan : (Get.ofTable 0 table [0] 2).scanRows c 2048 =
      .ok [[.geometry (.point near)], [.geometry (.point far)]] := by
    show (do
      let rows ← (c.storage table).scanAll [0]
      return rows.map Prod.snd) = _
    rw [hstorage]
    rfl
  have hfar : (point near).contains (point far) = false := by decide +kernel
  refine Plan.execute_filter_eq_ok_iff.mpr ⟨[predicate (.reference 0 .geometry)], rfl,
    [[.geometry (.point near)], [.geometry (.point far)]], ?_, ?_⟩
  · rw [Plan.execute]
    exact Get.execute_eq_ok_iff.mpr ⟨[], rfl, _, hscan, filterRows_nil _ _⟩
  · rw [hfunctions, filterRows, filterRows, filterRows, passesAll_predicate, passesAll_predicate,
      contains_near, hfar]
    rfl

end Places

open Places in
/-- The plan that is made of a search for a place gives the place, in a catalog with an index. -/
theorem Planner.execute_optimize_places :
    (catalog.indexes table).length = 1 ∧
      ∃ p' rows', (Planner.ofCatalog catalog).optimize catalog plan = .ok p' ∧
        p'.execute catalog catalog.functions 2048 = .ok rows' ∧
        rows'.Perm [[.geometry (.point near)]] := by
  obtain ⟨index, hlists⟩ := exists_lists
  have hfunctions : catalog.functions = .spatial := hlists.functions
  have hreachable : catalog.Reachable := ((Catalog.Reachable.empty _ _).after _).after _
  have hbuilt : plan.IsBuilt catalog :=
    .filter _ _ (.get ⟨by decide, by simp [Get.ofTable]⟩ isIndexed)
  have hrows := execute_plan hlists.functions hlists.storage_eq
  obtain ⟨_, p', rows', _, hp', hrows', _, _, hperm⟩ :=
    Planner.execute_optimize (.ofCatalog catalog) 2048 hreachable
      (hfunctions ▸ Registry.respectsEquality_spatial)
      (hfunctions ▸ Registry.relationsMeet_spatial) hbuilt [] hrows
  refine ⟨?_, p', rows', hp', hrows', hperm rfl⟩
  rw [hlists.indexes_eq]
  rfl

end SpatialIndex
