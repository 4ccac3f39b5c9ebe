import SpatialIndex.Proofs.Plan.Walk

/-!
# Rows and the bindings of their columns

A plan gives rows of one width, whatever the places that scans and filters name.  A place that the
input does not have gives a null in the rows of a filter, but no binding in its output, so rows can
be wider than the bindings tell.  A scan keeps the bindings of such places.  When its filters move
into a filter above it, so do its places, and then the bindings are lost.
-/

namespace SpatialIndex

section Reading

variable {c : Catalog} {columns : List Nat}

/-- Every row that is laid out has a value for each column asked for. -/
theorem Storage.length_of_mem_layOut {l out : List (RowId × Row)}
    (h : l.mapM (layOut columns) = .ok out) {r : RowId × Row} (hr : r ∈ out) :
    r.2.length = columns.length := by
  obtain ⟨_, rfl⟩ := mapM_eq_ok_iff_filterMap.mp h
  obtain ⟨stored, _, hlaid⟩ := List.mem_filterMap.mp hr
  obtain ⟨row, hrow, hout⟩ := bind_eq_ok.mp (toOption_eq_some_iff.mp hlaid)
  rw [← Except.ok.inj hout]
  exact length_projectRow hrow

/-- Rows that are fetched batch by batch have the columns of the scan. -/
theorem IndexScan.length_of_mem_collectBatches {fuel : Nat} {s : IndexScan}
    {out : List (RowId × Row)} (h : s.collectBatches c fuel = .ok out) {r : RowId × Row}
    (hr : r ∈ out) : r.2.length = s.columns.length := by
  induction fuel generalizing s out with
  | zero =>
    cases h
    cases hr
  | succ fuel ih =>
    rw [collectBatches, nextBatch_run] at h
    by_cases hdone : s.candidates.length ≤ s.position
    · rw [if_pos hdone] at h
      cases h
      cases hr
    · rw [if_neg hdone] at h
      cases hfetch : (c.storage s.table).fetch s.columns
          ((s.candidates.drop s.position).take s.batchSize) with
      | error e =>
        rw [hfetch] at h
        cases h
      | ok batch =>
        rw [hfetch] at h
        obtain ⟨rest, hrest, hout⟩ := bind_eq_ok.mp h
        cases hout
        rcases List.mem_append.mp hr with hbatch | hlater
        · rw [Storage.fetch_eq] at hfetch
          exact Storage.length_of_mem_layOut hfetch hbatch
        · have hlength : r.2.length = s.advance.columns.length := ih hrest hlater
          exact hlength

/-- Rows that a scan reads have the columns that it reads. -/
theorem Get.length_of_mem_scanRows {batchSize : Nat} {g : Get} {rows : List Row}
    (h : g.scanRows c batchSize = .ok rows) {row : Row} (hrow : row ∈ rows) :
    row.length = g.columns.length := by
  unfold Get.scanRows at h
  cases haccess : g.access with
  | sequential =>
    rw [haccess] at h
    obtain ⟨read, hread, hrows⟩ := bind_eq_ok.mp h
    cases hrows
    obtain ⟨r, hr, rfl⟩ := List.mem_map.mp hrow
    exact Storage.length_of_mem_layOut hread hr
  | index b =>
    rw [haccess] at h
    obtain ⟨scan, hscan, h⟩ := bind_eq_ok.mp h
    obtain ⟨read, hread, hrows⟩ := bind_eq_ok.mp h
    cases hrows
    obtain ⟨r, hr, rfl⟩ := List.mem_map.mp hrow
    have hcolumns : scan.columns = g.columns := by
      unfold IndexScan.start at hscan
      split at hscan
      · rw [← Except.ok.inj hscan]
      · cases hscan
    rw [← hcolumns]
    exact IndexScan.length_of_mem_collectBatches hread hr

/-- A row that is given out has a value for each place, or all of its own if no places are named. -/
theorem length_emitRow (positions : List Nat) (row : Row) :
    (emitRow positions row).length = if positions = [] then row.length else positions.length := by
  unfold emitRow
  by_cases hempty : positions = []
  · simp [hempty]
  · rw [if_neg (by simpa using hempty), if_neg hempty, List.length_map]

/-- A filter gives rows with a value for each place, and rows as they are without places. -/
theorem length_of_mem_filterRows {registry : Registry} {predicates : List Expression}
    {positions : List Nat} {rows out : List Row} {width : Nat}
    (h : filterRows registry predicates positions rows = .ok out)
    (hrows : ∀ row ∈ rows, row.length = width) {row : Row} (hrow : row ∈ out) :
    row.length = if positions = [] then width else positions.length := by
  obtain ⟨_, rfl⟩ := filterRows_eq_ok_iff.mp h
  obtain ⟨r, hr, rfl⟩ := List.mem_map.mp hrow
  rw [length_emitRow, hrows r (List.mem_filter.mp hr).1]

/-- There is a value for each of the expressions. -/
theorem Expression.length_of_evaluateAll {registry : Registry} {row values : Row}
    {expressions : List Expression}
    (h : Expression.evaluateAll registry row expressions = .ok values) :
    values.length = expressions.length := by
  induction expressions generalizing values with
  | nil =>
    cases h
    rfl
  | cons e rest ih =>
    rw [Expression.evaluateAll] at h
    obtain ⟨value, _, h⟩ := bind_eq_ok.mp h
    obtain ⟨others, hothers, h⟩ := bind_eq_ok.mp h
    rw [← Except.ok.inj h, List.length_cons, List.length_cons, ih hothers]

end Reading

/-- Of some places a list has values at those within its length. -/
theorem length_filterMap_getElem? {α : Type} (places : List Nat) (l : List α) :
    (places.filterMap (l[·]?)).length ≤ places.length ∧
      ((places.filterMap (l[·]?)).length = places.length ↔ ∀ place ∈ places, place < l.length) := by
  refine ⟨List.length_filterMap_le _ _, ?_⟩
  rw [List.filterMap_length_eq_length]
  simp

/-- A scan gives as many places as it projects to, or all that it reads if it does not project. -/
theorem Get.length_outputPositions (g : Get) : g.outputPositions.length =
    if g.projection = [] then g.columns.length else g.projection.length := by
  unfold outputPositions
  by_cases hempty : g.projection = []
  · simp [hempty]
  · rw [if_neg (by simpa using hempty), if_neg hempty]

namespace Plan

mutual

/-- How many values the rows of a plan have. -/
def width : Plan → Nat
  | node (.get scan) _ => scan.outputPositions.length
  | node (.filter _ projection) children =>
    if projection = [] then firstWidth children else projection.length
  | node (.projection _ expressions) _ => expressions.length
  | node (.limit ..) children => firstWidth children
  | node .product children => totalWidth children

/-- How many values the rows of the first of several inputs have. -/
def firstWidth : List Plan → Nat
  | [] => 0
  | child :: _ => child.width

/-- How many values the rows of several inputs have together. -/
def totalWidth : List Plan → Nat
  | [] => 0
  | child :: rest => child.width + totalWidth rest

end

mutual

/-- Every value of a row has a binding: the places that filters name are among the bindings of
their inputs, as far as these reach the output. -/
def IsAligned : Plan → Prop
  | node (.get _) _ => True
  | node (.filter _ projection) children =>
    if projection = [] then FirstAligned children
    else ∀ place ∈ projection, place < (firstBindings children).length
  | node (.projection ..) _ => True
  | node (.limit ..) children => FirstAligned children
  | node .product children => AllAligned children

/-- Every value of the rows of the first of several inputs has a binding. -/
def FirstAligned : List Plan → Prop
  | [] => True
  | child :: _ => child.IsAligned

/-- Every value of the rows of several inputs has a binding. -/
def AllAligned : List Plan → Prop
  | [] => True
  | child :: rest => child.IsAligned ∧ AllAligned rest

end

section Rows

variable {c : Catalog} {registry : Registry} {batchSize : Nat}

/-- All rows of a plan have its width. -/
theorem length_of_mem_execute {p : Plan} {rows : List Row}
    (h : p.execute c registry batchSize = .ok rows) : ∀ row ∈ rows, row.length = p.width := by
  -- The rows of a filter, a limit and a product are made of rows that their inputs give.
  induction p using Plan.induction generalizing rows with
  | node operator children ih =>
    intro row hrow
    cases gives_of_execute h with
    | @get g _ _ hget =>
      obtain ⟨_, _, read, hread, hfilter⟩ := Get.execute_eq_ok_iff.mp hget
      rw [width, Get.length_outputPositions]
      exact length_of_mem_filterRows hfilter (fun r hr => Get.length_of_mem_scanRows hread hr) hrow
    | filter hbound hgiven hfilter =>
      rw [width]
      exact length_of_mem_filterRows hfilter (ih _ (List.mem_singleton_self _) hgiven) hrow
    | projection hbound hgiven hproject =>
      obtain ⟨_, rfl⟩ := mapM_eq_ok_iff_filterMap.mp hproject
      obtain ⟨r, _, hmade⟩ := List.mem_filterMap.mp hrow
      have hlength := Expression.length_of_evaluateAll (toOption_eq_some_iff.mp hmade)
      rw [width, (mapM_eq_ok_iff.mp hbound).length_eq, hlength]
    | limit hgiven =>
      have hmem := List.mem_of_mem_drop (List.mem_of_mem_take hrow)
      exact ih _ (List.mem_singleton_self _) hgiven row hmem
    | product hleft hright =>
      obtain ⟨l, hl, hjoined⟩ := List.mem_flatMap.mp hrow
      obtain ⟨r, hr, rfl⟩ := List.mem_map.mp hjoined
      rw [width, totalWidth, totalWidth, totalWidth, List.length_append,
        ih _ List.mem_cons_self hleft l hl,
        ih _ (List.mem_cons_of_mem _ (List.mem_singleton_self _)) hright r hr]
      rfl

end Rows

section Bindings

/-- What holds of the width and the bindings of several inputs, and of the first of them. -/
theorem length_bindings_of_inputs {children : List Plan}
    (h : ∀ child ∈ children, child.outputBindings.length ≤ child.width ∧
      (child.outputBindings.length = child.width ↔ child.IsAligned)) :
    ((firstBindings children).length ≤ firstWidth children ∧
      ((firstBindings children).length = firstWidth children ↔ FirstAligned children)) ∧
    (allBindings children).length ≤ totalWidth children ∧
      ((allBindings children).length = totalWidth children ↔ AllAligned children) := by
  induction children with
  | nil => simp [firstBindings, firstWidth, FirstAligned, allBindings, totalWidth, AllAligned]
  | cons child rest ih =>
    obtain ⟨hchild, hrest⟩ := List.forall_mem_cons.mp h
    obtain ⟨_, hle, hiff⟩ := ih hrest
    refine ⟨hchild, ?_⟩
    rw [allBindings, totalWidth, AllAligned, List.length_append, ← hchild.2, ← hiff]
    omega

/-- A plan has no more bindings than its rows have values, and as many exactly if it is aligned. -/
theorem length_outputBindings (p : Plan) : p.outputBindings.length ≤ p.width ∧
    (p.outputBindings.length = p.width ↔ p.IsAligned) := by
  induction p using Plan.induction with
  | node operator children ih =>
    obtain ⟨hfirst, hall⟩ := length_bindings_of_inputs ih
    cases operator with
    | get g => simp [outputBindings, width, IsAligned, Get.outputBindings]
    | filter predicates projection =>
      rw [outputBindings, width, IsAligned]
      by_cases hempty : projection = []
      · simpa [hempty] using hfirst
      · simpa [hempty] using length_filterMap_getElem? projection (firstBindings children)
    | projection tableIndex expressions => simp [outputBindings, width, IsAligned]
    | limit count offset =>
      rw [outputBindings, width, IsAligned]
      exact hfirst
    | product =>
      rw [outputBindings, width, IsAligned]
      exact hall

end Bindings

end Plan

section Moving

variable {c : Catalog} {registry : Registry} {g g' : Get} {residual : Option Operator}
  {below : List Plan}

/-- Moving the filters of a scan above it loses no binding: there are none, or the scan gives only
places that it has. -/
def Get.LosesNone (g : Get) : Prop :=
  g.filters = [] ∨ ∀ place ∈ g.projection, place < g.columns.length

/-- What a scan gives keeps its width when the scan is turned. -/
theorem Get.width_withIndex (hresidual : g.pulledFilter? = .ok residual) (b : ScanBinding) :
    (g.withIndex c b residual below).width = g.outputPositions.length := by
  rcases pulledFilter?_cases hresidual with ⟨_, rfl⟩ | ⟨_, predicates, rfl⟩
  · rw [withIndex, Plan.width]
    rfl
  · rw [withIndex, Plan.width, Plan.firstWidth, Plan.width, length_outputPositions,
      length_outputPositions, if_pos rfl]

/-- What a scan gives keeps its bindings when the scan is turned exactly if none of them is lost in
the filter above it. -/
theorem Get.outputBindings_withIndex_iff (hresidual : g.pulledFilter? = .ok residual)
    (b : ScanBinding) :
    (g.withIndex c b residual below).outputBindings = g.outputBindings ↔ g.LosesNone := by
  rcases pulledFilter?_cases hresidual with ⟨hempty, rfl⟩ | ⟨hfilters, predicates, rfl⟩
  · exact ⟨fun _ => .inl hempty, fun _ => rfl⟩
  · have hlength : g.scanBindings.length = g.columns.length := by simp [scanBindings]
    have hmoved : (g.withIndex c b (some (.filter predicates g.projection)) below).outputBindings =
        if g.projection.isEmpty then g.scanBindings
        else g.projection.filterMap (g.scanBindings[·]?) := rfl
    rw [LosesNone, or_iff_right hfilters, hmoved]
    constructor
    · intro heq place hplace
      have hsome : g.projection ≠ [] := List.ne_nil_of_mem hplace
      have hcount := congrArg List.length heq
      rw [if_neg (by simpa using hsome), outputBindings, List.length_map, length_outputPositions,
        if_neg hsome] at hcount
      rw [← hlength]
      exact (length_filterMap_getElem? _ _).2.mp hcount place hplace
    · intro hprojection
      exact outputBindings_withIndex c hprojection b predicates

/-- A scan that has been turned has no filters left because of which a binding could be lost. -/
theorem Get.losesNone_of_redirects {gets gets' : List Get}
    (hall : List.Forall₂ Get.Redirects gets gets') (h : ∀ g ∈ gets, g.LosesNone) :
    ∀ g ∈ gets', g.LosesNone := by
  induction hall with
  | nil => exact h
  | cons hredirects _ ih =>
    rw [List.forall_mem_cons] at h ⊢
    refine ⟨?_, ih h.2⟩
    rcases hredirects with rfl | ⟨_, _, _, rfl⟩
    · exact h.1
    · exact .inl rfl

end Moving

namespace Plan

variable {c : Catalog} {registry : Registry} {p p' : Plan}

/-- A scan of as many values in the place of another leaves the plan around it with as many. -/
theorem IsTop.width {place : Plan → Plan} (h : IsTop place) {scan scan' : Plan}
    (heq : scan'.width = scan.width) : (place scan').width = (place scan).width := by
  cases h with
  | scan => exact heq
  | filter => simp only [Plan.width, firstWidth, heq]

/-- A scan with the same bindings in the place of another leaves the plan around it with the same
ones. -/
theorem IsTop.outputBindings {place : Plan → Plan} (h : IsTop place) {scan scan' : Plan}
    (heq : scan'.outputBindings = scan.outputBindings) :
    (place scan').outputBindings = (place scan).outputBindings := by
  cases h with
  | scan => exact heq
  | filter => simp only [Plan.outputBindings, firstBindings, heq]

/-- Turning scans changes the width of no plan. -/
theorem width_useIndexes (c : Catalog) (registry : Registry) (p : Plan) :
    (p.useIndexes c registry).1.width = p.width := by
  induction p using useIndexes_induction c registry with
  | kept p => rfl
  | turned place g below b residual htop _ hresidual =>
    refine htop.width ?_
    rw [Get.width_withIndex hresidual, width]
  | below operator children children' hall =>
    have hinputs : firstWidth children' = firstWidth children ∧
        totalWidth children' = totalWidth children := by
      induction hall with
      | nil => exact ⟨rfl, rfl⟩
      | cons hchild _ ih => exact ⟨hchild, by rw [totalWidth, totalWidth, hchild, ih.2]⟩
    cases operator <;> simp only [width, hinputs]

/-- Inputs that keep their bindings one by one keep those of the first of them and those of all
together. -/
theorem bindings_of_inputs {children children' : List Plan}
    (hall : List.Forall₂ (fun child child' : Plan => (∀ g ∈ child.gets, g.LosesNone) →
      child'.outputBindings = child.outputBindings) children children')
    (h : ∀ g ∈ children.flatMap gets, g.LosesNone) :
    firstBindings children' = firstBindings children ∧
      allBindings children' = allBindings children := by
  induction hall with
  | nil => exact ⟨rfl, rfl⟩
  | cons hchild _ ih =>
    rw [List.flatMap_cons, List.forall_mem_append] at h
    exact ⟨hchild h.1, by rw [allBindings, allBindings, hchild h.1, (ih h.2).2]⟩

/-- Turning scans changes no bindings if none are lost where a scan has filters. -/
theorem outputBindings_useIndexes (c : Catalog) (registry : Registry) (p : Plan)
    (h : ∀ g ∈ p.gets, g.LosesNone) :
    (p.useIndexes c registry).1.outputBindings = p.outputBindings := by
  induction p using useIndexes_induction c registry with
  | kept p => rfl
  | turned place g below b residual htop _ hresidual =>
    have hg : g ∈ (place (node (.get g) below)).gets := by
      rw [htop.gets, gets_node]
      exact List.mem_cons_self
    exact htop.outputBindings ((Get.outputBindings_withIndex_iff hresidual b).mpr (h g hg))
  | below operator children children' hall =>
    rw [gets_node, List.forall_mem_append] at h
    have hinputs := bindings_of_inputs hall h.2
    cases operator <;> simp only [outputBindings, hinputs]

end Plan

namespace Planner

variable {c : Catalog} {p p' : Plan}

/-- Planning changes the width of no plan, and no bindings if none are lost where a scan has
filters. -/
theorem output_optimize (planner : Planner) (h : planner.optimize c p = .ok p') :
    p'.width = p.width ∧
      ((∀ g ∈ p.gets, g.LosesNone) → p'.outputBindings = p.outputBindings) := by
  obtain ⟨config, rules⟩ := planner
  induction rules generalizing p with
  | nil =>
    cases h
    exact ⟨rfl, fun _ => rfl⟩
  | cons rule rules ih =>
    cases rule
    rw [optimize_cons] at h
    split at h
    · rename_i turned hturned
      have hwidth := Plan.width_useIndexes c c.functions p
      have hbindings := Plan.outputBindings_useIndexes c c.functions p
      have hscans := (Plan.redirects_useIndexes c c.functions p).1
      rw [hturned] at hwidth hbindings hscans
      obtain ⟨hwidth', hbindings'⟩ := ih h
      refine ⟨hwidth'.trans hwidth, fun hp => ?_⟩
      exact (hbindings' (Get.losesNone_of_redirects hscans hp)).trans (hbindings hp)
    · cases h

end Planner

/-- How rows and bindings go together, for every plan, with any places in its scans and filters and
also with the wrong numbers of inputs.  All rows have the width of the plan, and planning keeps the
width.  A plan has no more bindings than that, and as many exactly if it is aligned, so that its
rows have one value for each binding.  A scan that is turned keeps its bindings exactly if it has no
filters or gives only places that it has, and a plan with none but such scans keeps its bindings. -/
theorem Plan.rows_and_bindings (p : Plan) :
    (∀ c registry batchSize rows, p.execute c registry batchSize = .ok rows →
      ∀ row ∈ rows, row.length = p.width) ∧
    p.outputBindings.length ≤ p.width ∧ (p.outputBindings.length = p.width ↔ p.IsAligned) ∧
    (∀ (planner : Planner) c p', planner.optimize c p = .ok p' → p'.width = p.width ∧
      ((∀ g ∈ p.gets, g.LosesNone) → p'.outputBindings = p.outputBindings)) ∧
    ∀ (g : Get) c registry below predicate binding turned,
      g.turn? c registry below predicate binding = .ok (some turned) →
        (turned.outputBindings = g.outputBindings ↔ g.LosesNone) := by
  obtain ⟨hle, haligned⟩ := p.length_outputBindings
  refine ⟨fun _ _ _ _ h => length_of_mem_execute h, hle, haligned,
    fun planner _ _ h => planner.output_optimize h, ?_⟩
  intro g c registry below predicate binding turned h
  obtain ⟨_, index, box, residual, _, hresidual, rfl⟩ := Get.turn?_eq_some h
  exact Get.outputBindings_withIndex_iff hresidual _

namespace Places

/-- A filter over a scan of one column that gives a sixth one. -/
def beyond : Plan := .node (.filter [] [5]) [.node (.get (.ofTable 0 table [0] 2)) []]

/-- A scan of one column that is to give an eighth one, with the test of a place. -/
def outside : Get := { filtered with projection := [7] }

/-- What turning the scans of a plan gives is what planning gives. -/
theorem optimize_eq {p q : Plan} (h : p.useIndexes catalog .spatial = (q, .ok ())) :
    Planner.optimize ⟨{}, [.indexScan]⟩ catalog p = .ok q := by
  obtain ⟨_, hlists⟩ := exists_lists
  have hfunctions : catalog.functions = .spatial := hlists.functions
  rw [Planner.optimize_cons, hfunctions, h]
  rfl

/-- A scan that carries the test of a place is turned, whatever columns it gives. -/
theorem exists_useIndexes_filtered (projection : List Nat) : ∃ index,
    (Plan.node (.get { filtered with projection }) []).useIndexes catalog .spatial =
      (({ filtered with projection } : Get).withIndex catalog ⟨table, index, box⟩
        (some (.filter [predicate key] projection)) [], .ok ()) := by
  obtain ⟨index, hindexes, hkeys⟩ := exists_index
  have hfirst : ({ filtered with projection } : Get).FirstServing catalog .spatial
      (predicate (.reference 0 .geometry)) (.filterColumn 0) index box :=
    firstServing hindexes hkeys rfl rfl rfl (by decide)
  have hturn : Plan.turnTop? catalog .spatial (.node (.get { filtered with projection }) []) =
      .ok (some (({ filtered with projection } : Get).withIndex catalog ⟨table, index, box⟩
        (some (.filter [predicate key] projection)) [])) := by
    rw [Plan.turnTop?, Get.onlyExpression?_eq_some_iff.mpr rfl]
    exact Get.turn?_of_firstServing rfl hfirst []
  exact ⟨index, Plan.useIndexes_of_some hturn⟩

/-- The scan that is to give an eighth column is turned, with the test above it giving that
column. -/
theorem exists_useIndexes_outside : ∃ index,
    (Plan.node (.get outside) []).useIndexes catalog .spatial =
      (outside.withIndex catalog ⟨table, index, box⟩ (some (.filter [predicate key] [7])) [],
        .ok ()) :=
  exists_useIndexes_filtered [7]

end Places

open Places in
/-- The test of a place gives rows that have one value for each binding, also after planning. -/
theorem Plan.rows_and_bindings_places :
    plan.execute unindexed unindexed.functions 2048 = .ok [[.geometry (.point near)]] ∧
    (∀ row ∈ [[Value.geometry (.point near)]], row.length = plan.outputBindings.length) ∧
    ∃ p', Planner.optimize ⟨{}, [.indexScan]⟩ catalog plan = .ok p' ∧
      p'.outputBindings = plan.outputBindings := by
  obtain ⟨hrows, _, haligned, hplanned, _⟩ := plan.rows_and_bindings
  have hexecute := execute_plan (c := unindexed) rfl rfl
  have hwidth : plan.outputBindings.length = plan.width :=
    haligned.mpr (by simp [plan, IsAligned, FirstAligned])
  have hloses : ∀ g ∈ plan.gets, g.LosesNone := by
    intro g hg
    obtain rfl := List.mem_singleton.mp hg
    exact .inl rfl
  obtain ⟨index, hplan⟩ := exists_useIndexes_plan
  have hoptimize := optimize_eq hplan
  refine ⟨hexecute, ?_, _, hoptimize, (hplanned _ _ _ hoptimize).2 hloses⟩
  rw [hwidth]
  exact hrows _ _ _ _ hexecute

open Places in
/-- A filter gives a value without a binding for a place that its input does not have, and a scan
that gives such a place loses the binding when it goes through an index. -/
theorem Plan.rows_exceed_bindings :
    (beyond.execute unindexed unindexed.functions 1 = .ok [[.null], [.null]] ∧
      beyond.outputBindings = []) ∧
    (node (.get outside) []).outputBindings = [⟨0, 7⟩] ∧
    ∃ p', Planner.optimize ⟨{}, [.indexScan]⟩ catalog (node (.get outside) []) = .ok p' ∧
      p'.outputBindings = [] := by
  obtain ⟨index, houtside⟩ := exists_useIndexes_outside
  exact ⟨⟨rfl, rfl⟩, rfl, _, optimize_eq houtside, rfl⟩

end SpatialIndex
