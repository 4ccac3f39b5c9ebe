import SpatialIndex.Proofs.Plan.Walk

/-!
# Turning that stops half way

A scan that an index serves, but whose filters cannot be moved, makes the turning of a plan fail.
That scan is kept, and so is everything that comes after it.  The scans that came before it have
been turned by then, and nothing turns them back: a failure leaves the plan as it was only if there
was nothing to turn before.
-/

namespace SpatialIndex

namespace Plan

variable {c : Catalog} {registry : Registry} {p q : Plan} {operator : Operator}
  {children all' : List Plan} {cause : Error}

/-- Turning the scans of a plan stops with a failure, and leaves a plan behind. -/
inductive Stops (c : Catalog) (registry : Registry) (cause : Error) : Plan → Plan → Prop
  /-- It stops at the top, where nothing has changed yet. -/
  | top {p : Plan} (h : turnTop? c registry p = .error cause) : Stops c registry cause p p
  /-- It stops in an input.  The inputs before that one have been turned, and those after it are
  kept. -/
  | input {operator : Operator} {before before' after : List Plan} {child child' : Plan}
    (htop : turnTop? c registry (node operator (before ++ child :: after)) = .ok none)
    (hbefore : List.Forall₂ (fun p q => p.useIndexes c registry = (q, .ok ())) before before')
    (hchild : Stops c registry cause child child') :
    Stops c registry cause (node operator (before ++ child :: after))
      (node operator (before' ++ child' :: after))

/-- Several plans are turned in order up to the first failure. -/
theorem useIndexesInAll_eq_error_iff :
    useIndexesInAll c registry children = (all', .error cause) ↔
      ∃ before before' child child' after, children = before ++ child :: after ∧
        all' = before' ++ child' :: after ∧
        List.Forall₂ (fun p q => p.useIndexes c registry = (q, .ok ())) before before' ∧
        child.useIndexes c registry = (child', .error cause) := by
  constructor
  · intro h
    induction children generalizing all' with
    | nil => cases h
    | cons child rest ih =>
      rw [useIndexesInAll] at h
      split at h
      · rename_i child' e hchild
        cases h
        exact ⟨[], [], child, child', rest, rfl, rfl, .nil, hchild⟩
      · rename_i child' hchild
        obtain ⟨rfl, houtcome⟩ := Prod.mk.inj h
        obtain ⟨before, before', failed, failed', after, rfl, hrest, hbefore, hfailed⟩ :=
          ih (Prod.ext rfl houtcome)
        exact ⟨child :: before, child' :: before', failed, failed', after, rfl,
          congrArg (child' :: ·) hrest, .cons hchild hbefore, hfailed⟩
  · rintro ⟨before, before', child, child', after, rfl, rfl, hbefore, hchild⟩
    -- The inputs before the failing one are turned one after the other; those after it are kept.
    induction hbefore with
    | nil =>
      show useIndexesInAll c registry (child :: after) = _
      rw [useIndexesInAll, hchild]
      rfl
    | cons hfirst _ ih =>
      show useIndexesInAll c registry (_ :: (_ ++ child :: after)) = _
      rw [useIndexesInAll_cons hfirst, ih]
      rfl

/-- A failure and the plan that it leaves behind, told step by step. -/
theorem useIndexes_eq_error_iff :
    p.useIndexes c registry = (q, .error cause) ↔ p.Stops c registry cause q := by
  constructor
  · intro h
    induction p using Plan.induction generalizing q with
    | node operator children ih =>
      cases hturn : turnTop? c registry (node operator children) with
      | error e =>
        rw [useIndexes_of_error hturn] at h
        cases h
        exact .top hturn
      | ok outcome =>
        cases outcome with
        | some turned =>
          rw [useIndexes_of_some hturn] at h
          cases h
        | none =>
          rcases hall : useIndexesInAll c registry children with ⟨left, outcome⟩
          rw [useIndexes_of_none hturn, hall] at h
          cases h
          obtain ⟨before, before', child, child', after, rfl, rfl, hbefore, hchild⟩ :=
            useIndexesInAll_eq_error_iff.mp hall
          have hmem : child ∈ before ++ child :: after :=
            List.mem_append_right _ List.mem_cons_self
          exact .input hturn hbefore (ih child hmem hchild)
  · intro h
    induction h with
    | top h => exact useIndexes_of_error h
    | input htop hbefore _ ih =>
      rw [useIndexes_of_none htop, useIndexesInAll_eq_error_iff.mpr
        ⟨_, _, _, _, _, rfl, rfl, hbefore, ih⟩]

/-- The scan at which turning stops is kept with all scans after it, and those before it are
redirected one by one. -/
theorem Stops.exists_gets (h : p.Stops c registry cause q) :
    ∃ before g after before', p.gets = before ++ g :: after ∧ q.gets = before' ++ g :: after ∧
      g.isEligible = true ∧ g.pulledFilter? = .error cause ∧
      List.Forall₂ Get.Redirects before before' := by
  induction h with
  | top h =>
    obtain ⟨place, g, below, htop, rfl, heligible, hpulled⟩ := turnTop?_eq_error h
    have hgets : (place (node (.get g) below)).gets = g :: below.flatMap gets := by
      rw [htop.gets, gets_node]
      rfl
    exact ⟨[], g, below.flatMap gets, [], hgets, hgets, heligible, hpulled, .nil⟩
  | @input operator first first' rest child child' _ hfirst _ ih =>
    -- Before the scan that fails come the scans of the inputs that were turned, and those of the
    -- input it is in.
    obtain ⟨before, g, after, before', hgets, hgets', heligible, hpulled, hbefore⟩ := ih
    have hturned : List.Forall₂ Get.Redirects (first.flatMap gets) (first'.flatMap gets) :=
      List.rel_flatMap hfirst fun p q heq => by
        have hwalk := (redirects_useIndexes c registry p).1
        rw [heq] at hwalk
        exact hwalk
    refine ⟨operator.get?.toList ++ first.flatMap gets ++ before, g,
      after ++ rest.flatMap gets, operator.get?.toList ++ first'.flatMap gets ++ before', ?_, ?_,
      heligible, hpulled, ?_⟩
    · simp [gets_node, hgets]
    · simp [gets_node, hgets']
    · have hsame : List.Forall₂ Get.Redirects operator.get?.toList operator.get?.toList :=
        List.forall₂_same.mpr fun g _ => .refl g
      exact List.rel_append (List.rel_append hsame hturned) hbefore

/-- What a failure leaves behind, for every plan, also one with operators that have the wrong number
of inputs.  It is due to one scan, the filters of which cannot be moved.  That scan and all scans
after it are kept; the scans before it may have been turned, and the plan is as it was exactly if
none of them has.  So a failure at the first scan of a plan leaves it as it was. -/
theorem left_behind_of_failure (h : p.useIndexes c registry = (q, .error cause)) :
    p.Stops c registry cause q ∧
      ∃ before g after before', p.gets = before ++ g :: after ∧ q.gets = before' ++ g :: after ∧
        g.isEligible = true ∧ g.pulledFilter? = .error cause ∧
        List.Forall₂ Get.Redirects before before' ∧ (q = p ↔ before' = before) := by
  have hstops := useIndexes_eq_error_iff.mp h
  obtain ⟨before, g, after, before', hgets, hgets', heligible, hpulled, hbefore⟩ :=
    hstops.exists_gets
  have hsame := (redirects_useIndexes c registry p).2
  rw [h] at hsame
  refine ⟨hstops, before, g, after, before', hgets, hgets', heligible, hpulled, hbefore, ?_⟩
  constructor
  · rintro rfl
    exact List.append_cancel_right (hgets'.symm.trans hgets)
  · rintro rfl
    exact hsame (hgets'.trans hgets.symm)

end Plan

namespace Places

/-- A scan of the places with a filter on a column that it does not read. -/
def unread : Get := (Get.ofTable 1 table [0] 2).withFilter 5 .isNull

/-- The test of a place above that scan. -/
def failing : Plan :=
  .node (.filter [predicate (.column ⟨1, 0⟩ .geometry)] []) [.node (.get unread) []]

/-- A search for a place that can be turned, and then one that cannot. -/
def interrupted : Plan := .node .product [plan, failing]

/-- The test above the scan with the unread column cannot be turned, since the filter of the scan
cannot be pulled above it. -/
theorem turnTop?_failing :
    Plan.turnTop? catalog .spatial failing = .error (.filterNotFound 5 "places") := by
  obtain ⟨index, hindexes, hkeys⟩ := exists_index
  have hfirst : unread.FirstServing catalog .spatial (predicate (.column ⟨1, 0⟩ .geometry))
      .scanOutput index box :=
    firstServing hindexes hkeys (List.mem_singleton_self 0) rfl rfl (by decide)
  have hpulled : unread.pulledFilter? = .error (.filterNotFound 5 "places") := rfl
  rw [failing, Plan.turnTop?, Get.turn?_of_firstServing rfl hfirst, hpulled]
  rfl

end Places

open Places in
/-- A failure at the only scan of a plan leaves the plan as it was. -/
theorem Plan.left_behind_of_failure_places : ∃ q,
    failing.useIndexes catalog .spatial = (q, .error (.filterNotFound 5 "places")) ∧
      q = failing := by
  have hfails := useIndexes_of_error turnTop?_failing
  obtain ⟨_, before, g, after, before', hgets, _, _, _, hbefore, hsame⟩ :=
    left_behind_of_failure hfails
  have hfirst : before = [] := by
    have hone : (before ++ g :: after).length = 1 := by
      rw [← hgets]
      rfl
    rw [List.length_append, List.length_cons] at hone
    exact List.eq_nil_of_length_eq_zero (by omega)
  subst hfirst
  exact ⟨failing, hfails, hsame.mpr (List.forall₂_nil_left_iff.mp hbefore)⟩

open Places in
/-- A failure at the second scan of a plan leaves the plan with the first one turned. -/
theorem Plan.turned_despite_failure : ∃ q,
    interrupted.useIndexes catalog .spatial = (q, .error (.filterNotFound 5 "places")) ∧
      interrupted.gets.map (·.access.isSequential) = [true, true] ∧
      q.gets.map (·.access.isSequential) = [false, true] ∧ q ≠ interrupted := by
  obtain ⟨index, hplan⟩ := exists_useIndexes_plan
  have hstops : interrupted.Stops catalog .spatial (.filterNotFound 5 "places") _ :=
    @Stops.input catalog .spatial _ .product [plan] _ [] failing failing rfl (.cons hplan .nil)
      (.top turnTop?_failing)
  refine ⟨_, useIndexes_eq_error_iff.mpr hstops, rfl, rfl, fun hsame => ?_⟩
  have haccess := congrArg (fun q => q.gets.map (·.access.isSequential)) hsame
  cases haccess

end SpatialIndex
