import SpatialIndex.Proofs.Plan.Columns

/-!
# Planning a plan again

A plan is settled when no index is chosen for any of its scans.  Turning the scans of a plan leaves
a settled plan: a scan that was turned reads through an index from then on, and one that was kept
stands below the operator that it stood below before.  A settled plan is left as it is, so planning
it again changes nothing.
-/

namespace SpatialIndex

namespace Get

variable {c : Catalog} {registry : Registry} {above : Option Operator} {g : Get} {q : Plan}
  {index : Index} {box : Box}

/-- What stands in the place of a scan has operators with as many inputs as they take. -/
theorem Becomes.isShaped (h : g.Becomes c registry above q) (hordered : g.IsOrdered) :
    q.IsShaped := by
  cases h with
  | kept => exact .get hordered
  | turned => exact .get hordered
  | pulled => exact .unary rfl (.get .nil)

end Get

namespace Plan

variable {c : Catalog} {registry : Registry} {above : Option Operator} {p q : Plan}

/-- No index is chosen for any scan of a plan, below the operator that the plan stands below. -/
def IsSettled (c : Catalog) (registry : Registry) (above : Option Operator) (p : Plan) : Prop :=
  ∀ site ∈ p.sites above, ∀ index box, ¬site.2.Chosen c registry site.1 index box

/-- What stands in the place of a scan is settled: the scan was kept because no index is chosen for
it there, or it goes through an index.  The filter that is put above it does not change that. -/
theorem isSettled_of_becomes {g : Get} (h : g.Becomes c registry above q) :
    q.IsSettled c registry above := by
  intro site hsite index box hagain
  have hsequential := hagain.sequential
  cases h with
  | kept hnone =>
    obtain rfl := List.mem_singleton.mp hsite
    exact hnone index box hagain
  | turned =>
    obtain rfl := List.mem_singleton.mp hsite
    cases hsequential
  | pulled =>
    rw [sites_unary rfl] at hsite
    obtain rfl := List.mem_singleton.mp hsite
    cases hsequential

/-- Turning scans keeps the shape of a plan. -/
theorem Turns.isShaped (h : p.Turns c registry above q) (hshaped : p.IsShaped) : q.IsShaped := by
  induction h with
  | get hbecomes =>
    cases hshaped with
    | get hordered => exact hbecomes.isShaped hordered
  | unary hone _ ih =>
    cases hshaped with
    | unary _ hchild => exact .unary hone (ih hchild)
  | binary htwo _ _ ihleft ihright =>
    cases hshaped with
    | binary _ hleft hright => exact .binary htwo (ihleft hleft) (ihright hright)

/-- A plan whose scans have been turned is settled. -/
theorem Turns.isSettled (h : p.Turns c registry above q) : q.IsSettled c registry above := by
  induction h with
  | get hbecomes => exact isSettled_of_becomes hbecomes
  | unary hone _ ih =>
    intro site hsite
    rw [sites_unary hone] at hsite
    exact ih site hsite
  | binary htwo _ _ ihleft ihright =>
    intro site hsite
    rw [sites_binary htwo] at hsite
    rcases List.mem_append.mp hsite with hleft | hright
    · exact ihleft site hleft
    · exact ihright site hright

end Plan

namespace Planner

variable {c : Catalog} {p q : Plan}

/-- Planning leaves a settled plan as it is, however many rules there are. -/
theorem optimize_of_isSettled (planner : Planner) (hshaped : p.IsShaped)
    (hsettled : p.IsSettled c c.functions none) : planner.optimize c p = .ok p := by
  obtain ⟨config, rules⟩ := planner
  induction rules with
  | nil => rfl
  | cons rule rules ih =>
    cases rule
    have hkept : p.useIndexes c c.functions = (p, .ok ()) :=
      Plan.useIndexes_of_not_chosen hshaped hsettled
    rw [optimize_cons, hkept]
    exact ih

/-- Planning with rules settles a plan, and planning the outcome again gives the outcome itself. -/
theorem optimize_optimize (planner : Planner) (hshaped : p.IsShaped)
    (h : planner.optimize c p = .ok q) :
    planner.optimize c q = .ok q ∧ (planner.rules ≠ [] → q.IsSettled c c.functions none) := by
  obtain ⟨config, rules⟩ := planner
  cases rules with
  | nil => exact ⟨rfl, fun hrules => absurd rfl hrules⟩
  | cons rule rules =>
    cases rule
    rw [optimize_cons] at h
    rcases hturned : p.useIndexes c c.functions with ⟨turned, cause | _⟩
    · rw [hturned] at h
      cases h
    · rw [hturned] at h
      have hturns := Plan.turns_of_useIndexes_top hshaped hturned
      have hshaped' : turned.IsShaped := hturns.isShaped hshaped
      have hsettled : turned.IsSettled c c.functions none := hturns.isSettled
      -- The rules after the first one find a settled plan, so the outcome is what the first made.
      have hsame : turned = q :=
        Except.ok.inj ((optimize_of_isSettled ⟨config, rules⟩ hshaped' hsettled).symm.trans h)
      subst hsame
      exact ⟨optimize_of_isSettled _ hshaped' hsettled, fun _ => hsettled⟩

end Planner

open Places in
/-- Planning moves the filter of a scan above it.  Planned again, the scan has a filter with just
one predicate directly above it, and stays as it is. -/
theorem Planner.optimize_optimize_places : ∃ scan,
    Planner.optimize ⟨{}, [.indexScan]⟩ catalog (.node (.get filtered) []) =
        .ok (.node (.filter [predicate key] []) [.node (.get scan) []]) ∧
      Planner.optimize ⟨{}, [.indexScan]⟩ catalog
          (.node (.filter [predicate key] []) [.node (.get scan) []]) =
        .ok (.node (.filter [predicate key] []) [.node (.get scan) []]) := by
  obtain ⟨index, hfiltered⟩ := exists_useIndexes_filtered []
  have hordered : filtered.IsOrdered := (Get.isOrdered_ofTable 0 table [0] 2).withFilter 0 _
  have hfirst := optimize_eq hfiltered
  exact ⟨_, hfirst, (optimize_optimize _ (.get hordered) hfirst).1⟩

end SpatialIndex
