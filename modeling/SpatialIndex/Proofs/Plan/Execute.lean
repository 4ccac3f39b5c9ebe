import SpatialIndex.Plan.Execute
import SpatialIndex.Proofs.Scan
import Mathlib.Data.List.Perm.Basic

/-!
# Rows up to their order

Every operator but a limit treats its rows one by one, so rows that come in another order come out
in another order.
-/

namespace SpatialIndex

section Predicates

variable {registry : Registry} {row : Row}

/-- A row passes a predicate when that is true, not when it is null. -/
theorem passes_eq_ok_true {predicate : Expression} :
    predicate.passes registry row = .ok true ↔
      predicate.evaluate registry row = .ok (.boolean true) := by
  rw [Expression.passes, bind_eq_ok]
  constructor
  · rintro ⟨v, hv, h⟩
    cases v with
    | boolean b => rw [hv, Except.ok.inj h]
    | null => cases Except.ok.inj h
    | _ => cases h
  · intro hv
    exact ⟨_, hv, rfl⟩

/-- A row passes several predicates when it passes each. -/
theorem passesAll_eq_ok_true {predicates : List Expression} :
    Expression.passesAll registry row predicates = .ok true ↔
      ∀ predicate ∈ predicates, predicate.evaluate registry row = .ok (.boolean true) := by
  induction predicates with
  | nil => simp [Expression.passesAll]
  | cons predicate rest ih =>
    rw [Expression.passesAll, bind_eq_ok, List.forall_mem_cons, ← ih, ← passes_eq_ok_true]
    constructor
    · rintro ⟨b, hb, h⟩
      cases b with
      | false => cases Except.ok.inj h
      | true => exact ⟨hb, h⟩
    · rintro ⟨hfirst, hrest⟩
      exact ⟨true, hfirst, hrest⟩

end Predicates

/-- The row passes all predicates. -/
def passed (registry : Registry) (predicates : List Expression) (row : Row) : Bool :=
  match Expression.passesAll registry row predicates with
  | .ok b => b
  | .error _ => false

section Rows

variable {registry : Registry} {predicates : List Expression} {positions : List Nat}
  {rows out : List Row}

/-- Each of the predicates is true of a row that passes all of them. -/
theorem evaluate_of_passed {row : Row} (h : passed registry predicates row = true)
    {predicate : Expression} (hmem : predicate ∈ predicates) :
    predicate.evaluate registry row = .ok (.boolean true) := by
  unfold passed at h
  split at h
  · rename_i b hb
    rw [h] at hb
    exact passesAll_eq_ok_true.mp hb predicate hmem
  · cases h

/-- Filtering succeeds when every row can be tested, and keeps those that pass. -/
theorem filterRows_eq_ok_iff :
    filterRows registry predicates positions rows = .ok out ↔
      (∀ row ∈ rows, ∃ b, Expression.passesAll registry row predicates = .ok b) ∧
        out = (rows.filter (passed registry predicates)).map (emitRow positions) := by
  induction rows generalizing out with
  | nil => simp [filterRows, eq_comm]
  | cons row rest ih =>
    simp only [filterRows, bind_eq_ok, ih, List.forall_mem_cons]
    constructor
    · rintro ⟨keep, hkeep, kept, ⟨hall, rfl⟩, h⟩
      refine ⟨⟨⟨keep, hkeep⟩, hall⟩, ?_⟩
      have hpassed : passed registry predicates row = keep := by rw [passed, hkeep]
      rw [← Except.ok.inj h, List.filter_cons, hpassed]
      cases keep <;> rfl
    · rintro ⟨⟨⟨keep, hkeep⟩, hall⟩, rfl⟩
      have hpassed : passed registry predicates row = keep := by rw [passed, hkeep]
      refine ⟨keep, hkeep, _, ⟨hall, rfl⟩, ?_⟩
      rw [List.filter_cons, hpassed]
      cases keep <;> rfl

/-- No predicate and no places leave all rows as they are. -/
theorem filterRows_nil (registry : Registry) (rows : List Row) :
    filterRows registry [] [] rows = .ok rows := by
  refine filterRows_eq_ok_iff.mpr ⟨fun _ _ => ⟨true, rfl⟩, ?_⟩
  have hall : passed registry [] = fun _ => true := rfl
  have hemit : emitRow [] = id := rfl
  rw [hall, hemit, List.filter_true, List.map_id]

/-- Filtering rows in another order gives the same rows in another order. -/
theorem filterRows_perm {rows' : List Row} (hperm : rows'.Perm rows)
    (h : filterRows registry predicates positions rows = .ok out) :
    ∃ out', filterRows registry predicates positions rows' = .ok out' ∧ out'.Perm out := by
  obtain ⟨hall, rfl⟩ := filterRows_eq_ok_iff.mp h
  exact ⟨_, filterRows_eq_ok_iff.mpr ⟨fun row hrow => hall row (hperm.subset hrow), rfl⟩,
    (hperm.filter _).map _⟩

/-- Making rows of rows in another order gives the same rows in another order. -/
theorem projectRows_perm {expressions : List Expression} {rows' : List Row}
    (hperm : rows'.Perm rows) (h : projectRows registry expressions rows = .ok out) :
    ∃ out', projectRows registry expressions rows' = .ok out' ∧ out'.Perm out := by
  obtain ⟨hall, rfl⟩ := mapM_eq_ok_iff_filterMap.mp h
  exact ⟨_, mapM_eq_ok_iff_filterMap.mpr ⟨fun row hrow => hall row (hperm.subset hrow), rfl⟩,
    hperm.filterMap _⟩

/-- A product of the same rows in another order has the same rows in another order. -/
theorem productRows_perm {left left' right right' : List Row} (hleft : left'.Perm left)
    (hright : right'.Perm right) : (productRows left' right').Perm (productRows left right) :=
  hleft.flatMap fun _ _ => hright.map _

end Rows

namespace Get

variable {c : Catalog} {registry : Registry} {batchSize : Nat} {g : Get} {out : List Row}

/-- A scan gives rows when its predicates can be bound, its rows be read and filtered. -/
theorem execute_eq_ok_iff : g.execute c registry batchSize = .ok out ↔
    ∃ predicates, g.predicates = .ok predicates ∧ ∃ rows, g.scanRows c batchSize = .ok rows ∧
      filterRows registry predicates g.projection rows = .ok out := by
  rw [execute, bind_eq_ok]
  simp only [bind_eq_ok]

end Get

namespace Plan

variable {c : Catalog} {registry : Registry} {batchSize : Nat} {p left right : Plan}
  {out : List Row}

/-- A filter gives rows when its predicates can be bound to its input and the rows of that be
filtered. -/
theorem execute_filter_eq_ok_iff {predicates : List Expression} {projection : List Nat} :
    (node (.filter predicates projection) [p]).execute c registry batchSize = .ok out ↔
      ∃ bound, predicates.mapM (Expression.bind p.outputBindings) = .ok bound ∧
        ∃ rows, p.execute c registry batchSize = .ok rows ∧
          filterRows registry bound projection rows = .ok out := by
  rw [execute, bind_eq_ok]
  simp only [bind_eq_ok]

/-- A projection gives rows when its expressions can be bound to its input and come to values on all
rows of that. -/
theorem execute_projection_eq_ok_iff {tableIndex : Nat} {expressions : List Expression} :
    (node (.projection tableIndex expressions) [p]).execute c registry batchSize = .ok out ↔
      ∃ bound, expressions.mapM (Expression.bind p.outputBindings) = .ok bound ∧
        ∃ rows, p.execute c registry batchSize = .ok rows ∧
          projectRows registry bound rows = .ok out := by
  rw [execute, bind_eq_ok]
  simp only [bind_eq_ok]

/-- A product gives rows when both inputs do. -/
theorem execute_product_eq_ok_iff :
    (node .product [left, right]).execute c registry batchSize = .ok out ↔
      ∃ rows, left.execute c registry batchSize = .ok rows ∧
        ∃ rows', right.execute c registry batchSize = .ok rows' ∧
          productRows rows rows' = out := by
  rw [execute, bind_eq_ok]
  simp only [bind_eq_ok, pure, Except.pure, Except.ok.injEq]

/-- A limit drops rows from the front and takes so many of the others. -/
theorem execute_limit {count offset : Nat} :
    (node (.limit count offset) [p]).execute c registry batchSize =
      (p.execute c registry batchSize).map fun rows => (rows.drop offset).take count := by
  rw [execute]
  cases p.execute c registry batchSize <;> rfl

/-- What a plan that gives rows is, and what its inputs give: a scan, or an operator with as many
inputs as it takes, whose expressions can be bound to their output. -/
inductive Gives (c : Catalog) (registry : Registry) (batchSize : Nat) : Plan → List Row → Prop
  /-- A scan gives the rows that it reads. -/
  | get {g : Get} {children : List Plan} {rows : List Row}
    (h : g.execute c registry batchSize = .ok rows) :
    Gives c registry batchSize (node (.get g) children) rows
  /-- A filter gives rows of its input. -/
  | filter {predicates bound : List Expression} {projection : List Nat} {child : Plan}
    {given rows : List Row}
    (hbound : predicates.mapM (Expression.bind child.outputBindings) = .ok bound)
    (hgiven : child.execute c registry batchSize = .ok given)
    (h : filterRows registry bound projection given = .ok rows) :
    Gives c registry batchSize (node (.filter predicates projection) [child]) rows
  /-- A projection makes rows of those of its input. -/
  | projection {tableIndex : Nat} {expressions bound : List Expression} {child : Plan}
    {given rows : List Row}
    (hbound : expressions.mapM (Expression.bind child.outputBindings) = .ok bound)
    (hgiven : child.execute c registry batchSize = .ok given)
    (h : projectRows registry bound given = .ok rows) :
    Gives c registry batchSize (node (.projection tableIndex expressions) [child]) rows
  /-- A limit gives some of the rows of its input. -/
  | limit {count offset : Nat} {child : Plan} {given : List Row}
    (hgiven : child.execute c registry batchSize = .ok given) :
    Gives c registry batchSize (node (.limit count offset) [child]) ((given.drop offset).take count)
  /-- A product joins the rows of its inputs. -/
  | product {left right : Plan} {l r : List Row}
    (hleft : left.execute c registry batchSize = .ok l)
    (hright : right.execute c registry batchSize = .ok r) :
    Gives c registry batchSize (node .product [left, right]) (productRows l r)

/-- A plan that gives rows is one of those that can. -/
theorem gives_of_execute (h : p.execute c registry batchSize = .ok out) :
    Gives c registry batchSize p out := by
  unfold execute at h
  split at h
  · exact .get h
  · obtain ⟨bound, hbound, h⟩ := bind_eq_ok.mp h
    obtain ⟨given, hgiven, h⟩ := bind_eq_ok.mp h
    exact .filter hbound hgiven h
  · obtain ⟨bound, hbound, h⟩ := bind_eq_ok.mp h
    obtain ⟨given, hgiven, h⟩ := bind_eq_ok.mp h
    exact .projection hbound hgiven h
  · obtain ⟨given, hgiven, h⟩ := bind_eq_ok.mp h
    cases h
    exact .limit hgiven
  · obtain ⟨l, hleft, h⟩ := bind_eq_ok.mp h
    obtain ⟨r, hright, h⟩ := bind_eq_ok.mp h
    cases h
    exact .product hleft hright
  · cases h
  · cases h

end Plan

end SpatialIndex
