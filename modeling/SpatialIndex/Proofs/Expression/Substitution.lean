import SpatialIndex.Expression.Evaluate
import SpatialIndex.Proofs.Expression.Children

/-!
# What an expression reads

Replacing the columns or the positions that an expression reads changes where its value comes from
and nothing else.  To say so, values are looked up in a source, of which a row is one.
-/

namespace SpatialIndex

/-- Where an expression finds the values that it reads. -/
structure Source where
  /-- The value of an output column. -/
  column : ColumnBinding → Except Error Value
  /-- The value at a position. -/
  position : Nat → Except Error Value

/-- A row as a source: a binding reads the column of its number. -/
def Source.ofRow (row : Row) : Source := ⟨fun binding => valueAt row binding.column, valueAt row⟩

/-- A way to compute that may give a value, with what it means to give one. -/
structure Returning (m : Type → Type) [Monad m] where
  /-- The computation gives the value. -/
  gives : {α : Type} → m α → α → Prop
  /-- A value by itself gives itself. -/
  pure_iff : ∀ {α : Type} {a b : α}, gives (pure a) b ↔ a = b
  /-- Two steps give a value when both do. -/
  bind_iff : ∀ {α β : Type} {first : m α} {next : α → m β} {b : β},
    gives (first >>= next) b ↔ ∃ a, gives first a ∧ gives (next a) b

namespace Returning

/-- A computation that gives its value. -/
def id : Returning Id where
  gives a b := a = b
  pure_iff := Iff.rfl
  bind_iff := by simp [bind]

/-- A computation that may give nothing. -/
def option : Returning Option where
  gives a b := a = some b
  pure_iff := by simp
  bind_iff := Option.bind_eq_some_iff

/-- A computation that may fail. -/
def except : Returning (Except Error) where
  gives a b := a = .ok b
  pure_iff := by simp [pure, Except.pure]
  bind_iff := bind_eq_ok

end Returning

/-- What a conjunction comes to after an operand with the given value, from what the operands after
it come to if that value is known and if it is null. -/
def ConjunctionOp.join (op : ConjunctionOp) (value : Value) (known unknown : Except Error Value) :
    Except Error Value :=
  match value with
  | .boolean b => if b = op.deciding then .ok (.boolean b) else known
  | .null => unknown
  | value => .error (.operandNotBoolean value)

namespace Expression

section Evaluation

variable (registry : Registry) (source : Source)

mutual

/-- The value of an expression that finds what it reads in a source. -/
def evaluateFrom : Expression → Except Error Value
  | column binding _ => source.column binding
  | reference position _ => source.position position
  | constant value _ => .ok value
  | call function arguments => do
    let values ← evaluateAllFrom arguments
    registry.invoke function.name values
  | comparison op left right => do
    let left ← evaluateFrom left
    let right ← evaluateFrom right
    compareValues op left right
  | conjunction op operands => evaluateConjunctionFrom op false operands
  | negation operand => do
    let value ← evaluateFrom operand
    negateValue value
  | isNull operand => do
    let value ← evaluateFrom operand
    return .boolean value.isNull
  | isNotNull operand => do
    let value ← evaluateFrom operand
    return .boolean !value.isNull

/-- The values of expressions that find what they read in a source. -/
def evaluateAllFrom : List Expression → Except Error (List Value)
  | [] => .ok []
  | e :: rest => do
    let value ← evaluateFrom e
    let values ← evaluateAllFrom rest
    return value :: values

/-- The joined truth value of operands that find what they read in a source. -/
def evaluateConjunctionFrom (op : ConjunctionOp) (sawNull : Bool) :
    List Expression → Except Error Value
  | [] => .ok (if sawNull then .null else .boolean !op.deciding)
  | e :: rest => do
    let value ← evaluateFrom e
    op.join value (evaluateConjunctionFrom op sawNull rest) (evaluateConjunctionFrom op true rest)

end

end Evaluation

mutual

/-- The positions that the expression reads, from left to right. -/
def references : Expression → List Nat
  | reference position _ => [position]
  | column .. | constant .. => []
  | call _ arguments => referencesOfAll arguments
  | comparison _ left right => left.references ++ right.references
  | conjunction _ operands => referencesOfAll operands
  | negation operand | isNull operand | isNotNull operand => operand.references

/-- The positions that any of the expressions reads, from left to right. -/
def referencesOfAll : List Expression → List Nat
  | [] => []
  | e :: rest => e.references ++ referencesOfAll rest

end

end Expression

/-- The source in which one position reads what an expression comes to. -/
def Source.withPosition (registry : Registry) (source : Source) (position : Nat)
    (replacement : Expression) : Source where
  column := source.column
  position k :=
    if k = position then replacement.evaluateFrom registry source else source.position k

namespace Expression

variable {registry : Registry} {source source' : Source}

section Row

variable (registry) (row : Row)

/-- Operands are joined one after the other, of which the first may decide. -/
theorem evaluateConjunction_cons (op : ConjunctionOp) (sawNull : Bool) (e : Expression)
    (rest : List Expression) :
    evaluateConjunction registry row op sawNull (e :: rest) = (do
      let value ← e.evaluate registry row
      op.join value (evaluateConjunction registry row op sawNull rest)
        (evaluateConjunction registry row op true rest)) := by
  rw [evaluateConjunction]
  refine bind_congr fun value => ?_
  cases value <;> rfl

mutual

/-- A row is a source. -/
theorem evaluate_eq : ∀ e : Expression,
    e.evaluate registry row = e.evaluateFrom registry (.ofRow row)
  | column .. => rfl
  | reference .. => rfl
  | constant .. => rfl
  | call _ arguments => by rw [evaluate, evaluateFrom, evaluateAll_eq arguments]
  | comparison _ left right => by
    rw [evaluate, evaluateFrom, evaluate_eq left, evaluate_eq right]
  | conjunction op operands => by
    rw [evaluate, evaluateFrom, evaluateConjunction_eq op false operands]
  | negation operand => by rw [evaluate, evaluateFrom, evaluate_eq operand]
  | isNull operand => by rw [evaluate, evaluateFrom, evaluate_eq operand]
  | isNotNull operand => by rw [evaluate, evaluateFrom, evaluate_eq operand]

/-- A row is a source for a list of expressions. -/
theorem evaluateAll_eq : ∀ es : List Expression,
    evaluateAll registry row es = evaluateAllFrom registry (.ofRow row) es
  | [] => rfl
  | e :: rest => by rw [evaluateAll, evaluateAllFrom, evaluate_eq e, evaluateAll_eq rest]

/-- A row is a source for the operands of a conjunction. -/
theorem evaluateConjunction_eq (op : ConjunctionOp) : ∀ (sawNull : Bool) (es : List Expression),
    evaluateConjunction registry row op sawNull es =
      evaluateConjunctionFrom registry (.ofRow row) op sawNull es
  | _, [] => rfl
  | sawNull, e :: rest => by
    rw [evaluateConjunction_cons, evaluateConjunctionFrom, evaluate_eq e,
      evaluateConjunction_eq op sawNull rest, evaluateConjunction_eq op true rest]

end

end Row

section Columns

variable {m : Type → Type} [Monad m] (returning : Returning m)
  {replace : ColumnBinding → LogicalType → m Expression}

mutual

/-- An expression whose columns have been replaced finds in one source what the expression itself
finds in another, if the replacements do and positions are the same. -/
theorem evaluateFrom_mapColumns : ∀ e e' : Expression,
    (∀ b ∈ e.columnBindings, ∀ type r, returning.gives (replace b type) r →
      r.evaluateFrom registry source = source'.column b) →
    (∀ k ∈ e.references, source.position k = source'.position k) →
    returning.gives (e.mapColumns replace) e' →
    e'.evaluateFrom registry source = e.evaluateFrom registry source'
  | column b type, e', hcolumn, _, h => hcolumn b (List.mem_singleton_self b) type e' h
  | reference k _, e', _, hposition, h => by
    rw [mapColumns, returning.pure_iff] at h
    subst h
    exact hposition k (List.mem_singleton_self k)
  | constant .., e', _, _, h => by
    rw [mapColumns, returning.pure_iff] at h
    subst h
    rfl
  | call _ arguments, e', hcolumn, hposition, h => by
    simp only [mapColumns, returning.bind_iff, returning.pure_iff] at h
    obtain ⟨arguments', harguments, rfl⟩ := h
    rw [evaluateFrom, evaluateFrom,
      evaluateAllFrom_mapColumns arguments arguments' hcolumn hposition harguments]
  | comparison _ left right, e', hcolumn, hposition, h => by
    simp only [mapColumns, returning.bind_iff, returning.pure_iff] at h
    obtain ⟨left', hleft, right', hright, rfl⟩ := h
    simp only [columnBindings, references, List.forall_mem_append] at hcolumn hposition
    rw [evaluateFrom, evaluateFrom,
      evaluateFrom_mapColumns left left' hcolumn.1 hposition.1 hleft,
      evaluateFrom_mapColumns right right' hcolumn.2 hposition.2 hright]
  | conjunction op operands, e', hcolumn, hposition, h => by
    simp only [mapColumns, returning.bind_iff, returning.pure_iff] at h
    obtain ⟨operands', hoperands, rfl⟩ := h
    rw [evaluateFrom, evaluateFrom, evaluateConjunctionFrom_mapColumns op false operands operands'
      hcolumn hposition hoperands]
  | negation operand, e', hcolumn, hposition, h => by
    simp only [mapColumns, returning.bind_iff, returning.pure_iff] at h
    obtain ⟨operand', hoperand, rfl⟩ := h
    rw [evaluateFrom, evaluateFrom,
      evaluateFrom_mapColumns operand operand' hcolumn hposition hoperand]
  | isNull operand, e', hcolumn, hposition, h => by
    simp only [mapColumns, returning.bind_iff, returning.pure_iff] at h
    obtain ⟨operand', hoperand, rfl⟩ := h
    rw [evaluateFrom, evaluateFrom,
      evaluateFrom_mapColumns operand operand' hcolumn hposition hoperand]
  | isNotNull operand, e', hcolumn, hposition, h => by
    simp only [mapColumns, returning.bind_iff, returning.pure_iff] at h
    obtain ⟨operand', hoperand, rfl⟩ := h
    rw [evaluateFrom, evaluateFrom,
      evaluateFrom_mapColumns operand operand' hcolumn hposition hoperand]

/-- Expressions whose columns have been replaced find in one source what they themselves find in
another. -/
theorem evaluateAllFrom_mapColumns : ∀ es es' : List Expression,
    (∀ b ∈ columnBindingsOfAll es, ∀ type r, returning.gives (replace b type) r →
      r.evaluateFrom registry source = source'.column b) →
    (∀ k ∈ referencesOfAll es, source.position k = source'.position k) →
    returning.gives (mapColumnsOfAll replace es) es' →
    evaluateAllFrom registry source es' = evaluateAllFrom registry source' es
  | [], es', _, _, h => by
    rw [mapColumnsOfAll, returning.pure_iff] at h
    subst h
    rfl
  | e :: rest, es', hcolumn, hposition, h => by
    simp only [mapColumnsOfAll, returning.bind_iff, returning.pure_iff] at h
    obtain ⟨e', he, rest', hrest, rfl⟩ := h
    simp only [columnBindingsOfAll, referencesOfAll, List.forall_mem_append] at hcolumn hposition
    rw [evaluateAllFrom, evaluateAllFrom, evaluateFrom_mapColumns e e' hcolumn.1 hposition.1 he,
      evaluateAllFrom_mapColumns rest rest' hcolumn.2 hposition.2 hrest]

/-- Operands whose columns have been replaced, when they are joined, find in one source what they
themselves find in another. -/
theorem evaluateConjunctionFrom_mapColumns (op : ConjunctionOp) :
    ∀ (sawNull : Bool) (es es' : List Expression),
    (∀ b ∈ columnBindingsOfAll es, ∀ type r, returning.gives (replace b type) r →
      r.evaluateFrom registry source = source'.column b) →
    (∀ k ∈ referencesOfAll es, source.position k = source'.position k) →
    returning.gives (mapColumnsOfAll replace es) es' →
    evaluateConjunctionFrom registry source op sawNull es' =
      evaluateConjunctionFrom registry source' op sawNull es
  | _, [], es', _, _, h => by
    rw [mapColumnsOfAll, returning.pure_iff] at h
    subst h
    rfl
  | sawNull, e :: rest, es', hcolumn, hposition, h => by
    simp only [mapColumnsOfAll, returning.bind_iff, returning.pure_iff] at h
    obtain ⟨e', he, rest', hrest, rfl⟩ := h
    simp only [columnBindingsOfAll, referencesOfAll, List.forall_mem_append] at hcolumn hposition
    rw [evaluateConjunctionFrom, evaluateConjunctionFrom,
      evaluateFrom_mapColumns e e' hcolumn.1 hposition.1 he,
      evaluateConjunctionFrom_mapColumns op sawNull rest rest' hcolumn.2 hposition.2 hrest,
      evaluateConjunctionFrom_mapColumns op true rest rest' hcolumn.2 hposition.2 hrest]

end

end Columns

section Positions

variable (position : Nat) (replacement : Expression)

mutual

/-- An expression with a position replaced reads the replacement there. -/
theorem evaluateFrom_replaceReference : ∀ e : Expression,
    (e.replaceReference position replacement).evaluateFrom registry source =
      e.evaluateFrom registry (source.withPosition registry position replacement)
  | column .. => rfl
  | reference k _ => by
    show _ = if k = position then _ else _
    rw [replaceReference]
    split <;> rfl
  | constant .. => rfl
  | call _ arguments => by
    rw [replaceReference, evaluateFrom, evaluateFrom,
      evaluateAllFrom_replaceReference arguments]
  | comparison _ left right => by
    rw [replaceReference, evaluateFrom, evaluateFrom, evaluateFrom_replaceReference left,
      evaluateFrom_replaceReference right]
  | conjunction op operands => by
    rw [replaceReference, evaluateFrom, evaluateFrom,
      evaluateConjunctionFrom_replaceReference op false operands]
  | negation operand => by
    rw [replaceReference, evaluateFrom, evaluateFrom, evaluateFrom_replaceReference operand]
  | isNull operand => by
    rw [replaceReference, evaluateFrom, evaluateFrom, evaluateFrom_replaceReference operand]
  | isNotNull operand => by
    rw [replaceReference, evaluateFrom, evaluateFrom, evaluateFrom_replaceReference operand]

/-- Expressions with a position replaced read the replacement there. -/
theorem evaluateAllFrom_replaceReference : ∀ es : List Expression,
    evaluateAllFrom registry source (replaceReferenceInAll es position replacement) =
      evaluateAllFrom registry (source.withPosition registry position replacement) es
  | [] => rfl
  | e :: rest => by
    rw [replaceReferenceInAll, evaluateAllFrom, evaluateAllFrom, evaluateFrom_replaceReference e,
      evaluateAllFrom_replaceReference rest]

/-- Operands with a position replaced, when they are joined, read the replacement there. -/
theorem evaluateConjunctionFrom_replaceReference (op : ConjunctionOp) :
    ∀ (sawNull : Bool) (es : List Expression),
    evaluateConjunctionFrom registry source op sawNull
        (replaceReferenceInAll es position replacement) =
      evaluateConjunctionFrom registry (source.withPosition registry position replacement) op
        sawNull es
  | _, [] => rfl
  | sawNull, e :: rest => by
    rw [replaceReferenceInAll, evaluateConjunctionFrom, evaluateConjunctionFrom,
      evaluateFrom_replaceReference e, evaluateConjunctionFrom_replaceReference op sawNull rest,
      evaluateConjunctionFrom_replaceReference op true rest]

end

variable {replace : ColumnBinding → LogicalType → Except Error Expression}
  {b : ColumnBinding} {type : LogicalType} {r : Expression}

/-- Putting a column in place of a position and then replacing the column puts its replacement in
place of the position, if there is no other column. -/
theorem mapColumns_replaceReference (hreplace : replace b type = .ok r) (e : Expression)
    (h : e.columnBindings = []) :
    (e.replaceReference position (.column b type)).mapColumns replace =
      .ok (e.replaceReference position r) := by
  induction e using children_induction with
  | step e ih =>
    by_cases hreference : ∃ type, e = .reference position type
    · obtain ⟨_, rfl⟩ := hreference
      rw [replaceReference, replaceReference, if_pos rfl, if_pos rfl]
      exact hreplace
    · rw [not_exists] at hreference
      have hcolumn (b : ColumnBinding) (type : LogicalType) : e ≠ .column b type := by
        rintro rfl
        cases h
      rw [columnBindings_eq_flatMap hcolumn, List.flatMap_eq_nil_iff] at h
      have hbelow (child : Expression) (hchild : child ∈ e.children) :
          (mapColumns replace ∘ (·.replaceReference position (.column b type))) child =
            pure (child.replaceReference position r) :=
        ih child hchild (h child hchild)
      rw [replaceReference_eq_withChildren _ _ hreference,
        mapColumns_eq_withChildren _ (withChildren_ne_column hcolumn),
        children_withChildren (List.length_map _), List.mapM_map, mapM_congr hbelow,
        List.mapM_pure, map_pure, withChildren_withChildren (List.length_map _),
        replaceReference_eq_withChildren _ _ hreference]
      rfl

end Positions

end Expression

end SpatialIndex
