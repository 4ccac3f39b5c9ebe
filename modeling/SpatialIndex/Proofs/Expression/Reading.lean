import SpatialIndex.Proofs.Expression.Substitution

/-!
# Values depend on nothing but what is read

Two sources that agree on what an expression reads give it the same value, or the same failure.  An
expression is foldable exactly if it calls no volatile function and reads nothing, so any two
sources agree on it.
-/

namespace SpatialIndex

namespace Expression

/-- The positions of a row that the expression reads: of a binding that is the column. -/
def positionsRead (e : Expression) : List Nat :=
  e.columnBindings.map (·.column) ++ e.references

section Agreement

variable {registry : Registry} {source source' : Source}

mutual

/-- Where two sources agree on what an expression reads, it comes to the same from both. -/
theorem evaluateFrom_congr : ∀ e : Expression,
    (∀ b ∈ e.columnBindings, source.column b = source'.column b) →
    (∀ k ∈ e.references, source.position k = source'.position k) →
    e.evaluateFrom registry source = e.evaluateFrom registry source'
  | column b _, hcolumn, _ => hcolumn b (List.mem_singleton_self b)
  | reference k _, _, hposition => hposition k (List.mem_singleton_self k)
  | constant .., _, _ => rfl
  | call _ arguments, hcolumn, hposition => by
    rw [evaluateFrom, evaluateFrom, evaluateAllFrom_congr arguments hcolumn hposition]
  | comparison _ left right, hcolumn, hposition => by
    simp only [columnBindings, references, List.forall_mem_append] at hcolumn hposition
    rw [evaluateFrom, evaluateFrom, evaluateFrom_congr left hcolumn.1 hposition.1,
      evaluateFrom_congr right hcolumn.2 hposition.2]
  | conjunction op operands, hcolumn, hposition => by
    rw [evaluateFrom, evaluateFrom,
      evaluateConjunctionFrom_congr op false operands hcolumn hposition]
  | negation operand, hcolumn, hposition => by
    rw [evaluateFrom, evaluateFrom, evaluateFrom_congr operand hcolumn hposition]
  | isNull operand, hcolumn, hposition => by
    rw [evaluateFrom, evaluateFrom, evaluateFrom_congr operand hcolumn hposition]
  | isNotNull operand, hcolumn, hposition => by
    rw [evaluateFrom, evaluateFrom, evaluateFrom_congr operand hcolumn hposition]

/-- Where two sources agree on what expressions read, all of them come to the same from both. -/
theorem evaluateAllFrom_congr : ∀ es : List Expression,
    (∀ b ∈ columnBindingsOfAll es, source.column b = source'.column b) →
    (∀ k ∈ referencesOfAll es, source.position k = source'.position k) →
    evaluateAllFrom registry source es = evaluateAllFrom registry source' es
  | [], _, _ => rfl
  | e :: rest, hcolumn, hposition => by
    simp only [columnBindingsOfAll, referencesOfAll, List.forall_mem_append] at hcolumn hposition
    rw [evaluateAllFrom, evaluateAllFrom, evaluateFrom_congr e hcolumn.1 hposition.1,
      evaluateAllFrom_congr rest hcolumn.2 hposition.2]

/-- Where two sources agree on what operands read, these joined come to the same from both. -/
theorem evaluateConjunctionFrom_congr (op : ConjunctionOp) :
    ∀ (sawNull : Bool) (es : List Expression),
    (∀ b ∈ columnBindingsOfAll es, source.column b = source'.column b) →
    (∀ k ∈ referencesOfAll es, source.position k = source'.position k) →
    evaluateConjunctionFrom registry source op sawNull es =
      evaluateConjunctionFrom registry source' op sawNull es
  | _, [], _, _ => rfl
  | sawNull, e :: rest, hcolumn, hposition => by
    simp only [columnBindingsOfAll, referencesOfAll, List.forall_mem_append] at hcolumn hposition
    rw [evaluateConjunctionFrom, evaluateConjunctionFrom,
      evaluateFrom_congr e hcolumn.1 hposition.1,
      evaluateConjunctionFrom_congr op sawNull rest hcolumn.2 hposition.2,
      evaluateConjunctionFrom_congr op true rest hcolumn.2 hposition.2]

end

/-- Rows that agree on the positions that an expression reads, which all of them have, give it the
same value or failure. -/
theorem evaluate_of_agree {e : Expression} {row row' : Row}
    (h : ∀ k ∈ e.positionsRead, ∃ v, row[k]? = some v ∧ row'[k]? = some v) :
    e.evaluate registry row = e.evaluate registry row' := by
  have hvalue (k : Nat) (hk : k ∈ e.positionsRead) : valueAt row k = valueAt row' k := by
    obtain ⟨v, hv, hv'⟩ := h k hk
    rw [valueAt, valueAt, hv, hv']
  rw [evaluate_eq, evaluate_eq]
  refine evaluateFrom_congr e (fun b hb => ?_) fun k hk => ?_
  · exact hvalue b.column (List.mem_append_left _ (List.mem_map_of_mem hb))
  · exact hvalue k (List.mem_append_right _ hk)

end Agreement

section Foldable

mutual

/-- An expression is foldable if no function in it is volatile and it reads nothing. -/
theorem isFoldable_iff : ∀ e : Expression,
    e.isFoldable = true ↔ e.isConsistent = true ∧ e.columnBindings = [] ∧ e.references = []
  | column .. => by simp [isFoldable, columnBindings]
  | reference .. => by simp [isFoldable, references]
  | constant .. => by simp [isFoldable, isConsistent, columnBindings, references]
  | call _ arguments => by
    simp only [isFoldable, isConsistent, columnBindings, references, Bool.and_eq_true,
      allFoldable_iff arguments, and_assoc]
  | comparison _ left right => by
    simp only [isFoldable, isConsistent, columnBindings, references, Bool.and_eq_true,
      isFoldable_iff left, isFoldable_iff right, List.append_eq_nil_iff]
    tauto
  | conjunction _ operands => allFoldable_iff operands
  | negation operand => isFoldable_iff operand
  | isNull operand => isFoldable_iff operand
  | isNotNull operand => isFoldable_iff operand

/-- Expressions are foldable if no function in them is volatile and they read nothing. -/
theorem allFoldable_iff : ∀ es : List Expression,
    allFoldable es = true ↔
      allConsistent es = true ∧ columnBindingsOfAll es = [] ∧ referencesOfAll es = []
  | [] => by simp [allFoldable, allConsistent, columnBindingsOfAll, referencesOfAll]
  | e :: rest => by
    simp only [allFoldable, allConsistent, columnBindingsOfAll, referencesOfAll, Bool.and_eq_true,
      isFoldable_iff e, allFoldable_iff rest, List.append_eq_nil_iff]
    tauto

end

variable {registry : Registry} {e : Expression}

/-- An expression is foldable if no function in it is volatile and it reads no position of a row. -/
theorem isFoldable_iff_positionsRead :
    e.isFoldable = true ↔ e.isConsistent = true ∧ e.positionsRead = [] := by
  rw [isFoldable_iff, positionsRead, List.append_eq_nil_iff, List.map_eq_nil_iff]

/-- The value of a foldable expression comes from nowhere. -/
theorem evaluateFrom_of_isFoldable (source source' : Source) (hfoldable : e.isFoldable = true) :
    e.evaluateFrom registry source = e.evaluateFrom registry source' := by
  obtain ⟨_, hcolumns, hpositions⟩ := (isFoldable_iff e).mp hfoldable
  refine evaluateFrom_congr e (fun b hb => ?_) fun k hk => ?_
  · rw [hcolumns] at hb
    cases hb
  · rw [hpositions] at hk
    cases hk

end Foldable

end Expression

end SpatialIndex
