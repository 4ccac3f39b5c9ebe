import Mathlib.Data.List.Perm.Basic
import SpatialIndex.Proofs.Expression.Substitution
import SpatialIndex.Proofs.Plan.Execute

/-!
# Three-valued logic

An operand is true, false or, where it is null, unknown.  A conjunction stops at the first operand
that decides it and goes on past the unknown ones.  Still it comes to what the tables of Kleene make
of all its operands, whatever their order.  The laws of De Morgan hold with failures included, and
predicates that are tried in turn, up to the first that is not true, let pass just the rows for
which their conjunction is true.
-/

namespace SpatialIndex

/-- The truth of a statement, none if that is unknown. -/
abbrev Truth := Option Bool

namespace Truth

/-- The value that stands for a truth. -/
def toValue : Truth → Value
  | some b => .boolean b
  | none => .null

/-- Whether two statements both hold, by the table of Kleene. -/
def and : Truth → Truth → Truth
  | some false, _ | _, some false => some false
  | some true, some true => some true
  | _, _ => none

/-- Whether one of two statements holds, by the table of Kleene. -/
def or : Truth → Truth → Truth
  | some true, _ | _, some true => some true
  | some false, some false => some false
  | _, _ => none

/-- The value true stands for nothing but what is known to hold. -/
theorem toValue_eq_true_iff {t : Truth} : t.toValue = .boolean true ↔ t = some true := by
  rcases t with _ | _ | _ <;> simp [toValue]

end Truth

namespace ConjunctionOp

variable (op : ConjunctionOp) (a b c : Truth)

/-- The table of two operands. -/
def table : ConjunctionOp → Truth → Truth → Truth
  | and => Truth.and
  | or => Truth.or

/-- What the tables make of any number of operands. -/
def kleene (truths : List Truth) : Truth := truths.foldr op.table (some !op.deciding)

/-- The other way to join truth values. -/
def dual : ConjunctionOp → ConjunctionOp
  | and => or
  | or => and

/-- What decides one way of joining leaves the other open. -/
@[simp] theorem deciding_dual : op.dual.deciding = !op.deciding := by cases op <;> rfl

/-- An operand that decides does so whatever the other one is. -/
theorem table_deciding : op.table (some op.deciding) a = some op.deciding := by
  cases op <;> rcases a with _ | _ | _ <;> rfl

/-- An operand that leaves the matter open leaves it to the other one. -/
theorem table_not_deciding : op.table (some !op.deciding) a = a := by
  cases op <;> rcases a with _ | _ | _ <;> rfl

/-- The order of two operands does not matter. -/
theorem table_comm : op.table a b = op.table b a := by
  cases op <;> rcases a with _ | _ | _ <;> rcases b with _ | _ | _ <;> rfl

/-- Of three operands the first two may change places. -/
theorem table_left_comm : op.table a (op.table b c) = op.table b (op.table a c) := by
  cases op <;> rcases a with _ | _ | _ <;> rcases b with _ | _ | _ <;> rcases c with _ | _ | _ <;>
    rfl

/-- A second unknown operand adds nothing to the first. -/
theorem table_unknown_unknown : op.table none (op.table none a) = op.table none a := by
  cases op <;> rcases a with _ | _ | _ <;> rfl

/-- The order of the operands does not matter. -/
theorem kleene_perm {truths truths' : List Truth} (h : truths.Perm truths') :
    op.kleene truths = op.kleene truths' :=
  haveI : LeftCommutative op.table := ⟨op.table_left_comm⟩
  h.foldr_eq _

/-- The truth that the operands so far leave open: known not to decide, or unknown after a null. -/
def soFar (sawNull : Bool) : Truth := if sawNull then none else some !op.deciding

/-- A null among the operands makes the outcome unknown unless it is decided. -/
theorem table_soFar_unknown (sawNull : Bool) :
    op.table (op.soFar sawNull) (op.table none a) = op.table (op.soFar true) a := by
  cases sawNull with
  | true => exact op.table_unknown_unknown a
  | false => exact op.table_not_deciding _

/-- An operand that decides does so whatever has gone before. -/
theorem table_soFar_deciding (sawNull : Bool) :
    op.table (op.soFar sawNull) (some op.deciding) = some op.deciding := by
  rw [table_comm, table_deciding]

end ConjunctionOp

namespace Expression

variable (registry : Registry) (row : Row)

/-- The operands come to the given truths. -/
def ComeTo (es : List Expression) (truths : List Truth) : Prop :=
  List.Forall₂ (fun e t => e.evaluate registry row = .ok t.toValue) es truths

section Row

variable {registry row} {op : ConjunctionOp} {sawNull : Bool} {e : Expression}
  {es es' rest : List Expression} {truths : List Truth} {v : Value}

/-- A conjunction goes on after an operand by what that comes to. -/
theorem evaluateConjunction_of_ok (he : e.evaluate registry row = .ok v) :
    evaluateConjunction registry row op sawNull (e :: rest) =
      op.join v (evaluateConjunction registry row op sawNull rest)
        (evaluateConjunction registry row op true rest) := by
  rw [evaluateConjunction_cons, he]
  rfl

/-- A conjunction fails in its first operand if that fails. -/
theorem evaluateConjunction_of_error {cause : Error} (he : e.evaluate registry row = .error cause) :
    evaluateConjunction registry row op sawNull (e :: rest) = .error cause := by
  rw [evaluateConjunction_cons, he]
  rfl

/-- Where all operands come to truths, a conjunction comes to what the tables make of them.  The
operands before the given ones enter by the truth that they leave open. -/
theorem evaluateConjunction_of_comeTo (h : ComeTo registry row es truths) :
    evaluateConjunction registry row op sawNull es =
      .ok (op.table (op.soFar sawNull) (op.kleene truths)).toValue := by
  induction h generalizing sawNull with
  | nil =>
    rw [evaluateConjunction, ConjunctionOp.kleene, List.foldr_nil, op.table_comm,
      op.table_not_deciding, ConjunctionOp.soFar]
    cases sawNull <;> rfl
  | @cons e t es truths he _ ih =>
    rw [evaluateConjunction_of_ok he, ConjunctionOp.kleene, List.foldr_cons]
    change _ = Except.ok (op.table _ (op.table t (op.kleene truths))).toValue
    cases t with
    | none => rw [op.table_soFar_unknown, ← ih]; rfl
    | some b =>
      by_cases hb : b = op.deciding
      · rw [hb, op.table_deciding, op.table_soFar_deciding]
        exact if_pos rfl
      · have hnot : b = !op.deciding := Bool.eq_not.mpr hb
        rw [hnot, op.table_not_deciding, ← ih]
        exact if_neg (by simp)

/-- Operands that come to truths are joined as the tables say. -/
theorem evaluate_conjunction_of_comeTo (op : ConjunctionOp) (h : ComeTo registry row es truths) :
    (conjunction op es).evaluate registry row = .ok (op.kleene truths).toValue := by
  rw [evaluate, evaluateConjunction_of_comeTo h]
  exact congrArg (fun t : Truth => Except.ok t.toValue) (op.table_not_deciding _)

/-- Operands in another order come to their truths in that order. -/
theorem ComeTo.perm (h : ComeTo registry row es truths) (hperm : es'.Perm es) :
    ∃ truths', ComeTo registry row es' truths' ∧ truths'.Perm truths :=
  List.perm_comp_forall₂ hperm h

/-- The opposite of an expression with a value is that of its value. -/
theorem evaluate_negation_of_ok (he : e.evaluate registry row = .ok v) :
    (negation e).evaluate registry row = negateValue v := by
  rw [evaluate, he]
  rfl

/-- The opposite of a conjunction and the other conjunction of the opposites stop at the same
operand. -/
theorem evaluateConjunction_negation (op : ConjunctionOp) (sawNull : Bool) (es : List Expression) :
    (evaluateConjunction registry row op sawNull es >>= negateValue).toOption =
      (evaluateConjunction registry row op.dual sawNull (es.map negation)).toOption := by
  induction es generalizing sawNull with
  | nil => cases op <;> cases sawNull <;> rfl
  | cons e rest ih =>
    rw [List.map_cons]
    cases he : e.evaluate registry row with
    | error cause =>
      have hnot : (negation e).evaluate registry row = .error cause := by
        rw [evaluate, he]
        rfl
      rw [evaluateConjunction_of_error he, evaluateConjunction_of_error hnot]
      rfl
    | ok v =>
      have hnot := evaluate_negation_of_ok he
      rw [evaluateConjunction_of_ok he]
      cases v with
      | null =>
        rw [evaluateConjunction_of_ok hnot]
        exact ih true
      | boolean b =>
        rw [evaluateConjunction_of_ok hnot]
        by_cases hb : b = op.deciding
        · rw [hb, ConjunctionOp.join, ConjunctionOp.join, if_pos rfl, if_pos (by simp)]
          rfl
        · rw [ConjunctionOp.join, ConjunctionOp.join, if_neg hb, if_neg (by simpa using hb)]
          exact ih sawNull
      | _ =>
        rw [evaluateConjunction_of_error hnot]
        rfl

/-- Whenever a conjunction of predicates comes to a value, that is a truth and trying the predicates
in turn comes to an end.  The row passes exactly if the conjunction is true and there was no null
before. -/
theorem passesAll_of_evaluateConjunction
    (h : evaluateConjunction registry row .and sawNull es = .ok v) :
    ∃ (t : Truth) (accepted : Bool), v = t.toValue ∧ passesAll registry row es = .ok accepted ∧
      (t = some true ↔ accepted = true ∧ sawNull = false) := by
  induction es generalizing sawNull with
  | nil =>
    rw [evaluateConjunction] at h
    rw [← Except.ok.inj h]
    cases sawNull with
    | true => exact ⟨none, true, rfl, rfl, by simp⟩
    | false => exact ⟨some true, true, rfl, rfl, by simp⟩
  | cons e rest ih =>
    cases he : e.evaluate registry row with
    | error cause =>
      rw [evaluateConjunction_of_error he] at h
      cases h
    | ok w =>
      rw [evaluateConjunction_of_ok he] at h
      rw [passesAll, passes, he]
      cases w with
      | null =>
        -- The conjunction goes on past a null and the test in turn does not.
        obtain ⟨t, accepted, hvalue, _, htrue⟩ := ih h
        exact ⟨t, false, hvalue, rfl, htrue.trans (by simp)⟩
      | boolean b =>
        cases b with
        | false => exact ⟨some false, false, (Except.ok.inj h).symm, rfl, by simp⟩
        | true => exact ih h
      | _ => cases h

/-- Whenever a conjunction comes to a value, the row passes its operands, tried in turn, as it
passes the conjunction itself. -/
theorem passesAll_conjunction (h : (conjunction .and es).evaluate registry row = .ok v) :
    ∃ accepted, passesAll registry row es = .ok accepted ∧
      passesAll registry row [conjunction .and es] = .ok accepted ∧
      (accepted = true ↔ v = .boolean true) := by
  obtain ⟨t, accepted, rfl, haccepted, htrue⟩ := passesAll_of_evaluateConjunction h
  have hpasses : accepted = true ↔ t = some true := by simpa using htrue.symm
  refine ⟨accepted, haccepted, ?_, hpasses.trans Truth.toValue_eq_true_iff.symm⟩
  rw [passesAll, passes, h]
  rcases t with _ | _ | _ <;> cases accepted <;> simp at hpasses <;> rfl

/-- Rows on which the conjunction of predicates comes to a value may be filtered by the predicates,
tried in turn, or by their conjunction. -/
theorem filterRows_conjunction (positions : List Nat) {rows : List Row}
    (h : ∀ row ∈ rows, ∃ v, (conjunction .and es).evaluate registry row = .ok v) :
    filterRows registry es positions rows =
      filterRows registry [conjunction .and es] positions rows := by
  induction rows with
  | nil => rfl
  | cons row rows ih =>
    rw [List.forall_mem_cons] at h
    obtain ⟨⟨v, hv⟩, hrows⟩ := h
    obtain ⟨accepted, hin, hwhole, _⟩ := passesAll_conjunction hv
    rw [filterRows, filterRows, hin, hwhole, ih hrows]

end Row

/-- The laws of three-valued logic for the given operands on a row. -/
structure ThreeValued (es : List Expression) : Prop where
  /-- Where all operands come to truths, so does each conjunction, by the tables. -/
  kleene : ∀ (op : ConjunctionOp) (truths : List Truth), ComeTo registry row es truths →
    (conjunction op es).evaluate registry row = .ok (op.kleene truths).toValue
  /-- It does so in every order. -/
  perm : ∀ (op : ConjunctionOp) (truths : List Truth), ComeTo registry row es truths →
    ∀ es' : List Expression, es'.Perm es →
      (conjunction op es').evaluate registry row = (conjunction op es).evaluate registry row
  /-- The opposite of a conjunction and the other conjunction of the opposites have the same value,
  or both fail. -/
  deMorgan : ∀ op : ConjunctionOp, ((negation (conjunction op es)).evaluate registry row).toOption =
    ((conjunction op.dual (es.map negation)).evaluate registry row).toOption
  /-- Whenever their conjunction has a value, the row can be tested against each in turn, and it
  passes exactly if that value is true. -/
  inTurn : ∀ v : Value, (conjunction .and es).evaluate registry row = .ok v →
    ∃ accepted, passesAll registry row es = .ok accepted ∧ (accepted = true ↔ v = .boolean true)

/-- Conjunctions and their opposites obey the laws of three-valued logic, failures of operands
included. -/
theorem threeValued (es : List Expression) : ThreeValued registry row es where
  kleene op _ h := evaluate_conjunction_of_comeTo op h
  perm op truths h es' hperm := by
    obtain ⟨truths', h', hperm'⟩ := h.perm hperm
    rw [evaluate_conjunction_of_comeTo op h, evaluate_conjunction_of_comeTo op h',
      op.kleene_perm hperm']
  deMorgan op := evaluateConjunction_negation op false es
  inTurn v h := by
    obtain ⟨accepted, hin, _, htrue⟩ := passesAll_conjunction h
    exact ⟨accepted, hin, htrue⟩

/-- Conjunctions follow the laws of three-valued logic on every row, and filtering by predicates in
turn keeps the same rows as filtering by their conjunction, wherever that has a value. -/
theorem conjunction_laws (registry : Registry) (es : List Expression) :
    (∀ row : Row, ThreeValued registry row es) ∧
      ∀ (positions : List Nat) (rows : List Row),
        (∀ row ∈ rows, ∃ v, (conjunction .and es).evaluate registry row = .ok v) →
          filterRows registry es positions rows =
            filterRows registry [conjunction .and es] positions rows :=
  ⟨fun row => threeValued registry row es, fun positions _ => filterRows_conjunction positions⟩

/-- Of a null, a truth that is false and a column that is not there, the conjunction is false before
it comes to the failure, and a filter stops even earlier.  Without the last one, the order does not
matter. -/
theorem conjunction_laws_of_null :
    let unknown : Expression := .reference 0 .boolean
    let refuted : Expression := .isNotNull unknown
    let missing : Expression := .reference 1 .boolean
    let row : Row := [.null]
    ComeTo .empty row [unknown, refuted] [none, some false] ∧
      (conjunction .and [unknown, refuted]).evaluate .empty row = .ok (.boolean false) ∧
      (conjunction .or [refuted, unknown]).evaluate .empty row = .ok .null ∧
      (∃ accepted, passesAll .empty row [unknown, refuted, missing] = .ok accepted ∧
        (accepted = true ↔ Value.boolean false = .boolean true)) ∧
      filterRows .empty [unknown, refuted, missing] [] [row] =
        filterRows .empty [conjunction .and [unknown, refuted, missing]] [] [row] := by
  intro unknown refuted missing row
  have hboth := (conjunction_laws .empty [unknown, refuted]).1 row
  have hall := conjunction_laws .empty [unknown, refuted, missing]
  have htruths : ComeTo .empty row [unknown, refuted] [none, some false] :=
    .cons rfl (.cons rfl .nil)
  have hvalue : (conjunction .and [unknown, refuted, missing]).evaluate .empty row =
      .ok (.boolean false) := rfl
  refine ⟨htruths, hboth.kleene .and _ htruths, ?_, (hall.1 row).inTurn _ hvalue, ?_⟩
  · rw [hboth.perm .or _ htruths _ (.swap unknown refuted []), hboth.kleene .or _ htruths]
    rfl
  · refine hall.2 [] [row] fun r hr => ⟨.boolean false, ?_⟩
    rw [List.mem_singleton.mp hr]
    exact hvalue

end Expression

end SpatialIndex
