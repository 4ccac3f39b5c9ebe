import SpatialIndex.Proofs.Expression.Parts
import SpatialIndex.Proofs.Expression.Reading
import SpatialIndex.Proofs.Table.Storage

/-!
# Binding and substitution

Before an expression over columns is evaluated it is bound: each column gives way to the first
position of its binding among those that name the values of a row.  In a filter, what stands for
the filtered value gives way to an expression for it.  Both times the expression is written anew
and its value stays what it was with the columns, or the position, read elsewhere.
-/

namespace SpatialIndex

/-- A row whose values are named by bindings, as a source: a column is read at the first position of
its binding, and a position at itself. -/
def Source.named (bindings : List ColumnBinding) (row : Row) : Source where
  column binding := valueAt row (bindings.idxOf binding)
  position := valueAt row

namespace Expression

section Replaced

variable {place : ColumnBinding → LogicalType → Expression}

/-- Replacing all columns by what reads no column leaves none. -/
theorem columnBindings_mapColumns (hplace : ∀ b type, (place b type).columnBindings = [])
    (e : Expression) : Expression.columnBindings (e.mapColumns (m := Id) place) = [] := by
  induction e using children_induction with
  | step e ih =>
    obtain ⟨b, type, rfl⟩ | hcolumn := e.column_or
    · exact hplace b type
    · rw [mapColumns_id_eq_withChildren place hcolumn,
        columnBindings_eq_flatMap (withChildren_ne_column hcolumn),
        children_withChildren (List.length_map _), List.flatMap_map]
      exact List.flatMap_eq_nil_iff.mpr ih

/-- Replacing columns by expressions of their types keeps the type. -/
theorem type_mapColumns (hplace : ∀ b type, (place b type).type = type) (e : Expression) :
    Expression.type (e.mapColumns (m := Id) place) = e.type := by
  cases e with
  | column b type => exact hplace b type
  | _ => rfl

end Replaced

section Binding

/-- The expression with each column read at the first position of its binding. -/
def atPositions (bindings : List ColumnBinding) (e : Expression) : Expression :=
  e.mapColumns (m := Id) fun b type => .reference (bindings.idxOf b) type

variable (bindings : List ColumnBinding) (e : Expression)

/-- Binding fails at the first column whose binding is missing, from left to right. -/
theorem bind_eq : e.bind bindings =
    match e.columnBindings.find? (· ∉ bindings) with
    | none => .ok (e.atPositions bindings)
    | some b => .error (.unboundColumn b.table b.column) := by
  simp only [decide_not]
  refine @mapColumns_eq_find? (Except Error) _ _ _ _ (· ∈ bindings)
    (fun b => .error (.unboundColumn b.table b.column)) (fun _ _ _ _ => rfl) (fun b type => ?_) e
  rw [idxOf?_eq_ite]
  by_cases hmem : b ∈ bindings
  · rw [if_pos hmem, if_pos (decide_eq_true hmem)]
    rfl
  · rw [if_neg hmem, if_neg (by simpa using hmem)]

variable {bindings e}

/-- An expression can be bound when every binding that it reads is given. -/
theorem bind_eq_ok_iff {bound : Expression} : e.bind bindings = .ok bound ↔
    (∀ b ∈ e.columnBindings, b ∈ bindings) ∧ bound = e.atPositions bindings := by
  rw [bind_eq]
  cases h : e.columnBindings.find? (· ∉ bindings) with
  | none =>
    have hall : ∀ b ∈ e.columnBindings, b ∈ bindings := by simpa using h
    rw [and_iff_right hall, Except.ok.injEq, eq_comm]
  | some b =>
    have hmissing : b ∉ bindings := by simpa using List.find?_some h
    exact iff_of_false nofun fun hall => hmissing (hall.1 b (List.mem_of_find?_eq_some h))

/-- Binding can fail in one way only, at the first column whose binding is missing. -/
theorem bind_eq_error_iff {cause : Error} : e.bind bindings = .error cause ↔
    ∃ b, e.columnBindings.find? (· ∉ bindings) = some b ∧
      cause = .unboundColumn b.table b.column := by
  rw [bind_eq]
  cases e.columnBindings.find? (· ∉ bindings) with
  | none => simp
  | some b => simp [eq_comm]

/-- A bound expression finds on a row what the expression finds on the row with its values named. -/
theorem evaluate_atPositions (registry : Registry) (row : Row) :
    (e.atPositions bindings).evaluate registry row =
      e.evaluateFrom registry (.named bindings row) := by
  rw [evaluate_eq]
  refine evaluateFrom_mapColumns Returning.id e _ ?_ (fun _ _ => rfl) rfl
  rintro b _ type _ rfl
  rfl

end Binding

/-- An expression can be bound if and only if all bindings that it reads are given; otherwise it is
the first missing one that is reported.  The bound expression reads no column, has the same type,
and comes on every row to what the expression comes to, be that a value or a failure, if its columns
are read at the first positions of their bindings. -/
theorem bind_exact (bindings : List ColumnBinding) (e : Expression) :
    ((∃ bound, e.bind bindings = .ok bound) ↔ ∀ b ∈ e.columnBindings, b ∈ bindings) ∧
    (∀ cause, e.bind bindings = .error cause ↔
      ∃ b, e.columnBindings.find? (· ∉ bindings) = some b ∧
        cause = .unboundColumn b.table b.column) ∧
    ∀ bound, e.bind bindings = .ok bound →
      bound.columnBindings = [] ∧ bound.type = e.type ∧
        ∀ (registry : Registry) (row : Row),
          bound.evaluate registry row = e.evaluateFrom registry (.named bindings row) := by
  refine ⟨?_, fun _ => bind_eq_error_iff, fun bound h => ?_⟩
  · simp only [bind_eq_ok_iff, exists_and_left, exists_eq, and_true]
  · obtain ⟨_, rfl⟩ := bind_eq_ok_iff.mp h
    exact ⟨columnBindings_mapColumns (fun _ _ => rfl) e, type_mapColumns (fun _ _ => rfl) e,
      evaluate_atPositions⟩

/-- Of two positions with the same binding the first is read, where 5 is less than 7; and a column
whose binding is missing is reported though it is not the first that is read. -/
theorem bind_exact_twice :
    let e : Expression := .conjunction .or [.isNull (.column ⟨1, 0⟩ .boolean),
      .comparison .less (.column ⟨0, 2⟩ .bigint) (.reference 3 .bigint)]
    let bindings : List ColumnBinding := [⟨0, 2⟩, ⟨1, 0⟩, ⟨0, 2⟩]
    let row : Row := [.bigint 5, .boolean false, .bigint 9, .bigint 7]
    (∃ bound, e.bind bindings = .ok bound ∧ bound.columnBindings = [] ∧ bound.type = .boolean ∧
      bound.evaluate .spatial row = .ok (.boolean true)) ∧
    e.bind [⟨1, 0⟩] = .error (.unboundColumn 0 2) := by
  intro e bindings row
  obtain ⟨hbound, _, hsame⟩ := bind_exact bindings e
  obtain ⟨bound, h⟩ := hbound.mpr (by decide)
  obtain ⟨hnone, htype, hvalue⟩ := hsame bound h
  exact ⟨⟨bound, h, hnone, htype, hvalue .spatial row⟩,
    ((bind_exact [⟨1, 0⟩] e).2.1 _).mpr ⟨⟨0, 2⟩, by decide, rfl⟩⟩

section Replacement

variable {registry : Registry} {e replacement : Expression} {row : Row} {position : Nat}
  {value : Value}

/-- Setting a position of a row changes what is read there and nothing else. -/
theorem valueAt_set (hposition : position < row.length) (k : Nat) :
    valueAt (row.set position value) k = if k = position then .ok value else valueAt row k := by
  by_cases hk : k = position
  · rw [hk, if_pos rfl, valueAt, List.getElem?_set_self hposition]
  · rw [if_neg hk, valueAt, valueAt, List.getElem?_set_ne (Ne.symm hk), List.length_set]

/-- An expression without columns in which a position gives way to another expression comes to what
it comes to on the row that has the value of the other expression at that position, be that a value
or a failure. -/
theorem evaluate_replaceReference (hcolumns : e.columnBindings = [])
    (hposition : position < row.length) (hvalue : replacement.evaluate registry row = .ok value) :
    (e.replaceReference position replacement).evaluate registry row =
      e.evaluate registry (row.set position value) := by
  rw [evaluate_eq, evaluate_eq, evaluateFrom_replaceReference]
  refine evaluateFrom_congr e (by simp [hcolumns]) fun k _ => ?_
  show (if k = position then _ else valueAt row k) = valueAt (row.set position value) k
  rw [valueAt_set hposition, ← hvalue, evaluate_eq]

end Replacement

/-- What stands for position 0 reads position 0 itself, where it finds the 3 of the row.  The same
operands come to true where the first of them decides, and otherwise fail at the second. -/
theorem evaluate_replaceReference_self :
    let known : Expression := .isNull (.reference 0 .bigint)
    let row : Row := [.bigint 3, .bigint 5]
    let test (op : ConjunctionOp) : Expression := .conjunction op
      [.negation (.reference 0 .boolean),
        .comparison .less (.reference 0 .boolean) (.reference 1 .bigint)]
    (∀ op, (test op).columnBindings = []) ∧ 0 < row.length ∧
      known.evaluate .empty row = .ok (.boolean false) ∧
      ((test .or).replaceReference 0 known).evaluate .empty row = .ok (.boolean true) ∧
      ((test .and).replaceReference 0 known).evaluate .empty row =
        .error (.incomparable (.boolean false) (.bigint 5)) := by
  intro known row test
  have hcolumns (op : ConjunctionOp) : (test op).columnBindings = [] := rfl
  have hposition : 0 < row.length := by decide
  have hknown : known.evaluate .empty row = .ok (.boolean false) := rfl
  exact ⟨hcolumns, hposition, hknown,
    evaluate_replaceReference (hcolumns .or) hposition hknown,
    evaluate_replaceReference (hcolumns .and) hposition hknown⟩

end Expression

end SpatialIndex
