import SpatialIndex.Expression.Basic
import SpatialIndex.Proofs.Outcome

/-!
# What is directly below an expression

A walk over expressions treats one or two kinds of them itself and, for all others, goes on to what
is directly below.  A question is asked of each expression there.  A change is made to a copy: what
is below is changed first, from left to right, and each outcome is then written to the place that it
came from; if one of them fails nothing is written.  The replacement of columns, through which an
expression is bound to a row, to the columns that a scan fetches and to a filtered column, is such a
change, and so is the replacement of a position.
-/

namespace SpatialIndex

section Steps

variable {m : Type → Type} [Monad m] [LawfulMonad m] {α β γ : Type} {l : List α} {step : α → m β}

/-- One step for each member of a list is any other that does the same for the members. -/
theorem mapM_congr {step' : α → m β} (h : ∀ a ∈ l, step a = step' a) :
    l.mapM step = l.mapM step' := by
  induction l with
  | nil => rfl
  | cons a l ih =>
    rw [List.forall_mem_cons] at h
    rw [List.mapM_cons, List.mapM_cons, h.1, ih h.2]

/-- What is made of the outcomes of one step for each member of a list need only be known for lists
of that length. -/
theorem map_mapM_congr {f g : List β → γ} (h : ∀ bs : List β, bs.length = l.length → f bs = g bs) :
    f <$> l.mapM step = g <$> l.mapM step := by
  induction l generalizing f g with
  | nil => simp [h []]
  | cons a l ih =>
    simp only [List.mapM_cons, map_bind, bind_pure_comp, Functor.map_map]
    exact bind_congr fun b => ih fun bs hbs => h (b :: bs) (congrArg (· + 1) hbs)

end Steps

namespace Expression

section Places

variable {e : Expression} {es fs : List Expression}

/-- Places that a list fills one by one read as the list. -/
private theorem mapIdx_getD {places : List Expression} (h : es.length = places.length) :
    (places.mapIdx fun i e => es[i]?.getD e) = es := by
  refine List.ext_getElem (by rw [List.length_mapIdx, h]) fun i _ hi => ?_
  rw [List.getElem_mapIdx, List.getElem?_eq_getElem hi, Option.getD_some]

/-- What has been put below an expression is there. -/
theorem children_withChildren (h : es.length = e.children.length) :
    (e.withChildren es).children = es := by
  cases e with
  | column | reference | constant => exact (List.eq_nil_of_length_eq_zero h).symm
  | call _ arguments => exact mapIdx_getD h
  | comparison _ left right =>
    obtain ⟨first, second, rfl⟩ := List.length_eq_two.mp h
    rfl
  | conjunction _ operands => exact mapIdx_getD h
  | negation | isNull | isNotNull =>
    obtain ⟨only, rfl⟩ := List.length_eq_one_iff.mp h
    rfl

/-- An expression stays what it is when what is below it is written back. -/
@[simp]
theorem withChildren_children : e.withChildren e.children = e := by
  cases e with
  | call function _ => exact congrArg (call function) (mapIdx_getD rfl)
  | conjunction op _ => exact congrArg (conjunction op) (mapIdx_getD rfl)
  | _ => rfl

/-- Of two lists put below an expression the last stays, if it fills every place. -/
theorem withChildren_withChildren (h : es.length = e.children.length) :
    (e.withChildren fs).withChildren es = e.withChildren es := by
  cases e with
  | column | reference | constant => rfl
  | call function arguments =>
    exact congrArg (call function) ((mapIdx_getD (h.trans List.length_mapIdx.symm)).trans
      (mapIdx_getD h).symm)
  | comparison =>
    obtain ⟨first, second, rfl⟩ := List.length_eq_two.mp h
    rfl
  | conjunction op operands =>
    exact congrArg (conjunction op) ((mapIdx_getD (h.trans List.length_mapIdx.symm)).trans
      (mapIdx_getD h).symm)
  | negation | isNull | isNotNull =>
    obtain ⟨only, rfl⟩ := List.length_eq_one_iff.mp h
    rfl

/-- Whatever is put below it, an expression that is no column does not become one. -/
theorem withChildren_ne_column (hcolumn : ∀ b type, e ≠ .column b type) (b : ColumnBinding)
    (type : LogicalType) : e.withChildren es ≠ .column b type := by
  cases e with
  | column b type => exact absurd rfl (hcolumn b type)
  | _ => exact nofun

/-- An expression is a column or it is none. -/
theorem column_or (e : Expression) :
    (∃ b type, e = .column b type) ∨ ∀ b type, e ≠ .column b type := by
  cases e with
  | column b type => exact .inl ⟨b, type, rfl⟩
  | _ => exact .inr nofun

/-- What is directly below an expression is smaller. -/
theorem sizeOf_lt_of_mem_children {child : Expression} (h : child ∈ e.children) :
    sizeOf child < sizeOf e := by
  cases e with
  | column | reference | constant => cases h
  | call function arguments =>
    have hbelow : sizeOf child < sizeOf arguments := List.sizeOf_lt_of_mem h
    rw [call.sizeOf_spec]
    omega
  | comparison op left right =>
    rw [comparison.sizeOf_spec]
    obtain rfl | rfl := List.mem_pair.mp h
    · omega
    · omega
  | conjunction op operands =>
    have hbelow : sizeOf child < sizeOf operands := List.sizeOf_lt_of_mem h
    rw [conjunction.sizeOf_spec]
    omega
  | negation operand | isNull operand | isNotNull operand =>
    obtain rfl := List.mem_singleton.mp h
    simp

/-- What holds of an expression if it holds of all that is directly below, holds of every
expression. -/
@[elab_as_elim]
theorem children_induction {motive : Expression → Prop}
    (step : ∀ e : Expression, (∀ child ∈ e.children, motive child) → motive e) (e : Expression) :
    motive e :=
  step e fun child _ => children_induction step child
termination_by sizeOf e
decreasing_by exact sizeOf_lt_of_mem_children ‹_›

end Places

section Questions

variable {e : Expression}

/-- The bindings that the expressions of a list read are those that each of them reads in turn. -/
theorem columnBindingsOfAll_eq_flatMap (es : List Expression) :
    columnBindingsOfAll es = es.flatMap columnBindings := by
  induction es with
  | nil => rfl
  | cons e rest ih => rw [columnBindingsOfAll, ih, List.flatMap_cons]

/-- An expression that is no column reads the bindings that are read below. -/
theorem columnBindings_eq_flatMap (hcolumn : ∀ b type, e ≠ .column b type) :
    e.columnBindings = e.children.flatMap columnBindings := by
  cases e with
  | column b type => exact absurd rfl (hcolumn b type)
  | reference | constant => rfl
  | call _ arguments => exact columnBindingsOfAll_eq_flatMap arguments
  | comparison _ left right =>
    rw [columnBindings, children, List.flatMap_cons, List.flatMap_singleton]
  | conjunction _ operands => exact columnBindingsOfAll_eq_flatMap operands
  | negation operand | isNull operand | isNotNull operand =>
    rw [columnBindings, children, List.flatMap_singleton]

end Questions

section Changes

variable {e : Expression}

section Columns

variable {m : Type → Type} [Monad m] [LawfulMonad m]
  (replace : ColumnBinding → LogicalType → m Expression)

/-- The columns of the expressions of a list are replaced one expression after the other. -/
theorem mapColumnsOfAll_eq_mapM (es : List Expression) :
    mapColumnsOfAll replace es = es.mapM (mapColumns replace) := by
  induction es with
  | nil => rfl
  | cons e rest ih => rw [mapColumnsOfAll, ih, List.mapM_cons]

/-- In an expression that is no column, columns are replaced in all that is below, from left to
right, and the outcomes put in the places that they come from. -/
theorem mapColumns_eq_withChildren (hcolumn : ∀ b type, e ≠ .column b type) :
    e.mapColumns replace = e.withChildren <$> e.children.mapM (mapColumns replace) := by
  cases e with
  | column b type => exact absurd rfl (hcolumn b type)
  | reference position type => exact (map_pure (reference position type).withChildren []).symm
  | constant value type => exact (map_pure (constant value type).withChildren []).symm
  | call function arguments =>
    rw [mapColumns, mapColumnsOfAll_eq_mapM, bind_pure_comp]
    -- There are as many outcomes as arguments, so that none of the old arguments stays.
    exact map_mapM_congr fun es h => congrArg (call function) (mapIdx_getD h).symm
  | comparison op left right => simp [mapColumns, children, withChildren]
  | conjunction op operands =>
    rw [mapColumns, mapColumnsOfAll_eq_mapM, bind_pure_comp]
    exact map_mapM_congr fun es h => congrArg (conjunction op) (mapIdx_getD h).symm
  | negation | isNull | isNotNull => simp [mapColumns, children, withChildren]

/-- Where replacing a column cannot fail, what is below is replaced and put back. -/
theorem mapColumns_id_eq_withChildren (place : ColumnBinding → LogicalType → Expression)
    (hcolumn : ∀ b type, e ≠ .column b type) :
    e.mapColumns (m := Id) place = e.withChildren (e.children.map (mapColumns (m := Id) place)) :=
  (mapColumns_eq_withChildren (m := Id) place hcolumn).trans
    (congrArg e.withChildren List.idRun_mapM)

end Columns

section Positions

variable (position : Nat) (replacement : Expression)

/-- A position is replaced in each expression of a list. -/
theorem replaceReferenceInAll_eq_map (es : List Expression) :
    replaceReferenceInAll es position replacement =
      es.map (·.replaceReference position replacement) := by
  induction es with
  | nil => rfl
  | cons e rest ih => rw [replaceReferenceInAll, ih, List.map_cons]

/-- In an expression that is not the position itself, a position is replaced in all that is below
and the outcomes put in the places that they come from. -/
theorem replaceReference_eq_withChildren (hreference : ∀ type, e ≠ .reference position type) :
    e.replaceReference position replacement =
      e.withChildren (e.children.map (·.replaceReference position replacement)) := by
  cases e with
  | reference current type =>
    exact if_neg fun h => hreference type (congrArg (reference · type) h)
  | call function arguments =>
    rw [replaceReference, replaceReferenceInAll_eq_map]
    exact congrArg (call function) (mapIdx_getD (List.length_map _)).symm
  | conjunction op operands =>
    rw [replaceReference, replaceReferenceInAll_eq_map]
    exact congrArg (conjunction op) (mapIdx_getD (List.length_map _)).symm
  | column | constant | comparison | negation | isNull | isNotNull => rfl

end Positions

end Changes

end Expression

end SpatialIndex
