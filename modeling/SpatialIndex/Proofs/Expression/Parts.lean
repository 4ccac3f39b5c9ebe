import SpatialIndex.Proofs.Expression.Children
import SpatialIndex.Proofs.Expression.Substitution

/-!
# What an expression is made of

Whether an expression is consistent or foldable depends on the functions that it calls and on what
it reads, wherever in it that is.  Equal expressions are made of the same parts, and replacing
columns touches no other part.
-/

namespace SpatialIndex

namespace Expression

mutual

/-- The functions that the expression calls, from left to right. -/
def signatures : Expression → List Signature
  | column .. | reference .. | constant .. => []
  | call function arguments => function :: signaturesOfAll arguments
  | comparison _ left right => left.signatures ++ right.signatures
  | conjunction _ operands => signaturesOfAll operands
  | negation operand | isNull operand | isNotNull operand => operand.signatures

/-- The functions that any of the expressions calls, from left to right. -/
def signaturesOfAll : List Expression → List Signature
  | [] => []
  | e :: rest => e.signatures ++ signaturesOfAll rest

end

mutual

/-- An expression is consistent when no function anywhere in it is volatile. -/
theorem isConsistent_iff : ∀ e : Expression,
    e.isConsistent = true ↔ ∀ f ∈ e.signatures, f.volatile = false
  | column .. => by simp [isConsistent, signatures]
  | reference .. => by simp [isConsistent, signatures]
  | constant .. => by simp [isConsistent, signatures]
  | call function arguments => by
    simp [isConsistent, signatures, allConsistent_iff arguments]
  | comparison _ left right => by
    simp only [isConsistent, signatures, Bool.and_eq_true, isConsistent_iff left,
      isConsistent_iff right, List.forall_mem_append]
  | conjunction _ operands => by rw [isConsistent, signatures, allConsistent_iff operands]
  | negation operand => by rw [isConsistent, signatures, isConsistent_iff operand]
  | isNull operand => by rw [isConsistent, signatures, isConsistent_iff operand]
  | isNotNull operand => by rw [isConsistent, signatures, isConsistent_iff operand]

/-- Expressions are consistent when no function anywhere in one of them is volatile. -/
theorem allConsistent_iff : ∀ es : List Expression,
    allConsistent es = true ↔ ∀ f ∈ signaturesOfAll es, f.volatile = false
  | [] => by simp [allConsistent, signaturesOfAll]
  | e :: rest => by
    simp only [allConsistent, signaturesOfAll, Bool.and_eq_true, isConsistent_iff e,
      allConsistent_iff rest, List.forall_mem_append]

end

mutual

/-- Of two equal expressions both are foldable or none is. -/
theorem isFoldable_of_equiv : ∀ a b : Expression, a.equiv b = true → a.isFoldable = b.isFoldable
  | column .., b, h => by
    cases b with
    | column => rfl
    | _ => cases h
  | reference .., b, h => by
    cases b with
    | reference => rfl
    | _ => cases h
  | constant .., b, h => by
    cases b with
    | constant => rfl
    | _ => cases h
  | call function arguments, b, h => by
    cases b with
    | call function' arguments' =>
      rw [equiv, Bool.and_eq_true, beq_iff_eq] at h
      rw [isFoldable, isFoldable, h.1, allFoldable_of_equivAll arguments arguments' h.2]
    | _ => cases h
  | comparison _ left right, b, h => by
    cases b with
    | comparison _ left' right' =>
      rw [equiv, Bool.and_eq_true, Bool.and_eq_true] at h
      rw [isFoldable, isFoldable, isFoldable_of_equiv left left' h.1.2,
        isFoldable_of_equiv right right' h.2]
    | _ => cases h
  | conjunction _ operands, b, h => by
    cases b with
    | conjunction _ operands' =>
      rw [equiv, Bool.and_eq_true] at h
      exact allFoldable_of_equivAll operands operands' h.2
    | _ => cases h
  | negation operand, b, h => by
    cases b with
    | negation operand' => exact isFoldable_of_equiv operand operand' h
    | _ => cases h
  | isNull operand, b, h => by
    cases b with
    | isNull operand' => exact isFoldable_of_equiv operand operand' h
    | _ => cases h
  | isNotNull operand, b, h => by
    cases b with
    | isNotNull operand' => exact isFoldable_of_equiv operand operand' h
    | _ => cases h

/-- Of two lists of equal expressions all of both are foldable or neither is. -/
theorem allFoldable_of_equivAll : ∀ as bs : List Expression, equivAll as bs = true →
    allFoldable as = allFoldable bs
  | [], [], _ => rfl
  | a :: as, b :: bs, h => by
    rw [equivAll, Bool.and_eq_true] at h
    rw [allFoldable, allFoldable, isFoldable_of_equiv a b h.1, allFoldable_of_equivAll as bs h.2]
  | [], _ :: _, h => by cases h
  | _ :: _, [], h => by cases h

end

section Stopping

-- Nothing that follows `stop` happens, as after a failure or where there is no value.
variable {m : Type → Type} [Monad m] [LawfulMonad m]
  {replace : ColumnBinding → LogicalType → m Expression}
  {place : ColumnBinding → LogicalType → Expression} {readable : ColumnBinding → Bool}
  {stop : ∀ {α : Type}, ColumnBinding → m α}
  (hstop : ∀ (α β : Type) (b : ColumnBinding) (next : α → m β), stop b >>= next = stop b)

include hstop

/-- What follows a step that may stop is made of its value, or does not happen. -/
private theorem stop_or_bind {α β : Type} (stopped : Option ColumnBinding) (a : α) (f : α → β) :
    ((match stopped with
      | none => pure a
      | some b => stop b) >>= fun a => pure (f a)) =
      match stopped with
      | none => pure (f a)
      | some b => stop b := by
  cases stopped with
  | none => exact pure_bind _ _
  | some b => exact hstop α β b _

/-- Of two steps that may stop the second happens if the first has not stopped. -/
private theorem stop_or_bind₂ {α β γ : Type} (first second : Option ColumnBinding) (a : α) (b : β)
    (f : α → β → γ) :
    ((match first with
      | none => pure a
      | some c => stop c) >>= fun a =>
      (match second with
        | none => pure b
        | some c => stop c) >>= fun b => pure (f a b)) =
      match first.or second with
      | none => pure (f a b)
      | some c => stop c := by
  cases first with
  | none =>
    rw [Option.none_or]
    exact (pure_bind _ _).trans (stop_or_bind hstop second b (f a))
  | some c => exact hstop α γ c _

/-- Columns of several expressions are replaced one expression after the other, if so they are in
each. -/
private theorem mapM_mapColumns_eq_find? {es : List Expression}
    (h : ∀ e ∈ es, e.mapColumns replace =
      match e.columnBindings.find? (!readable ·) with
      | none => pure (e.mapColumns (m := Id) place)
      | some b => stop b) :
    es.mapM (mapColumns replace) =
      match (es.flatMap columnBindings).find? (!readable ·) with
      | none => pure (es.map (mapColumns (m := Id) place))
      | some b => stop b := by
  induction es with
  | nil => rfl
  | cons e rest ih =>
    rw [List.forall_mem_cons] at h
    rw [List.mapM_cons, h.1, ih h.2, List.flatMap_cons, List.find?_append]
    exact stop_or_bind₂ hstop _ _ _ _ _

/-- Columns are replaced from left to right, which stops at the first that cannot be read. -/
theorem mapColumns_eq_find?
    (hreplace : ∀ b type, replace b type = if readable b then pure (place b type) else stop b)
    (e : Expression) : e.mapColumns replace =
      match e.columnBindings.find? (!readable ·) with
      | none => pure (e.mapColumns (m := Id) place)
      | some b => stop b := by
  induction e using children_induction with
  | step e ih =>
    obtain ⟨b, type, rfl⟩ | hcolumn := e.column_or
    · rw [mapColumns, hreplace, columnBindings, List.find?_singleton]
      cases readable b <;> rfl
    · rw [mapColumns_eq_withChildren replace hcolumn, mapM_mapColumns_eq_find? hstop ih,
        columnBindings_eq_flatMap hcolumn, mapColumns_id_eq_withChildren place hcolumn,
        ← bind_pure_comp]
      exact stop_or_bind hstop _ _ _

end Stopping

section Columns

variable {replace? : ColumnBinding → LogicalType → Option Expression}
  {replace : ColumnBinding → LogicalType → Expression} {readable : ColumnBinding → Bool}

/-- The columns of an expression can be replaced if all of them can be read. -/
theorem mapColumns_of_readable
    (hreplace : ∀ b type, replace? b type = if readable b then some (replace b type) else none)
    (e : Expression) : e.mapColumns replace? =
      if e.columnBindings.all readable then some (e.mapColumns (m := Id) replace) else none := by
  have hfirst := @mapColumns_eq_find? Option _ _ replace? replace readable (fun _ => none)
    (fun _ _ _ _ => rfl) hreplace e
  rw [hfirst, List.all_eq_not_any_not, ← List.isSome_find?]
  cases e.columnBindings.find? (!readable ·) <;> rfl

mutual

/-- Replacing columns by what is not foldable either changes nothing about an expression being
foldable. -/
theorem isFoldable_mapColumns (hreplace : ∀ b type, (replace b type).isFoldable = false) :
    ∀ e : Expression, Expression.isFoldable (e.mapColumns (m := Id) replace) = e.isFoldable
  | column b type => hreplace b type
  | reference .. => rfl
  | constant .. => rfl
  | call function arguments =>
    congrArg (!function.volatile && ·) (allFoldable_mapColumnsOfAll hreplace arguments)
  | comparison _ left right =>
    congrArg₂ (· && ·) (isFoldable_mapColumns hreplace left) (isFoldable_mapColumns hreplace right)
  | conjunction _ operands => allFoldable_mapColumnsOfAll hreplace operands
  | negation operand => isFoldable_mapColumns hreplace operand
  | isNull operand => isFoldable_mapColumns hreplace operand
  | isNotNull operand => isFoldable_mapColumns hreplace operand

/-- Replacing columns by what is not foldable either changes nothing about a list being foldable. -/
theorem allFoldable_mapColumnsOfAll (hreplace : ∀ b type, (replace b type).isFoldable = false) :
    ∀ es : List Expression,
    allFoldable (mapColumnsOfAll (m := Id) replace es) = allFoldable es
  | [] => rfl
  | e :: rest =>
    congrArg₂ (· && ·) (isFoldable_mapColumns hreplace e)
      (allFoldable_mapColumnsOfAll hreplace rest)

end

end Columns

section Replacing

variable {m : Type → Type} [Monad m] [LawfulMonad m]
  {replace : ColumnBinding → LogicalType → m Expression}
  {place : ColumnBinding → LogicalType → Expression}

/-- Replacing columns cannot fail if every column that is read has a replacement. -/
theorem mapColumns_eq_pure (e : Expression)
    (h : ∀ b ∈ e.columnBindings, ∀ type, replace b type = pure (place b type)) :
    e.mapColumns replace = pure (e.mapColumns (m := Id) place) := by
  induction e using children_induction with
  | step e ih =>
    obtain ⟨b, type, rfl⟩ | hcolumn := e.column_or
    · exact h b (List.mem_singleton_self b) type
    · rw [columnBindings_eq_flatMap hcolumn] at h
      have hbelow (child : Expression) (hchild : child ∈ e.children) :
          child.mapColumns replace = pure (child.mapColumns (m := Id) place) :=
        ih child hchild fun b hb => h b (List.mem_flatMap_of_mem hchild hb)
      rw [mapColumns_eq_withChildren replace hcolumn, mapM_congr hbelow, List.mapM_pure, map_pure,
        mapColumns_id_eq_withChildren place hcolumn]

/-- Replacing columns twice is replacing them by the outcome of both replacements. -/
theorem mapColumns_mapColumns (e : Expression) :
    Expression.mapColumns replace (e.mapColumns (m := Id) place) =
      e.mapColumns fun b type => (place b type).mapColumns replace := by
  induction e using children_induction with
  | step e ih =>
    obtain ⟨b, type, rfl⟩ | hcolumn := e.column_or
    · rfl
    · rw [mapColumns_id_eq_withChildren place hcolumn,
        mapColumns_eq_withChildren _ (withChildren_ne_column hcolumn),
        children_withChildren (List.length_map _), List.mapM_map,
        mapColumns_eq_withChildren _ hcolumn]
      refine (map_mapM_congr fun es h => withChildren_withChildren h).trans ?_
      exact congrArg (e.withChildren <$> ·) (mapM_congr ih)

end Replacing

end Expression

end SpatialIndex
