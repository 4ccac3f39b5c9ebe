import SpatialIndex.Proofs.Expression.Substitution
import SpatialIndex.Proofs.Value

/-!
# Equal expressions

Expressions count as equal although their constants may differ in signs of zeros.  Where functions
do not tell such values apart, equal expressions come to values that are the same.
-/

namespace SpatialIndex

/-- Calls of a function on the same arguments come to the same value. -/
def Registry.RespectsEquality (registry : Registry) : Prop :=
  ∀ (name : String) (arguments arguments' : List Value) (v w : Value),
    List.Forall₂ Value.Same arguments arguments' → registry.invoke name arguments = .ok v →
      registry.invoke name arguments' = .ok w → v.Same w

/-- Joining with the same value gives the same, if what comes after it does. -/
theorem ConjunctionOp.join_same {op : ConjunctionOp} {v v' r r' : Value}
    {known known' unknown unknown' : Except Error Value} (hv : v.Same v')
    (hknown : known = .ok r → known' = .ok r' → r.Same r')
    (hunknown : unknown = .ok r → unknown' = .ok r' → r.Same r')
    (hr : op.join v known unknown = .ok r) (hr' : op.join v' known' unknown' = .ok r') :
    r.Same r' := by
  cases v with
  | null =>
    rw [hv.eq_null] at hr'
    exact hunknown hr hr'
  | boolean b =>
    rw [hv.eq_boolean, join] at hr'
    rw [join] at hr
    split at hr
    · rw [if_pos ‹_›] at hr'
      rw [← Except.ok.inj hr, ← Except.ok.inj hr']
      exact .refl _
    · rw [if_neg ‹_›] at hr'
      exact hknown hr hr'
  | _ => cases hr

namespace Expression

variable {registry : Registry} {source : Source}

mutual

/-- Equal expressions come to the same value, when both come to one. -/
theorem same_of_equiv (hequality : registry.RespectsEquality) :
    ∀ (a b : Expression) (v w : Value), a.equiv b = true →
    a.evaluateFrom registry source = .ok v → b.evaluateFrom registry source = .ok w → v.Same w
  -- Expressions of different kinds are not equal, so each case meets its own kind alone.
  | column binding _, b, v, w, h, hv, hw => by
    cases b with
    | column binding' _ =>
      rw [equiv, Bool.and_eq_true, beq_iff_eq] at h
      rw [evaluateFrom] at hv hw
      rw [h.1, hw] at hv
      exact .inl (Except.ok.inj hv).symm
    | _ => cases h
  | reference k _, b, v, w, h, hv, hw => by
    cases b with
    | reference k' _ =>
      rw [equiv, Bool.and_eq_true, beq_iff_eq] at h
      rw [evaluateFrom] at hv hw
      rw [h.1, hw] at hv
      exact .inl (Except.ok.inj hv).symm
    | _ => cases h
  | constant value _, b, v, w, h, hv, hw => by
    cases b with
    | constant value' _ =>
      rw [equiv, Bool.and_eq_true] at h
      rw [← Except.ok.inj hv, ← Except.ok.inj hw]
      exact .inr h.1
    | _ => cases h
  | call function arguments, b, v, w, h, hv, hw => by
    cases b with
    | call function' arguments' =>
      rw [equiv, Bool.and_eq_true, beq_iff_eq] at h
      rw [evaluateFrom, bind_eq_ok] at hv hw
      obtain ⟨vs, hvs, hv⟩ := hv
      obtain ⟨ws, hws, hw⟩ := hw
      rw [← h.1] at hw
      exact hequality _ _ _ _ _
        (same_of_equivAll hequality arguments arguments' vs ws h.2 hvs hws) hv hw
    | _ => cases h
  | comparison op left right, b, v, w, h, hv, hw => by
    cases b with
    | comparison op' left' right' =>
      rw [equiv, Bool.and_eq_true, Bool.and_eq_true, beq_iff_eq] at h
      obtain ⟨⟨rfl, hleft⟩, hright⟩ := h
      simp only [evaluateFrom, bind_eq_ok] at hv hw
      obtain ⟨l, hl, r, hr, hv⟩ := hv
      obtain ⟨l', hl', r', hr', hw⟩ := hw
      exact .inl (compareValues_same (same_of_equiv hequality left left' l l' hleft hl hl')
        (same_of_equiv hequality right right' r r' hright hr hr') hv hw)
    | _ => cases h
  | conjunction op operands, b, v, w, h, hv, hw => by
    cases b with
    | conjunction op' operands' =>
      rw [equiv, Bool.and_eq_true, beq_iff_eq] at h
      obtain ⟨rfl, h⟩ := h
      exact conjunction_same_of_equivAll hequality op false operands operands' v w h hv hw
    | _ => cases h
  | negation operand, b, v, w, h, hv, hw => by
    cases b with
    | negation operand' =>
      rw [evaluateFrom, bind_eq_ok] at hv hw
      obtain ⟨x, hx, hv⟩ := hv
      obtain ⟨y, hy, hw⟩ := hw
      exact .inl (negateValue_same (same_of_equiv hequality operand operand' x y h hx hy) hv hw)
    | _ => cases h
  | isNull operand, b, v, w, h, hv, hw => by
    cases b with
    | isNull operand' =>
      rw [evaluateFrom, bind_eq_ok] at hv hw
      obtain ⟨x, hx, hv⟩ := hv
      obtain ⟨y, hy, hw⟩ := hw
      rw [← Except.ok.inj hv, ← Except.ok.inj hw,
        (same_of_equiv hequality operand operand' x y h hx hy).isNull_eq]
      exact .refl _
    | _ => cases h
  | isNotNull operand, b, v, w, h, hv, hw => by
    cases b with
    | isNotNull operand' =>
      rw [evaluateFrom, bind_eq_ok] at hv hw
      obtain ⟨x, hx, hv⟩ := hv
      obtain ⟨y, hy, hw⟩ := hw
      rw [← Except.ok.inj hv, ← Except.ok.inj hw,
        (same_of_equiv hequality operand operand' x y h hx hy).isNull_eq]
      exact .refl _
    | _ => cases h

/-- Lists of equal expressions come to lists of values that are the same place by place. -/
theorem same_of_equivAll (hequality : registry.RespectsEquality) :
    ∀ (as bs : List Expression) (vs ws : List Value), equivAll as bs = true →
    evaluateAllFrom registry source as = .ok vs → evaluateAllFrom registry source bs = .ok ws →
      List.Forall₂ Value.Same vs ws
  | [], [], vs, ws, _, hvs, hws => by
    rw [← Except.ok.inj hvs, ← Except.ok.inj hws]
    exact .nil
  | a :: as, b :: bs, vs, ws, h, hvs, hws => by
    rw [equivAll, Bool.and_eq_true] at h
    simp only [evaluateAllFrom, bind_eq_ok] at hvs hws
    obtain ⟨v, hv, vs', hvs', hvs⟩ := hvs
    obtain ⟨w, hw, ws', hws', hws⟩ := hws
    rw [← Except.ok.inj hvs, ← Except.ok.inj hws]
    exact .cons (same_of_equiv hequality a b v w h.1 hv hw)
      (same_of_equivAll hequality as bs vs' ws' h.2 hvs' hws')
  | [], _ :: _, _, _, h, _, _ => by cases h
  | _ :: _, [], _, _, h, _, _ => by cases h

/-- Equal operands joined in the same way come to the same value. -/
theorem conjunction_same_of_equivAll (hequality : registry.RespectsEquality)
    (op : ConjunctionOp) :
    ∀ (sawNull : Bool) (as bs : List Expression) (v w : Value), equivAll as bs = true →
      evaluateConjunctionFrom registry source op sawNull as = .ok v →
        evaluateConjunctionFrom registry source op sawNull bs = .ok w → v.Same w
  | _, [], [], v, w, _, hv, hw => by
    rw [evaluateConjunctionFrom] at hv hw
    rw [hw] at hv
    exact .inl (Except.ok.inj hv).symm
  | sawNull, a :: as, b :: bs, v, w, h, hv, hw => by
    rw [equivAll, Bool.and_eq_true] at h
    rw [evaluateConjunctionFrom, bind_eq_ok] at hv hw
    obtain ⟨x, hx, hv⟩ := hv
    obtain ⟨y, hy, hw⟩ := hw
    exact ConjunctionOp.join_same (same_of_equiv hequality a b x y h.1 hx hy)
      (conjunction_same_of_equivAll hequality op sawNull as bs v w h.2)
      (conjunction_same_of_equivAll hequality op true as bs v w h.2) hv hw
  | _, [], _ :: _, _, _, h, _, _ => by cases h
  | _, _ :: _, [], _, _, h, _, _ => by cases h

end

end Expression

end SpatialIndex
