import SpatialIndex.Expression.Evaluate
import SpatialIndex.Proofs.Geometry.Bounds
import Mathlib.Data.List.Forall2

/-!
# Values that are the same

Two values are the same when they are identical or equal as values are compared.  What tells them
apart then are signs of zeros, which no comparison sees.
-/

namespace SpatialIndex

namespace Value

/-- The values are identical, as a NaN is with itself, or equal. -/
def Same (v w : Value) : Prop := v = w ∨ (v == w) = true

/-- The value, zeros without their signs. -/
def plain : Value → Value
  | double x => .double x.plain
  | geometry g => .geometry g.plain
  | value => value

variable {v w v' w' : Value}

/-- Every value is the same as itself, a NaN too. -/
theorem Same.refl (v : Value) : v.Same v := .inl rfl

/-- Values that are equal are of one kind and differ at most in signs of zeros. -/
theorem plain_eq_of_equiv (h : v.equiv w = true) : v.plain = w.plain := by
  cases v <;> cases w <;> simp only [equiv, Bool.false_eq_true, beq_iff_eq] at h
  · rfl
  · rw [h]
  · rw [h]
  · exact congrArg Value.double (Binary.plain_eq_of_equiv h)
  · rw [h]
  · exact congrArg Value.geometry (Geometry.plain_eq_of_equiv _ _ h)

/-- Values that are the same differ at most in the signs of their zeros. -/
theorem Same.plain_eq (h : v.Same w) : v.plain = w.plain := by
  rcases h with h | h
  · rw [h]
  · exact plain_eq_of_equiv h

/-- Lists of values that are the same place by place differ at most in the signs of zeros. -/
theorem map_plain_eq {vs ws : List Value} (h : List.Forall₂ Same vs ws) :
    vs.map (·.plain) = ws.map (·.plain) := by
  induction h with
  | nil => rfl
  | cons hhead _ ih => rw [List.map_cons, List.map_cons, hhead.plain_eq, ih]

/-- Nothing but null is the same as null. -/
theorem Same.eq_null (h : null.Same w) : w = .null := by
  have hplain := h.plain_eq
  cases w <;> first | rfl | cases hplain

/-- Nothing but a truth value is the same as it. -/
theorem Same.eq_boolean {b : Bool} (h : (boolean b).Same w) : w = .boolean b := by
  have hplain := h.plain_eq
  cases w <;> cases hplain
  rfl

/-- What is the same as a shape is a shape that differs at most in the signs of zeros. -/
theorem Same.eq_geometry {g : Geometry} (h : (geometry g).Same w) :
    ∃ g' : Geometry, w = .geometry g' ∧ g.plain = g'.plain := by
  have hplain := h.plain_eq
  cases w with
  | geometry g' => exact ⟨g', rfl, Value.geometry.inj hplain⟩
  | _ => cases hplain

/-- A value without the signs of its zeros is null when the value is. -/
theorem isNull_plain (v : Value) : v.plain.isNull = v.isNull := by cases v <;> rfl

/-- Of two values that are the same both are null or none is. -/
theorem Same.isNull_eq (h : v.Same w) : v.isNull = w.isNull := by
  rw [← isNull_plain, h.plain_eq, isNull_plain]

/-- The order of values does not depend on signs of zeros. -/
theorem compare?_plain (v w : Value) : v.plain.compare? w.plain = v.compare? w := by
  cases v <;> cases w <;>
    simp only [plain, compare?, Binary.compare?, Binary.isNaN_plain, Binary.key_plain]

end Value

open Value

/-- The signs of zeros do not matter to the comparison of two values. -/
theorem compareValues_eq_ok_iff {op : CompareOp} {v w r : Value} :
    compareValues op v w = .ok r ↔ compareValues op v.plain w.plain = .ok r := by
  unfold compareValues
  rw [isNull_plain, isNull_plain, compare?_plain]
  split
  · rfl
  · split
    · rfl
    · simp

/-- Comparing values gives what comparing the same values gives. -/
theorem compareValues_same {op : CompareOp} {v v' w w' r r' : Value} (hv : v.Same v')
    (hw : w.Same w') (hr : compareValues op v w = .ok r) (hr' : compareValues op v' w' = .ok r') :
    r = r' := by
  rw [compareValues_eq_ok_iff, hv.plain_eq, hw.plain_eq, ← compareValues_eq_ok_iff, hr'] at hr
  exact (Except.ok.inj hr).symm

/-- The opposite of a value is the opposite of every value that is the same. -/
theorem negateValue_same {v v' r r' : Value} (hv : v.Same v') (hr : negateValue v = .ok r)
    (hr' : negateValue v' = .ok r') : r = r' := by
  cases v with
  | null =>
    rw [hv.eq_null, hr] at hr'
    exact Except.ok.inj hr'
  | boolean b =>
    rw [hv.eq_boolean, hr] at hr'
    exact Except.ok.inj hr'
  | _ => cases hr

end SpatialIndex
