import SpatialIndex.Number.Binary

/-!
# Comparing floating-point numbers

Comparisons of patterns that are not NaN are comparisons of their integer keys, so the laws of
order come from those of whole numbers.
-/

namespace SpatialIndex.Binary

variable {f : Format} {x y z : Binary f}

/-- A number is not greater when neither is NaN and its key is not greater. -/
theorem le_iff : x.le y = true ↔ x.isNaN = false ∧ y.isNaN = false ∧ x.key ≤ y.key := by
  simp [le, and_assoc]

/-- A number is less when neither is NaN and its key is less. -/
theorem lt_iff : x.lt y = true ↔ x.isNaN = false ∧ y.isNaN = false ∧ x.key < y.key := by
  simp [lt, and_assoc]

/-- Numbers are equal when neither is NaN and they have the same key. -/
theorem equiv_iff : x.equiv y = true ↔ x.isNaN = false ∧ y.isNaN = false ∧ x.key = y.key := by
  simp [equiv, and_assoc]

/-- A number that is not greater than one that is not greater than a third is not greater than the
third. -/
theorem le_trans (hxy : x.le y = true) (hyz : y.le z = true) : x.le z = true := by
  obtain ⟨hx, _, hxy⟩ := le_iff.mp hxy
  obtain ⟨_, hz, hyz⟩ := le_iff.mp hyz
  exact le_iff.mpr ⟨hx, hz, Int.le_trans hxy hyz⟩

/-- A number that is not greater than one that is less than a third is less than the third. -/
theorem lt_of_le_of_lt (hxy : x.le y = true) (hyz : y.lt z = true) : x.lt z = true := by
  obtain ⟨hx, _, hxy⟩ := le_iff.mp hxy
  obtain ⟨_, hz, hyz⟩ := lt_iff.mp hyz
  exact lt_iff.mpr ⟨hx, hz, Int.lt_of_le_of_lt hxy hyz⟩

/-- A number that is less than one that is not greater than a third is less than the third. -/
theorem lt_of_lt_of_le (hxy : x.lt y = true) (hyz : y.le z = true) : x.lt z = true := by
  obtain ⟨hx, _, hxy⟩ := lt_iff.mp hxy
  obtain ⟨_, hz, hyz⟩ := le_iff.mp hyz
  exact lt_iff.mpr ⟨hx, hz, Int.lt_of_lt_of_le hxy hyz⟩

/-- A finite number is a number. -/
theorem isNaN_of_isFinite (h : x.isFinite = true) : x.isNaN = false := by
  simp only [isFinite, isNaN, decide_eq_true_eq, decide_eq_false_iff_not] at h ⊢
  omega

/-- No number lies beyond the infinities. -/
theorem natAbs_key_le (hx : x.isNaN = false) : x.key.natAbs ≤ f.infinity := by
  have hmagnitude : x.magnitude ≤ f.infinity := by simpa [isNaN] using hx
  unfold key
  split <;> omega

/-- The one is the positive zero and the other the negative one. -/
def ZerosReversed (x y : Binary f) : Prop :=
  x.isZero = true ∧ x.negative = false ∧ y.isZero = true ∧ y.negative = true

/-- The total order is the numeric one, except that it puts the negative zero before the positive
one. -/
theorem totalKey_le_iff : x.totalKey ≤ y.totalKey ↔ x.key ≤ y.key ∧ ¬x.ZerosReversed y := by
  simp only [ZerosReversed, totalKey, key, isZero, decide_eq_true_eq]
  cases hx : x.negative with
  | true =>
    cases hy : y.negative with
    | true => simp
    | false => simp; omega
  | false =>
    cases hy : y.negative with
    | true => simp; omega
    | false => simp

/-- The lesser of two is less than a third when either one is; NaN is less than nothing. -/
theorem min_lt_iff : (x.min y).lt z = true ↔ x.lt z = true ∨ y.lt z = true := by
  unfold Binary.min
  split
  · rename_i hfirst
    refine ⟨.inr, fun h => h.elim (fun hxz => ?_) id⟩
    rcases Bool.or_eq_true_iff.mp hfirst with hx | hyx
    · simp [lt_iff, hx] at hxz
    · exact lt_of_le_of_lt hyx hxz
  · rename_i hfirst
    simp only [Bool.or_eq_true, not_or, le_iff, not_and, Bool.not_eq_true] at hfirst
    refine ⟨.inl, fun h => h.elim id fun hyz => ?_⟩
    obtain ⟨hy, hz, hlt⟩ := lt_iff.mp hyz
    have hbefore := hfirst.2 hy hfirst.1
    exact lt_iff.mpr ⟨hfirst.1, hz, by omega⟩

/-- The greater of two exceeds a third when either one does; NaN exceeds nothing. -/
theorem lt_max_iff : z.lt (x.max y) = true ↔ z.lt x = true ∨ z.lt y = true := by
  unfold Binary.max
  split
  · rename_i hfirst
    refine ⟨.inr, fun h => h.elim (fun hzx => ?_) id⟩
    rcases Bool.or_eq_true_iff.mp hfirst with hx | hxy
    · simp [lt_iff, hx] at hzx
    · exact lt_of_lt_of_le hzx hxy
  · rename_i hfirst
    simp only [Bool.or_eq_true, not_or, le_iff, not_and, Bool.not_eq_true] at hfirst
    refine ⟨.inl, fun h => h.elim id fun hzy => ?_⟩
    obtain ⟨hz, hy, hlt⟩ := lt_iff.mp hzy
    have hbefore := hfirst.2 hfirst.1 hy
    exact lt_iff.mpr ⟨hz, hfirst.1, by omega⟩

section Extremes

variable (hx : x.isNaN = false)

include hx

/-- The lesser of a number and anything is a number. -/
theorem isNaN_min : (x.min y).isNaN = false := by
  unfold Binary.min
  rw [hx, Bool.false_or]
  split
  · rename_i hyx
    exact (le_iff.mp hyx).1
  · exact hx

/-- The greater of a number and anything is a number. -/
theorem isNaN_max : (x.max y).isNaN = false := by
  unfold Binary.max
  rw [hx, Bool.false_or]
  split
  · rename_i hxy
    exact (le_iff.mp hxy).2.1
  · exact hx

end Extremes

end SpatialIndex.Binary
