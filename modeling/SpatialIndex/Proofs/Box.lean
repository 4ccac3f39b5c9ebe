import SpatialIndex.Box
import SpatialIndex.Proofs.Number.Comparison

/-!
# The algebra of boxes

Boxes without NaN are compared by the keys of their four sides.  The union of a list is the least
box that covers its members, and a box that contains another one meets every box that the other one
meets; pruning a search rests on these two laws.
-/

namespace SpatialIndex.Box

/-- No side is NaN; a side may be infinite and an axis the wrong way round. -/
structure IsNumeric (b : Box) : Prop where
  /-- The left side is a number. -/
  minX : b.minX.isNaN = false
  /-- The lower side is a number. -/
  minY : b.minY.isNaN = false
  /-- The right side is a number. -/
  maxX : b.maxX.isNaN = false
  /-- The upper side is a number. -/
  maxY : b.maxY.isNaN = false

variable {a b c q : Box}

/-- A valid box has no NaN side. -/
theorem isNumeric_of_isValid (h : b.isValid = true) : b.IsNumeric := by
  simp only [isValid, Bool.and_eq_true] at h
  obtain ⟨⟨⟨⟨⟨hminX, hminY⟩, hmaxX⟩, hmaxY⟩, _⟩, _⟩ := h
  exact ⟨Binary.isNaN_of_isFinite hminX, Binary.isNaN_of_isFinite hminY,
    Binary.isNaN_of_isFinite hmaxX, Binary.isNaN_of_isFinite hmaxY⟩

/-- The empty box has no NaN side, its sides being infinite. -/
theorem isNumeric_empty : empty.IsNumeric := ⟨by decide, by decide, by decide, by decide⟩

/-- A union with a numeric box is numeric: what is NaN of the other one is left out. -/
theorem IsNumeric.union (ha : a.IsNumeric) : (a.union b).IsNumeric :=
  ⟨Binary.isNaN_min ha.minX, Binary.isNaN_min ha.minY, Binary.isNaN_max ha.maxX,
    Binary.isNaN_max ha.maxY⟩

/-- Boxes are equal when they have no NaN side and their sides are the same numbers. -/
theorem equiv_iff : a.equiv b = true ↔ a.IsNumeric ∧ b.IsNumeric ∧ a.minX.key = b.minX.key ∧
    a.minY.key = b.minY.key ∧ a.maxX.key = b.maxX.key ∧ a.maxY.key = b.maxY.key := by
  simp only [equiv, Bool.and_eq_true, Binary.equiv_iff]
  constructor
  · rintro ⟨⟨⟨⟨ha₁, hb₁, h₁⟩, ha₂, hb₂, h₂⟩, ha₃, hb₃, h₃⟩, ha₄, hb₄, h₄⟩
    exact ⟨⟨ha₁, ha₂, ha₃, ha₄⟩, ⟨hb₁, hb₂, hb₃, hb₄⟩, h₁, h₂, h₃, h₄⟩
  · rintro ⟨ha, hb, h₁, h₂, h₃, h₄⟩
    exact ⟨⟨⟨⟨ha.minX, hb.minX, h₁⟩, ha.minY, hb.minY, h₂⟩, ha.maxX, hb.maxX, h₃⟩,
      ha.maxY, hb.maxY, h₄⟩

/-- A box without NaN is equal to itself. -/
theorem equiv_refl (ha : a.IsNumeric) : a.equiv a = true :=
  equiv_iff.mpr ⟨ha, ha, rfl, rfl, rfl, rfl⟩

/-- A box contains another when none has a NaN side and no side of the inner one is beyond that of
the outer one. -/
theorem contains_iff : c.contains a = true ↔ c.IsNumeric ∧ a.IsNumeric ∧
    c.minX.key ≤ a.minX.key ∧ a.maxX.key ≤ c.maxX.key ∧
    c.minY.key ≤ a.minY.key ∧ a.maxY.key ≤ c.maxY.key := by
  simp only [contains, Bool.and_eq_true, Binary.le_iff]
  constructor
  · rintro ⟨⟨⟨⟨hc₁, ha₁, h₁⟩, ha₂, hc₂, h₂⟩, hc₃, ha₃, h₃⟩, ha₄, hc₄, h₄⟩
    exact ⟨⟨hc₁, hc₃, hc₂, hc₄⟩, ⟨ha₁, ha₃, ha₂, ha₄⟩, h₁, h₂, h₃, h₄⟩
  · rintro ⟨hc, ha, h₁, h₂, h₃, h₄⟩
    exact ⟨⟨⟨⟨hc.minX, ha.minX, h₁⟩, ha.maxX, hc.maxX, h₂⟩, hc.minY, ha.minY, h₃⟩,
      ha.maxY, hc.maxY, h₄⟩

/-- A box without NaN contains itself. -/
theorem contains_refl (ha : a.IsNumeric) : a.contains a = true :=
  contains_iff.mpr ⟨ha, ha, Int.le_refl _, Int.le_refl _, Int.le_refl _, Int.le_refl _⟩

/-- What is contained in a contained box is contained. -/
theorem contains_trans (hcb : c.contains b = true) (hba : b.contains a = true) :
    c.contains a = true := by
  obtain ⟨hc, _, h₁, h₂, h₃, h₄⟩ := contains_iff.mp hcb
  obtain ⟨_, ha, k₁, k₂, k₃, k₄⟩ := contains_iff.mp hba
  exact contains_iff.mpr ⟨hc, ha, by omega, by omega, by omega, by omega⟩

/-- No side of `a` reaches beyond the same side of `c`; a side that is NaN reaches nowhere. -/
def Covers (c a : Box) : Prop :=
  ¬a.minX.lt c.minX = true ∧ ¬a.minY.lt c.minY = true ∧
    ¬c.maxX.lt a.maxX = true ∧ ¬c.maxY.lt a.maxY = true

/-- Among numeric boxes, to cover is to contain. -/
theorem covers_iff_contains (hc : c.IsNumeric) (ha : a.IsNumeric) :
    c.Covers a ↔ c.contains a = true := by
  simp only [Covers, contains_iff, Binary.lt_iff, hc.minX, hc.minY, hc.maxX, hc.maxY, ha.minX,
    ha.minY, ha.maxX, ha.maxY, hc, ha, true_and, Int.not_lt]
  omega

/-- A box without NaN covers itself. -/
theorem covers_refl (ha : a.IsNumeric) : a.Covers a :=
  (covers_iff_contains ha ha).mpr (contains_refl ha)

/-- Boxes that are numerically the same are covered by the same boxes. -/
theorem covers_congr (h : a.equiv b = true) : c.Covers a ↔ c.Covers b := by
  obtain ⟨ha, hb, h₁, h₂, h₃, h₄⟩ := equiv_iff.mp h
  simp only [Covers, Binary.lt_iff, ha.minX, ha.minY, ha.maxX, ha.maxY, hb.minX, hb.minY, hb.maxX,
    hb.maxY, h₁, h₂, h₃, h₄]

/-- Numeric boxes that cover each other are the same. -/
theorem equiv_of_covers (ha : a.IsNumeric) (hb : b.IsNumeric) (hab : a.Covers b)
    (hba : b.Covers a) : a.equiv b = true := by
  obtain ⟨_, _, h₁, h₂, h₃, h₄⟩ := contains_iff.mp ((covers_iff_contains ha hb).mp hab)
  obtain ⟨_, _, k₁, k₂, k₃, k₄⟩ := contains_iff.mp ((covers_iff_contains hb ha).mp hba)
  exact equiv_iff.mpr ⟨ha, hb, by omega, by omega, by omega, by omega⟩

/-- The empty box reaches nowhere, so any box covers it. -/
theorem covers_empty (c : Box) : c.Covers empty := by
  have hlow (x : Single) : ¬(Binary.infinite false : Single).lt x = true := by
    intro h
    obtain ⟨_, hx, hlt⟩ := Binary.lt_iff.mp h
    have hkey : (Binary.infinite false : Single).key = Format.single.infinity := by decide +kernel
    have := Binary.natAbs_key_le hx
    omega
  have hhigh (x : Single) : ¬x.lt (Binary.infinite true : Single) = true := by
    intro h
    obtain ⟨hx, _, hlt⟩ := Binary.lt_iff.mp h
    have hkey : (Binary.infinite true : Single).key = -(Format.single.infinity : Int) := by
      decide +kernel
    have := Binary.natAbs_key_le hx
    omega
  exact ⟨hlow _, hlow _, hhigh _, hhigh _⟩

/-- A union is the least box around both: it is covered by what covers both. -/
theorem covers_union_iff : c.Covers (a.union b) ↔ c.Covers a ∧ c.Covers b := by
  simp only [Covers, union, Binary.min_lt_iff, Binary.lt_max_iff, not_or]
  constructor
  · rintro ⟨⟨ha₁, hb₁⟩, ⟨ha₂, hb₂⟩, ⟨ha₃, hb₃⟩, ha₄, hb₄⟩
    exact ⟨⟨ha₁, ha₂, ha₃, ha₄⟩, hb₁, hb₂, hb₃, hb₄⟩
  · rintro ⟨⟨ha₁, ha₂, ha₃, ha₄⟩, hb₁, hb₂, hb₃, hb₄⟩
    exact ⟨⟨ha₁, hb₁⟩, ⟨ha₂, hb₂⟩, ⟨ha₃, hb₃⟩, ha₄, hb₄⟩

section List

variable {bs : List Box}

/-- A box covers a union when it covers the boxes that have been united. -/
private theorem covers_foldl_iff :
    c.Covers (bs.foldl union a) ↔ c.Covers a ∧ ∀ b ∈ bs, c.Covers b := by
  induction bs generalizing a with
  | nil => simp
  | cons b bs ih => rw [List.foldl_cons, ih, covers_union_iff, List.forall_mem_cons, and_assoc]

/-- The union of a list is covered by what covers all its members; in which order they come and how
often does not matter. -/
theorem covers_unionAll_iff : c.Covers (unionAll bs) ↔ ∀ b ∈ bs, c.Covers b := by
  rw [unionAll, covers_foldl_iff]
  exact and_iff_right (covers_empty c)

/-- Uniting boxes with one that has no NaN side gives none that has. -/
private theorem isNumeric_foldl (ha : a.IsNumeric) : (bs.foldl union a).IsNumeric := by
  induction bs generalizing a with
  | nil => exact ha
  | cons b bs ih => exact ih ha.union

/-- The union of a list is numeric, be its members so or not. -/
theorem isNumeric_unionAll (bs : List Box) : (unionAll bs).IsNumeric :=
  isNumeric_foldl isNumeric_empty

end List

/-- Boxes meet unless one ends before the other begins on some axis. -/
theorem intersects_iff : a.intersects b = true ↔
    ¬a.maxX.lt b.minX = true ∧ ¬b.maxX.lt a.minX = true ∧
      ¬a.maxY.lt b.minY = true ∧ ¬b.maxY.lt a.minY = true := by
  simp [intersects, and_assoc]

/-- A valid box meets every box around it. -/
theorem intersects_of_isValid (ha : a.isValid = true) (hca : c.contains a = true) :
    a.intersects c = true := by
  obtain ⟨_, _, h₁, h₂, h₃, h₄⟩ := contains_iff.mp hca
  simp only [isValid, Bool.and_eq_true, Binary.le_iff] at ha
  obtain ⟨⟨_, _, _, hx⟩, _, _, hy⟩ := ha
  simp only [intersects_iff, Binary.lt_iff]
  exact ⟨by omega, by omega, by omega, by omega⟩

/-- What meets a box meets every box around it. -/
theorem intersects_of_contains (hca : c.contains a = true) (haq : a.intersects q = true) :
    c.intersects q = true := by
  simp only [contains, Bool.and_eq_true] at hca
  obtain ⟨⟨⟨hminX, hmaxX⟩, hminY⟩, hmaxY⟩ := hca
  obtain ⟨hright, hleft, habove, hbelow⟩ := intersects_iff.mp haq
  exact intersects_iff.mpr ⟨fun h => hright (Binary.lt_of_le_of_lt hmaxX h),
    fun h => hleft (Binary.lt_of_lt_of_le h hminX),
    fun h => habove (Binary.lt_of_le_of_lt hmaxY h),
    fun h => hbelow (Binary.lt_of_lt_of_le h hminY)⟩

/-- Which of two boxes is asked does not matter to whether they meet. -/
theorem intersects_comm : a.intersects b = true ↔ b.intersects a = true := by
  rw [intersects_iff, intersects_iff]
  constructor <;> exact fun ⟨hright, hleft, habove, hbelow⟩ => ⟨hleft, hright, hbelow, habove⟩

/-- What meets a box is met by every box around it. -/
theorem intersects_mono (hca : c.contains a = true) (hqa : q.intersects a = true) :
    q.intersects c = true :=
  intersects_comm.mp (intersects_of_contains hca (intersects_comm.mp hqa))

end SpatialIndex.Box
