import SpatialIndex.Proofs.Number.Whole
import SpatialIndex.Proofs.Plan.Execute
import SpatialIndex.Table.Filter

/-!
# The order of numbers

Numbers of one type are compared exactly.  A whole number is compared with a double as the double
nearest to it, which is exact as well unless it is that double: then the two count as equal, whether
they are or not.  So equality of numbers is not transitive, but to be less still is.
-/

namespace SpatialIndex

/-- Keys that respect the order of the numbers that they stand for are compared as those, unless
they are equal. -/
theorem compare_of_mono {i j : Int} {p q : EReal} (hle : p ≤ q → i ≤ j) (hge : q ≤ p → j ≤ i) :
    compare i j = if i = j then .eq else compare p q := by
  split
  · rename_i heq
    exact compare_eq_iff_eq.mpr heq
  · rename_i hne
    rcases lt_trichotomy p q with hlt | heq | hgt
    · have := hle hlt.le
      rw [compare_lt_iff_lt.mpr hlt, compare_lt_iff_lt]
      omega
    · have := hle heq.le
      have := hge heq.ge
      omega
    · have := hge hgt.le
      rw [compare_gt_iff_gt.mpr hgt, compare_gt_iff_gt]
      omega

namespace Value

/-- The value is a number, and this is it. -/
inductive Denotes : Value → EReal → Prop
  /-- A whole number. -/
  | bigint (n : Int64) : Denotes (.bigint n) ((n.toInt : ℝ) : EReal)
  /-- A double that is not NaN. -/
  | double {x : Double} (hx : x.isNaN = false) : Denotes (.double x) x.toEReal

/-- One of the values is a whole number and the other the double nearest to it. -/
def isNearest : Value → Value → Bool
  | bigint n, double x | double x, bigint n => (nearestDouble n).equiv x
  | _, _ => false

/-- The value is a whole number. -/
def isWhole : Value → Bool
  | bigint _ => true
  | _ => false

/-- The value is no whole number of more bits than a double keeps. -/
def IsShort : Value → Prop
  | bigint n => n.toInt.natAbs ≤ 2 ^ 53
  | _ => True

/-- The key of a number as a double. -/
def doubleKey : Value → Int
  | bigint n => (nearestDouble n).key
  | double x => x.key
  | _ => 0

variable {a b c : Value} {p q r : EReal}

/-- The double nearest to a whole number is a number. -/
theorem isNaN_nearestDouble (n : Int64) : (nearestDouble n).isNaN = false :=
  Binary.isNaN_ofInt (by decide) _

/-- Rounding to doubles respects the order of all numbers. -/
theorem doubleKey_mono (ha : a.Denotes p) (hb : b.Denotes q) (h : p ≤ q) :
    a.doubleKey ≤ b.doubleKey := by
  have hprecision : 0 < Format.double.precision := by decide
  have hinfinity : 0 < Format.double.infinity := by decide
  cases ha with
  | bigint n =>
    cases hb with
    | bigint n' =>
      rw [EReal.coe_le_coe_iff, Int.cast_le] at h
      exact Binary.key_ofInt_mono hprecision h
    | double hy => exact Binary.key_ofInt_le_key hprecision hinfinity hy h
  | double hx =>
    cases hb with
    | bigint n' => exact Binary.key_le_key_ofInt hprecision hinfinity hx h
    | double hy => exact (Binary.toEReal_le_toEReal_iff hprecision hx hy hinfinity).mp h

/-- Two doubles, or a double and a whole number, are compared by their keys as doubles. -/
theorem compare?_eq_compare_doubleKey (ha : a.Denotes p) (hb : b.Denotes q)
    (h : ¬(a.isWhole = true ∧ b.isWhole = true)) :
    a.compare? b = some (compare a.doubleKey b.doubleKey) := by
  cases ha with
  | bigint n =>
    cases hb with
    | bigint n' => exact absurd ⟨rfl, rfl⟩ h
    | double hy => simp [compare?, Binary.compare?, isNaN_nearestDouble, hy, doubleKey]
  | double hx =>
    cases hb with
    | bigint n' => simp [compare?, Binary.compare?, isNaN_nearestDouble, hx, doubleKey]
    | double hy => simp [compare?, Binary.compare?, hx, hy, doubleKey]

/-- Whole numbers are compared exactly. -/
theorem compare?_bigint (n n' : Int64) : (bigint n).compare? (.bigint n') =
    some (compare ((n.toInt : ℝ) : EReal) ((n'.toInt : ℝ) : EReal)) := by
  have hle {i j : Int} : ((i : ℝ) : EReal) ≤ ((j : ℝ) : EReal) → i ≤ j := by
    rw [EReal.coe_le_coe_iff, Int.cast_le]
    exact id
  rw [compare?, compare_of_mono hle hle]
  split
  · rename_i heq
    rw [heq, compare_eq_iff_eq.mpr rfl]
  · rfl

/-- A whole number and a double are nearest to each other if they are the same as doubles. -/
theorem isNearest_iff (ha : a.Denotes p) (hb : b.Denotes q) (h : a.isWhole ≠ b.isWhole) :
    a.isNearest b = true ↔ a.doubleKey = b.doubleKey := by
  have hequiv {x : Double} (hx : x.isNaN = false) (n : Int64) :
      (nearestDouble n).equiv x = true ↔ (nearestDouble n).key = x.key := by
    rw [Binary.equiv_iff, isNaN_nearestDouble, hx]
    simp
  cases ha with
  | bigint n =>
    cases hb with
    | bigint n' => exact absurd rfl h
    | double hy => exact hequiv hy n
  | double hx =>
    cases hb with
    | bigint n' => exact (hequiv hx n').trans eq_comm
    | double hy => exact absurd rfl h

/-- Values of one type are not nearest to each other. -/
theorem isNearest_eq_false (ha : a.Denotes p) (hb : b.Denotes q) (h : a.isWhole = b.isWhole) :
    a.isNearest b = false := by
  cases ha <;> cases hb <;> first | rfl | cases h

/-- Doubles with the same key are the same number. -/
theorem eq_of_key_eq {x y : Double} (hx : x.isNaN = false) (hy : y.isNaN = false)
    (h : x.key = y.key) : x.toEReal = y.toEReal :=
  (Binary.toEReal_eq_toEReal_iff (by decide) hx hy (by decide)).mpr h

/-- Which of the two values is the whole number and which the double nearest to it does not
matter. -/
theorem isNearest_comm (a b : Value) : a.isNearest b = b.isNearest a := by
  cases a <;> cases b <;> rfl

/-- No double lies between a whole number and the double nearest to it, since it would be rounded to
the same key. -/
theorem not_between_of_isNearest (ha : a.Denotes p) (hb : b.Denotes q)
    (h : a.isNearest b = true) {z : Double} (hz : z.isNaN = false) :
    ¬(p < z.toEReal ∧ z.toEReal < q) := by
  rintro ⟨hpz, hzq⟩
  have hlow := doubleKey_mono ha (.double hz) hpz.le
  have hhigh := doubleKey_mono (.double hz) hb hzq.le
  have htypes : a.isWhole ≠ b.isWhole := fun heq => by
    rw [isNearest_eq_false ha hb heq] at h
    cases h
  have hkey := (isNearest_iff ha hb htypes).mp h
  cases ha with
  | bigint n =>
    cases hb with
    | bigint n' => exact htypes rfl
    | @double y hy =>
      have hsame : z.key = y.key := le_antisymm hhigh (hkey.ge.trans hlow)
      exact hzq.ne (eq_of_key_eq hz hy hsame)
  | @double x hx =>
    have hsame : x.key = z.key := le_antisymm hlow (hhigh.trans hkey.ge)
    exact hpz.ne (eq_of_key_eq hx hz hsame)

/-- Numbers of one type are compared exactly. -/
theorem compare?_of_isWhole_eq (ha : a.Denotes p) (hb : b.Denotes q) (h : a.isWhole = b.isWhole) :
    a.compare? b = some (compare p q) := by
  cases ha with
  | bigint n =>
    cases hb with
    | bigint n' => exact compare?_bigint n n'
    | double hy => cases h
  | @double x hx =>
    cases hb with
    | bigint n' => cases h
    | @double y hy =>
      rw [compare?_eq_compare_doubleKey (.double hx) (.double hy) (by simp [isWhole]),
        compare_of_mono (doubleKey_mono (.double hx) (.double hy))
          (doubleKey_mono (.double hy) (.double hx))]
      by_cases hkey : (double x).doubleKey = (double y).doubleKey
      · rw [if_pos hkey, compare_eq_iff_eq.mpr (eq_of_key_eq hx hy hkey)]
      · rw [if_neg hkey]

/-- Numbers are compared exactly, unless one is the double nearest to the other: then they count as
equal. -/
theorem compare?_eq (ha : a.Denotes p) (hb : b.Denotes q) :
    a.compare? b = some (if a.isNearest b then .eq else compare p q) := by
  by_cases htypes : a.isWhole = b.isWhole
  · rw [compare?_of_isWhole_eq ha hb htypes, isNearest_eq_false ha hb htypes]
    rfl
  · have hmixed : ¬(a.isWhole = true ∧ b.isWhole = true) :=
      fun hboth => htypes (hboth.1.trans hboth.2.symm)
    rw [compare?_eq_compare_doubleKey ha hb hmixed,
      compare_of_mono (doubleKey_mono ha hb) (doubleKey_mono hb ha)]
    by_cases hkey : a.doubleKey = b.doubleKey
    · rw [if_pos hkey, if_pos ((isNearest_iff ha hb htypes).mpr hkey)]
    · rw [if_neg hkey, if_neg (mt (isNearest_iff ha hb htypes).mp hkey)]

/-- A number counts as less than another one if it is less, and still is as a double unless both are
whole numbers. -/
theorem compare?_eq_lt_iff (ha : a.Denotes p) (hb : b.Denotes q) :
    a.compare? b = some .lt ↔
      p < q ∧ (a.isWhole = true ∧ b.isWhole = true ∨ a.doubleKey < b.doubleKey) := by
  by_cases hwhole : a.isWhole = true ∧ b.isWhole = true
  · rw [compare?_of_isWhole_eq ha hb (hwhole.1.trans hwhole.2.symm), Option.some_inj,
      compare_lt_iff_lt]
    exact ⟨fun h => ⟨h, .inl hwhole⟩, And.left⟩
  · rw [compare?_eq_compare_doubleKey ha hb hwhole, Option.some_inj, compare_lt_iff_lt]
    have hmono := doubleKey_mono hb ha
    constructor
    · exact fun hkey => ⟨lt_of_not_ge fun hle => absurd (hmono hle) (by omega), .inr hkey⟩
    · rintro ⟨_, hboth | hkey⟩
      · exact absurd hboth hwhole
      · exact hkey

/-- To count as less is transitive. -/
theorem compare?_lt_trans (ha : a.Denotes p) (hb : b.Denotes q) (hc : c.Denotes r)
    (hab : a.compare? b = some .lt) (hbc : b.compare? c = some .lt) :
    a.compare? c = some .lt := by
  obtain ⟨hpq, hab⟩ := (compare?_eq_lt_iff ha hb).mp hab
  obtain ⟨hqr, hbc⟩ := (compare?_eq_lt_iff hb hc).mp hbc
  have hkab := doubleKey_mono ha hb hpq.le
  have hkbc := doubleKey_mono hb hc hqr.le
  refine (compare?_eq_lt_iff ha hc).mpr ⟨hpq.trans hqr, ?_⟩
  rcases hab with ⟨hwhole, _⟩ | hless
  · rcases hbc with ⟨_, hwhole'⟩ | hless
    · exact .inl ⟨hwhole, hwhole'⟩
    · exact .inr (by omega)
  · exact .inr (by omega)

/-- Two numbers compare in the other order the other way round. -/
theorem compare?_swap (ha : a.Denotes p) (hb : b.Denotes q) :
    b.compare? a = (a.compare? b).map .swap := by
  rw [compare?_eq ha hb, compare?_eq hb ha, isNearest_comm b a]
  have hswap : compare q p = (compare p q).swap := Std.OrientedCmp.eq_swap
  cases a.isNearest b with
  | true => rfl
  | false => exact congrArg some hswap

/-- A whole number that is not too long is a double itself. -/
theorem toEReal_nearestDouble {n : Int64} (h : (bigint n).IsShort) :
    (nearestDouble n).toEReal = ((n.toInt : ℝ) : EReal) :=
  Binary.toEReal_ofInt (by decide) (by decide) h

/-- The double nearest to a whole number that is short enough is that number. -/
theorem denotes_nearestDouble {n : Int64} (h : (bigint n).IsShort) :
    (double (nearestDouble n)).Denotes ((n.toInt : ℝ) : EReal) := by
  rw [← toEReal_nearestDouble h]
  exact .double (isNaN_nearestDouble n)

/-- The longest whole number of those that are not too long. -/
theorem isShort_longest : (bigint 9007199254740992).IsShort :=
  show (9007199254740992 : Int64).toInt.natAbs ≤ 2 ^ 53 by decide

/-- Nothing is lost in comparing whole numbers that are not too long with doubles. -/
theorem eq_of_isNearest (ha : a.Denotes p) (hb : b.Denotes q) (hashort : a.IsShort)
    (hbshort : b.IsShort) (h : a.isNearest b = true) : p = q := by
  cases ha with
  | bigint n =>
    cases hb with
    | bigint n' => cases h
    | double hy =>
      obtain ⟨hrounded, _, hkey⟩ := Binary.equiv_iff.mp h
      rw [← toEReal_nearestDouble hashort, eq_of_key_eq hrounded hy hkey]
  | double hx =>
    cases hb with
    | bigint n' =>
      obtain ⟨hrounded, _, hkey⟩ := Binary.equiv_iff.mp h
      rw [← toEReal_nearestDouble hbshort, eq_of_key_eq hx hrounded hkey.symm]
    | double hy => cases h

/-- How the numbers compare with the given one. -/
structure ComparedWith (b : Value) (q : EReal) : Prop where
  /-- They do exactly, unless one is the double nearest to the other: then they count as equal. -/
  order : ∀ (a : Value) (p : EReal), a.Denotes p →
    a.compare? b = some (if a.isNearest b then .eq else compare p q)
  /-- Between a number and the double nearest to it there is no other double. -/
  adjacent : ∀ (a : Value) (p : EReal), a.Denotes p → a.isNearest b = true →
    ∀ z : Double, z.isNaN = false → ¬(p < z.toEReal ∧ z.toEReal < q) ∧
      ¬(q < z.toEReal ∧ z.toEReal < p)
  /-- They do exactly if both are of one type, and if no whole number is too long for a double. -/
  exact : ∀ (a : Value) (p : EReal), a.Denotes p →
    a.isWhole = b.isWhole ∨ a.IsShort ∧ b.IsShort → a.compare? b = some (compare p q)
  /-- They compare in the other order the other way round. -/
  swap : ∀ (a : Value) (p : EReal), a.Denotes p → b.compare? a = (a.compare? b).map .swap
  /-- To be less is transitive. -/
  trans : ∀ (a : Value) (p : EReal) (c : Value) (r : EReal), a.Denotes p → c.Denotes r →
    a.compare? b = some .lt → b.compare? c = some .lt → a.compare? c = some .lt
  /-- A filter keeps the rows whose number compares as it asks for. -/
  filter : ∀ (registry : Registry) (position : Nat) (type : LogicalType) (op : CompareOp)
    (places : List Nat) (value : Row → Value) (number : Row → EReal) (rows : List Row),
    (∀ row ∈ rows, row[position]? = some (value row) ∧ (value row).Denotes (number row)) →
    filterRows registry [(TableFilter.comparison op b).toExpression (.reference position type)]
        places rows =
      .ok ((rows.filter fun row => op.holds (if (value row).isNearest b then .eq else
        compare (number row) q)).map (emitRow places))

/-- A row passes a comparison of a number of its own with a constant as the numbers compare. -/
theorem passesAll_comparison (ha : a.Denotes p) (hb : b.Denotes q) (registry : Registry) {row : Row}
    {position : Nat} (type : LogicalType) (op : CompareOp) (hrow : row[position]? = some a) :
    Expression.passesAll registry row
        [(TableFilter.comparison op b).toExpression (.reference position type)] =
      .ok (op.holds (if a.isNearest b then .eq else compare p q)) := by
  have hnull {v : Value} {s : EReal} (hv : v.Denotes s) : v.isNull = false := by cases hv <;> rfl
  have hvalue : ((TableFilter.comparison op b).toExpression (.reference position type)).evaluate
      registry row = .ok (.boolean (op.holds (if a.isNearest b then .eq else compare p q))) := by
    simp only [TableFilter.toExpression, Expression.ofValue, Expression.evaluate, valueAt, hrow]
    show compareValues op a b = _
    rw [compareValues, hnull ha, hnull hb, compare?_eq ha hb]
    rfl
  rw [Expression.passesAll, Expression.passes, hvalue]
  show (if op.holds _ = true then _ else _) = _
  cases op.holds (if a.isNearest b then .eq else compare p q) <;> rfl

/-- Comparison with a number respects the order of all numbers but those nearest to it. -/
theorem comparedWith (hb : b.Denotes q) : b.ComparedWith q where
  order a p ha := compare?_eq ha hb
  adjacent a p ha h z hz := ⟨not_between_of_isNearest ha hb h hz,
    not_between_of_isNearest hb ha (isNearest_comm b a ▸ h) hz⟩
  exact a p ha hexact := by
    rcases hexact with htypes | ⟨hashort, hbshort⟩
    · exact compare?_of_isWhole_eq ha hb htypes
    · rw [compare?_eq ha hb]
      by_cases hnearest : a.isNearest b = true
      · rw [if_pos hnearest,
          compare_eq_iff_eq.mpr (eq_of_isNearest ha hb hashort hbshort hnearest)]
      · rw [if_neg hnearest]
  swap a p ha := compare?_swap ha hb
  trans a p c r ha hc := compare?_lt_trans ha hb hc
  filter registry position type op places value number rows h := by
    have hpasses := fun row hrow =>
      passesAll_comparison (h row hrow).2 hb registry type op (h row hrow).1
    refine filterRows_eq_ok_iff.mpr ⟨fun row hrow => ⟨_, hpasses row hrow⟩, ?_⟩
    refine congrArg _ (List.filter_congr fun row hrow => ?_)
    rw [passed, hpasses row hrow]

/-- The double of the largest whole number that is short, and the next whole number that a double
holds. -/
theorem comparedWith_longest : ∃ q, (double (nearestDouble 9007199254740992)).Denotes q ∧
    (double (nearestDouble 9007199254740992)).ComparedWith q ∧
    (bigint 9007199254740994).compare? (double (nearestDouble 9007199254740992)) = some .gt := by
  have hdenotes := denotes_nearestDouble isShort_longest
  exact ⟨_, hdenotes, comparedWith hdenotes, by decide +kernel⟩

/-- A whole number that is one too long counts as equal to the double below it, which counts as
equal to the whole number that it is.  A filter for that double keeps the longer one. -/
theorem compare?_tooLong : ∃ p q, q < p ∧ (bigint 9007199254740993).Denotes p ∧
    (double (nearestDouble 9007199254740992)).Denotes q ∧
    (bigint 9007199254740993).compare? (double (nearestDouble 9007199254740992)) = some .eq ∧
    (double (nearestDouble 9007199254740992)).compare? (bigint 9007199254740992) = some .eq ∧
    (bigint 9007199254740993).compare? (bigint 9007199254740992) = some .gt ∧
    Expression.passesAll .spatial [bigint 9007199254740993]
      [(TableFilter.comparison .equal (double (nearestDouble 9007199254740992))).toExpression
        (.reference 0 .bigint)] = .ok true := by
  have hbig := Denotes.bigint 9007199254740993
  have hnear := denotes_nearestDouble isShort_longest
  have hless : (((9007199254740992 : Int64).toInt : ℝ) : EReal) <
      (((9007199254740993 : Int64).toInt : ℝ) : EReal) := by
    rw [EReal.coe_lt_coe_iff, Int.cast_lt]
    decide
  have hnearest :
      (bigint 9007199254740993).isNearest (double (nearestDouble 9007199254740992)) := by
    decide +kernel
  refine ⟨_, _, hless, hbig, hnear, ?_, by decide +kernel, by decide +kernel, ?_⟩
  · rw [compare?_eq hbig hnear, if_pos hnearest]
  · rw [passesAll_comparison hbig hnear .spatial .bigint .equal rfl, if_pos hnearest]
    rfl

end Value

end SpatialIndex
