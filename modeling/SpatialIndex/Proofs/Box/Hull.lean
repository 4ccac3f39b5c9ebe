import SpatialIndex.Proofs.Box
import SpatialIndex.Proofs.Number.Rounding

/-!
# The least box around a list

A search leaves out a subtree when its box does not meet the query.  That loses nothing, because the
union of a list is its hull, the least box around all members, however the members are ordered and
grouped, and because what meets a member meets every box around it.  Hulls are unique up to the
signs of their zeros: two zeros are equal, and of equal numbers a union takes the last one.
-/

namespace SpatialIndex

/-- The same pattern, or zeros of whichever signs. -/
def Binary.IsSame {f : Format} (x y : Binary f) : Prop :=
  x = y ∨ x.isZero = true ∧ y.isZero = true

namespace Box

variable {a b c h q : Box} {bs bs' : List Box}

/-- All four sides are the same but for the signs of zeros. -/
structure IsSame (a b : Box) : Prop where
  /-- The left sides. -/
  minX : a.minX.IsSame b.minX
  /-- The lower sides. -/
  minY : a.minY.IsSame b.minY
  /-- The right sides. -/
  maxX : a.maxX.IsSame b.maxX
  /-- The upper sides. -/
  maxY : a.maxY.IsSame b.maxY

/-- Boxes that are numerically equal are the same but for the signs of zeros. -/
theorem isSame_of_equiv (hab : a.equiv b = true) : a.IsSame b := by
  obtain ⟨_, _, hminX, hminY, hmaxX, hmaxY⟩ := equiv_iff.mp hab
  have hsingle : 0 < Format.single.precision := by decide
  exact ⟨(Binary.key_eq_key_iff hsingle).mp hminX, (Binary.key_eq_key_iff hsingle).mp hminY,
    (Binary.key_eq_key_iff hsingle).mp hmaxX, (Binary.key_eq_key_iff hsingle).mp hmaxY⟩

section Hull

/-- The least of the boxes without NaN that contain every box of a list. -/
structure IsHull (h : Box) (bs : List Box) : Prop where
  /-- No side is NaN. -/
  isNumeric : h.IsNumeric
  /-- Every box of the list lies inside. -/
  contains : ∀ b ∈ bs, h.contains b = true
  /-- It lies inside every other such box. -/
  least : ∀ c : Box, c.IsNumeric → (∀ b ∈ bs, c.contains b = true) → c.contains h = true

/-- The union of a list of boxes without NaN is their hull. -/
theorem isHull_unionAll (hbs : ∀ b ∈ bs, b.IsNumeric) : (unionAll bs).IsHull bs where
  isNumeric := isNumeric_unionAll bs
  contains b hb := by
    have hunion := isNumeric_unionAll bs
    rw [← covers_iff_contains hunion (hbs b hb)]
    exact covers_unionAll_iff.mp (covers_refl hunion) b hb
  least c hc hcontains := by
    rw [← covers_iff_contains hc (isNumeric_unionAll bs), covers_unionAll_iff]
    intro b hb
    exact (covers_iff_contains hc (hbs b hb)).mpr (hcontains b hb)

/-- A list has one hull only, up to the signs of zeros. -/
theorem IsHull.isSame (ha : a.IsHull bs) (hb : b.IsHull bs) : a.IsSame b := by
  apply isSame_of_equiv
  apply equiv_of_covers ha.isNumeric hb.isNumeric
  · exact (covers_iff_contains ha.isNumeric hb.isNumeric).mpr
      (hb.least a ha.isNumeric ha.contains)
  · exact (covers_iff_contains hb.isNumeric ha.isNumeric).mpr
      (ha.least b hb.isNumeric hb.contains)

/-- The hull of a list is that of every list with the same members. -/
theorem IsHull.of_mem_iff (hh : h.IsHull bs) (hmem : ∀ b, b ∈ bs' ↔ b ∈ bs) : h.IsHull bs' where
  isNumeric := hh.isNumeric
  contains b hb := hh.contains b ((hmem b).mp hb)
  least c hc hcontains := hh.least c hc fun b hb => hcontains b ((hmem b).mpr hb)

/-- The union of the unions of groups is the hull of all their members. -/
theorem isHull_unionAll_groups {groups : List (List Box)}
    (hbs : ∀ b ∈ groups.flatten, b.IsNumeric) :
    (unionAll (groups.map unionAll)).IsHull groups.flatten := by
  have hgroup (group : List Box) (hmem : group ∈ groups) : (unionAll group).IsHull group :=
    isHull_unionAll fun b hb => hbs b (List.mem_flatten_of_mem hmem hb)
  have hunion : (unionAll (groups.map unionAll)).IsHull (groups.map unionAll) := by
    apply isHull_unionAll
    rw [List.forall_mem_map]
    exact fun group _ => isNumeric_unionAll group
  have hcontains := List.forall_mem_map.mp hunion.contains
  refine ⟨hunion.isNumeric, fun b hb => ?_, fun c hc hmembers => ?_⟩
  · obtain ⟨group, hmem, hbg⟩ := List.mem_flatten.mp hb
    exact contains_trans (hcontains group hmem) ((hgroup group hmem).contains b hbg)
  · refine hunion.least c hc (List.forall_mem_map.mpr fun group hmem => ?_)
    exact (hgroup group hmem).least c hc fun b hb =>
      hmembers b (List.mem_flatten_of_mem hmem hb)

end Hull

section Meeting

/-- Two ranges that are the right way round share a number exactly if neither ends before the other
begins. -/
theorem exists_between_iff {low high low' high' : Single} (hrange : low.le high = true)
    (hrange' : low'.le high' = true) :
    (¬high.lt low' = true ∧ ¬high'.lt low = true) ↔ ∃ x : Single,
      (low.le x = true ∧ x.le high = true) ∧ low'.le x = true ∧ x.le high' = true := by
  simp only [Binary.le_iff, Binary.lt_iff] at *
  obtain ⟨hlow, hhigh, hle⟩ := hrange
  obtain ⟨hlow', hhigh', hle'⟩ := hrange'
  constructor
  · rintro ⟨hright, hleft⟩
    have hleft' : low.key ≤ high'.key := Int.not_lt.mp fun hlt => hleft ⟨hhigh', hlow, hlt⟩
    have hright' : low'.key ≤ high.key := Int.not_lt.mp fun hlt => hright ⟨hhigh, hlow', hlt⟩
    -- The greater of the two beginnings lies in both ranges.
    rcases Int.le_total low.key low'.key with hkey | hkey
    · exact ⟨low', ⟨⟨hlow, hlow', hkey⟩, hlow', hhigh, hright'⟩, ⟨hlow', hlow', Int.le_refl _⟩,
        hlow', hhigh', hle'⟩
    · exact ⟨low, ⟨⟨hlow, hlow, Int.le_refl _⟩, hlow, hhigh, hle⟩, ⟨hlow', hlow, hkey⟩, hlow,
        hhigh', hleft'⟩
  · rintro ⟨x, ⟨⟨_, _, _⟩, _, _, _⟩, ⟨_, _, _⟩, _, _, _⟩
    omega

/-- Valid boxes meet if and only if some point lies in both. -/
theorem intersects_iff_exists_point (ha : a.isValid = true) (hb : b.isValid = true) :
    a.intersects b = true ↔
      ∃ x y : Single, a.containsPoint x y = true ∧ b.containsPoint x y = true := by
  simp only [isValid, Bool.and_eq_true] at ha hb
  obtain ⟨⟨_, hax⟩, hay⟩ := ha
  obtain ⟨⟨_, hbx⟩, hby⟩ := hb
  have hx := exists_between_iff hax hbx
  have hy := exists_between_iff hay hby
  simp only [containsPoint, Bool.and_eq_true]
  rw [intersects_iff]
  constructor
  · rintro ⟨hright, hleft, habove, hbelow⟩
    obtain ⟨x, ⟨hax₁, hax₂⟩, hbx₁, hbx₂⟩ := hx.mp ⟨hright, hleft⟩
    obtain ⟨y, ⟨hay₁, hay₂⟩, hby₁, hby₂⟩ := hy.mp ⟨habove, hbelow⟩
    exact ⟨x, y, ⟨⟨⟨hax₁, hax₂⟩, hay₁⟩, hay₂⟩, ⟨⟨hbx₁, hbx₂⟩, hby₁⟩, hby₂⟩
  · rintro ⟨x, y, ⟨⟨⟨hax₁, hax₂⟩, hay₁⟩, hay₂⟩, ⟨⟨hbx₁, hbx₂⟩, hby₁⟩, hby₂⟩
    obtain ⟨hright, hleft⟩ := hx.mpr ⟨x, ⟨hax₁, hax₂⟩, hbx₁, hbx₂⟩
    obtain ⟨habove, hbelow⟩ := hy.mpr ⟨y, ⟨hay₁, hay₂⟩, hby₁, hby₂⟩
    exact ⟨hright, hleft, habove, hbelow⟩

end Meeting

/-- The laws that pruning rests on.  The union of boxes without NaN is their hull and the only one
up to the signs of zeros; in which order and in what groups they are united does not matter.
Meeting is symmetric, among valid boxes it is to share a point, and what meets a box meets every box
that contains it. -/
theorem pruning_laws :
    (∀ bs : List Box, (∀ b ∈ bs, b.IsNumeric) →
      (unionAll bs).IsHull bs ∧
      (∀ h : Box, h.IsHull bs → h.IsSame (unionAll bs)) ∧
      (∀ bs' : List Box, bs'.Perm bs → (unionAll bs').IsSame (unionAll bs)) ∧
      ∀ groups : List (List Box), groups.flatten.Perm bs →
        (unionAll (groups.map unionAll)).IsSame (unionAll bs)) ∧
    (∀ a b : Box, a.intersects b = b.intersects a) ∧
    (∀ a b : Box, a.isValid = true → b.isValid = true →
      (a.intersects b = true ↔
        ∃ x y : Single, a.containsPoint x y = true ∧ b.containsPoint x y = true)) ∧
    ∀ c a q : Box, c.contains a = true → a.intersects q = true → c.intersects q = true := by
  refine ⟨fun bs hbs => ?_, fun a b => Bool.eq_iff_iff.mpr intersects_comm,
    fun a b => intersects_iff_exists_point, fun c a q => intersects_of_contains⟩
  have hhull := isHull_unionAll hbs
  refine ⟨hhull, fun h hh => hh.isSame hhull, fun bs' hperm => ?_, fun groups hperm => ?_⟩
  · have hbs' : ∀ b ∈ bs', b.IsNumeric := fun b hb => hbs b (hperm.mem_iff.mp hb)
    exact ((isHull_unionAll hbs').of_mem_iff fun b => hperm.symm.mem_iff).isSame hhull
  · have hgroups : ∀ b ∈ groups.flatten, b.IsNumeric := fun b hb => hbs b (hperm.mem_iff.mp hb)
    exact ((isHull_unionAll_groups hgroups).of_mem_iff fun b => hperm.symm.mem_iff).isSame hhull

/-- Zeros of both signs, an infinite side and a box that is the wrong way round.  The groups, of
which one is empty, give the union with the other zeros; and a box that touches the first one in a
corner meets the union too. -/
theorem pruning_laws_zeros :
    let one : Single := .ofInt 1
    let two : Single := .ofInt 2
    let signed : Box := ⟨⟨0x80000000⟩, ⟨0x80000000⟩, one, one⟩
    let tall : Box := ⟨.zero, .zero, two, .infinite false⟩
    let inverted : Box := ⟨two, one, one, .zero⟩
    let touching : Box := ⟨one, one, two, two⟩
    let bs := [signed, tall, inverted]
    let groups := [[inverted], [], [tall, signed]]
    (unionAll bs).IsHull bs ∧ unionAll bs = tall ∧
      unionAll (groups.map unionAll) = ⟨signed.minX, signed.minY, two, .infinite false⟩ ∧
      (unionAll (groups.map unionAll)).IsSame (unionAll bs) ∧
      (∃ x y : Single, signed.containsPoint x y = true ∧ touching.containsPoint x y = true) ∧
      (unionAll bs).intersects touching = true := by
  intro one two signed tall inverted touching bs groups
  have hbs : ∀ b ∈ bs, b.IsNumeric := by
    simp only [bs, List.forall_mem_cons]
    exact ⟨⟨by decide +kernel, by decide +kernel, by decide +kernel, by decide +kernel⟩,
      ⟨by decide +kernel, by decide +kernel, by decide +kernel, by decide +kernel⟩,
      ⟨by decide +kernel, by decide +kernel, by decide +kernel, by decide +kernel⟩, nofun⟩
  obtain ⟨hunion, _, hpoint, hmeets⟩ := pruning_laws
  obtain ⟨hhull, _, _, hgroups⟩ := hunion bs hbs
  have htouching : signed.intersects touching = true := by decide +kernel
  have hperm : groups.flatten.Perm bs := by
    show [inverted, tall, signed].Perm [signed, tall, inverted]
    exact List.reverse_perm [signed, tall, inverted]
  refine ⟨hhull, by decide +kernel, by decide +kernel, hgroups groups hperm, ?_, ?_⟩
  · exact (hpoint signed touching (by decide +kernel) (by decide +kernel)).mp htouching
  · exact hmeets (unionAll bs) signed touching (hhull.contains signed (List.mem_cons_self ..))
      htouching

end Box

end SpatialIndex
