import SpatialIndex.Plan.IndexAccess
import SpatialIndex.Proofs.Expression.Equality
import SpatialIndex.Proofs.Expression.Parts
import SpatialIndex.Proofs.Expression.Reading

/-!
# Predicates that hold only where boxes meet

A predicate that an index can serve holds of a row only if the key of the row is a shape with a box
that meets the box of the constant.
-/

namespace SpatialIndex

/-- The functions named like spatial relations hold only of two shapes whose bounds meet, as those
of shapes that share a point do. -/
def Registry.RelationsMeet (registry : Registry) : Prop :=
  ∀ (name : String) (arguments : List Value), (SpatialRelation.ofName? name).isSome = true →
    registry.invoke name arguments = .ok (.boolean true) →
      ∃ (a b : Geometry) (r s : Rect), arguments = [.geometry a, .geometry b] ∧
        a.bounds? = some r ∧ b.bounds? = some s ∧ r.meets s = true

section Relation

variable {key predicate constant : Expression} {found : RelationMatch}

/-- Calls of the function decide a relation on two shapes, each time alike. -/
structure Signature.IsRelation (function : Signature) : Prop where
  /-- It is named like a relation. -/
  name : (SpatialRelation.ofName? function.name).isSome = true
  /-- It comes to the same on the same shapes. -/
  volatile : function.volatile = false
  /-- It comes to a truth value. -/
  returnType : function.returnType = .boolean
  /-- It takes two shapes. -/
  arguments : function.arguments = [.geometry, .geometry]

/-- One of two arguments is the key and the other one, the last here, is foldable.  The key is
looked for in the first argument, then in the second. -/
inductive Expression.Faces (key first second : Expression) : Expression → Prop
  /-- The first argument is the key. -/
  | second (hkey : first.equiv key = true) (hfoldable : second.isFoldable = true) :
    Faces key first second second
  /-- The second argument is the key, and the first could not be it. -/
  | first (hkey : second.equiv key = true) (hfoldable : first.isFoldable = true)
    (hfirst : ¬(first.equiv key = true ∧ second.isFoldable = true)) : Faces key first second first

/-- A predicate asks how the key relates to a constant. -/
inductive Expression.Relates (key : Expression) : Expression → Expression → Prop
  /-- It is the call of a relation on the key and the constant. -/
  | call {function : Signature} {first second constant : Expression}
    (hfunction : function.IsRelation) (hfirst : first.type = .geometry)
    (hsecond : second.type = .geometry) (hfaces : key.Faces first second constant) :
    Relates key (.call function [first, second]) constant

/-- A signature is recognised when calls of it decide a relation on two shapes, each time alike. -/
theorem ofSignature?_isSome_iff {function : Signature} :
    (SpatialRelation.ofSignature? function).isSome = true ↔ function.IsRelation := by
  unfold SpatialRelation.ofSignature?
  constructor
  · intro h
    split at h
    · rename_i hname
      split at h
      · rename_i hsignature
        simp only [Bool.and_eq_true, Bool.not_eq_true', decide_eq_true_eq] at hsignature
        exact ⟨by rw [hname]; rfl, hsignature.1.1, hsignature.1.2, hsignature.2⟩
      · cases h
    · cases h
  · rintro ⟨hname, hvolatile, hreturnType, harguments⟩
    obtain ⟨relation, hrelation⟩ := Option.isSome_iff_exists.mp hname
    rw [hrelation, hvolatile, hreturnType, harguments]
    rfl

/-- The matcher finds the constant to which a predicate relates the key. -/
theorem matchRelation?_eq_some_iff :
    (∃ found, matchRelation? key predicate = some found ∧ found.constant = constant) ↔
      key.Relates predicate constant := by
  constructor
  · rintro ⟨found, h, rfl⟩
    unfold matchRelation? at h
    split at h
    · rename_i function left right
      split at h
      · rename_i relation hrelation
        have hfunction : function.IsRelation :=
          ofSignature?_isSome_iff.mp (by rw [hrelation]; rfl)
        split at h
        · rename_i htypes
          split at h
          · rename_i hleft
            cases h
            rw [Bool.and_eq_true] at hleft
            exact .call hfunction htypes.1 htypes.2 (.second hleft.1 hleft.2)
          · rename_i hleft
            split at h
            · rename_i hright
              cases h
              rw [Bool.and_eq_true] at hleft hright
              exact .call hfunction htypes.1 htypes.2 (.first hright.1 hright.2 hleft)
            · cases h
        · cases h
      · cases h
    · cases h
  · rintro (@⟨function, first, second, _, hfunction, hfirst, hsecond, hfaces⟩)
    obtain ⟨relation, hrelation⟩ :=
      Option.isSome_iff_exists.mp (ofSignature?_isSome_iff.mpr hfunction)
    simp only [matchRelation?, hrelation, if_pos (And.intro hfirst hsecond)]
    -- The matcher looks at the first argument, and at the second only where the first is not the
    -- key.
    cases hfaces with
    | second hkey hfoldable =>
      have hleft : (first == key && constant.isFoldable) = true := by
        rw [Bool.and_eq_true]
        exact ⟨hkey, hfoldable⟩
      exact ⟨⟨relation, 0, constant⟩, if_pos hleft, rfl⟩
    | first hkey hfoldable hother =>
      have hleft : ¬(constant == key && second.isFoldable) = true := by
        rw [Bool.and_eq_true]
        exact hother
      have hright : (second == key && constant.isFoldable) = true := by
        rw [Bool.and_eq_true]
        exact ⟨hkey, hfoldable⟩
      exact ⟨⟨relation, 1, constant⟩, by rw [if_neg hleft, if_pos hright], rfl⟩

/-- What faces the key is foldable. -/
theorem Expression.Faces.isFoldable {first second : Expression}
    (h : key.Faces first second constant) : constant.isFoldable = true := by
  cases h <;> assumption

end Relation

section Constant

variable {registry : Registry} {source : Source} {e : Expression} {query : Box}

/-- The expression comes to a shape with a valid box without reading a row. -/
def Expression.HasBox (registry : Registry) (e : Expression) (box : Box) : Prop :=
  ∃ g : Geometry, e.evaluate registry [] = .ok (.geometry g) ∧ g.box? = some box ∧
    box.isValid = true

/-- The box that an expression comes to is valid. -/
theorem Expression.HasBox.isValid (h : e.HasBox registry query) : query.isValid = true := by
  obtain ⟨_, _, _, hvalid⟩ := h
  exact hvalid

/-- A constant is folded to what any expression is: its value on a row without columns. -/
theorem foldConstant?_eq (registry : Registry) (e : Expression) :
    foldConstant? registry e = (e.evaluate registry []).toOption := by
  unfold foldConstant?
  split <;> rfl

/-- An expression is folded to the value that it has on a row of no columns. -/
theorem foldConstant?_eq_some_iff {value : Value} :
    foldConstant? registry e = some value ↔ e.evaluate registry [] = .ok value := by
  rw [foldConstant?_eq, toOption_eq_some_iff]

/-- The box to search for is the valid box of the constant's shape. -/
theorem constantBox?_eq_some_iff :
    constantBox? registry e = some query ↔ e.HasBox registry query := by
  unfold constantBox?
  constructor
  · intro h
    obtain ⟨value, hvalue, h⟩ := Option.bind_eq_some_iff.mp h
    cases value with
    | geometry g =>
      obtain ⟨hbox, hvalid⟩ := Option.filter_eq_some_iff.mp h
      exact ⟨g, foldConstant?_eq_some_iff.mp hvalue, hbox, hvalid⟩
    | _ => cases h
  · rintro ⟨g, hvalue, hbox, hvalid⟩
    exact Option.bind_eq_some_iff.mpr ⟨.geometry g, foldConstant?_eq_some_iff.mpr hvalue,
      Option.filter_eq_some_iff.mpr ⟨hbox, hvalid⟩⟩

/-- A foldable expression comes to the same shape on every row. -/
theorem Expression.HasBox.evaluateFrom (h : e.HasBox registry query)
    (hfoldable : e.isFoldable = true) (source : Source) :
    ∃ g : Geometry, e.evaluateFrom registry source = .ok (.geometry g) ∧ g.box? = some query := by
  obtain ⟨g, hvalue, hbox, _⟩ := h
  rw [evaluate_eq, evaluateFrom_of_isFoldable (.ofRow []) source hfoldable] at hvalue
  exact ⟨g, hvalue, hbox⟩

/-- Rows that agree wherever an expression reads give it the same value or the same failure.  An
expression is foldable exactly if it is consistent and reads nothing, and what planning folds it to
is then its value on every row. -/
theorem Expression.evaluate_from_reads (registry : Registry) (e : Expression) :
    (∀ row row' : Row, (∀ k ∈ e.positionsRead, ∃ v, row[k]? = some v ∧ row'[k]? = some v) →
      e.evaluate registry row = e.evaluate registry row') ∧
    (e.isFoldable = true ↔ e.isConsistent = true ∧ e.positionsRead = []) ∧
    (e.isFoldable = true → ∀ row : Row, e.evaluate registry row = e.evaluate registry [] ∧
      foldConstant? registry e = (e.evaluate registry row).toOption) := by
  refine ⟨fun _ _ h => evaluate_of_agree h, isFoldable_iff_positionsRead, fun hfoldable row => ?_⟩
  have hnothing := (isFoldable_iff_positionsRead.mp hfoldable).2
  have hsame : e.evaluate registry row = e.evaluate registry [] := evaluate_of_agree fun k hk => by
    rw [hnothing] at hk
    cases hk
  exact ⟨hsame, by rw [foldConstant?_eq, hsame]⟩

/-- A comparison of a number with a text fails alike on two rows that share only the number, and a
relation of two constant points is folded to what it is on a row. -/
theorem Expression.evaluate_from_reads_points :
    let number : Expression := .comparison .less (.column ⟨4, 1⟩ .bigint) (.ofValue (.varchar "a"))
    let point (n : Int) : Expression :=
      .ofValue (.geometry (.point ⟨.ofInt n, .ofInt n⟩))
    let apart : Expression := .call SpatialRelation.intersects.signature [point 0, point 1]
    number.evaluate .spatial [.null, .bigint 3] =
        number.evaluate .spatial [.boolean true, .bigint 3, .null] ∧
      number.evaluate .spatial [.null, .bigint 3] =
        .error (.incomparable (.bigint 3) (.varchar "a")) ∧
      apart.isFoldable = true ∧ apart.isConsistent = true ∧
      apart.evaluate .spatial [.bigint 3] = apart.evaluate .spatial [] := by
  intro number point apart
  have hfoldable : apart.isFoldable = true := rfl
  have hapart := evaluate_from_reads .spatial apart
  refine ⟨?_, rfl, hfoldable, (hapart.2.1.mp hfoldable).1, (hapart.2.2 hfoldable [.bigint 3]).1⟩
  refine (evaluate_from_reads .spatial number).1 _ _ fun k hk => ⟨.bigint 3, ?_⟩
  have hone : k = 1 := List.mem_singleton.mp hk
  rw [hone]
  exact ⟨rfl, rfl⟩

end Constant

section Meeting

/-- Shapes that are the same but for signs of zeros have bounds that meet the same rectangles. -/
theorem exists_bounds_of_plain_eq {g g' : Geometry} (hplain : g.plain = g'.plain) {r : Rect}
    (hbounds : g.bounds? = some r) :
    ∃ r' : Rect, g'.bounds? = some r' ∧ ∀ s : Rect, r'.meets s = r.meets s := by
  have hr := Geometry.bounds?_plain g
  rw [hplain, Geometry.bounds?_plain, hbounds] at hr
  obtain ⟨r', hr', hsame⟩ := Option.map_eq_some_iff.mp hr
  refine ⟨r', hr', fun s => ?_⟩
  rw [← Rect.meets_plain, hsame, Rect.meets_plain]

variable {registry : Registry} {source : Source} {key predicate constant : Expression}
  {query : Box}

/-- Where a served predicate holds, the key is a shape whose box meets the box to search for. -/
theorem intersects_of_relates (hequality : registry.RespectsEquality)
    (hmeet : registry.RelationsMeet) (hrelates : key.Relates predicate constant)
    (hbox : constant.HasBox registry query)
    (hholds : predicate.evaluateFrom registry source = .ok (.boolean true)) {v : Value}
    (hkey : key.evaluateFrom registry source = .ok v) :
    ∃ (g : Geometry) (box : Box), v = .geometry g ∧ g.box? = some box ∧
      box.intersects query = true := by
  obtain ⟨hfunction, _, _, hfaces⟩ := hrelates
  obtain ⟨g, hconstant, hquery⟩ := hbox.evaluateFrom hfaces.isFoldable source
  obtain ⟨s, hs, rfl⟩ := Option.map_eq_some_iff.mp hquery
  simp only [Expression.evaluateFrom, Expression.evaluateAllFrom, bind_eq_ok] at hholds
  obtain ⟨arguments, ⟨l, hl, rest, ⟨r, hr, none, hnone, hrest⟩, harguments⟩, hholds⟩ := hholds
  rw [← Except.ok.inj harguments, ← Except.ok.inj hrest, ← Except.ok.inj hnone] at hholds
  obtain ⟨a, b, ra, rb, hlist, hra, hrb, hmeets⟩ := hmeet _ _ hfunction.name hholds
  obtain ⟨rfl, rfl⟩ : l = .geometry a ∧ r = .geometry b := by simpa using hlist
  -- The key is one of the arguments up to signs of zeros, and the constant is the other.
  have finish {side : Expression} {k : Geometry} {rk : Rect} (hequal : side.equiv key = true)
      (hside : side.evaluateFrom registry source = .ok (.geometry k)) (hrk : k.bounds? = some rk)
      (hmeets : rk.meets s = true) : ∃ (g : Geometry) (box : Box), v = .geometry g ∧
        g.box? = some box ∧ box.intersects (.ofRect s) = true := by
    have hsame := Expression.same_of_equiv hequality side key _ _ hequal hside hkey
    obtain ⟨k', rfl, hplain⟩ := hsame.eq_geometry
    obtain ⟨rk', hrk', hmeets'⟩ := exists_bounds_of_plain_eq hplain hrk
    refine ⟨k', .ofRect rk', rfl, by rw [Geometry.box?, hrk']; rfl, ?_⟩
    exact Box.intersects_of_meets (by rw [hmeets', hmeets])
  cases hfaces with
  | second hequal _ =>
    rw [hr] at hconstant
    cases hconstant
    cases hrb.symm.trans hs
    exact finish hequal hl hra hmeets
  | first hequal _ _ =>
    rw [hl] at hconstant
    cases hconstant
    cases hra.symm.trans hs
    exact finish hequal hr hrb (by rw [Rect.meets_comm, hmeets])

end Meeting

end SpatialIndex
