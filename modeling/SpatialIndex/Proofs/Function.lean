import SpatialIndex.Proofs.Geometry.Relate
import SpatialIndex.Proofs.Plan.Match

/-!
# The relations that are decided here

The registry of the relations that are decided here has the properties that the use of indexes
rests on.
-/

namespace SpatialIndex

/-- What is found under a key is in the list. -/
theorem mem_of_lookup {α β : Type} [BEq α] {l : List (α × β)} {a : α} {b : β}
    (h : l.lookup a = some b) : ∃ entry ∈ l, entry.2 = b := by
  induction l with
  | nil => cases h
  | cons entry l ih =>
    rw [List.lookup_cons] at h
    split at h
    · exact ⟨entry, List.mem_cons_self, Option.some.inj h⟩
    · obtain ⟨entry', hmem, hvalue⟩ := ih h
      exact ⟨entry', List.mem_cons_of_mem entry hmem, hvalue⟩

namespace Registry

variable {r : Registry} {P : Function → Prop}

/-- A call that succeeds is a call of a registered function. -/
theorem exists_of_invoke_eq_ok (hall : ∀ entry ∈ r.functions, P entry.2) {name : String}
    {arguments : List Value} {v : Value} (h : r.invoke name arguments = .ok v) :
    ∃ function, P function ∧ r.function? name = some function ∧ function arguments = .ok v := by
  unfold invoke at h
  split at h
  · rename_i function hfunction
    obtain ⟨entry, hmem, rfl⟩ := mem_of_lookup hfunction
    exact ⟨entry.2, hall entry hmem, hfunction, h⟩
  · cases h

/-- A function that was added is found by its name. -/
theorem function?_register (r : Registry) (name : String) (function : Function) :
    (r.register name function).function? name = some function :=
  List.lookup_cons_self

/-- What holds of all functions, and of one more, holds of all after that one has been
registered. -/
theorem forall_register (hall : ∀ entry ∈ r.functions, P entry.2) {function : Function}
    (hfunction : P function) (name : String) :
    ∀ entry ∈ (r.register name function).functions, P entry.2 := by
  intro entry hmem
  rcases List.mem_cons.mp hmem with rfl | hmem
  · exact hfunction
  · exact hall entry (List.mem_filter.mp hmem).1

end Registry

namespace Function

/-- The same arguments give the same result. -/
def RespectsEquality (function : Function) : Prop :=
  ∀ (arguments arguments' : List Value) (v w : Value),
    List.Forall₂ Value.Same arguments arguments' → function arguments = .ok v →
      function arguments' = .ok w → v.Same w

/-- The function holds only of two shapes whose bounds meet. -/
def HoldsWhereBoundsMeet (function : Function) : Prop :=
  ∀ arguments : List Value, function arguments = .ok (.boolean true) →
    ∃ (a b : Geometry) (r s : Rect), arguments = [.geometry a, .geometry b] ∧
      a.bounds? = some r ∧ b.bounds? = some s ∧ r.meets s = true

variable {holds : Geometry → Geometry → Bool}

/-- A relation of shapes to which the signs of zeros do not matter makes a function to which they do
not matter. -/
theorem ofPredicate_map_plain (hplain : ∀ a b, holds a.plain b.plain = holds a b)
    (arguments : List Value) :
    ofPredicate holds (arguments.map (·.plain)) = ofPredicate holds arguments := by
  match arguments with
  | [] => rfl
  | [a] => cases a <;> rfl
  | [a, b] =>
    cases a <;> cases b <;> first | rfl | exact congrArg (Except.ok ∘ Value.boolean) (hplain _ _)
  | a :: b :: c :: rest => simp [ofPredicate]

/-- A relation that does not see signs of zeros does not tell the same shapes apart. -/
theorem respectsEquality_ofPredicate (hplain : ∀ a b, holds a.plain b.plain = holds a b) :
    (ofPredicate holds).RespectsEquality := by
  intro arguments arguments' v w hsame hv hw
  rw [← ofPredicate_map_plain hplain, Value.map_plain_eq hsame, ofPredicate_map_plain hplain,
    hw] at hv
  exact .inl (Except.ok.inj hv).symm

/-- A relation that holds only where bounds meet makes a function that holds only there. -/
theorem holdsWhereBoundsMeet_ofPredicate (hmeets : ∀ a b, holds a b = true →
    ∃ r s, a.bounds? = some r ∧ b.bounds? = some s ∧ r.meets s = true) :
    (ofPredicate holds).HoldsWhereBoundsMeet := by
  intro arguments h
  unfold ofPredicate at h
  split at h
  · cases Except.ok.inj h
  · cases Except.ok.inj h
  · rename_i a b
    obtain ⟨r, s, hr, hs, hrs⟩ := hmeets a b (Value.boolean.inj (Except.ok.inj h))
    exact ⟨a, b, r, s, rfl, hr, hs, hrs⟩
  · cases h
  · cases h

end Function

namespace Registry

/-- A registry respects equality if all its functions do. -/
theorem respectsEquality_of_forall {r : Registry}
    (h : ∀ entry ∈ r.functions, entry.2.RespectsEquality) : r.RespectsEquality := by
  intro name arguments arguments' v w hsame hv hw
  obtain ⟨function, hfunction, hname, hv⟩ := exists_of_invoke_eq_ok h hv
  rw [invoke, hname] at hw
  exact hfunction arguments arguments' v w hsame hv hw

/-- The relations of a registry hold only where bounds meet if all its functions do. -/
theorem relationsMeet_of_forall {r : Registry}
    (h : ∀ entry ∈ r.functions, entry.2.HoldsWhereBoundsMeet) : r.RelationsMeet := by
  intro name arguments _ hholds
  obtain ⟨function, hfunction, _, hholds⟩ := exists_of_invoke_eq_ok h hholds
  exact hfunction arguments hholds

/-- The relations that are decided here do not tell the same shapes apart. -/
theorem respectsEquality_spatial : spatial.RespectsEquality := by
  refine respectsEquality_of_forall ?_
  refine forall_register (forall_register (forall_register (by simp [empty]) ?_ _) ?_ _) ?_ _
  · exact Function.respectsEquality_ofPredicate Geometry.intersects_plain
  · exact Function.respectsEquality_ofPredicate Geometry.contains_plain
  · exact Function.respectsEquality_ofPredicate fun a b => Geometry.contains_plain b a

/-- The relations that are decided here hold only of shapes whose bounds meet. -/
theorem relationsMeet_spatial : spatial.RelationsMeet := by
  refine relationsMeet_of_forall ?_
  refine forall_register (forall_register (forall_register (by simp [empty]) ?_ _) ?_ _) ?_ _
  · exact Function.holdsWhereBoundsMeet_ofPredicate fun _ _ => Geometry.meets_of_intersects
  · exact Function.holdsWhereBoundsMeet_ofPredicate fun _ _ => Geometry.meets_of_contains
  · refine Function.holdsWhereBoundsMeet_ofPredicate fun a b h => ?_
    obtain ⟨s, r, hs, hr, hmeets⟩ := Geometry.meets_of_contains h
    exact ⟨r, s, hr, hs, by rw [Rect.meets_comm, hmeets]⟩

end Registry

end SpatialIndex
