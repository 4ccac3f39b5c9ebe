import Mathlib.Data.List.Forall2

/-!
# Outcomes that succeed

Reading a success of a composed computation back as successes of its parts.
-/

namespace SpatialIndex

variable {ε α β : Type}

/-- A sequence of two steps succeeds when both do. -/
theorem bind_eq_ok {first : Except ε α} {next : α → Except ε β} {b : β} :
    first >>= next = .ok b ↔ ∃ a, first = .ok a ∧ next a = .ok b := by
  cases first with
  | error e => simp [bind, Except.bind]
  | ok a => simp [bind, Except.bind]

/-- A sequence of two steps fails in the first, or in the second after the first has succeeded. -/
theorem bind_eq_error {first : Except ε α} {next : α → Except ε β} {cause : ε} :
    first >>= next = .error cause ↔
      first = .error cause ∨ ∃ a, first = .ok a ∧ next a = .error cause := by
  cases first with
  | error e => simp [bind, Except.bind]
  | ok a => simp [bind, Except.bind]

/-- A value by itself is a success with that value and no other. -/
theorem pure_eq_ok {a b : α} : (pure a : Except ε α) = .ok b ↔ b = a :=
  ⟨fun h => (Except.ok.inj h).symm, fun h => congrArg Except.ok h.symm⟩

/-- What is made of an outcome is a success when the outcome is one. -/
theorem map_eq_ok {first : Except ε α} {f : α → β} {b : β} :
    first.map f = .ok b ↔ ∃ a, first = .ok a ∧ f a = b := by
  cases first with
  | error e => simp [Except.map]
  | ok a => simp [Except.map]

/-- Giving failures another cause changes no success. -/
theorem mapError_eq_ok {ε' : Type} {first : Except ε α} {f : ε → ε'} {a : α} :
    first.mapError f = .ok a ↔ first = .ok a := by
  cases first <;> simp [Except.mapError]

/-- An outcome has a value when it is a success. -/
theorem toOption_eq_some_iff {outcome : Except ε α} {a : α} :
    outcome.toOption = some a ↔ outcome = .ok a := by
  cases outcome <;> simp [Except.toOption]

section List

variable {f : α → Except ε β} {l : List α} {out : List β}

/-- A step for every member of a list succeeds place by place. -/
theorem mapM_eq_ok_iff : l.mapM f = .ok out ↔ List.Forall₂ (fun a b => f a = .ok b) l out := by
  induction l generalizing out with
  | nil => simp [pure, Except.pure, eq_comm]
  | cons a l ih =>
    simp only [List.mapM_cons, bind_eq_ok, ih, List.forall₂_cons_left_iff]
    constructor
    · rintro ⟨b, hb, bs, hbs, h⟩
      exact ⟨b, bs, hb, hbs, (Except.ok.inj h).symm⟩
    · rintro ⟨b, bs, hb, hbs, rfl⟩
      exact ⟨b, hb, bs, hbs, rfl⟩

/-- A member for which the step succeeds adds what the step gives to the values of the others. -/
theorem filterMap_toOption_cons {a : α} {b : β} (h : f a = .ok b) :
    ((a :: l).filterMap fun a => (f a).toOption) = b :: l.filterMap fun a => (f a).toOption := by
  rw [List.filterMap_cons, h]
  rfl

/-- What a step for every member of a list gives is what it gives for each. -/
theorem mapM_eq_ok_iff_filterMap : l.mapM f = .ok out ↔
    (∀ a ∈ l, ∃ b, f a = .ok b) ∧ out = l.filterMap fun a => (f a).toOption := by
  induction l generalizing out with
  | nil => simp [pure, Except.pure, eq_comm]
  | cons a l ih =>
    simp only [List.mapM_cons, bind_eq_ok, ih, List.forall_mem_cons]
    constructor
    · rintro ⟨b, hb, bs, ⟨hall, rfl⟩, h⟩
      rw [filterMap_toOption_cons hb]
      exact ⟨⟨⟨b, hb⟩, hall⟩, (Except.ok.inj h).symm⟩
    · rintro ⟨⟨⟨b, hb⟩, hall⟩, rfl⟩
      rw [filterMap_toOption_cons hb]
      exact ⟨b, hb, _, ⟨hall, rfl⟩, rfl⟩

/-- A step for every member of a list fails for the first member, or after a success for it among
the others. -/
theorem mapM_cons_eq_error {a : α} {cause : ε} : (a :: l).mapM f = .error cause ↔
    f a = .error cause ∨ (∃ b, f a = .ok b) ∧ l.mapM f = .error cause := by
  rw [List.mapM_cons, bind_eq_error]
  simp only [bind_eq_error, pure, Except.pure, reduceCtorEq, and_false, exists_false, or_false,
    exists_and_right]

/-- A step for every member of a list fails as it does for the first member for which it fails. -/
theorem mapM_eq_error_iff {cause : ε} : l.mapM f = .error cause ↔
    ∃ before a after, l = before ++ a :: after ∧ (∀ b ∈ before, ∃ out, f b = .ok out) ∧
      f a = .error cause := by
  induction l with
  | nil => simp [pure, Except.pure]
  | cons a l ih =>
    rw [mapM_cons_eq_error, ih]
    constructor
    · rintro (hfirst | ⟨hfirst, before, b, after, rfl, hbefore, hb⟩)
      · exact ⟨[], a, l, rfl, nofun, hfirst⟩
      · exact ⟨a :: before, b, after, rfl, List.forall_mem_cons.mpr ⟨hfirst, hbefore⟩, hb⟩
    · rintro ⟨before, b, after, hl, hbefore, hb⟩
      cases before with
      | nil =>
        cases hl
        exact .inl hb
      | cons first before =>
        cases hl
        obtain ⟨hfirst, hbefore⟩ := List.forall_mem_cons.mp hbefore
        exact .inr ⟨hfirst, before, b, after, rfl, hbefore, hb⟩

/-- Either a step succeeds for every member of a list, or there is a first one for which it
fails. -/
theorem forall_ok_or_exists_error (f : α → Except ε β) (l : List α) :
    (∀ a ∈ l, ∃ b, f a = .ok b) ∨ ∃ before a after cause, l = before ++ a :: after ∧
      (∀ b ∈ before, ∃ out, f b = .ok out) ∧ f a = .error cause := by
  cases h : l.mapM f with
  | ok out => exact .inl (mapM_eq_ok_iff_filterMap.mp h).1
  | error cause =>
    obtain ⟨before, a, after, hl, hbefore, ha⟩ := mapM_eq_error_iff.mp h
    exact .inr ⟨before, a, after, cause, hl, hbefore, ha⟩

end List

section Run

variable {σ : Type} {s : σ}

/-- Steps that change a state run one after the other, up to the first failure. -/
theorem run_bind {first : ExceptT ε (StateM σ) α} {next : α → ExceptT ε (StateM σ) β} :
    ((first >>= next).run.run s : Except ε β × σ) =
      match (first.run.run s : Except ε α × σ) with
      | (.error cause, s') => (.error cause, s')
      | (.ok a, s') => (next a).run.run s' := by
  show (ExceptT.bindCont next (first.run.run s).1).run (first.run.run s).2 = _
  rcases first.run.run s with ⟨_ | _, _⟩ <;> rfl

/-- A step that begins by reading the state goes on from the state that there is. -/
theorem run_get_bind {next : σ → ExceptT ε (StateM σ) β} :
    ((get >>= next).run.run s : Except ε β × σ) = (next s).run.run s := rfl

/-- A step that begins by changing the state goes on from the changed state. -/
theorem run_modify_bind {f : σ → σ} {next : Unit → ExceptT ε (StateM σ) β} :
    ((modify f >>= next).run.run s : Except ε β × σ) = (next ()).run.run (f s) := rfl

/-- A step that begins with an outcome stops at a failure and leaves the state alone until then. -/
theorem run_lift_bind {x : Except ε α} {next : α → ExceptT ε (StateM σ) β} :
    ((liftM x >>= next).run.run s : Except ε β × σ) =
      match x with
      | .error cause => (.error cause, s)
      | .ok a => (next a).run.run s := by
  cases x <;> rfl

end Run

end SpatialIndex
