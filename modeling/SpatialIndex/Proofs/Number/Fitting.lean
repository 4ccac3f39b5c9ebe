import Mathlib.Algebra.GroupWithZero.Nat

/-!
# Numbers that must fit a word

A step on machine words goes wrong when its result does not fit: a sum or a product that is too
large, a difference below zero, a number cut off to fewer bits, a run of positions outside of what
it is read from.  The steps here give nothing in these cases, so a computation made of them that
comes to something has gone through without any of them.
-/

namespace SpatialIndex

/-- The number, if it fits so many bits. -/
def fit? (bits n : Nat) : Option Nat := if n < 2 ^ bits then some n else none

/-- The difference, if it is not below zero. -/
def difference? (a b : Nat) : Option Nat := if b ≤ a then some (a - b) else none

/-- The sum, if it fits so many bits after every addition. -/
def sum? (bits : Nat) (numbers : List Nat) : Option Nat :=
  numbers.foldlM (fun total n => fit? bits (total + n)) 0

/-- The members from one position up to another, if these are in order and not outside. -/
def slice? {α : Type} (l : List α) (start stop : Nat) : Option (List α) :=
  if start ≤ stop ∧ stop ≤ l.length then some (l.extract start stop) else none

/-- A number that fits stays what it is. -/
theorem fit?_of_lt {bits n : Nat} (h : n < 2 ^ bits) : fit? bits n = some n := if_pos h

/-- A difference that is not below zero is the difference. -/
theorem difference?_of_le {a b : Nat} (h : b ≤ a) : difference? a b = some (a - b) := if_pos h

/-- Between positions that are in order and inside there are the members between them. -/
theorem slice?_of_le {α : Type} {l : List α} {start stop : Nat} (hstart : start ≤ stop)
    (hstop : stop ≤ l.length) : slice? l start stop = some (l.extract start stop) :=
  if_pos ⟨hstart, hstop⟩

/-- Adding up goes right if all of the sum fits. -/
private theorem foldlM_fit? {bits : Nat} {numbers : List Nat} {start : Nat}
    (h : start + numbers.sum < 2 ^ bits) :
    numbers.foldlM (fun total n => fit? bits (total + n)) start = some (start + numbers.sum) := by
  induction numbers generalizing start with
  | nil => rfl
  | cons n numbers ih =>
    rw [List.sum_cons, ← Nat.add_assoc] at h ⊢
    have hfirst : fit? bits (start + n) = some (start + n) := fit?_of_lt (by omega)
    rw [List.foldlM_cons, hfirst]
    exact ih h

/-- If the sum fits, so do all sums on the way to it. -/
theorem sum?_of_lt {bits : Nat} {numbers : List Nat} (h : numbers.sum < 2 ^ bits) :
    sum? bits numbers = some numbers.sum := by
  have hfold := foldlM_fit? (by omega : 0 + numbers.sum < 2 ^ bits)
  rwa [Nat.zero_add] at hfold

/-- A step that goes wrong for no member of a list does not go wrong for all of them together. -/
theorem mapM_zipIdx_of_forall {α β : Type} {l : List α} {f : α × Nat → Option β}
    {g : Nat → α → β} (h : ∀ i a, l[i]? = some a → f (a, i) = some (g i a)) :
    l.zipIdx.mapM f = some (l.mapIdx g) := by
  have hmembers : ∀ (l : List (α × Nat)), (∀ b ∈ l, f b = some (g b.2 b.1)) →
      l.mapM f = some (l.map fun b => g b.2 b.1) := by
    intro l hl
    induction l with
    | nil => rfl
    | cons b l ih =>
      obtain ⟨hb, hrest⟩ := List.forall_mem_cons.mp hl
      rw [List.mapM_cons, hb, ih hrest]
      rfl
  rw [List.mapIdx_eq_zipIdx_map]
  apply hmembers
  intro b hb
  exact h b.2 b.1 (List.mem_zipIdx_iff_getElem?.mp hb)

section Outcome

variable {ε α β : Type} {first : ExceptT ε Option α} {next : α → ExceptT ε Option β}
  {outcome : Except ε α}

/-- The computation ends and no step of it goes wrong; this is its outcome. -/
def ComesTo (computation : ExceptT ε Option α) (outcome : Except ε α) : Prop :=
  computation.run = some outcome

namespace ComesTo

/-- A value by itself is an outcome. -/
theorem pure (a : α) : ComesTo (pure a : ExceptT ε Option α) (.ok a) := rfl

/-- A failure by itself is an outcome. -/
theorem throw (cause : ε) : ComesTo (throw cause : ExceptT ε Option α) (.error cause) := rfl

/-- A computation that cannot go wrong has its own outcome. -/
theorem lift (outcome : Except ε α) : ComesTo (liftM outcome) outcome := rfl

/-- Two computations one after the other; the second one need not go through if the first one
fails. -/
theorem bind {next' : α → Except ε β} (hfirst : ComesTo first outcome)
    (hnext : ∀ a, outcome = .ok a → ComesTo (next a) (next' a)) :
    ComesTo (first >>= next) (outcome >>= next') := by
  have hrun : (first >>= next).run = some outcome >>= ExceptT.bindCont next := by
    rw [← hfirst]
    rfl
  unfold ComesTo
  rw [hrun]
  cases outcome with
  | error cause => rfl
  | ok a => exact hnext a rfl

/-- A step that does not go wrong, and what comes after it. -/
theorem step {a : α} {x : Option α} {outcome : Except ε β} (hstep : x = some a)
    (hnext : ComesTo (next a) outcome) : ComesTo (liftM x >>= next) outcome := by
  subst hstep
  exact hnext

/-- Steps over a list one after the other, as long as they keep what each of them relies on. -/
theorem foldlM {σ : Type} {go : σ → β → ExceptT ε Option σ} {go' : σ → β → Except ε σ}
    {holds : σ → Prop} {l : List β} {s : σ} (hs : holds s)
    (hgo : ∀ s, holds s → ∀ b ∈ l, ComesTo (go s b) (go' s b))
    (hkeep : ∀ s, holds s → ∀ b ∈ l, ∀ s', go' s b = .ok s' → holds s') :
    ComesTo (l.foldlM go s) (l.foldlM go' s) := by
  induction l generalizing s with
  | nil => exact .pure s
  | cons b l ih =>
    rw [List.foldlM_cons, List.foldlM_cons]
    refine (hgo s hs b List.mem_cons_self).bind fun s' hs' => ?_
    have hfirst : holds s' := hkeep s hs b List.mem_cons_self s' hs'
    apply ih hfirst
    · exact fun s hs b hb => hgo s hs b (List.mem_cons_of_mem _ hb)
    · exact fun s hs b hb => hkeep s hs b (List.mem_cons_of_mem _ hb)

end ComesTo

end Outcome

end SpatialIndex
