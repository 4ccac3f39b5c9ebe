import Mathlib.Data.List.Perm.Basic
import SpatialIndex.Entry
import SpatialIndex.Proofs.Box
import SpatialIndex.Proofs.Number.Rounding

/-!
# The order of entries

Sorting keeps entries with the same coordinate in the order in which they came, so its outcome is
determined by the entries of each coordinate alone.  The check for sorted entries compares
coordinates as numbers, and as numbers the two zeros are equal; sorting puts the negative zero
first.  Entries pass the check exactly if sorting leaves every number in its place, and sorting
leaves the entries themselves in their places exactly if also no negative zero comes after a
positive one.
-/

namespace SpatialIndex

section Ascending

variable {α : Type} {f : α → Int} {l l' : List α}

/-- Two lists that have the same members of every kind, in whatever order, have the same members. -/
theorem mem_iff_of_filter_eq (hfilter : ∀ v, l.filter (f · = v) = l'.filter (f · = v)) (a : α) :
    a ∈ l ↔ a ∈ l' := by
  have hsame : a ∈ l.filter (f · = f a) ↔ a ∈ l'.filter (f · = f a) := by rw [hfilter]
  simpa using hsame

/-- Members in ascending order are determined by those of each key in their order. -/
theorem eq_of_pairwise_of_filter_eq (hl : l.Pairwise fun a b => f a ≤ f b)
    (hl' : l'.Pairwise fun a b => f a ≤ f b)
    (hfilter : ∀ v, l.filter (f · = v) = l'.filter (f · = v)) : l = l' := by
  have hmem := mem_iff_of_filter_eq hfilter
  induction l generalizing l' with
  | nil =>
    refine (List.eq_nil_iff_forall_not_mem.mpr fun a ha => ?_).symm
    exact List.not_mem_nil ((hmem a).mpr ha)
  | cons a l ih =>
    cases l' with
    | nil => exact absurd ((hmem a).mp List.mem_cons_self) List.not_mem_nil
    | cons b l' =>
      rw [List.pairwise_cons] at hl hl'
      -- Both first members have the least key, and each is the first one that has it.
      have hab : f a ≤ f b := by
        rcases List.mem_cons.mp ((hmem b).mpr List.mem_cons_self) with rfl | hb
        · exact Int.le_refl _
        · exact hl.1 b hb
      have hba : f b ≤ f a := by
        rcases List.mem_cons.mp ((hmem a).mp List.mem_cons_self) with rfl | ha
        · exact Int.le_refl _
        · exact hl'.1 a ha
      have hfirst := hfilter (f a)
      rw [List.filter_cons_of_pos (by simp), List.filter_cons_of_pos (by simp; omega)] at hfirst
      obtain ⟨rfl, _⟩ := List.cons.inj hfirst
      have hrest (v : Int) : l.filter (f · = v) = l'.filter (f · = v) := by
        have hall := hfilter v
        simp only [List.filter_cons] at hall
        split at hall
        · exact (List.cons.inj hall).2
        · exact hall
      exact congrArg (a :: ·) (ih hl.2 hl'.2 hrest (mem_iff_of_filter_eq hrest))

end Ascending

namespace SortKey

variable {key : SortKey} {entries entries' : List Entry}

/-- Sorting neither drops an entry nor adds one. -/
theorem sort_perm (key : SortKey) (entries : List Entry) :
    (key.sort entries).Perm entries := by
  rw [sort_eq_mergeSort]
  exact List.mergeSort_perm _ _

/-- The coordinate of an entry with a valid box is a number; the middle of a box may be infinite. -/
theorem isNaN_value {e : Entry} (he : e.box.isValid = true) : (key.value e).isNaN = false := by
  simp only [Box.isValid, Bool.and_eq_true] at he
  obtain ⟨⟨⟨⟨⟨hminX, _⟩, hmaxX⟩, _⟩, _⟩, _⟩ := he
  cases key with
  | minX => exact Binary.isNaN_of_isFinite hminX
  | centerX =>
    have hsum : (e.box.minX.add e.box.maxX).isNaN = false :=
      Binary.isNaN_add (by decide) hminX hmaxX
    exact Binary.isNaN_div (by decide) hsum (by decide +kernel) (by decide +kernel)

section Stability

/-- The order that entries are sorted by is transitive. -/
private theorem totalKey_trans (a b c : Entry)
    (hab : decide ((key.value a).totalKey ≤ (key.value b).totalKey) = true)
    (hbc : decide ((key.value b).totalKey ≤ (key.value c).totalKey) = true) :
    decide ((key.value a).totalKey ≤ (key.value c).totalKey) = true := by
  rw [decide_eq_true_eq] at hab hbc ⊢
  omega

/-- Of two entries one is not after the other in the order that entries are sorted by. -/
private theorem totalKey_total (a b : Entry) :
    (decide ((key.value a).totalKey ≤ (key.value b).totalKey) ||
      decide ((key.value b).totalKey ≤ (key.value a).totalKey)) = true := by
  rw [Bool.or_eq_true, decide_eq_true_eq, decide_eq_true_eq]
  omega

/-- Sorted entries ascend in the total order of their coordinates. -/
theorem pairwise_sort (key : SortKey) (entries : List Entry) :
    (key.sort entries).Pairwise fun a b => (key.value a).totalKey ≤ (key.value b).totalKey := by
  rw [sort_eq_mergeSort]
  simpa using List.pairwise_mergeSort totalKey_trans totalKey_total entries

/-- Sorting is stable: the entries of one coordinate stay in their order. -/
theorem filter_sort (key : SortKey) (entries : List Entry) (v : Int) :
    (key.sort entries).filter (fun e => (key.value e).totalKey = v) =
      entries.filter fun e => (key.value e).totalKey = v := by
  have hascending : (entries.filter fun e => (key.value e).totalKey = v).Pairwise
      fun a b => decide ((key.value a).totalKey ≤ (key.value b).totalKey) = true := by
    refine List.pairwise_of_forall_mem_list fun a ha b hb => ?_
    have hva : (key.value a).totalKey = v := by simpa using (List.mem_filter.mp ha).2
    have hvb : (key.value b).totalKey = v := by simpa using (List.mem_filter.mp hb).2
    simp [hva, hvb]
  have hkept := (List.sublist_mergeSort totalKey_trans totalKey_total hascending
    List.filter_sublist).filter fun e => (key.value e).totalKey = v
  simp only [List.filter_filter, Bool.and_self, ← sort_eq_mergeSort] at hkept
  exact (hkept.eq_of_length ((key.sort_perm entries).filter _).length_eq.symm).symm

/-- Sorting comes to the same exactly for lists that have the entries of each coordinate in the
same order. -/
theorem sort_eq_sort_iff : key.sort entries = key.sort entries' ↔
    ∀ v, (entries.filter fun e => (key.value e).totalKey = v) =
      entries'.filter fun e => (key.value e).totalKey = v := by
  constructor
  · intro h v
    rw [← key.filter_sort entries, ← key.filter_sort entries', h]
  · intro h
    refine eq_of_pairwise_of_filter_eq (key.pairwise_sort _) (key.pairwise_sort _) fun v => ?_
    rw [filter_sort, filter_sort, h]

/-- Sorting what is sorted changes nothing. -/
theorem sort_sort (key : SortKey) (entries : List Entry) :
    key.sort (key.sort entries) = key.sort entries :=
  sort_eq_sort_iff.mpr (key.filter_sort entries)

/-- Sorting changes nothing exactly if the coordinates ascend already. -/
theorem sort_eq_self_iff_pairwise : key.sort entries = entries ↔
    entries.Pairwise fun a b => (key.value a).totalKey ≤ (key.value b).totalKey := by
  constructor
  · intro h
    rw [← h]
    exact key.pairwise_sort entries
  · intro h
    exact eq_of_pairwise_of_filter_eq (key.pairwise_sort _) h (key.filter_sort entries)

end Stability

section Sorted

/-- Entries pass the check exactly if the coordinate of each is at most that of every later one. -/
theorem isSorted_iff_pairwise : key.isSorted entries = true ↔
    entries.Pairwise fun a b => (key.value a).le (key.value b) = true := by
  have : Trans (fun a b => (key.value a).le (key.value b) = true)
      (fun a b => (key.value a).le (key.value b) = true)
      fun a b => (key.value a).le (key.value b) = true := ⟨Binary.le_trans⟩
  rw [← List.isChain_iff_pairwise]
  induction entries with
  | nil => simp [isSorted]
  | cons a entries ih =>
    cases entries with
    | nil => simp [isSorted]
    | cons b entries =>
      rw [List.isChain_cons_cons, isSorted, Bool.and_eq_true]
      exact and_congr_right' ih

variable (hnumbers : ∀ e ∈ entries, (key.value e).isNaN = false)

include hnumbers

/-- Entries count as sorted when the numbers that they are sorted by ascend, where zeros of both
signs are one number. -/
theorem isSorted_iff_pairwise_key : key.isSorted entries = true ↔
    entries.Pairwise fun a b => (key.value a).key ≤ (key.value b).key := by
  rw [isSorted_iff_pairwise]
  refine List.Pairwise.iff_of_mem fun ha hb => ?_
  rw [Binary.le_iff, and_iff_right (hnumbers _ ha), and_iff_right (hnumbers _ hb)]

/-- Sorting changes nothing exactly for entries that pass the check and have no negative zero after
a positive one. -/
theorem sort_eq_self_iff : key.sort entries = entries ↔ key.isSorted entries = true ∧
    entries.Pairwise fun a b => ¬(key.value a).ZerosReversed (key.value b) := by
  rw [sort_eq_self_iff_pairwise, isSorted_iff_pairwise_key hnumbers, ← List.pairwise_and_iff]
  simp only [Binary.totalKey_le_iff]

/-- Entries pass the check exactly if sorting leaves the number at every place as it is. -/
theorem isSorted_iff_map_key : key.isSorted entries = true ↔
    (key.sort entries).map (fun e => (key.value e).key) =
      entries.map fun e => (key.value e).key := by
  have hsorted : ((key.sort entries).map fun e => (key.value e).key).Pairwise (· ≤ ·) :=
    List.pairwise_map.mpr ((key.pairwise_sort entries).imp fun h =>
      (Binary.totalKey_le_iff.mp h).1)
  rw [isSorted_iff_pairwise_key hnumbers]
  constructor
  · intro h
    refine List.Perm.eq_of_pairwise (fun a b _ _ => Int.le_antisymm) hsorted ?_
      ((key.sort_perm entries).map _)
    exact List.pairwise_map.mpr h
  · intro h
    rw [h] at hsorted
    exact List.pairwise_map.mp hsorted

end Sorted

end SortKey

end SpatialIndex
