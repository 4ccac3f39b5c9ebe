import Mathlib.Data.List.Flatten
import SpatialIndex.Proofs.Tree.Traversal

/-!
# Estimates of a tree

An estimate looks at the root and at the nodes right below it, and adds up the counts of those that
the query meets.  The counts are those of the entries below, so the estimate is the number of
entries below some nodes of one level.  A search finds entries below the same nodes only.
-/

namespace SpatialIndex

namespace Tree

variable {t : Tree} {query wider : Box}

/-- How the estimates of a tree relate to what its searches find and to how many entries it holds,
for every query, be it valid or not. -/
structure EstimateBounds (t : Tree) : Prop where
  /-- A search finds no more than was estimated. -/
  count_le : ∀ query : Box, t.countIntersecting query ≤ (t.estimate query).toNat
  /-- There are no more than all entries. -/
  le_size : ∀ query : Box, (t.estimate query).toNat ≤ t.size
  /-- A wider query does not lower the estimate. -/
  estimate_mono : ∀ query wider : Box, wider.isValid = true → wider.contains query = true →
    (t.estimate query).toNat ≤ (t.estimate wider).toNat
  /-- A wider query does not find less. -/
  count_mono : ∀ query wider : Box, wider.isValid = true → wider.contains query = true →
    t.countIntersecting query ≤ t.countIntersecting wider

/-- No more rows are found than entries are looked at. -/
theorem length_rowsOf_le (t : Tree) (query : Box) (positions : List Nat) :
    (t.rowsOf query positions).length ≤ positions.length := by
  rw [rowsOf, List.length_map]
  exact Nat.le_trans (List.length_filter_le _ _) (List.length_filterMap_le _ _)

/-- A wider query meets the same nodes and maybe others. -/
theorem meets_mono (hwider : wider.contains query = true) {id : Nat}
    (h : t.meets query id = true) : t.meets wider id = true := by
  unfold meets at h ⊢
  rw [Option.any_eq_true] at h ⊢
  obtain ⟨node, hnode, hmeets⟩ := h
  exact ⟨node, hnode, Box.intersects_mono hwider hmeets⟩

/-- Among the same entries, a wider query does not match fewer. -/
theorem length_rowsOf_mono (hwider : wider.contains query = true) (positions : List Nat) :
    (t.rowsOf query positions).length ≤ (t.rowsOf wider positions).length := by
  simp only [rowsOf, List.length_map]
  exact (List.monotone_filter_right _ fun e he => Box.intersects_mono hwider he).length_le

/-- A query that is not valid is estimated to find nothing. -/
theorem estimate_of_not_isValid (hquery : query.isValid = false) : t.estimate query = 0 := by
  simp [estimate, hquery]

/-- The nodes of a level, and how many of the entries below them an estimate counts. -/
structure EstimatedFrom (t : Tree) (level : Nat) (top : List Nat) : Prop where
  /-- Each is the root of a sound subtree. -/
  subtree : ∀ id ∈ top, t.Subtree level id
  /-- Together they reach all entries that the root reaches, in the same order. -/
  entries : top.flatMap (t.subtreeEntries level) =
    t.subtreeEntries (t.height.toNat - 1) t.root.toNat
  /-- Counted are the entries below the nodes that a valid query meets. -/
  estimate : ∀ query : Box, query.isValid = true → (t.estimate query).toNat =
    ((top.filter (t.meets query)).flatMap (t.subtreeEntries level)).length

namespace EstimatedFrom

variable {level : Nat} {top : List Nat} (h : t.EstimatedFrom level top)

include h

/-- No more entries are counted than are reached. -/
theorem estimate_le (query : Box) : (t.estimate query).toNat ≤
    (t.subtreeEntries (t.height.toNat - 1) t.root.toNat).length := by
  cases hquery : query.isValid with
  | false =>
    rw [estimate_of_not_isValid hquery]
    exact Nat.zero_le _
  | true =>
    rw [h.estimate query hquery, ← h.entries]
    exact (List.filter_sublist.flatMap _).length_le

/-- A wider query meets more of the nodes. -/
theorem estimate_mono (hwider : wider.isValid = true) (hcontains : wider.contains query = true) :
    (t.estimate query).toNat ≤ (t.estimate wider).toNat := by
  cases hquery : query.isValid with
  | false =>
    rw [estimate_of_not_isValid hquery]
    exact Nat.zero_le _
  | true =>
    have hmore : (top.filter (t.meets query)).Sublist (top.filter (t.meets wider)) :=
      List.monotone_filter_right top fun _ => meets_mono hcontains
    rw [h.estimate query hquery, h.estimate wider hwider]
    exact (hmore.flatMap _).length_le

/-- All that matches lies below the nodes that the query meets, so it has been counted. -/
theorem length_matching_le (hnumeric : ∀ e ∈ t.entries.toList, e.box.IsNumeric)
    (hquery : query.isValid = true) :
    (t.rowsOf query (t.subtreeEntries (t.height.toNat - 1) t.root.toNat)).length ≤
      (t.estimate query).toNat := by
  have hmet : (top.filter (t.meets query)).flatMap
      (fun id => t.rowsOf query (t.subtreeEntries level id)) =
        t.rowsOf query (top.flatMap (t.subtreeEntries level)) := by
    rw [rowsOf_flatMap]
    exact flatMap_filter_of_eq_nil fun id hid hmeets =>
      (h.subtree id hid).rowsOf_eq_nil hnumeric hmeets
  rw [← h.entries, ← hmet, ← rowsOf_flatMap, h.estimate query hquery]
  exact t.length_rowsOf_le query _

end EstimatedFrom

/-- The nodes that are met, from the nodes at the given positions. -/
theorem filter_meets (query : Box) (ids : List Nat) :
    (ids.filterMap (t.nodes[·]?)).filter (·.box.intersects query) =
      (ids.filter (t.meets query)).filterMap (t.nodes[·]?) := by
  rw [List.filter_filterMap, List.filterMap_filter]
  congr 1
  funext id
  unfold meets
  cases t.nodes[id]? with
  | none => rfl
  | some node => cases hmeets : node.box.intersects query <;> simp [hmeets]

/-- What an estimate reads off the root of a tree with entries. -/
theorem estimate_eq (hsize : 0 < t.size) (hquery : query.isValid = true) {root : Node}
    (hroot : t.nodes[t.root.toNat]? = some root) :
    t.estimate query = if root.isLeaf then (if root.box.intersects query then root.count else 0)
      else Node.totalCount ((t.childNodes root).filter (·.box.intersects query)) := by
  have hne : t.isEmpty = false := by
    rw [isEmpty, decide_eq_false_iff_not]
    omega
  simp [estimate, hne, hquery, rootNode?, node?, hroot]

section Layout

variable (h : t.Layout) (hsize : 0 < t.size)

include h hsize

/-- An estimate counts from a root that is a leaf, or else from the nodes right below it. -/
theorem Layout.exists_estimatedFrom : ∃ level top, t.EstimatedFrom level top := by
  have hsub := h.subtree
  generalize hbelow : t.height.toNat - 1 = below at hsub
  cases hsub with
  | @leaf _ root hroot hleaf hfits hrange hcount =>
    refine ⟨0, [t.root.toNat], ?_, ?_, fun query hquery => ?_⟩
    · exact List.forall_mem_singleton.mpr (.leaf hroot hleaf hfits hrange hcount)
    · rw [List.flatMap_singleton, hbelow]
    · have hheld : root.count.toNat = (t.subtreeEntries 0 t.root.toNat).length := by
        rw [hcount, subtreeEntries, entryPositions_leaf hroot hleaf, ChildRange.length_positions]
      rw [estimate_eq hsize hquery hroot, if_pos hleaf, List.filter_singleton, meets, hroot,
        Option.any_some]
      cases root.box.intersects query with
      | true => simpa using hheld
      | false => rfl
  | @inner level _ root hroot hinner _ _ hchildren hcount =>
    refine ⟨level, root.children.positions, hchildren, ?_, fun query hquery => ?_⟩
    · rw [hbelow, subtreeEntries, childPositions_inner hroot hinner]
    · have hmet := Subtree.sum_counts_eq t.nodes (t.subtreeEntries level)
        (root.children.positions.filter (t.meets query))
        fun id hid => (hchildren id (List.mem_filter.mp hid).1).count_eq
      have hall := Subtree.sum_counts_eq t.nodes (t.subtreeEntries level) root.children.positions
        fun id hid => (hchildren id hid).count_eq
      -- All counts together are that of the root, so no sum of some of them overflows.
      have hfits : Node.entryTotal ((root.children.positions.filter (t.meets query)).filterMap
          (t.nodes[·]?)) < UInt64.size := by
        rw [hmet]
        refine Nat.lt_of_le_of_lt (List.filter_sublist.flatMap _).length_le ?_
        rw [← hall, ← childNodes_eq hinner, ← hcount]
        exact root.count.toNat_lt_size
      rw [estimate_eq hsize hquery hroot, hinner, if_neg Bool.false_ne_true, childNodes_eq hinner,
        filter_meets, Node.toNat_totalCount hfits, hmet]

/-- The estimates of a tree with a sound layout bound what its searches find. -/
theorem Layout.estimateBounds (hnumeric : ∀ e ∈ t.entries.toList, e.box.IsNumeric) :
    t.EstimateBounds := by
  obtain ⟨level, top, htop⟩ := h.exists_estimatedFrom hsize
  have hsearch := h.search_eq hsize hnumeric
  refine ⟨fun query => ?_, fun query => ?_, fun query wider => htop.estimate_mono,
    fun query wider hwider hcontains => ?_⟩
  · rw [countIntersecting, hsearch]
    split
    · rename_i hquery
      exact htop.length_matching_le hnumeric hquery
    · exact Nat.zero_le _
  · have hle := htop.estimate_le query
    rw [h.entries.length_eq, List.length_range] at hle
    exact hle
  · rw [countIntersecting, countIntersecting, hsearch, hsearch, if_pos hwider]
    split
    · exact length_rowsOf_mono hcontains _
    · exact Nat.zero_le _

end Layout

/-- A tree without entries finds nothing and is estimated to find nothing. -/
theorem estimateBounds_of_isEmpty (hsize : t.size = 0) : t.EstimateBounds := by
  have hestimate (query : Box) : t.estimate query = 0 := by simp [estimate, isEmpty, hsize]
  have hcount (query : Box) : t.countIntersecting query = 0 := by
    rw [countIntersecting, (search_eq_nil (by simp [searchStack, isEmpty, hsize])).1]
    rfl
  constructor <;> intros <;> simp [hestimate, hcount]

/-- The estimates of a tree that passes its check, with boxes free of NaN, bound what its searches
find. -/
theorem estimateBounds_of_validate (hok : t.validate = .ok ())
    (hnumeric : ∀ e ∈ t.entries.toList, e.box.IsNumeric) : t.EstimateBounds := by
  rcases Nat.eq_zero_or_pos t.size with hsize | hsize
  · exact estimateBounds_of_isEmpty hsize
  · exact ((validate_eq_ok_iff_layout hsize).mp hok).estimateBounds hsize hnumeric

end Tree

/-- The estimates of a packed tree bound what its searches find. -/
theorem Packing.estimateBounds_of_packSorted {p : Packing} {entries : List Entry} {t : Tree}
    (h : p.packSorted entries = .ok t) : t.EstimateBounds := by
  refine Tree.estimateBounds_of_validate (validate_of_packSorted h) ?_
  obtain ⟨_, _, hvalid, _⟩ := packSorted_eq_ok_iff.mp h
  rw [entries_of_packSorted h]
  exact fun e he => Box.isNumeric_of_isValid (hvalid e he)

end SpatialIndex
