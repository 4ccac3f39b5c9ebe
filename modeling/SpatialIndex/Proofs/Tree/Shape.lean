import Mathlib.Algebra.BigOperators.Intervals
import Mathlib.Data.Nat.Log
import SpatialIndex.Proofs.Tree.Acceptance
import SpatialIndex.Proofs.Tree.Grouping
import SpatialIndex.Proofs.Tree.WellFormed
import SpatialIndex.Tree.Statistics

/-!
# The shape of a packed tree

A level has as many nodes as are needed to hold the level below it, so counting in groups once more
for every level gives the number of entries divided by a power of the fanout, rounded up.  The
levels end where a single node is enough.  All leaves but the last are full, and together they hold
the entries in order.
-/

namespace SpatialIndex

/-- To group in two steps takes as many groups as to group at once. -/
theorem ceilDiv_ceilDiv {size size' : Nat} (hsize : 0 < size) (hsize' : 0 < size') (n : Nat) :
    ceilDiv (ceilDiv n size) size' = ceilDiv n (size * size') := by
  refine eq_of_forall_ge_iff fun groups => ?_
  rw [ceilDiv_le_iff hsize', ceilDiv_le_iff hsize, ceilDiv_le_iff (Nat.mul_pos hsize hsize'),
    Nat.mul_assoc, Nat.mul_comm size']

/-- The shape of a tree over so many entries. -/
structure Tree.HasShape (t : Tree) (count fanout : Nat) : Prop where
  /-- The height is the least one at which a tree can hold the entries. -/
  height : IsLeast {h : ℕ | 1 ≤ h ∧ count ≤ fanout ^ h} t.height.toNat
  /-- There are as many leaves as it takes to hold the entries. -/
  leaves : (t.nodes.toList.filter (·.isLeaf)).length = ceilDiv count fanout
  /-- On every level there are as many nodes as it takes to stand over the entries. -/
  nodes : t.nodes.size = ∑ k ∈ Finset.Icc 1 t.height.toNat, ceilDiv count (fanout ^ k)
  /-- The figures of the tree say so. -/
  statistics : t.statistics = ⟨count, ∑ k ∈ Finset.Icc 1 t.height.toNat, ceilDiv count (fanout ^ k),
    ceilDiv count fanout, t.height, .ofNat fanout⟩
  /-- Every leaf except the last is full. -/
  full : ∀ leaf ∈ (t.nodes.toList.filter (·.isLeaf)).dropLast, (t.leafEntries leaf).length = fanout
  /-- From leaf to leaf, the rows are those of the entries in order. -/
  rows : t.leafGroups.flatten = t.entries.toList.map (·.row)

namespace Packing

section Levels

variable {fanout : Nat}

/-- Every node of a packed level except the last stands over a full group. -/
theorem exists_of_mem_dropLast_packGroups {α : Type} {node : Nat → List α → Node}
    (hfanout : 0 < fanout) {base : Nat} {level : List α} {n : Node}
    (hn : n ∈ (packGroups node fanout base level).dropLast) :
    ∃ before group after, level = before ++ group ++ after ∧ group.length = fanout ∧
      n = node (base + before.length) group := by
  induction level using groups_induction hfanout generalizing base with
  | nil => simp at hn
  | group level hlevel ih =>
    by_cases hshort : level.length ≤ fanout
    · -- There is one group at most, so nothing comes before the last node.
      have hone : (packGroups node fanout base level).length ≤ 1 := by
        rw [length_packGroups hfanout, ceilDiv_le_iff hfanout]
        omega
      have hnone : (packGroups node fanout base level).dropLast = [] :=
        List.eq_nil_of_length_eq_zero (by rw [List.length_dropLast]; omega)
      rw [hnone] at hn
      cases hn
    · have hrest : packGroups node fanout (base + fanout) (level.drop fanout) ≠ [] := by
        rw [packGroups_eq_cons hfanout (by simpa using hshort)]
        exact List.cons_ne_nil _ _
      have htake : (level.take fanout).length = fanout := by
        rw [List.length_take]
        omega
      rw [packGroups_eq_cons hfanout hlevel, List.dropLast_cons_of_ne_nil hrest,
        List.mem_cons] at hn
      rcases hn with rfl | hn
      · exact ⟨[], level.take fanout, level.drop fanout, by simp, htake, by simp⟩
      · obtain ⟨before, group, after, heq, hfull, rfl⟩ := ih hn
        refine ⟨level.take fanout ++ before, group, after, ?_, hfull, ?_⟩
        · rw [List.append_assoc, List.append_assoc, ← List.append_assoc before, ← heq,
            List.take_append_drop]
        · rw [List.length_append, htake, Nat.add_assoc]

variable (hfanout : 2 ≤ fanout)

include hfanout

/-- No parent is a leaf. -/
theorem inner_of_mem_packParents {base : Nat} {level : List Node} :
    ∀ node ∈ packParents fanout base level, node.isLeaf = false := by
  intro node hnode
  obtain ⟨_, _, _, _, _, _, rfl⟩ := exists_of_mem_packGroups (by omega) hnode
  rfl

/-- The height is the logarithm of the number of lowest nodes, rounded up, and one more. -/
theorem height_levels (base : Nat) (level : List Node) :
    (levels fanout base level).2 = Nat.clog fanout level.length + 1 := by
  induction base, level using levels_induction hfanout with
  | single base level hshort =>
    rw [levels_eq_self hshort, Nat.clog_of_right_le_one (by omega)]
  | above base level hlong ih =>
    rw [levels_eq_above hfanout hlong, ih, packParents, length_packGroups (by omega),
      Nat.clog_of_two_le hfanout hlong, ceilDiv]

/-- On every level there are as many nodes as it takes to stand over the lowest one. -/
theorem length_levels (base : Nat) (level : List Node) :
    (levels fanout base level).1.length =
      ∑ k ∈ Finset.range (levels fanout base level).2, ceilDiv level.length (fanout ^ k) := by
  have hone (m : Nat) : ceilDiv m (fanout ^ 0) = m := by simp [ceilDiv]
  induction base, level using levels_induction hfanout with
  | single base level hshort => rw [levels_eq_self hshort, Finset.sum_range_one, hone]
  | above base level hlong ih =>
    rw [levels_eq_above hfanout hlong, List.length_append, ih, packParents,
      length_packGroups (by omega), Finset.sum_range_succ', hone, Nat.add_comm]
    refine congrArg (· + level.length) (Finset.sum_congr rfl fun k _ => ?_)
    rw [ceilDiv_ceilDiv (by omega) (Nat.pow_pos (by omega)), Nat.pow_succ']

/-- Over inner nodes there are only inner nodes. -/
theorem inner_of_mem_levels (base : Nat) (level : List Node)
    (hinner : ∀ node ∈ level, node.isLeaf = false) :
    ∀ node ∈ (levels fanout base level).1, node.isLeaf = false := by
  induction base, level using levels_induction hfanout with
  | single base level hshort =>
    rw [levels_eq_self hshort]
    exact hinner
  | above base level hlong ih =>
    rw [levels_eq_above hfanout hlong, List.forall_mem_append]
    exact ⟨hinner, ih (inner_of_mem_packParents hfanout)⟩

/-- Of all levels, the lowest one are the leaves. -/
theorem filter_levels (base : Nat) (level : List Node)
    (hleaf : ∀ node ∈ level, node.isLeaf = true) :
    (levels fanout base level).1.filter (·.isLeaf) = level := by
  have hlowest : level.filter (·.isLeaf) = level := List.filter_eq_self.mpr hleaf
  by_cases hlong : 2 ≤ level.length
  · have habove := inner_of_mem_levels hfanout (base + level.length)
      (packParents fanout base level) (inner_of_mem_packParents hfanout)
    rw [levels_eq_above hfanout hlong, List.filter_append, hlowest,
      List.filter_eq_nil_iff.mpr fun node hnode => by simp [habove node hnode], List.append_nil]
  · rw [levels_eq_self (by omega)]
    exact hlowest

end Levels

variable {p : Packing} {entries : List Entry}

section Packed

variable (hfanout : isFanout p.fanout = true) (hsize : entries.length < UInt32.size)

include hfanout

/-- The leaves of a packed tree are those that were packed first. -/
theorem filter_packed : (p.packed entries).nodes.toList.filter (·.isLeaf) =
    packLeaves p.fanout 0 entries := by
  have htwo := (isFanout_iff.mp hfanout).1
  show (levels p.fanout 0 (p.leaves entries)).1.filter _ = _
  rw [leaves_eq_packLeaves p (by omega)]
  refine filter_levels htwo 0 _ fun node hnode => ?_
  obtain ⟨_, _, _, _, _, _, rfl⟩ := exists_of_mem_packGroups (by omega) hnode
  rfl

include hsize

/-- From leaf to leaf, a packed tree holds the entries in order. -/
theorem flatMap_leafEntries_packed :
    (packLeaves p.fanout 0 entries).flatMap (p.packed entries).leafEntries = entries := by
  have htwo := (isFanout_iff.mp hfanout).1
  have hpositions := @flatMap_positions_packGroups _ leaf _ (by omega : 0 < p.fanout) 0 entries
    (fun _ _ _ => rfl) (by omega)
  have hentries := HasRun.filterMap_eq (HasRun.toArray entries)
  rw [← hpositions, List.filterMap_flatMap] at hentries
  refine Eq.trans (List.flatMap_congr fun node hnode => ?_) hentries
  obtain ⟨_, _, _, _, _, _, rfl⟩ := exists_of_mem_packGroups (by omega) hnode
  exact Tree.leafEntries_eq rfl

/-- Every leaf except the last is full. -/
theorem length_leafEntries_packed : ∀ node ∈ (packLeaves p.fanout 0 entries).dropLast,
    ((p.packed entries).leafEntries node).length = p.fanout := by
  intro node hnode
  have htwo := (isFanout_iff.mp hfanout).1
  obtain ⟨before, group, after, heq, hfull, rfl⟩ :=
    exists_of_mem_dropLast_packGroups (by omega) hnode
  have hrun : HasRun (p.packed entries).entries (0 + before.length) group := by
    have h := HasRun.toArray entries
    rw [heq, HasRun.append_iff, HasRun.append_iff] at h
    show HasRun entries.toArray _ _
    rw [heq]
    exact h.1.2
  have hinside := congrArg List.length heq
  rw [List.length_append, List.length_append] at hinside
  rw [Tree.leafEntries_leaf hrun (by omega), hfull]

/-- The height of a packed tree is the least one that leaves room for the entries. -/
theorem isLeast_height_packed :
    IsLeast {h : ℕ | 1 ≤ h ∧ entries.length ≤ p.fanout ^ h} (p.packed entries).height.toNat := by
  have htwo := (isFanout_iff.mp hfanout).1
  have hroom (h : ℕ) : Nat.clog p.fanout (ceilDiv entries.length p.fanout) ≤ h ↔
      entries.length ≤ p.fanout ^ (h + 1) := by
    rw [Nat.clog_le_iff_le_pow (by omega), ceilDiv_le_iff (by omega), Nat.pow_succ]
  rw [toNat_height_packed hfanout hsize, height_levels htwo, length_leaves p (by omega)]
  refine ⟨⟨Nat.le_add_left _ _, (hroom _).mp (Nat.le_refl _)⟩, ?_⟩
  rintro h ⟨hpos, hle⟩
  obtain ⟨h, rfl⟩ := Nat.exists_eq_add_of_le' hpos
  exact Nat.succ_le_succ ((hroom h).mpr hle)

/-- On every level of a packed tree there are as many nodes as it takes to stand over the
entries. -/
theorem size_packed : (p.packed entries).nodes.size =
    ∑ k ∈ Finset.Icc 1 (p.packed entries).height.toNat, ceilDiv entries.length (p.fanout ^ k) := by
  have htwo := (isFanout_iff.mp hfanout).1
  rw [toNat_height_packed hfanout hsize, ← Finset.Ico_add_one_right_eq_Icc,
    Finset.sum_Ico_eq_sum_range, Nat.add_sub_cancel]
  refine (length_levels htwo 0 (p.leaves entries)).trans (Finset.sum_congr rfl fun k _ => ?_)
  rw [length_leaves p (by omega), ceilDiv_ceilDiv (by omega) (Nat.pow_pos (by omega)),
    Nat.pow_add, Nat.pow_one]

/-- A packed tree over at least one entry has the shape that the number of entries and the fanout
prescribe. -/
theorem hasShape_packed (hentries : entries ≠ []) :
    (p.packed entries).HasShape entries.length p.fanout := by
  have htwo := (isFanout_iff.mp hfanout).1
  have hleaves : ((p.packed entries).nodes.toList.filter (·.isLeaf)).length =
      ceilDiv entries.length p.fanout := by
    rw [filter_packed hfanout, packLeaves, length_packGroups (by omega)]
  have hnodes := size_packed hfanout hsize
  refine ⟨isLeast_height_packed hfanout hsize, hleaves, hnodes, ?_, ?_, ?_⟩
  · -- No leaf is without entries, so leaving out such leaves changes no figure.
    have hlayout := (packed_layout hfanout hsize hentries).1
    have hheld : ∀ node ∈ (p.packed entries).nodes.toList,
        (node.isLeaf && node.children.len != 0) = node.isLeaf := by
      intro node hnode
      have hchild := (hlayout.fits_of_mem hnode).nonempty
      simp [hchild]
    rw [Tree.statistics, hnodes, List.countP_eq_length_filter, List.filter_congr hheld, hleaves]
    rfl
  · rw [filter_packed hfanout]
    exact length_leafEntries_packed hfanout hsize
  · rw [Tree.leafGroups, List.flatten_filter_not_isEmpty, filter_packed hfanout, ← List.flatMap_def,
      ← List.map_flatMap, flatMap_leafEntries_packed hfanout hsize]
    rfl

end Packed

/-- Packing at least one entry, in order or as they come, gives a tree whenever the fanout is
allowed, the entries can be counted and their boxes are valid.  Every tree that it gives is as high
as it has to be, has on each level the nodes needed to stand over the entries, says so in its
figures, fills all leaves but the last, and lists the rows of its entries leaf by leaf in order. -/
theorem pack_hasShape (p : Packing) {entries : List Entry} (hentries : entries ≠ []) :
    (p.Accepts entries → (∃ t, p.pack entries = .ok t) ∧ ∃ t, p.packSorted entries = .ok t) ∧
    ∀ t, p.pack entries = .ok t ∨ p.packSorted entries = .ok t →
      t.HasShape entries.length p.fanout := by
  have hperm := p.sortKey.sort_perm entries
  have hshape (l : List Entry) (hl : l.Perm entries) (t : Tree) (ht : p.packSorted l = .ok t) :
      t.HasShape entries.length p.fanout := by
    obtain ⟨hfanout, hsize, _, rfl⟩ := packSorted_eq_ok_iff.mp ht
    have hne : l ≠ [] := fun hnil => hentries (List.nil_perm.mp (hnil ▸ hl))
    rw [if_neg hne, ← hl.length_eq]
    exact hasShape_packed hfanout hsize hne
  refine ⟨fun h => ⟨?_, ?_⟩, fun t ht => ?_⟩
  · obtain ⟨t, ht, _⟩ := (h.perm hperm.symm).packSorted
    exact ⟨t, ht⟩
  · obtain ⟨t, ht, _⟩ := h.packSorted
    exact ⟨t, ht⟩
  · rcases ht with ht | ht
    · exact hshape _ hperm t ht
    · exact hshape _ (.refl _) t ht

/-- Five places in nodes of two need a third level: a root over two nodes over three leaves. -/
theorem pack_hasShape_points :
    let point (n : Int) : Box := .ofPoint (.ofInt n) (.ofInt n)
    let p : Packing := ⟨2, 2, 0, .centerX⟩
    ∃ t, p.pack [⟨point 4, 5⟩, ⟨point 2, 6⟩, ⟨point 0, 7⟩, ⟨point 1, 8⟩, ⟨point 3, 9⟩] = .ok t ∧
      t.HasShape 5 2 ∧ t.statistics = ⟨5, 6, 3, 3, 2⟩ := by
  intro point p
  have h := @pack_hasShape p
    [⟨point 4, 5⟩, ⟨point 2, 6⟩, ⟨point 0, 7⟩, ⟨point 1, 8⟩, ⟨point 3, 9⟩] (List.cons_ne_nil _ _)
  obtain ⟨⟨t, ht⟩, _⟩ := h.1 ⟨by decide, by decide, by decide +kernel⟩
  have hshape : t.HasShape 5 2 := h.2 t (.inl ht)
  have hthird : IsLeast {h : ℕ | 1 ≤ h ∧ 5 ≤ 2 ^ h} 3 := by
    refine ⟨by decide, fun h hroom => ?_⟩
    by_contra hlow
    have hpow : 2 ^ h ≤ 2 ^ 2 := Nat.pow_le_pow_right (by decide) (by omega)
    have := hroom.2
    omega
  have hlevels : t.height.toNat = 3 := hshape.height.unique hthird
  have hheight : t.height = 3 := UInt32.toNat_inj.mp hlevels
  refine ⟨t, ht, hshape, ?_⟩
  rw [hshape.statistics, hlevels, hheight]
  decide

end Packing

end SpatialIndex
