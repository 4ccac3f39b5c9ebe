import SpatialIndex.Proofs.Box
import SpatialIndex.Proofs.Entry
import SpatialIndex.Proofs.Tree.Grouping
import SpatialIndex.Proofs.Tree.Marking

/-!
# Packed trees are sound

Packing adds one level after the other.  Each level added stands over all levels before it: its
nodes are roots of sound subtrees that together reach every node so far once and every entry in
order.  When one node is left, that is the whole tree.
-/

namespace SpatialIndex

section Run

variable {α β : Type}

/-- An array holds the members of a list one after the other from a position on. -/
def HasRun (xs : Array α) (start : Nat) (run : List α) : Prop :=
  ∀ i a, run[i]? = some a → xs[start + i]? = some a

namespace HasRun

variable {xs : Array α} {start : Nat} {run run' : List α} {a : α}

/-- A run is its first member at the position and the others from the next one on. -/
theorem cons_iff :
    HasRun xs start (a :: run) ↔ xs[start]? = some a ∧ HasRun xs (start + 1) run := by
  constructor
  · intro h
    refine ⟨h 0 a rfl, fun i b hb => ?_⟩
    rw [Nat.add_assoc, Nat.add_comm 1]
    exact h (i + 1) b hb
  · rintro ⟨hfirst, hrest⟩ i b hb
    cases i with
    | zero =>
      cases hb
      exact hfirst
    | succ i =>
      rw [← Nat.add_assoc, Nat.add_right_comm]
      exact hrest i b hb

/-- A run of two lists is the one followed by the other. -/
theorem append_iff :
    HasRun xs start (run ++ run') ↔ HasRun xs start run ∧ HasRun xs (start + run.length) run' := by
  induction run generalizing start with
  | nil => simp [HasRun]
  | cons a run ih =>
    rw [List.cons_append, cons_iff, cons_iff, ih, List.length_cons, and_assoc,
      show start + (run.length + 1) = start + 1 + run.length by omega]

/-- An array made of a list holds it from the first position on. -/
theorem toArray (l : List α) : HasRun l.toArray 0 l := by
  intro i a h
  simpa using h

/-- What the array holds at the positions of the run. -/
theorem filterMap_eq (h : HasRun xs start run) :
    (List.range' start run.length).filterMap (xs[·]?) = run := by
  induction run generalizing start with
  | nil => rfl
  | cons a run ih =>
    obtain ⟨hfirst, hrest⟩ := cons_iff.mp h
    rw [List.length_cons, List.range'_succ, List.filterMap_cons_some hfirst, ih hrest]

/-- Looking up all positions in turn gives the members. -/
theorem filterMap_range (xs : Array α) : (List.range xs.size).filterMap (xs[·]?) = xs.toList := by
  have hrun := toArray xs.toList
  rw [Array.toArray_toList] at hrun
  rw [List.range_eq_range', ← Array.length_toList, hrun.filterMap_eq]

/-- What is gathered over the positions of a run is what is gathered over its members. -/
theorem flatMap_eq (h : HasRun xs start run) {f : Nat → List β} {g : α → List β}
    (hfg : ∀ id, ∀ a ∈ run, xs[id]? = some a → f id = g a) :
    (List.range' start run.length).flatMap f = run.flatMap g := by
  induction run generalizing start with
  | nil => rfl
  | cons a run ih =>
    obtain ⟨hfirst, hrest⟩ := cons_iff.mp h
    rw [List.length_cons, List.range'_succ, List.flatMap_cons, List.flatMap_cons,
      hfg start a List.mem_cons_self hfirst,
      ih hrest fun id b hb => hfg id b (List.mem_cons_of_mem _ hb)]

/-- At every position of a run there is a member. -/
theorem exists_of_mem_range' (h : HasRun xs start run) {id : Nat}
    (hid : id ∈ List.range' start run.length) : ∃ a ∈ run, xs[id]? = some a := by
  rw [List.mem_range'_1] at hid
  have hlt : id - start < run.length := by omega
  refine ⟨run[id - start], List.getElem_mem hlt, ?_⟩
  rw [← h (id - start) _ (List.getElem?_eq_getElem hlt), Nat.add_sub_cancel' hid.1]

/-- A run that has members ends inside the array. -/
theorem le_size (h : HasRun xs start run) (hrun : run ≠ []) : start + run.length ≤ xs.size := by
  have hpos := List.length_pos_iff.mpr hrun
  have hlast := h (run.length - 1) _ (List.getElem?_eq_getElem (by omega))
  have := (Array.getElem?_eq_some_iff.mp hlast).1
  omega

end HasRun

end Run

/-- Counts that fit together are added without overflow. -/
theorem Node.toNat_totalCount {nodes : List Node}
    (h : entryTotal nodes < UInt64.size) : (totalCount nodes).toNat = entryTotal nodes := by
  induction nodes with
  | nil => rfl
  | cons node nodes ih =>
    rw [entryTotal_cons] at h ⊢
    have hrest : (totalCount nodes).toNat = entryTotal nodes := ih (by omega)
    have hsum : totalCount (node :: nodes) = node.count + totalCount nodes := rfl
    rw [hsum, UInt64.toNat_add, hrest, Nat.mod_eq_of_lt h]

namespace Tree

/-- The nodes of a list lie from `base` on, are the roots of sound subtrees with leaves `below`
levels further down, and together reach all nodes so far once and all entries in order. -/
structure IsLevel (t : Tree) (below base : Nat) (level : List Node) : Prop where
  /-- There is a node. -/
  nonempty : level ≠ []
  /-- The nodes are in the arena. -/
  run : HasRun t.nodes base level
  /-- Each is the root of a sound subtree. -/
  subtree : ∀ id ∈ List.range' base level.length, t.Subtree below id
  /-- Every node up to the end of the level is reached once. -/
  nodes : ((List.range' base level.length).flatMap (t.subtreeNodes below)).Perm
    (List.range (base + level.length))
  /-- All entries are reached in order. -/
  entries : (List.range' base level.length).flatMap (t.subtreeEntries below) =
    List.range t.entries.size

/-- The range of a group that lies among positions of 32 bits is kept as it is. -/
theorem toNat_range {start len : Nat} (h : start + len < UInt32.size) :
    (Packing.range start len).start.toNat = start ∧ (Packing.range start len).len.toNat = len :=
  ⟨UInt32.toNat_ofNat_of_lt (by omega), UInt32.toNat_ofNat_of_lt (by omega)⟩

/-- A range that ends within 32 bits has the positions from its start on. -/
theorem positions_range {start len : Nat} (h : start + len < UInt32.size) :
    (Packing.range start len).positions = List.range' start len := by
  rw [ChildRange.positions, (toNat_range h).1, (toNat_range h).2]

/-- A range that ends within 32 bits ends where its positions do. -/
theorem stop_range {start len : Nat} (h : start + len < UInt32.size) :
    (Packing.range start len).stop = start + len := by
  rw [ChildRange.stop, (toNat_range h).1, (toNat_range h).2]

/-- A node whose box is the union of the boxes of its children fits, if it has not too many. -/
theorem fits_of_range {t : Tree} {node : Node} {start len : Nat}
    (hchildren : node.children = Packing.range start len) (hsize : start + len < UInt32.size)
    (hpos : 0 < len) (hle : len ≤ t.fanout.toNat)
    (hbox : node.box = .unionAll (t.childBoxes node)) : t.Fits node := by
  have hlen : node.children.len.toNat = len := by rw [hchildren, (toNat_range hsize).2]
  refine ⟨fun hzero => ?_, by omega, ?_⟩
  · exact Nat.ne_of_gt hpos (hlen.symm.trans (congrArg UInt32.toNat hzero))
  · rw [← hbox]
    exact Box.equiv_refl (hbox ▸ Box.isNumeric_unionAll _)

/-- A packed leaf holds the entries that it was packed over. -/
theorem leafEntries_leaf {t : Tree} {start : Nat} {group : List Entry}
    (hrun : HasRun t.entries start group) (hsize : start + group.length < UInt32.size) :
    t.leafEntries (Packing.leaf start group) = group := by
  have hpositions : (Packing.leaf start group).children.positions =
      List.range' start group.length := positions_range hsize
  rw [leafEntries_eq rfl, hpositions, hrun.filterMap_eq]

section Levels

variable {t : Tree} (hfanout : 0 < t.fanout.toNat) (hentries : t.entries.size < UInt32.size)

include hfanout hentries

/-- A leaf of the lowest level is sound. -/
theorem subtree_packLeaf {id : Nat} {node : Node} (hnode : t.nodes[id]? = some node)
    (hmem : node ∈ Packing.packLeaves t.fanout.toNat 0 t.entries.toList) : t.Subtree 0 id := by
  obtain ⟨before, group, after, heq, hne, hle, rfl⟩ := Packing.exists_of_mem_packGroups hfanout hmem
  have hsize : t.entries.size = before.length + group.length + after.length := by
    rw [← Array.length_toList, heq, List.length_append, List.length_append]
  have hstop : 0 + before.length + group.length < UInt32.size := by omega
  have hrun : HasRun t.entries (0 + before.length) group := by
    have h := HasRun.toArray t.entries.toList
    rw [Array.toArray_toList, heq, HasRun.append_iff, HasRun.append_iff] at h
    exact h.1.2
  have hboxes : t.childBoxes (Packing.leaf (0 + before.length) group) = group.map (·.box) := by
    rw [childBoxes_leaf rfl, leafEntries_leaf hrun hstop]
  refine .leaf hnode rfl (fits_of_range rfl hstop (List.length_pos_iff.mpr hne) hle ?_) ?_ ?_
  · rw [hboxes]
    rfl
  · show (Packing.range _ _).stop ≤ _
    rw [stop_range hstop]
    omega
  · show (UInt64.ofNat group.length).toNat = (Packing.range _ _).len.toNat
    rw [(toNat_range hstop).2]
    have hfits : UInt32.size < UInt64.size := by decide
    exact UInt64.toNat_ofNat_of_lt (Nat.lt_trans (by omega) hfits)

/-- The leaves are a level. -/
theorem isLevel_packLeaves (hpos : 0 < t.entries.size)
    (hrun : HasRun t.nodes 0 (Packing.packLeaves t.fanout.toNat 0 t.entries.toList)) :
    t.IsLevel 0 0 (Packing.packLeaves t.fanout.toNat 0 t.entries.toList) where
  nonempty := by
    have hne : t.entries.toList ≠ [] := by
      rw [← List.length_pos_iff, Array.length_toList]
      exact hpos
    rw [Packing.packLeaves, Packing.packGroups_eq_cons hfanout hne]
    exact List.cons_ne_nil _ _
  run := hrun
  subtree := by
    intro id hid
    obtain ⟨node, hmem, hnode⟩ := hrun.exists_of_mem_range' hid
    exact subtree_packLeaf hfanout hentries hnode hmem
  nodes := by
    rw [List.range_eq_range', Nat.zero_add]
    simp [subtreeNodes]
  entries := by
    have hpositions := @Packing.flatMap_positions_packGroups _ Packing.leaf _ hfanout 0
      t.entries.toList (fun _ _ _ => rfl) (by simpa using hentries)
    rw [List.range_eq_range', ← Array.length_toList]
    refine (hrun.flatMap_eq fun id node hmem hnode => ?_).trans hpositions
    obtain ⟨_, _, _, _, _, _, rfl⟩ := Packing.exists_of_mem_packGroups hfanout hmem
    exact entryPositions_leaf hnode rfl

end Levels

section Levels

variable {t : Tree} {below base : Nat} {level : List Node}

/-- The counts of consecutive nodes of a level are together at most the number of entries. -/
theorem IsLevel.sum_counts_le {before group after : List Node}
    (h : t.IsLevel below base (before ++ group ++ after)) :
    Node.entryTotal group ≤ t.entries.size := by
  have hrun : HasRun t.nodes (base + before.length) group :=
    (HasRun.append_iff.mp (HasRun.append_iff.mp h.run).1).2
  have hsplit : List.range' base (before ++ group ++ after).length =
      List.range' base before.length ++ List.range' (base + before.length) group.length ++
        List.range' (base + (before ++ group).length) after.length := by
    rw [List.length_append, ← List.range'_append_1, List.length_append, ← List.range'_append_1]
  have hsum := Subtree.sum_counts_eq t.nodes (t.subtreeEntries below)
    (List.range' (base + before.length) group.length) fun id hid =>
      (h.subtree id (by rw [hsplit]; simp only [List.mem_append, hid, or_true, true_or])).count_eq
  rw [hrun.filterMap_eq] at hsum
  have hlength := congrArg List.length h.entries
  rw [hsplit, List.flatMap_append, List.flatMap_append, List.length_append, List.length_append,
    List.length_range] at hlength
  omega

variable (hfanout : 0 < t.fanout.toNat) (hentries : t.entries.size < UInt32.size)
  (hnodes : t.nodes.size < UInt32.size)

include hfanout hentries hnodes

/-- A node over consecutive nodes of a level is sound. -/
theorem IsLevel.subtree_packParent (h : t.IsLevel below base level) {id : Nat} {node : Node}
    (hnode : t.nodes[id]? = some node) (hid : base + level.length ≤ id)
    (hmem : node ∈ Packing.packParents t.fanout.toNat base level) : t.Subtree (below + 1) id := by
  obtain ⟨before, group, after, rfl, hne, hle, rfl⟩ :=
    Packing.exists_of_mem_packGroups hfanout hmem
  -- The group of the node is a stretch of the level, and so its range names the nodes of the group.
  have hrun : HasRun t.nodes (base + before.length) group :=
    (HasRun.append_iff.mp (HasRun.append_iff.mp h.run).1).2
  rw [List.length_append, List.length_append] at hid
  have hsize := (Array.getElem?_eq_some_iff.mp hnode).1
  have hstop : base + before.length + group.length < UInt32.size := by omega
  have hpositions : (Packing.parent (base + before.length) group).children.positions =
      List.range' (base + before.length) group.length := positions_range hstop
  have hchildren : t.childNodes (Packing.parent (base + before.length) group) = group := by
    rw [childNodes_eq rfl, hpositions, hrun.filterMap_eq]
  have hboxes : t.childBoxes (Packing.parent (base + before.length) group) =
      group.map (·.box) := by
    rw [childBoxes_inner rfl, hchildren]
  have hsum := h.sum_counts_le
  refine .inner hnode rfl (fits_of_range rfl hstop (List.length_pos_iff.mpr hne) hle ?_) ?_ ?_ ?_
  · rw [hboxes]
    rfl
  · show (Packing.range _ _).stop ≤ _
    rw [stop_range hstop]
    omega
  · intro child hchild
    rw [hpositions, List.mem_range'_1] at hchild
    refine h.subtree child ?_
    rw [List.mem_range'_1, List.length_append, List.length_append]
    omega
  · rw [hchildren]
    refine Node.toNat_totalCount (Nat.lt_of_le_of_lt hsum ?_)
    exact Nat.lt_trans hentries (by decide)

/-- Above a level, the nodes over its groups are a level. -/
theorem IsLevel.packParents (h : t.IsLevel below base level)
    (hrun : HasRun t.nodes (base + level.length)
      (Packing.packParents t.fanout.toNat base level)) :
    t.IsLevel (below + 1) (base + level.length)
      (Packing.packParents t.fanout.toNat base level) := by
  have hend := h.run.le_size h.nonempty
  -- The parents' ranges put together are the positions of the level below.
  have hchildren : (List.range' (base + level.length)
      (Packing.packParents t.fanout.toNat base level).length).flatMap t.childPositions =
        List.range' base level.length := by
    have hpositions := @Packing.flatMap_positions_packGroups _ Packing.parent _ hfanout base level
      (fun _ _ _ => rfl) (by omega)
    refine (hrun.flatMap_eq fun id node hmem hnode => ?_).trans hpositions
    obtain ⟨_, _, _, _, _, _, rfl⟩ := Packing.exists_of_mem_packGroups hfanout hmem
    exact childPositions_inner hnode rfl
  refine ⟨?_, hrun, ?_, ?_, ?_⟩
  · rw [Packing.packParents, Packing.packGroups_eq_cons hfanout h.nonempty]
    exact List.cons_ne_nil _ _
  · intro id hid
    obtain ⟨node, hmem, hnode⟩ := hrun.exists_of_mem_range' hid
    rw [List.mem_range'_1] at hid
    exact h.subtree_packParent hfanout hentries hnodes hnode hid.1 hmem
  · generalize (Packing.packParents t.fanout.toNat base level).length = count at hchildren
    have hsplit := (List.flatMap_append_perm (List.range' (base + level.length) count)
      (fun id => [id]) fun id => (t.childPositions id).flatMap (t.subtreeNodes below)).symm
    rw [List.flatMap_singleton', ← List.flatMap_assoc, hchildren] at hsplit
    refine hsplit.trans ((List.perm_append_comm).trans ?_)
    rw [List.range_eq_range', ← List.range'_append_1, Nat.zero_add, ← List.range_eq_range']
    exact h.nodes.append_right _
  · show List.flatMap (fun id => (t.childPositions id).flatMap (t.subtreeEntries below)) _ = _
    rw [← List.flatMap_assoc, hchildren, h.entries]

/-- The last of all levels is a single node, the last of the arena. -/
theorem IsLevel.levels (h : t.IsLevel below base level) (htwo : 2 ≤ t.fanout.toNat)
    (hrun : HasRun t.nodes base (Packing.levels t.fanout.toNat base level).1) :
    ∃ root, t.IsLevel (below + (Packing.levels t.fanout.toNat base level).2 - 1)
      (base + (Packing.levels t.fanout.toNat base level).1.length - 1) [root] := by
  induction base, level using Packing.levels_induction htwo generalizing below with
  | single base level hshort =>
    have hpos := List.length_pos_iff.mpr h.nonempty
    obtain ⟨root, rfl⟩ := List.length_eq_one_iff.mp (show level.length = 1 by omega)
    rw [Packing.levels_eq_self hshort]
    exact ⟨root, h⟩
  | above base level hlong ih =>
    rw [Packing.levels_eq_above htwo hlong, HasRun.append_iff] at hrun
    obtain ⟨above, habove⟩ := Packing.exists_levels_eq htwo (base + level.length)
      (Packing.packParents t.fanout.toNat base level)
    have hparents : HasRun t.nodes (base + level.length)
        (Packing.packParents t.fanout.toNat base level) := by
      have hrest := hrun.2
      rw [habove, HasRun.append_iff] at hrest
      exact hrest.1
    obtain ⟨root, hroot⟩ := ih (h.packParents hfanout hentries hnodes hparents) hrun.2
    rw [Packing.levels_eq_above htwo hlong]
    refine ⟨root, ?_⟩
    rw [List.length_append, ← Nat.add_assoc, ← Nat.add_assoc, Nat.add_right_comm _ _ 1]
    exact hroot

end Levels

end Tree

namespace Packing

/-- The tree over the leaves of a packing and all levels above them. -/
def packed (p : Packing) (entries : List Entry) : Tree where
  nodes := (levels p.fanout 0 (p.leaves entries)).1.toArray
  entries := entries.toArray
  root := .ofNat ((levels p.fanout 0 (p.leaves entries)).1.length - 1)
  height := .ofNat (levels p.fanout 0 (p.leaves entries)).2
  fanout := .ofNat p.fanout

/-- What packing asks for, and the tree that it gives. -/
theorem packSorted_eq_ok_iff {p : Packing} {entries : List Entry} {t : Tree} :
    p.packSorted entries = .ok t ↔ isFanout p.fanout = true ∧ entries.length < UInt32.size ∧
      (∀ e ∈ entries, e.box.isValid = true) ∧
      t = if entries = [] then .empty (.ofNat p.fanout) else p.packed entries := by
  unfold packSorted
  by_cases hfanout : isFanout p.fanout = true
  · by_cases hsize : UInt32.size ≤ entries.length
    · simp [hfanout, hsize, Nat.not_lt.mpr hsize]
    · cases hfind : entries.find? (!·.box.isValid) with
      | some bad =>
        have hbad := List.find?_some hfind
        have hmem := List.mem_of_find?_eq_some hfind
        simp only [hfanout, Bool.not_true, Bool.false_eq_true, if_false, hsize, reduceCtorEq,
          false_iff, not_and]
        intro _ _ hvalid
        rw [hvalid bad hmem] at hbad
        cases hbad
      | none =>
        have hvalid : ∀ e ∈ entries, e.box.isValid = true := by simpa using hfind
        simp only [hfanout, Bool.not_true, Bool.false_eq_true, if_false, hsize, true_and]
        rw [and_iff_right (by omega), and_iff_right hvalid]
        by_cases hentries : entries = []
        · simp [hentries, eq_comm]
        · rw [if_neg (by simpa using hentries), if_neg hentries, packed]
          simp [eq_comm]
  · simp [hfanout]

variable {p : Packing} {entries : List Entry}

/-- A packed tree holds the entries in the order in which they came. -/
theorem entries_of_packSorted {t : Tree} (h : p.packSorted entries = .ok t) :
    t.entries.toList = entries := by
  obtain ⟨_, _, _, rfl⟩ := packSorted_eq_ok_iff.mp h
  by_cases hentries : entries = []
  · rw [if_pos hentries, hentries]
    rfl
  · rw [if_neg hentries]
    rfl

/-- The arena of a packed tree fits 32 bits, and so does the height. -/
theorem packed_bounds (hfanout : isFanout p.fanout = true) (hsize : entries.length < UInt32.size) :
    (p.packed entries).nodes.size < UInt32.size ∧
      (levels p.fanout 0 (p.leaves entries)).2 ≤ 32 := by
  obtain ⟨htwo, _⟩ := isFanout_iff.mp hfanout
  have hleaves : (p.leaves entries).length ≤ 2 ^ 31 := by
    rw [length_leaves p (by omega)]
    exact ceilDiv_le_two_pow htwo (Nat.le_of_lt hsize)
  exact length_levels_le htwo hleaves

/-- A packed tree is as high as it has levels. -/
theorem toNat_height_packed (hfanout : isFanout p.fanout = true)
    (hsize : entries.length < UInt32.size) :
    (p.packed entries).height.toNat = (levels p.fanout 0 (p.leaves entries)).2 := by
  have hheight := (packed_bounds hfanout hsize).2
  exact UInt32.toNat_ofNat_of_lt (Nat.lt_of_le_of_lt hheight (by decide))

/-- A packed tree has a sound layout, and its leaves hold the entries in order. -/
theorem packed_layout (hfanout : isFanout p.fanout = true) (hsize : entries.length < UInt32.size)
    (hentries : entries ≠ []) :
    (p.packed entries).Layout ∧
      (p.packed entries).subtreeEntries ((p.packed entries).height.toNat - 1)
        (p.packed entries).root.toNat = List.range entries.length := by
  obtain ⟨htwo, hmax⟩ := isFanout_iff.mp hfanout
  obtain ⟨hnodes, hheight⟩ := packed_bounds hfanout hsize
  have hfan : (p.packed entries).fanout.toNat = p.fanout :=
    UInt64.toNat_ofNat_of_lt (Nat.lt_of_le_of_lt hmax (by decide))
  have hcount := toNat_height_packed hfanout hsize
  have hroot : (p.packed entries).root.toNat = (p.packed entries).nodes.size - 1 :=
    UInt32.toNat_ofNat_of_lt (Nat.lt_of_le_of_lt (Nat.sub_le _ _) hnodes)
  -- The arena is all levels one after the other: the leaves are its lowest level, and from there
  -- the levels above follow one by one up to the root.
  have hrun : HasRun (p.packed entries).nodes 0
      (levels (p.packed entries).fanout.toNat 0 (p.leaves entries)).1 := by
    rw [hfan]
    exact HasRun.toArray _
  have hlowest : (p.packed entries).IsLevel 0 0 (p.leaves entries) := by
    obtain ⟨above, habove⟩ := exists_levels_eq (hfan.symm ▸ htwo) 0 (p.leaves entries)
    rw [habove, HasRun.append_iff, leaves_eq_packLeaves p (by omega), ← hfan] at hrun
    rw [leaves_eq_packLeaves p (by omega), ← hfan]
    exact Tree.isLevel_packLeaves (by omega) hsize (List.length_pos_iff.mpr hentries) hrun.1
  obtain ⟨root, htop⟩ := hlowest.levels (by omega) hsize hnodes (by omega) hrun
  have hpositive : 0 < (p.packed entries).nodes.size :=
    Nat.lt_of_lt_of_le (List.length_pos_iff.mpr hlowest.nonempty)
      (by simpa using hlowest.run.le_size hlowest.nonempty)
  have hsizes : (levels p.fanout 0 (p.leaves entries)).1.length =
      (p.packed entries).nodes.size := rfl
  rw [Nat.zero_add, Nat.zero_add, hfan, ← hcount, hsizes, ← hroot] at htop
  refine ⟨⟨?_, ?_, ?_, ?_, ?_, ?_⟩, ?_⟩
  · rw [hfan]
    exact hfanout
  · rw [hcount]
    exact height_levels_pos htwo 0 _
  · rw [hcount]
    exact Nat.le_succ_of_le hheight
  · exact htop.subtree _ (by simp)
  · have h := htop.nodes
    rw [List.length_singleton, hroot, Nat.sub_add_cancel hpositive, ← hroot] at h
    simpa using h
  · have h := htop.entries
    simp only [List.length_singleton, List.range'_one, List.flatMap_singleton] at h
    rw [h]
  · have h := htop.entries
    simp only [List.length_singleton, List.range'_one, List.flatMap_singleton] at h
    exact h

/-- A packed tree passes its check. -/
theorem validate_of_packSorted {t : Tree} (h : p.packSorted entries = .ok t) :
    t.validate = .ok () := by
  obtain ⟨hfanout, hsize, _, rfl⟩ := packSorted_eq_ok_iff.mp h
  by_cases hentries : entries = []
  · rw [if_pos hentries]
    exact (Tree.validate_eq_ok_iff_of_isEmpty rfl).mpr ⟨_, rfl, rfl, rfl, rfl⟩
  · rw [if_neg hentries]
    exact (Tree.validate_eq_ok_iff_layout (List.length_pos_iff.mpr hentries)).mpr
      (packed_layout hfanout hsize hentries).1

end Packing

end SpatialIndex
