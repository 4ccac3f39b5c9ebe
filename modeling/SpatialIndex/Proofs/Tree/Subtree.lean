import Mathlib.Algebra.GroupWithZero.Nat
import Mathlib.Data.List.Perm.Basic
import SpatialIndex.Proofs.Box
import SpatialIndex.Tree.Validate

/-!
# Subtrees of an arena

An arena may hold cycles and overlapping ranges, so the part of it below a node is described level
by level: `Subtree t below id` says that the nodes reached from `id` form a tree whose leaves all
lie `below` levels further down, with boxes and counts that agree with the children.  The lists of
the nodes and entries of such a part keep repetitions, which lets "reached exactly once" be said of
the list for the root.
-/

namespace SpatialIndex

namespace ChildRange

/-- A range has the positions from its start up to its end. -/
@[simp] theorem mem_positions {range : ChildRange} {p : Nat} :
    p ∈ range.positions ↔ range.start.toNat ≤ p ∧ p < range.stop := by
  simp only [positions, stop, List.mem_range'_1]

/-- A range has as many positions as it is long. -/
@[simp] theorem length_positions (range : ChildRange) :
    range.positions.length = range.len.toNat := by
  simp [positions]

/-- A range names no position twice. -/
theorem nodup_positions (range : ChildRange) : range.positions.Nodup := List.nodup_range'

/-- Looking up a run of positions gives the part of the list from there on, as far as it goes. -/
private theorem take_drop_eq_filterMap {α : Type} (xs : List α) (start count : Nat) :
    (xs.drop start).take count = (List.range' start count).filterMap (xs[·]?) := by
  induction count generalizing start with
  | zero => simp
  | succ count ih =>
    rw [List.range'_succ, List.filterMap_cons]
    by_cases hstart : start < xs.length
    · rw [List.drop_eq_getElem_cons hstart, List.take_succ_cons, ih,
        List.getElem?_eq_getElem hstart]
    · have hempty : xs.drop start = [] := List.drop_eq_nil_of_le (by omega)
      have hnone : xs[start]? = none := List.getElem?_eq_none (by omega)
      rw [hempty, hnone, ← ih, List.drop_eq_nil_of_le (by omega)]
      simp

/-- What an array holds at the positions of a range. -/
theorem extract_toList {α : Type} (range : ChildRange) (xs : Array α) :
    (xs.extract range.start.toNat range.stop).toList = range.positions.filterMap (xs[·]?) := by
  have h := take_drop_eq_filterMap xs.toList range.start.toNat range.len.toNat
  simpa [stop, positions, List.drop_take] using h

end ChildRange

/-- A node in front adds the entries below it. -/
theorem Node.entryTotal_cons (node : Node) (nodes : List Node) :
    entryTotal (node :: nodes) = node.count.toNat + entryTotal nodes := rfl

/-- The entries below several nodes are the sum of those below each. -/
theorem Node.entryTotal_eq_sum (nodes : List Node) :
    entryTotal nodes = (nodes.map (·.count.toNat)).sum := by
  induction nodes with
  | nil => rfl
  | cons node nodes ih => rw [entryTotal_cons, ih, List.map_cons, List.sum_cons]

/-- The entries below two lists of nodes are those below the one and those below the other. -/
theorem Node.entryTotal_append (nodes nodes' : List Node) :
    entryTotal (nodes ++ nodes') = entryTotal nodes + entryTotal nodes' := by
  rw [entryTotal_eq_sum, entryTotal_eq_sum, entryTotal_eq_sum, List.map_append, List.sum_append]

/-- A fanout is a number of children from two to 1024. -/
theorem isFanout_iff {fanout : Nat} : isFanout fanout = true ↔ 2 ≤ fanout ∧ fanout ≤ 1024 := by
  simp only [isFanout, Bool.and_eq_true, decide_eq_true_eq]
  rfl

namespace Tree

/-- The positions of the nodes right below a node; a leaf has none. -/
def childPositions (t : Tree) (id : Nat) : List Nat :=
  match t.nodes[id]? with
  | some node => if node.isLeaf then [] else node.children.positions
  | none => []

/-- The positions of the entries that a node holds itself; only a leaf does. -/
def entryPositions (t : Tree) (id : Nat) : List Nat :=
  match t.nodes[id]? with
  | some node => if node.isLeaf then node.children.positions else []
  | none => []

section Node

variable {t : Tree} {id : Nat} {node : Node}

/-- A leaf has no nodes right below it. -/
theorem childPositions_leaf (hnode : t.nodes[id]? = some node) (hleaf : node.isLeaf = true) :
    t.childPositions id = [] := by
  simp [childPositions, hnode, hleaf]

/-- The nodes right below an inner node are at the positions of its range. -/
theorem childPositions_inner (hnode : t.nodes[id]? = some node) (hinner : node.isLeaf = false) :
    t.childPositions id = node.children.positions := by
  simp [childPositions, hnode, hinner]

/-- The entries that a leaf holds are at the positions of its range. -/
theorem entryPositions_leaf (hnode : t.nodes[id]? = some node) (hleaf : node.isLeaf = true) :
    t.entryPositions id = node.children.positions := by
  simp [entryPositions, hnode, hleaf]

/-- An inner node holds no entries itself. -/
theorem entryPositions_inner (hnode : t.nodes[id]? = some node) (hinner : node.isLeaf = false) :
    t.entryPositions id = [] := by
  simp [entryPositions, hnode, hinner]

/-- No node is right below another one twice. -/
theorem nodup_childPositions (t : Tree) (id : Nat) : (t.childPositions id).Nodup := by
  unfold childPositions
  split
  · split
    · exact List.nodup_nil
    · exact ChildRange.nodup_positions _
  · exact List.nodup_nil

/-- No entry is held twice by a node. -/
theorem nodup_entryPositions (t : Tree) (id : Nat) : (t.entryPositions id).Nodup := by
  unfold entryPositions
  split
  · split
    · exact ChildRange.nodup_positions _
    · exact List.nodup_nil
  · exact List.nodup_nil

/-- A node with children right below it is in the arena and no leaf. -/
theorem exists_of_mem_childPositions {child : Nat} (h : child ∈ t.childPositions id) :
    ∃ node, t.nodes[id]? = some node ∧ node.isLeaf = false ∧ child ∈ node.children.positions := by
  unfold childPositions at h
  split at h
  · rename_i node hnode
    cases hleaf : node.isLeaf with
    | true => simp [hleaf] at h
    | false => exact ⟨node, hnode, hleaf, by simpa [hleaf] using h⟩
  · simp at h

/-- A node that holds entries is a leaf of the arena. -/
theorem exists_of_mem_entryPositions {entry : Nat} (h : entry ∈ t.entryPositions id) :
    ∃ node, t.nodes[id]? = some node ∧ node.isLeaf = true ∧ entry ∈ node.children.positions := by
  unfold entryPositions at h
  split at h
  · rename_i node hnode
    cases hleaf : node.isLeaf with
    | true => exact ⟨node, hnode, hleaf, by simpa [hleaf] using h⟩
    | false => simp [hleaf] at h
  · simp at h

/-- The nodes below an inner node, read off its range. -/
theorem childNodes_eq (hinner : node.isLeaf = false) :
    t.childNodes node = node.children.positions.filterMap (t.nodes[·]?) := by
  rw [childNodes, hinner, ← ChildRange.extract_toList]
  simp

/-- The entries of a leaf, read off its range. -/
theorem leafEntries_eq (hleaf : node.isLeaf = true) :
    t.leafEntries node = node.children.positions.filterMap (t.entries[·]?) := by
  rw [leafEntries, hleaf, ← ChildRange.extract_toList]
  simp

/-- A leaf whose range lies among the entries holds as many as the range has positions. -/
theorem length_leafEntries (hleaf : node.isLeaf = true)
    (hrange : node.children.stop ≤ t.entries.size) :
    (t.leafEntries node).length = node.children.len.toNat := by
  simp only [leafEntries, hleaf, if_true, Array.length_toList, Array.size_extract]
  simp only [ChildRange.stop] at hrange ⊢
  omega

end Node

/-- The boxes of the children of a node, be they entries or nodes. -/
def childBoxes (t : Tree) (node : Node) : List Box :=
  (t.leafEntries node).map (·.box) ++ (t.childNodes node).map (·.box)

/-- The children of a leaf have the boxes of its entries. -/
theorem childBoxes_leaf {t : Tree} {node : Node} (hleaf : node.isLeaf = true) :
    t.childBoxes node = (t.leafEntries node).map (·.box) := by
  simp [childBoxes, childNodes, hleaf]

/-- The children of an inner node have the boxes of the nodes right below it. -/
theorem childBoxes_inner {t : Tree} {node : Node} (hinner : node.isLeaf = false) :
    t.childBoxes node = (t.childNodes node).map (·.box) := by
  simp [childBoxes, leafEntries, hinner]

/-- A node has between one and `fanout` children, and its box is the union of theirs. -/
structure Fits (t : Tree) (node : Node) : Prop where
  /-- There is a child. -/
  nonempty : node.children.len ≠ 0
  /-- There are no more children than the fanout allows. -/
  bounded : node.children.len.toNat ≤ t.fanout.toNat
  /-- The box is the union of the boxes of the children, as numbers. -/
  box : (Box.unionAll (t.childBoxes node)).equiv node.box = true

/-- The nodes reached from `id` form a sound tree whose leaves lie `below` levels further down. -/
inductive Subtree (t : Tree) : (below id : Nat) → Prop
  /-- A leaf over a run of entries. -/
  | leaf {id : Nat} {node : Node} (hnode : t.nodes[id]? = some node)
      (hleaf : node.isLeaf = true) (hfits : t.Fits node)
      (hrange : node.children.stop ≤ t.entries.size)
      (hcount : node.count.toNat = node.children.len.toNat) : Subtree t 0 id
  /-- An inner node over a run of sound nodes that come before it. -/
  | inner {below id : Nat} {node : Node} (hnode : t.nodes[id]? = some node)
      (hinner : node.isLeaf = false) (hfits : t.Fits node) (hrange : node.children.stop ≤ id)
      (hchildren : ∀ child ∈ node.children.positions, Subtree t below child)
      (hcount : node.count.toNat = Node.entryTotal (t.childNodes node)) :
      Subtree t (below + 1) id

/-- The nodes reached from `id` in so many levels, each before those below it. -/
def subtreeNodes (t : Tree) : (below id : Nat) → List Nat
  | 0, id => [id]
  | below + 1, id => id :: (t.childPositions id).flatMap (t.subtreeNodes below)

/-- The entries held by the nodes so many levels below `id`, from left to right. -/
def subtreeEntries (t : Tree) : (below id : Nat) → List Nat
  | 0, id => t.entryPositions id
  | below + 1, id => (t.childPositions id).flatMap (t.subtreeEntries below)

namespace Subtree

variable {t : Tree} {below id : Nat}

/-- The root of a sound subtree lies in the arena. -/
theorem lt_size (h : t.Subtree below id) : id < t.nodes.size := by
  cases h with
  | leaf hnode => exact (Array.getElem?_eq_some_iff.mp hnode).1
  | inner hnode => exact (Array.getElem?_eq_some_iff.mp hnode).1

/-- A node is reached from itself. -/
theorem mem_subtreeNodes_self (t : Tree) (below id : Nat) : id ∈ t.subtreeNodes below id := by
  cases below <;> simp [subtreeNodes]

/-- Children come before their parent, so nothing reached from a node lies after it. -/
theorem le_of_mem_subtreeNodes (h : t.Subtree below id) {x : Nat}
    (hx : x ∈ t.subtreeNodes below id) : x ≤ id := by
  induction h with
  | leaf => simp only [subtreeNodes, List.mem_singleton] at hx; omega
  | @inner below id node hnode hinner _ hrange _ _ ih =>
    rw [subtreeNodes, childPositions_inner hnode hinner, List.mem_cons, List.mem_flatMap] at hx
    rcases hx with rfl | ⟨child, hchild, hx⟩
    · exact Nat.le_refl _
    · have := ih child hchild hx
      have := (ChildRange.mem_positions.mp hchild).2
      omega

/-- Every node reached is the root of a sound subtree itself, and its entries are among those of
the whole, in the same order. -/
theorem exists_of_mem_subtreeNodes (h : t.Subtree below id) {x : Nat}
    (hx : x ∈ t.subtreeNodes below id) : ∃ level, t.Subtree level x ∧
      (t.subtreeEntries level x).Sublist (t.subtreeEntries below id) := by
  induction h with
  | leaf hnode hleaf hfits hrange hcount =>
    rw [subtreeNodes, List.mem_singleton] at hx
    subst hx
    exact ⟨0, .leaf hnode hleaf hfits hrange hcount, List.Sublist.refl _⟩
  | @inner below id node hnode hinner hfits hrange hchildren hcount ih =>
    rw [subtreeNodes, List.mem_cons, List.mem_flatMap] at hx
    rcases hx with rfl | ⟨child, hchild, hx⟩
    · exact ⟨below + 1, .inner hnode hinner hfits hrange hchildren hcount, List.Sublist.refl _⟩
    · rw [childPositions_inner hnode hinner] at hchild
      obtain ⟨level, hsub, hentries⟩ := ih child hchild hx
      refine ⟨level, hsub, hentries.trans ?_⟩
      rw [subtreeEntries, childPositions_inner hnode hinner]
      exact List.sublist_flatten_of_mem (List.mem_map_of_mem hchild)

/-- The node at the root of a sound subtree has the right number of children and their box. -/
theorem exists_fits (h : t.Subtree below id) :
    ∃ node, t.nodes[id]? = some node ∧ t.Fits node := by
  cases h with
  | leaf hnode _ hfits => exact ⟨_, hnode, hfits⟩
  | inner hnode _ hfits => exact ⟨_, hnode, hfits⟩

/-- The box at the root of a sound subtree is numeric. -/
theorem isNumeric (h : t.Subtree below id) {node : Node} (hnode : t.nodes[id]? = some node) :
    node.box.IsNumeric := by
  obtain ⟨node', hnode', hfits⟩ := h.exists_fits
  cases hnode.symm.trans hnode'
  exact (Box.equiv_iff.mp hfits.box).2.1

/-- The box at the root of a sound subtree is the least one around the boxes of all entries below
it, those with NaN included. -/
theorem covers_iff (h : t.Subtree below id) {node : Node} (hnode : t.nodes[id]? = some node)
    {c : Box} : c.Covers node.box ↔
      ∀ e ∈ (t.subtreeEntries below id).filterMap (t.entries[·]?), c.Covers e.box := by
  induction h generalizing node with
  | leaf hnode' hleaf hfits =>
    cases hnode'.symm.trans hnode
    rw [← Box.covers_congr hfits.box, Box.covers_unionAll_iff, childBoxes_leaf hleaf,
      leafEntries_eq hleaf, List.forall_mem_map, subtreeEntries, entryPositions_leaf hnode hleaf]
  | inner hnode' hinner hfits _ hchildren _ ih =>
    cases hnode'.symm.trans hnode
    rw [← Box.covers_congr hfits.box, Box.covers_unionAll_iff, childBoxes_inner hinner,
      childNodes_eq hinner, List.forall_mem_map, subtreeEntries,
      childPositions_inner hnode hinner, List.filterMap_flatMap, List.forall_mem_flatMap]
    constructor
    · intro hcovers child hchild
      obtain ⟨childNode, hchildNode, _⟩ := (hchildren child hchild).exists_fits
      have hmem := List.mem_filterMap.mpr ⟨child, hchild, hchildNode⟩
      exact (ih child hchild hchildNode).mp (hcovers childNode hmem)
    · intro hcovers childNode hmem
      obtain ⟨child, hchild, hchildNode⟩ := List.mem_filterMap.mp hmem
      exact (ih child hchild hchildNode).mpr (hcovers child hchild)

/-- Only an inner node has nodes below it, and they are one level further down. -/
theorem of_mem_childPositions (h : t.Subtree below id) {child : Nat}
    (hchild : child ∈ t.childPositions id) :
    ∃ level, below = level + 1 ∧ t.Subtree level child := by
  cases h with
  | leaf hnode hleaf =>
    rw [childPositions_leaf hnode hleaf] at hchild
    cases hchild
  | @inner level id node hnode hinner _ _ hchildren =>
    rw [childPositions_inner hnode hinner] at hchild
    exact ⟨level, rfl, hchildren child hchild⟩

/-- The nodes reached are the first one and the nodes right below any of them. -/
theorem subtreeNodes_perm (h : t.Subtree below id) :
    (t.subtreeNodes below id).Perm (id :: (t.subtreeNodes below id).flatMap t.childPositions) := by
  induction h with
  | leaf hnode hleaf => simp [subtreeNodes, childPositions_leaf hnode hleaf]
  | @inner below id node hnode hinner _ _ _ _ ih =>
    rw [subtreeNodes, childPositions_inner hnode hinner, List.flatMap_cons,
      childPositions_inner hnode hinner, List.perm_cons, List.flatMap_assoc]
    generalize node.children.positions = ids at ih
    induction ids with
    | nil => rfl
    | cons child ids ihs =>
      simp only [List.forall_mem_cons] at ih
      rw [List.flatMap_cons, List.flatMap_cons]
      refine ((ih.1.append (ihs ih.2))).trans ?_
      rw [List.cons_append, List.cons_append, List.perm_cons]
      refine (List.perm_append_comm_assoc _ _ _)

/-- The entries reached are those that the nodes reached hold. -/
theorem subtreeEntries_eq (h : t.Subtree below id) :
    t.subtreeEntries below id = (t.subtreeNodes below id).flatMap t.entryPositions := by
  induction h with
  | leaf => simp [subtreeEntries, subtreeNodes]
  | inner hnode hinner _ _ _ _ ih =>
    rw [subtreeEntries, subtreeNodes, childPositions_inner hnode hinner, List.flatMap_cons,
      entryPositions_inner hnode hinner, List.nil_append, List.flatMap_assoc]
    exact List.flatMap_congr ih

/-- The entries reached are positions of entries. -/
theorem lt_size_of_mem_subtreeEntries (h : t.Subtree below id) {e : Nat}
    (he : e ∈ t.subtreeEntries below id) : e < t.entries.size := by
  induction h with
  | leaf hnode hleaf _ hrange =>
    rw [subtreeEntries, entryPositions_leaf hnode hleaf] at he
    have := (ChildRange.mem_positions.mp he).2
    omega
  | inner hnode hinner _ _ _ _ ih =>
    rw [subtreeEntries, childPositions_inner hnode hinner, List.mem_flatMap] at he
    obtain ⟨child, hchild, he⟩ := he
    exact ih child hchild he

/-- Nodes that count as many entries as are listed for them count all of these together. -/
theorem sum_counts_eq (nodes : Array Node) (entries : Nat → List Nat) (ids : List Nat)
    (h : ∀ id ∈ ids, ∃ node, nodes[id]? = some node ∧ node.count.toNat = (entries id).length) :
    Node.entryTotal (ids.filterMap (nodes[·]?)) = (ids.flatMap entries).length := by
  induction ids with
  | nil => rfl
  | cons id ids ih =>
    obtain ⟨node, hnode, hcount⟩ := h id List.mem_cons_self
    have hrest := ih fun id hid => h id (List.mem_cons_of_mem _ hid)
    rw [List.filterMap_cons_some hnode, Node.entryTotal_cons, List.flatMap_cons,
      List.length_append, hcount, hrest]

/-- The count of a node is the number of entries reached from it. -/
theorem count_eq (h : t.Subtree below id) :
    ∃ node, t.nodes[id]? = some node ∧
      node.count.toNat = (t.subtreeEntries below id).length := by
  induction h with
  | leaf hnode hleaf _ _ hcount =>
    refine ⟨_, hnode, ?_⟩
    rw [hcount, subtreeEntries, entryPositions_leaf hnode hleaf, ChildRange.length_positions]
  | inner hnode hinner _ _ _ hcount ih =>
    refine ⟨_, hnode, ?_⟩
    rw [hcount, subtreeEntries, childPositions_inner hnode hinner, childNodes_eq hinner]
    exact sum_counts_eq _ _ _ ih

end Subtree

/-- A tree whose nodes and entries are each reached from the root exactly once, along a sound
subtree with all leaves on the lowest level. -/
structure Layout (t : Tree) : Prop where
  /-- The fanout is one that trees are packed with. -/
  fanout : isFanout t.fanout.toNat = true
  /-- There is a level. -/
  height_pos : 0 < t.height.toNat
  /-- There are no more levels than a tree can have. -/
  height_le : t.height.toNat ≤ maxHeight
  /-- What is reached from the root is sound. -/
  subtree : t.Subtree (t.height.toNat - 1) t.root.toNat
  /-- Every node is reached once. -/
  nodes : (t.subtreeNodes (t.height.toNat - 1) t.root.toNat).Perm (List.range t.nodes.size)
  /-- Every entry is reached once. -/
  entries : (t.subtreeEntries (t.height.toNat - 1) t.root.toNat).Perm (List.range t.entries.size)

namespace Layout

variable {t : Tree}

/-- The root is the last node. -/
theorem root_last (h : t.Layout) : t.root.toNat + 1 = t.nodes.size := by
  have hroot := h.subtree.lt_size
  have hinside : t.nodes.size - 1 < t.nodes.size := by omega
  have hlast := h.nodes.mem_iff.mpr (List.mem_range.mpr hinside)
  have hle := h.subtree.le_of_mem_subtreeNodes hlast
  omega

/-- There are no more nodes than positions of 32 bits. -/
theorem nodes_size_le (h : t.Layout) : t.nodes.size ≤ UInt32.size := by
  rw [← h.root_last]
  exact t.root.toNat_lt_size

/-- There are no more entries than ranges of 32 bits can reach. -/
theorem entries_size_le (h : t.Layout) : t.entries.size ≤ UInt32.size + UInt32.size := by
  by_contra hmany
  have hlast := h.entries.mem_iff.mpr
    (List.mem_range.mpr (show t.entries.size - 1 < t.entries.size by omega))
  rw [h.subtree.subtreeEntries_eq, List.mem_flatMap] at hlast
  obtain ⟨_, _, hhold⟩ := hlast
  obtain ⟨node, _, _, hposition⟩ := exists_of_mem_entryPositions hhold
  have hstop := (ChildRange.mem_positions.mp hposition).2
  have hstart := node.children.start.toNat_lt_size
  have hlen := node.children.len.toNat_lt_size
  rw [ChildRange.stop] at hstop
  omega

end Layout

end Tree

end SpatialIndex
