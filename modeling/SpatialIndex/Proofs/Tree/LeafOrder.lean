import Mathlib.Data.List.Sort
import SpatialIndex.Proofs.Tree.Shape
import SpatialIndex.Proofs.Tree.Traversal

/-!
# The order of the leaves

A search goes through the leaves from left to right, along child ranges from the root, and the leaf
groups go through them as the arena holds them.  The check lets the nodes of a level stand over the
level below in any order, so the two agree just if the leaves from left to right are in the order of
the arena.  Packed trees and trees of up to two levels are laid out like that.
-/

namespace SpatialIndex

/-- Lists of parts that are not empty are the same if they join to the same list, unless different
parts share a member. -/
theorem eq_of_flatMap_eq {α β : Type} {f : α → List β} {l l' : List α}
    (hparts : ∀ a ∈ l, f a ≠ []) (hparts' : ∀ a ∈ l', f a ≠ [])
    (hshare : ∀ a ∈ l, ∀ a' ∈ l', ∀ b, b ∈ f a → b ∈ f a' → a = a')
    (h : l.flatMap f = l'.flatMap f) : l = l' := by
  induction l generalizing l' with
  | nil =>
    cases l' with
    | nil => rfl
    | cons a' l' =>
      have hnone : f a' ++ l'.flatMap f = [] := h.symm
      exact absurd (List.append_eq_nil_iff.mp hnone).1 (hparts' a' List.mem_cons_self)
  | cons a l ih =>
    cases l' with
    | nil => exact absurd (List.append_eq_nil_iff.mp h).1 (hparts a List.mem_cons_self)
    | cons a' l' =>
      -- The first members of the first parts are one and the same.
      obtain ⟨b, part, hpart⟩ := List.exists_cons_of_ne_nil (hparts a List.mem_cons_self)
      obtain ⟨b', part', hpart'⟩ := List.exists_cons_of_ne_nil (hparts' a' List.mem_cons_self)
      rw [List.flatMap_cons, List.flatMap_cons] at h
      have hhead : b = b' := by
        rw [hpart, hpart'] at h
        exact (List.cons.inj h).1
      have hsame : a = a' := hshare a List.mem_cons_self a' List.mem_cons_self b (by simp [hpart])
        (by simp [hpart', hhead])
      rw [hsame, List.append_cancel_left_eq] at h
      rw [List.forall_mem_cons] at hparts hparts'
      rw [hsame, ih hparts.2 hparts'.2 (fun a ha a' ha' => hshare a (List.mem_cons_of_mem _ ha) a'
        (List.mem_cons_of_mem _ ha')) h]

namespace Tree

variable {t : Tree} {query : Box} {below id : Nat}

/-- The node at a position is a leaf. -/
def isLeafAt (t : Tree) (id : Nat) : Bool := (t.nodes[id]?).any (·.isLeaf)

/-- The leaves so many levels below a node, from left to right. -/
def leavesBelow (t : Tree) : (below id : Nat) → List Nat
  | 0, id => [id]
  | below + 1, id => (t.childPositions id).flatMap (t.leavesBelow below)

/-- The leaves from left to right. -/
def leaves (t : Tree) : List Nat := t.leavesBelow (t.height.toNat - 1) t.root.toNat

/-- The leaves in the order of the arena. -/
def arenaLeaves (t : Tree) : List Nat := (List.range t.nodes.size).filter t.isLeafAt

/-- The rows of the entries that a node holds itself. -/
def heldRows (t : Tree) (id : Nat) : List RowId :=
  ((t.entryPositions id).filterMap (t.entries[·]?)).map (·.row)

/-- The entries below a node are those of the leaves below it, leaf by leaf. -/
theorem subtreeEntries_eq_flatMap_leavesBelow (t : Tree) (below id : Nat) :
    t.subtreeEntries below id = (t.leavesBelow below id).flatMap t.entryPositions := by
  induction below generalizing id with
  | zero => rw [subtreeEntries, leavesBelow, List.flatMap_singleton]
  | succ below ih =>
    rw [subtreeEntries, leavesBelow, List.flatMap_assoc]
    exact List.flatMap_congr fun child _ => ih child

/-- Of the nodes reached, the leaves are those on the lowest level. -/
theorem Subtree.filter_isLeafAt (h : t.Subtree below id) :
    (t.subtreeNodes below id).filter t.isLeafAt = t.leavesBelow below id := by
  induction h with
  | leaf hnode hleaf => simp [subtreeNodes, leavesBelow, isLeafAt, hnode, hleaf]
  | @inner below id node hnode hinner _ _ _ _ ih =>
    have hself : t.isLeafAt id = false := by simp [isLeafAt, hnode, hinner]
    rw [subtreeNodes, leavesBelow, List.filter_cons, hself, childPositions_inner hnode hinner,
      List.filter_flatMap]
    exact List.flatMap_congr ih

/-- The leaves of the arena are those that are reached, in another order. -/
theorem Layout.leaves_perm (h : t.Layout) : t.leaves.Perm t.arenaLeaves := by
  rw [leaves, ← h.subtree.filter_isLeafAt]
  exact h.nodes.filter _

/-- The leaf groups go through the arena. -/
theorem flatten_leafGroups (t : Tree) :
    t.leafGroups.flatten = t.arenaLeaves.flatMap t.heldRows := by
  have hheld (id : Nat) : t.heldRows id = (t.nodes[id]?).toList.flatMap fun node =>
      (t.leafEntries node).map (·.row) := by
    cases hnode : t.nodes[id]? with
    | none => simp [heldRows, entryPositions, hnode]
    | some node =>
      cases hleaf : node.isLeaf with
      | true => simp [heldRows, entryPositions_leaf hnode hleaf, leafEntries_eq hleaf]
      | false => simp [heldRows, entryPositions_inner hnode hleaf, leafEntries, hleaf]
  have harena : t.arenaLeaves.flatMap t.heldRows =
      (List.range t.nodes.size).flatMap t.heldRows := by
    refine flatMap_filter_of_eq_nil fun id _ hleaf => ?_
    rw [hheld]
    cases hnode : t.nodes[id]? with
    | none => rfl
    | some node =>
      rw [isLeafAt, hnode, Option.any_some] at hleaf
      simp [leafEntries, hleaf]
  have hnodes : t.nodes.toList.flatMap (fun node => (t.leafEntries node).map (·.row)) =
      (List.range t.nodes.size).flatMap t.heldRows := by
    rw [← HasRun.filterMap_range, List.filterMap_eq_flatMap_toList, List.flatMap_assoc]
    exact List.flatMap_congr fun id _ => (hheld id).symm
  rw [leafGroups, List.flatten_filter_not_isEmpty, ← List.flatMap_def, harena, ← hnodes]
  refine flatMap_filter_of_eq_nil fun node _ hinner => ?_
  simp [leafEntries, hinner]

/-- From left to right, the leaves hold the entries that are reached. -/
theorem flatMap_heldRows_leaves (t : Tree) : t.leaves.flatMap t.heldRows =
    ((t.subtreeEntries (t.height.toNat - 1) t.root.toNat).filterMap (t.entries[·]?)).map
      (·.row) := by
  rw [subtreeEntries_eq_flatMap_leavesBelow, List.filterMap_flatMap, List.map_flatMap]
  rfl

/-- What is reached on the lowest level are leaves over entries. -/
theorem Subtree.of_mem_leavesBelow (h : t.Subtree below id) {leaf : Nat}
    (hleaf : leaf ∈ t.leavesBelow below id) : t.Subtree 0 leaf := by
  induction h with
  | leaf hnode hisLeaf hfits hrange hcount =>
    rw [leavesBelow, List.mem_singleton] at hleaf
    rw [hleaf]
    exact .leaf hnode hisLeaf hfits hrange hcount
  | inner hnode hinner _ _ _ _ ih =>
    rw [leavesBelow, childPositions_inner hnode hinner, List.mem_flatMap] at hleaf
    obtain ⟨child, hchild, hleaf⟩ := hleaf
    exact ih child hchild hleaf

/-- A sound leaf holds a row. -/
theorem Subtree.heldRows_ne_nil (h : t.Subtree 0 id) : t.heldRows id ≠ [] := by
  cases h with
  | leaf hnode hleaf hfits hrange =>
    have hlength := length_leafEntries hleaf hrange
    have hpos : (0 : Nat) < (_ : Node).children.len.toNat :=
      Nat.pos_of_ne_zero fun hzero => hfits.nonempty (UInt32.toNat_inj.mp hzero)
    rw [leafEntries_eq hleaf] at hlength
    rw [heldRows, entryPositions_leaf hnode hleaf, Ne, List.map_eq_nil_iff,
      ← List.length_eq_zero_iff]
    omega

/-- The children of a node ascend in the arena. -/
theorem pairwise_childPositions (t : Tree) (id : Nat) :
    (t.childPositions id).Pairwise (· < ·) := by
  unfold childPositions
  split
  · split
    · exact List.Pairwise.nil
    · exact List.pairwise_lt_range'
  · exact List.Pairwise.nil

/-- The leaves in the order of the arena ascend. -/
theorem pairwise_arenaLeaves (t : Tree) : t.arenaLeaves.Pairwise (· < ·) :=
  List.pairwise_lt_range.filter _

/-- In a tree of up to two levels, the leaves from left to right are in the order of the arena. -/
theorem pairwise_leaves_of_height_le (hheight : t.height.toNat ≤ 2) :
    t.leaves.Pairwise (· < ·) := by
  have hlevel : t.height.toNat - 1 = 0 ∨ t.height.toNat - 1 = 1 := by omega
  unfold leaves
  rcases hlevel with hlevel | hlevel <;> rw [hlevel]
  · exact List.pairwise_singleton _ _
  · have hchildren : t.leavesBelow 1 t.root.toNat = t.childPositions t.root.toNat := by
      show (t.childPositions t.root.toNat).flatMap (fun child => [child]) = _
      rw [List.flatMap_singleton']
    rw [hchildren]
    exact t.pairwise_childPositions _

section Layout

variable (h : t.Layout)

include h

/-- The leaves hold the rows of all entries, each as often as it has entries. -/
theorem Layout.perm_rows :
    (t.leaves.flatMap t.heldRows).Perm (t.entries.toList.map (·.row)) := by
  rw [flatMap_heldRows_leaves]
  exact h.perm_entries.map _

/-- The leaves from left to right are in the order of the arena when they ascend. -/
theorem Layout.leaves_eq_iff : t.leaves = t.arenaLeaves ↔ t.leaves.Pairwise (· < ·) := by
  constructor
  · intro heq
    rw [heq]
    exact t.pairwise_arenaLeaves
  · exact fun hleaves => h.leaves_perm.eq_of_pairwise' hleaves t.pairwise_arenaLeaves

/-- Where no row has several entries, the rows tell the leaves apart. -/
theorem Layout.leaves_eq_of_flatMap_eq (hrows : (t.entries.toList.map (·.row)).Nodup)
    (heq : t.leaves.flatMap t.heldRows = t.arenaLeaves.flatMap t.heldRows) :
    t.leaves = t.arenaLeaves := by
  have hheld : ∀ leaf ∈ t.leaves, t.heldRows leaf ≠ [] :=
    fun leaf hleaf => (h.subtree.of_mem_leavesBelow hleaf).heldRows_ne_nil
  have hnodup : (t.leaves.flatMap t.heldRows).Nodup := h.perm_rows.nodup_iff.mpr hrows
  refine eq_of_flatMap_eq hheld (fun leaf hleaf => ?_) ?_ heq
  · exact hheld leaf (h.leaves_perm.mem_iff.mpr hleaf)
  · intro leaf hleaf leaf' hleaf' row hrow hrow'
    exact eq_of_nodup_flatMap hnodup hleaf (h.leaves_perm.mem_iff.mpr hleaf') hrow hrow'

/-- A query around everything finds the rows leaf by leaf, from left to right. -/
theorem Layout.search_eq_leaves (hsize : 0 < t.size)
    (hvalid : ∀ e ∈ t.entries.toList, e.box.isValid = true) (hquery : query.isValid = true)
    (haround : query.contains t.bounds = true) :
    t.search query = t.leaves.flatMap t.heldRows := by
  have hnumeric : ∀ e ∈ t.entries.toList, e.box.IsNumeric :=
    fun e he => Box.isNumeric_of_isValid (hvalid e he)
  obtain ⟨node, hnode, _⟩ := h.subtree.exists_fits
  rw [bounds_eq hnode] at haround
  rw [h.search_eq hsize hnumeric, if_pos hquery, flatMap_heldRows_leaves, rowsOf,
    List.filter_eq_self.mpr]
  intro e he
  obtain ⟨k, hk, hentry⟩ := List.mem_filterMap.mp he
  have hmem := Array.mem_toList_iff.mpr (Array.mem_of_getElem? hentry)
  have hbox := h.subtree.contains_entry hnumeric hnode hk hentry
  exact Box.intersects_of_isValid (hvalid e hmem) (Box.contains_trans haround hbox)

end Layout

/-- Where there are no entries, no node holds any. -/
theorem flatMap_heldRows_of_size_eq_zero (hsize : t.size = 0) (ids : List Nat) :
    ids.flatMap t.heldRows = [] := by
  have hentry (k : Nat) : t.entries[k]? = none := by
    refine Array.getElem?_eq_none ?_
    rw [show t.entries.size = 0 from hsize]
    exact Nat.zero_le k
  simp [heldRows, hentry]

/-- A tree without entries that passes its check has no leaf but the root. -/
theorem pairwise_leaves_of_size_eq_zero (hsize : t.size = 0) (hok : t.validate = .ok ()) :
    t.leaves.Pairwise (· < ·) := by
  obtain ⟨root, hroot, hleaf, _⟩ := (validate_eq_ok_iff_of_isEmpty hsize).mp hok
  have hchildren : t.childPositions t.root.toNat = [] := childPositions_leaf hroot hleaf
  unfold leaves
  cases t.height.toNat - 1 with
  | zero => exact List.pairwise_singleton _ _
  | succ below =>
    rw [leavesBelow, hchildren]
    exact List.Pairwise.nil

/-- How the leaf groups of a tree relate to what a query around everything finds. -/
structure GroupsInOrder (t : Tree) (query : Box) : Prop where
  /-- The query finds the rows leaf by leaf, from left to right. -/
  search : t.search query = t.leaves.flatMap t.heldRows
  /-- The groups hold the rows leaf by leaf, in the order of the arena. -/
  groups : t.leafGroups.flatten = t.arenaLeaves.flatMap t.heldRows
  /-- They are the same rows. -/
  perm : t.leafGroups.flatten.Perm (t.search query)
  /-- They come in the same order if the leaves from left to right are in the order of the arena. -/
  ascending : t.leaves.Pairwise (· < ·) → t.leafGroups.flatten = t.search query
  /-- They do only then, unless a row has several entries. -/
  only : (t.entries.toList.map (·.row)).Nodup → t.leafGroups.flatten = t.search query →
    t.leaves.Pairwise (· < ·)
  /-- They do in a tree of up to two levels. -/
  shallow : t.height.toNat ≤ 2 → t.leafGroups.flatten = t.search query
  /-- They do in a packed tree. -/
  packed : ∀ (p : Packing) (entries : List Entry),
    p.pack entries = .ok t ∨ p.packSorted entries = .ok t → t.leafGroups.flatten = t.search query

/-- From left to right, the leaves of a packed tree hold the rows as its groups do. -/
theorem flatten_leafGroups_of_packSorted {p : Packing} {entries : List Entry}
    (hpacked : p.packSorted entries = .ok t) :
    t.leafGroups.flatten = t.leaves.flatMap t.heldRows := by
  obtain ⟨hfanout, hsize, _, rfl⟩ := Packing.packSorted_eq_ok_iff.mp hpacked
  by_cases hentries : entries = []
  · rw [if_pos hentries, flatten_leafGroups, flatMap_heldRows_of_size_eq_zero rfl,
      flatMap_heldRows_of_size_eq_zero rfl]
  · rw [if_neg hentries]
    have horder := (Packing.packed_layout hfanout hsize hentries).2
    have hrange := HasRun.filterMap_range (p.packed entries).entries
    rw [(Packing.hasShape_packed hfanout hsize hentries).rows, flatMap_heldRows_leaves, horder,
      ← hrange]
    rfl

/-- In a sound tree the leaf groups relate to a search that finds the rows leaf by leaf as they
should. -/
theorem Layout.groupsInOrder (h : t.Layout)
    (hsearch : t.search query = t.leaves.flatMap t.heldRows) : t.GroupsInOrder query := by
  have hascending (hleaves : t.leaves.Pairwise (· < ·)) :
      t.leafGroups.flatten = t.search query := by
    rw [hsearch, flatten_leafGroups, h.leaves_eq_iff.mpr hleaves]
  refine ⟨hsearch, t.flatten_leafGroups, ?_, hascending, ?_, ?_, ?_⟩
  · rw [hsearch, flatten_leafGroups]
    exact (h.leaves_perm.flatMap_right _).symm
  · intro hrows hsame
    rw [hsearch, flatten_leafGroups] at hsame
    exact h.leaves_eq_iff.mp (h.leaves_eq_of_flatMap_eq hrows hsame.symm)
  · exact fun hheight => hascending (pairwise_leaves_of_height_le hheight)
  · rintro p entries (hpacked | hpacked) <;>
      rw [hsearch, flatten_leafGroups_of_packSorted hpacked]

/-- A tree without entries has no leaf groups, and a search of it finds nothing. -/
theorem groupsInOrder_of_size_eq_zero (hsize : t.size = 0) (hok : t.validate = .ok ())
    (query : Box) : t.GroupsInOrder query := by
  have hnone (ids : List Nat) := flatMap_heldRows_of_size_eq_zero hsize ids
  have hsearch : t.search query = [] :=
    (search_eq_nil (by simp [searchStack, isEmpty, hsize])).1
  have hsame : t.leafGroups.flatten = t.search query := by
    rw [hsearch, flatten_leafGroups, hnone]
  refine ⟨hsearch.trans (hnone _).symm, t.flatten_leafGroups, .of_eq hsame, fun _ => hsame,
    fun _ _ => pairwise_leaves_of_size_eq_zero hsize hok, fun _ => hsame, fun _ _ _ => hsame⟩

/-- In a tree that passes its check and whose entries have valid boxes, a query around everything
finds the rows leaf by leaf from left to right.  The leaf groups hold the same rows.  They do so in
the same order if the leaves are in the order of the arena, and only then unless a row has several
entries.  That is so in trees of up to two levels, and in packed trees. -/
theorem groupsInOrder_of_validate (hok : t.validate = .ok ())
    (hvalid : ∀ e ∈ t.entries.toList, e.box.isValid = true) (hquery : query.isValid = true)
    (haround : query.contains t.bounds = true) : t.GroupsInOrder query := by
  rcases Nat.eq_zero_or_pos t.size with hsize | hsize
  · exact groupsInOrder_of_size_eq_zero hsize hok query
  · have hlayout := (validate_eq_ok_iff_layout hsize).mp hok
    exact hlayout.groupsInOrder (hlayout.search_eq_leaves hsize hvalid hquery haround)

/-- In the tree of three points the groups hold the rows in the order in which they are found. -/
theorem groupsInOrder_threePoints :
    let query : Box := ⟨.ofInt 0, .ofInt 0, .ofInt 2, .ofInt 2⟩
    threePoints.validate = .ok () ∧ threePoints.GroupsInOrder query ∧
      threePoints.leafGroups.flatten = threePoints.search query := by
  intro query
  have hok : threePoints.validate = .ok () := by rfl
  have hvalid : ∀ e ∈ threePoints.entries.toList, e.box.isValid = true := by decide +kernel
  have horder := groupsInOrder_of_validate hok hvalid (show query.isValid = true by decide +kernel)
    (show query.contains threePoints.bounds = true by decide +kernel)
  exact ⟨hok, horder, horder.shallow (by decide)⟩

/-- Two leaves under two nodes that stand over them the other way round. -/
def crossedParents : Tree :=
  let point (n : Int) : Box := .ofPoint (.ofInt n) (.ofInt n)
  { nodes := #[⟨point 0, ⟨0, 1⟩, true, 1⟩, ⟨point 1, ⟨1, 1⟩, true, 1⟩,
      ⟨point 1, ⟨1, 1⟩, false, 1⟩, ⟨point 0, ⟨0, 1⟩, false, 1⟩,
      ⟨⟨.ofInt 0, .ofInt 0, .ofInt 1, .ofInt 1⟩, ⟨2, 2⟩, false, 2⟩]
    entries := #[⟨point 0, 7⟩, ⟨point 1, 8⟩]
    root := 4
    height := 3
    fanout := 2 }

/-- The check accepts leaves that are not in the order of the arena, and then the leaf groups are
not from left to right. -/
theorem leafGroups_crossedParents :
    let query : Box := ⟨.ofInt 0, .ofInt 0, .ofInt 1, .ofInt 1⟩
    crossedParents.validate = .ok () ∧
      (∀ e ∈ crossedParents.entries.toList, e.box.isValid = true) ∧ query.isValid = true ∧
      query.contains crossedParents.bounds = true ∧
      crossedParents.search query = [8, 7] ∧ crossedParents.leafGroups.flatten = [7, 8] := by
  intro query
  exact ⟨by rfl, by decide +kernel, by decide +kernel, by decide +kernel, by decide +kernel,
    by decide +kernel⟩

end Tree

end SpatialIndex
