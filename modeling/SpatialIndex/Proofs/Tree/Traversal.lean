import SpatialIndex.Proofs.Tree.Search

/-!
# Searches of trees that pass their check

A tree that passes its check may lay out its nodes and entries in any order, and its boxes may be
infinite or the wrong way round.  Still every node on the stack of a search is the root of a sound
subtree, which keeps the search inside the arena, brings it to an end, and lets it look at every
entry at most once.
-/

namespace SpatialIndex

/-- Leaving out members and shortening what the others contribute leaves a part of the whole. -/
theorem flatMap_filter_sublist {α β : Type} {keep : α → Bool} {f g : α → List β} {l : List α}
    (h : ∀ a ∈ l, (f a).Sublist (g a)) : ((l.filter keep).flatMap f).Sublist (l.flatMap g) := by
  induction l with
  | nil => exact List.Sublist.refl _
  | cons a l ih =>
    rw [List.forall_mem_cons] at h
    have hrest := ih h.2
    rw [List.filter_cons, List.flatMap_cons]
    cases keep a with
    | true => exact h.1.append hrest
    | false => exact hrest.trans (List.sublist_append_right _ _)

/-- The positions of the entries that a node holds itself; only a leaf does. -/
def Node.heldPositions (node : Node) : List Nat :=
  if node.isLeaf then node.children.positions else []

namespace Tree

variable {t : Tree} {query : Box} {below id : Nat}

/-- The positions of the entries that a search looks at, in order. -/
def examined (t : Tree) (query : Box) : List Nat := (t.entered query).flatMap (·.heldPositions)

/-- The stacks that a search comes across. -/
inductive Stacked (t : Tree) (query : Box) : List NodeId → Prop
  /-- The stack it begins with. -/
  | start : Stacked t query (t.searchStack query)
  /-- The stack after the topmost node has been entered. -/
  | enter {stack rest : List NodeId} {node : Node} (h : Stacked t query stack)
      (hnode : t.enter? query stack = some (node, rest)) : Stacked t query rest

/-- There is such a node, and its range lies among the entries or nodes that it names. -/
def InBounds (t : Tree) (id : NodeId) : Prop :=
  ∃ node, t.node? id = some node ∧
    node.children.stop ≤ if node.isLeaf then t.entries.size else t.nodes.size

/-- A leaf contributes the rows it holds that match, and any other node none. -/
theorem matchingRows_eq (node : Node) :
    t.matchingRows query node = t.rowsOf query node.heldPositions := by
  unfold Node.heldPositions
  cases hleaf : node.isLeaf with
  | true => exact matchingRows_leaf hleaf
  | false => exact matchingRows_inner hleaf

/-- What a search finds are the rows of the entries it looks at that match. -/
theorem search_eq_rowsOf (t : Tree) (query : Box) :
    t.search query = t.rowsOf query (t.examined query) := by
  rw [search, examined, rowsOf_flatMap]
  exact List.flatMap_congr fun node _ => matchingRows_eq node

namespace Subtree

/-- The root of a sound subtree is in bounds. -/
theorem inBounds {id : NodeId} (h : t.Subtree below id.toNat) : t.InBounds id := by
  have hid := h.lt_size
  cases h with
  | leaf hnode hleaf _ hrange => exact ⟨_, hnode, by rwa [if_pos hleaf]⟩
  | inner hnode hinner _ hrange =>
    refine ⟨_, hnode, ?_⟩
    rw [hinner]
    exact Nat.le_of_lt (Nat.lt_of_le_of_lt hrange hid)

/-- Below a node a search looks at some of the entries reached from it, in their order. -/
theorem examined_sublist (h : t.Subtree below id) :
    ((t.enteredFrom query below id).flatMap (·.heldPositions)).Sublist
      (t.subtreeEntries below id) := by
  induction h with
  | leaf hnode hleaf =>
    rw [enteredFrom, hnode, subtreeEntries, entryPositions_leaf hnode hleaf]
    simp [Node.heldPositions, hleaf]
  | inner hnode hinner _ _ _ _ ih =>
    rw [enteredFrom, hnode, subtreeEntries, childPositions_inner hnode hinner, List.flatMap_append,
      List.flatMap_assoc]
    simp only [Option.toList_some, List.flatMap_singleton, Node.heldPositions, hinner,
      Bool.false_eq_true, if_false, List.nil_append]
    exact flatMap_filter_sublist ih

end Subtree

/-- Every node on the stack of a search is the root of a sound subtree: at first that is the root
of the tree, and a node that is entered leaves some of its children. -/
theorem Layout.exists_subtree_of_stacked (h : t.Layout) {stack : List NodeId}
    (hstack : t.Stacked query stack) : ∀ id ∈ stack, ∃ level, t.Subtree level id.toNat := by
  induction hstack with
  | start =>
    intro id hid
    unfold searchStack at hid
    split at hid
    · rw [List.mem_singleton.mp hid]
      exact ⟨_, h.subtree⟩
    · cases hid
  | @enter stack rest node _ hnode ih =>
    cases stack with
    | nil => cases hnode
    | cons top below =>
      rw [List.forall_mem_cons] at ih
      obtain ⟨⟨level, hsub⟩, hbelow⟩ := ih
      obtain ⟨node', hlookup, hentered⟩ := Option.map_eq_some_iff.mp hnode
      obtain ⟨found, lower, children, hfound, hchildren, hmatching, _⟩ := hsub.enter query
      cases hlookup.symm.trans hfound
      cases hentered
      intro id hid
      rw [hmatching, List.mem_append, List.mem_map] at hid
      rcases hid with ⟨child, hchild, rfl⟩ | hid
      · have hsize := Nat.lt_of_lt_of_le (hchildren child hchild).lt_size h.nodes_size_le
        have hid : (UInt32.ofNat child).toNat = child := UInt32.toNat_ofNat_of_lt hsize
        exact ⟨lower, by rw [hid]; exact hchildren child hchild⟩
      · exact hbelow id hid

/-- A search looks at no entry twice. -/
theorem Layout.nodup_examined (h : t.Layout) (hsize : 0 < t.size) (query : Box) :
    (t.examined query).Nodup := by
  have hentries := h.entries.nodup_iff.mpr List.nodup_range
  rw [examined, entered, h.run_eq hsize]
  split
  · exact hentries.sublist h.subtree.examined_sublist
  · exact List.nodup_nil

/-- A search that begins with nothing to enter comes across no other stack. -/
theorem eq_nil_of_stacked (hnil : t.searchStack query = []) {stack : List NodeId}
    (hstack : t.Stacked query stack) : stack = [] := by
  induction hstack with
  | start => exact hnil
  | enter _ hnode ih =>
    rw [ih] at hnode
    cases hnode

/-- What a search of a tree is to be like, whatever the query. -/
structure SearchedSafely (t : Tree) (query : Box) : Prop where
  /-- It ends with nothing left to enter, after at most one step for each node. -/
  ends : (t.run query t.nodes.size (t.searchStack query)).2 = []
  /-- It follows only nodes of the arena, with ranges inside it. -/
  inBounds : ∀ stack, t.Stacked query stack → ∀ id ∈ stack, t.InBounds id
  /-- It looks at no entry twice. -/
  once : (t.examined query).Nodup
  /-- It finds the rows of the matching ones among the entries it looks at. -/
  found : t.search query = t.rowsOf query (t.examined query)
  /-- In some order, that is what a look at all entries finds. -/
  matching : (t.search query).Perm (if query.isValid then
    (t.entries.toList.filter (·.box.intersects query)).map (·.row) else [])

/-- A tree without entries is searched without entering anything. -/
theorem searchedSafely_of_isEmpty (hsize : t.size = 0) (query : Box) : t.SearchedSafely query := by
  have hnil : t.searchStack query = [] := by simp [searchStack, isEmpty, hsize]
  have hentries : t.entries.toList = [] := by
    rw [← List.length_eq_zero_iff, Array.length_toList]
    exact hsize
  obtain ⟨hsearch, hends⟩ := search_eq_nil hnil
  refine ⟨hends, ?_, ?_, search_eq_rowsOf t query, ?_⟩
  · intro stack hstack id hid
    rw [eq_nil_of_stacked hnil hstack] at hid
    cases hid
  · rw [examined, entered, hnil, run_nil]
    exact List.nodup_nil
  · rw [hsearch, hentries]
    simp

/-- A sound tree with entries whose boxes have no NaN side is searched as it is meant to be,
whatever the query. -/
theorem Layout.searchedSafely (h : t.Layout) (hsize : 0 < t.size)
    (hnumeric : ∀ e ∈ t.entries.toList, e.box.IsNumeric) (query : Box) :
    t.SearchedSafely query := by
  refine ⟨congrArg Prod.snd (h.run_eq hsize query), ?_, h.nodup_examined hsize query,
    search_eq_rowsOf t query, ?_⟩
  · intro stack hstack id hid
    obtain ⟨level, hsub⟩ := h.exists_subtree_of_stacked hstack id hid
    exact hsub.inBounds
  · rw [h.search_eq hsize hnumeric, ← rowsOf_range]
    split
    · exact rowsOf_perm h.entries
    · exact List.Perm.refl _

/-- A search of a tree that passes its check and whose boxes are free of NaN ends, stays inside the
arena and looks at no entry twice.  For every query it finds the rows of just those entries whose
box the query meets, and nothing for a query that is not valid. -/
theorem searchedSafely_of_validate (hok : t.validate = .ok ())
    (hnumeric : ∀ e ∈ t.entries.toList, e.box.IsNumeric) (query : Box) :
    t.SearchedSafely query := by
  rcases Nat.eq_zero_or_pos t.size with hsize | hsize
  · exact searchedSafely_of_isEmpty hsize query
  · exact ((validate_eq_ok_iff_layout hsize).mp hok).searchedSafely hsize hnumeric query

/-- A tree that packing does not give: the first leaf holds the last entry, and one of the boxes
below the second leaf is the wrong way round and another one infinite. -/
def crossedLeaves : Tree :=
  let side (n : Int) : Single := .ofInt n
  { nodes := #[⟨⟨side 8, side 8, side 9, side 9⟩, ⟨2, 1⟩, true, 1⟩,
      ⟨⟨.infinite true, side 1, side 3, .infinite false⟩, ⟨0, 2⟩, true, 2⟩,
      ⟨⟨.infinite true, side 1, side 9, .infinite false⟩, ⟨0, 2⟩, false, 3⟩]
    entries := #[⟨⟨side 2, side 1, side 1, side 0⟩, 5⟩,
      ⟨⟨.infinite true, side 1, side 3, .infinite false⟩, 6⟩,
      ⟨⟨side 8, side 8, side 9, side 9⟩, 7⟩]
    root := 2
    height := 2
    fanout := 2 }

/-- An accepted tree that packing does not give is searched safely too. -/
theorem searchedSafely_crossedLeaves :
    crossedLeaves.validate = .ok () ∧
      (∀ e ∈ crossedLeaves.entries.toList, e.box.IsNumeric) ∧
      ∀ query : Box, crossedLeaves.SearchedSafely query := by
  have hok : crossedLeaves.validate = .ok () := by rfl
  have hnumeric : ∀ e ∈ crossedLeaves.entries.toList, e.box.IsNumeric := by
    intro e he
    simp only [crossedLeaves, List.mem_cons, List.not_mem_nil, or_false] at he
    rcases he with rfl | rfl | rfl <;>
      exact ⟨by decide +kernel, by decide +kernel, by decide +kernel, by decide +kernel⟩
  exact ⟨hok, hnumeric, fun query => searchedSafely_of_validate hok hnumeric query⟩

end Tree

end SpatialIndex
