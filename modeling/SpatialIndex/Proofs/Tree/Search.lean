import SpatialIndex.Proofs.Tree.Packing
import SpatialIndex.Tree.Search

/-!
# Searches find what a look at every entry finds

A search of a sound tree enters the nodes of the subtrees on its stack in order, leaving out the
children that the query does not meet.  Nothing is lost by that, because the box of a node
contains all boxes below it, so the rows found are those of the entries reached whose box meets
the query.
-/

namespace SpatialIndex

/-- Members that contribute nothing may be left out. -/
theorem flatMap_filter_of_eq_nil {α β : Type} {keep : α → Bool} {f : α → List β} {l : List α}
    (h : ∀ a ∈ l, keep a = false → f a = []) : (l.filter keep).flatMap f = l.flatMap f := by
  induction l with
  | nil => rfl
  | cons a l ih =>
    rw [List.forall_mem_cons] at h
    rw [List.filter_cons, List.flatMap_cons, ← ih h.2]
    cases hkeep : keep a with
    | true => rfl
    | false => rw [h.1 hkeep, List.nil_append]; rfl

namespace Tree

variable {t : Tree} {query : Box} {below id : Nat}

/-- The node at a position is there and the query meets its box. -/
def meets (t : Tree) (query : Box) (id : Nat) : Bool :=
  (t.nodes[id]?).any (·.box.intersects query)

/-- The nodes entered from `id` in so many levels, each before those below it. -/
def enteredFrom (t : Tree) (query : Box) : (below id : Nat) → List Node
  | 0, id => (t.nodes[id]?).toList
  | below + 1, id => (t.nodes[id]?).toList ++
      ((t.childPositions id).filter (t.meets query)).flatMap (t.enteredFrom query below)

/-- The rows of the entries at the given positions whose box meets the query. -/
def rowsOf (t : Tree) (query : Box) (positions : List Nat) : List RowId :=
  ((positions.filterMap (t.entries[·]?)).filter (·.box.intersects query)).map (·.row)

/-- Rows found over gathered positions are gathered as the positions are. -/
theorem rowsOf_flatMap {α : Type} (l : List α) (f : α → List Nat) :
    t.rowsOf query (l.flatMap f) = l.flatMap fun a => t.rowsOf query (f a) := by
  induction l with
  | nil => rfl
  | cons a l ih =>
    rw [List.flatMap_cons, List.flatMap_cons, ← ih]
    simp [rowsOf]

/-- The rows at all positions are those of all entries. -/
theorem rowsOf_range (t : Tree) (query : Box) : t.rowsOf query (List.range t.entries.size) =
    (t.entries.toList.filter (·.box.intersects query)).map (·.row) := by
  rw [rowsOf, HasRun.filterMap_range]

/-- Entries looked at in another order give the same rows in another order. -/
theorem rowsOf_perm {ps qs : List Nat} (h : ps.Perm qs) :
    (t.rowsOf query ps).Perm (t.rowsOf query qs) :=
  ((h.filterMap _).filter _).map _

section Step

variable {node : Node}

/-- A leaf has no children to enter. -/
theorem matchingChildren_leaf (hleaf : node.isLeaf = true) :
    t.matchingChildren query node = [] := by
  simp [matchingChildren, childNodes, hleaf]

/-- In a leaf the rows of the entries that the query meets are found. -/
theorem matchingRows_leaf (hleaf : node.isLeaf = true) :
    t.matchingRows query node = t.rowsOf query node.children.positions := by
  rw [matchingRows, leafEntries_eq hleaf, rowsOf]

/-- In an inner node no rows are found. -/
theorem matchingRows_inner (hinner : node.isLeaf = false) : t.matchingRows query node = [] := by
  simp [matchingRows, leafEntries, hinner]

/-- The matching children of an inner node, read off its range. -/
theorem matchingChildren_inner (hinner : node.isLeaf = false)
    (hchildren : ∀ child ∈ node.children.positions, child < t.nodes.size) :
    t.matchingChildren query node =
      (node.children.positions.filter (t.meets query)).map .ofNat := by
  rw [matchingChildren, childNodes_eq hinner]
  generalize node.children.positions = ids at hchildren
  induction ids with
  | nil => rfl
  | cons id ids ih =>
    rw [List.forall_mem_cons] at hchildren
    have hnode : t.nodes[id]? = some t.nodes[id] := Array.getElem?_eq_getElem hchildren.1
    have hmeets : t.meets query id = t.nodes[id].box.intersects query := by
      rw [meets, hnode, Option.any_some]
    rw [List.filterMap_cons_some hnode, List.zip_cons_cons]
    cases hq : t.nodes[id].box.intersects query with
    | true =>
      simp only [List.filter_cons, hmeets, hq, if_true, List.map_cons]
      exact congrArg _ (ih hchildren.2)
    | false =>
      simp only [List.filter_cons, hmeets, hq, Bool.false_eq_true, if_false]
      exact ih hchildren.2

end Step

namespace Subtree

/-- Entering the root of a sound subtree leaves the sound subtrees of its matching children. -/
theorem enter (query : Box) (h : t.Subtree below id) :
    ∃ (node : Node) (level : Nat) (children : List Nat), t.nodes[id]? = some node ∧
      (∀ child ∈ children, t.Subtree level child) ∧
      t.matchingChildren query node = children.map .ofNat ∧
      t.enteredFrom query below id = node :: children.flatMap (t.enteredFrom query level) := by
  cases h with
  | leaf hnode hleaf =>
    refine ⟨_, 0, [], hnode, by simp, matchingChildren_leaf hleaf, ?_⟩
    rw [enteredFrom, hnode]
    rfl
  | @inner level _ node hnode hinner _ _ hchildren =>
    refine ⟨node, level, node.children.positions.filter (t.meets query), hnode, ?_, ?_, ?_⟩
    · exact fun child hchild => hchildren child (List.mem_filter.mp hchild).1
    · exact matchingChildren_inner hinner fun child hchild => (hchildren child hchild).lt_size
    · rw [enteredFrom, hnode, childPositions_inner hnode hinner]
      rfl

/-- No more nodes are entered than there are. -/
theorem length_enteredFrom_le (h : t.Subtree below id) :
    (t.enteredFrom query below id).length ≤ (t.subtreeNodes below id).length := by
  induction h with
  | leaf hnode => simp [enteredFrom, subtreeNodes, hnode]
  | inner hnode hinner _ _ _ _ ih =>
    rw [enteredFrom, subtreeNodes, hnode, childPositions_inner hnode hinner, Option.toList_some,
      List.length_append, List.length_singleton, List.length_cons, Nat.add_comm]
    refine Nat.succ_le_succ ?_
    generalize (_ : Node).children.positions = ids at ih
    induction ids with
    | nil => exact Nat.le_refl _
    | cons id ids ihs =>
      rw [List.forall_mem_cons] at ih
      have hrest := ihs ih.2
      have hfirst := ih.1
      rw [List.flatMap_cons, List.length_append, List.filter_cons]
      split
      · rw [List.flatMap_cons, List.length_append]
        omega
      · omega

section Boxes

variable (hnumeric : ∀ e ∈ t.entries.toList, e.box.IsNumeric)

include hnumeric

/-- The box of a node contains the boxes of all entries below it. -/
theorem contains_entry (h : t.Subtree below id) {node : Node} (hnode : t.nodes[id]? = some node)
    {k : Nat} (hk : k ∈ t.subtreeEntries below id) {e : Entry} (he : t.entries[k]? = some e) :
    node.box.contains e.box = true := by
  have hself := Box.covers_refl (h.isNumeric hnode)
  have hcovers := (h.covers_iff hnode).mp hself e (List.mem_filterMap.mpr ⟨k, hk, he⟩)
  have hmem := Array.mem_toList_iff.mpr (Array.mem_of_getElem? he)
  exact (Box.covers_iff_contains (h.isNumeric hnode) (hnumeric e hmem)).mp hcovers

/-- Nothing below a node matches when the query does not meet the node. -/
theorem rowsOf_eq_nil (h : t.Subtree below id) (hmeets : t.meets query id = false) :
    t.rowsOf query (t.subtreeEntries below id) = [] := by
  obtain ⟨node, hnode, _⟩ := h.exists_fits
  rw [meets, hnode, Option.any_some] at hmeets
  rw [rowsOf, List.map_eq_nil_iff, List.filter_eq_nil_iff]
  intro e he hq
  obtain ⟨k, hk, he⟩ := List.mem_filterMap.mp he
  rw [Box.intersects_of_contains (h.contains_entry hnumeric hnode hk he) hq] at hmeets
  cases hmeets

/-- The rows found in the nodes entered are those of the entries reached that match. -/
theorem flatMap_enteredFrom (h : t.Subtree below id) :
    (t.enteredFrom query below id).flatMap (t.matchingRows query) =
      t.rowsOf query (t.subtreeEntries below id) := by
  induction h with
  | leaf hnode hleaf =>
    rw [enteredFrom, subtreeEntries, hnode, Option.toList_some, List.flatMap_singleton,
      matchingRows_leaf hleaf, entryPositions_leaf hnode hleaf]
  | inner hnode hinner _ _ hchildren _ ih =>
    rw [enteredFrom, subtreeEntries, hnode, Option.toList_some, List.flatMap_append,
      List.flatMap_singleton, matchingRows_inner hinner, List.nil_append, List.flatMap_assoc,
      childPositions_inner hnode hinner, rowsOf_flatMap]
    rw [flatMap_filter_of_eq_nil, List.flatMap_congr ih]
    intro child hchild hmeets
    rw [ih child hchild, (hchildren child hchild).rowsOf_eq_nil hnumeric hmeets]

end Boxes

/-- A search enters the nodes of the subtrees on its stack in order and then stops. -/
theorem run_eq (harena : t.nodes.size ≤ UInt32.size) {fuel : Nat} {stack : List (Nat × Nat)}
    (hstack : ∀ s ∈ stack, t.Subtree s.1 s.2)
    (hfuel : (stack.flatMap fun s => t.enteredFrom query s.1 s.2).length ≤ fuel) :
    t.run query fuel (stack.map fun s => .ofNat s.2) =
      (stack.flatMap fun s => t.enteredFrom query s.1 s.2, []) := by
  induction fuel generalizing stack with
  | zero =>
    cases stack with
    | nil => rfl
    | cons s stack =>
      obtain ⟨node, level, children, _, _, _, hentered⟩ := (hstack s List.mem_cons_self).enter query
      rw [List.flatMap_cons, hentered] at hfuel
      cases hfuel
  | succ fuel ih =>
    cases stack with
    | nil => rfl
    | cons s stack =>
      obtain ⟨below, id⟩ := s
      rw [List.forall_mem_cons] at hstack
      obtain ⟨hsub, hstack⟩ := hstack
      obtain ⟨node, level, children, hnode, hchildren, hmatching, hentered⟩ := hsub.enter query
      have hid : (UInt32.ofNat id).toNat = id :=
        UInt32.toNat_ofNat_of_lt (Nat.lt_of_lt_of_le hsub.lt_size harena)
      -- The children take the place of their parent on the stack, with one node less to enter.
      have hnext := @ih (children.map (fun child => (level, child)) ++ stack)
      rw [List.flatMap_append, List.flatMap_map, List.map_append, List.map_map] at hnext
      rw [List.flatMap_cons, hentered] at hfuel ⊢
      have hrest := hnext ?_ ?_
      · rw [List.map_cons, run, enter?, node?, hid, hnode, Option.map_some, hmatching]
        simp only [Function.comp_def] at hrest
        simp only [hrest, List.cons_append]
      · intro s hs
        rw [List.mem_append, List.mem_map] at hs
        rcases hs with ⟨child, hchild, rfl⟩ | hs
        · exact hchildren child hchild
        · exact hstack s hs
      · rw [List.cons_append, List.length_cons] at hfuel
        exact Nat.le_of_succ_le_succ hfuel

end Subtree

/-- There is nothing to enter from an empty stack. -/
theorem run_nil (t : Tree) (query : Box) (fuel : Nat) : t.run query fuel [] = ([], []) := by
  cases fuel <;> rfl

/-- A query that is not valid finds nothing, and neither does one that misses the root. -/
theorem search_eq_nil (h : t.searchStack query = []) : t.search query = [] ∧
    (t.run query t.nodes.size (t.searchStack query)).2 = [] := by
  rw [search, entered, h, run_nil]
  exact ⟨rfl, rfl⟩

/-- The bounds of a tree are the box of its root. -/
theorem bounds_eq {node : Node} (hnode : t.nodes[t.root.toNat]? = some node) :
    t.bounds = node.box := by
  rw [bounds, rootNode?, node?, hnode]
  rfl

section Layout

variable (h : t.Layout)

include h

/-- The entries reached from the root are all entries, in some order. -/
theorem Layout.perm_entries :
    ((t.subtreeEntries (t.height.toNat - 1) t.root.toNat).filterMap (t.entries[·]?)).Perm
      t.entries.toList := by
  have hperm := h.entries.filterMap (t.entries[·]?)
  rwa [HasRun.filterMap_range] at hperm

/-- A search begins at the root of a tree with entries, or nowhere if the query is not valid or does
not meet the root. -/
theorem Layout.searchStack_eq (hsize : 0 < t.size) :
    t.searchStack query = if query.isValid && t.meets query t.root.toNat then [t.root] else [] := by
  obtain ⟨node, hnode, _⟩ := h.subtree.exists_fits
  have hne : t.isEmpty = false := by
    rw [isEmpty, decide_eq_false_iff_not]
    omega
  rw [searchStack, bounds_eq hnode, hne, meets, hnode, Bool.not_false, Bool.and_true,
    Option.any_some]

/-- A search of a tree with a sound layout enters what it meets below the root, and has then
entered all it had to enter. -/
theorem Layout.run_eq (hsize : 0 < t.size) (query : Box) :
    t.run query t.nodes.size (t.searchStack query) =
      (if query.isValid && t.meets query t.root.toNat then
        t.enteredFrom query (t.height.toNat - 1) t.root.toNat else [], []) := by
  rw [h.searchStack_eq hsize]
  split
  · have hfuel := @Subtree.length_enteredFrom_le _ query _ _ h.subtree
    rw [h.nodes.length_eq, List.length_range] at hfuel
    have hrun := @Subtree.run_eq _ query h.nodes_size_le t.nodes.size
      [(t.height.toNat - 1, t.root.toNat)] (by simpa using h.subtree) (by simpa using hfuel)
    rwa [List.map_singleton, List.flatMap_singleton, UInt32.ofNat_toNat] at hrun
  · exact run_nil t query _

/-- A search of a tree with a sound layout finds the rows of the entries that the query meets, in
the order in which the leaves hold them. -/
theorem Layout.search_eq (hsize : 0 < t.size)
    (hnumeric : ∀ e ∈ t.entries.toList, e.box.IsNumeric) (query : Box) :
    t.search query = if query.isValid then
      t.rowsOf query (t.subtreeEntries (t.height.toNat - 1) t.root.toNat) else [] := by
  rw [search, entered, h.run_eq hsize]
  cases query.isValid with
  | false => rfl
  | true =>
    cases hmeets : t.meets query t.root.toNat with
    | false =>
      rw [h.subtree.rowsOf_eq_nil hnumeric hmeets]
      rfl
    | true => exact h.subtree.flatMap_enteredFrom hnumeric

end Layout

end Tree

namespace Packing

variable {p : Packing} {entries : List Entry} {t : Tree}

/-- A packed tree finds the rows of the entries that a query meets, in the order in which they
were packed. -/
theorem search_of_packSorted (h : p.packSorted entries = .ok t) (query : Box) :
    t.search query = (if query.isValid then
        (entries.filter (·.box.intersects query)).map (·.row) else []) ∧
      (t.run query t.nodes.size (t.searchStack query)).2 = [] := by
  obtain ⟨hfanout, hsize, hvalid, rfl⟩ := packSorted_eq_ok_iff.mp h
  by_cases hentries : entries = []
  · subst hentries
    simp only [if_true, List.filter_nil, List.map_nil, ite_self]
    exact Tree.search_eq_nil (by simp [Tree.searchStack, Tree.isEmpty, Tree.size, Tree.empty])
  · rw [if_neg hentries]
    obtain ⟨hlayout, horder⟩ := packed_layout hfanout hsize hentries
    have hpos : 0 < (p.packed entries).size := List.length_pos_iff.mpr hentries
    refine ⟨?_, congrArg Prod.snd (hlayout.run_eq hpos query)⟩
    rw [hlayout.search_eq hpos fun e he => Box.isNumeric_of_isValid (hvalid e he), horder]
    exact congrArg (if query.isValid then · else [])
      (Tree.rowsOf_range (p.packed entries) query)

/-- Whatever the fanout, the number of partitions and the coordinate that orders entries, entries
with valid boxes are packed unless there are too many of them, and for every query the packed tree
finds the rows of just those entries whose box it meets: in the stable order of their coordinates,
or as they came if they were packed in that order.  It finds nothing for a query that is not
valid.  A search never stops with nodes left to enter. -/
theorem search_eq_filter (p : Packing) (entries : List Entry)
    (hfanout : 2 ≤ p.fanout ∧ p.fanout ≤ 1024) (hvalid : ∀ e ∈ entries, e.box.isValid = true) :
    (entries.length < UInt32.size →
      (∃ t, p.pack entries = .ok t) ∧ ∃ t, p.packSorted entries = .ok t) ∧
    ∀ (t : Tree) (query : Box),
      (p.pack entries = .ok t →
        t.search query = (if query.isValid then
          ((entries.mergeSort fun a b =>
            (p.sortKey.value a).totalKey ≤ (p.sortKey.value b).totalKey).filter
              (·.box.intersects query)).map (·.row) else []) ∧
        (t.run query t.nodes.size (t.searchStack query)).2 = []) ∧
      (p.packSorted entries = .ok t →
        t.search query = (if query.isValid then
          (entries.filter (·.box.intersects query)).map (·.row) else []) ∧
        (t.run query t.nodes.size (t.searchStack query)).2 = []) := by
  have hfan := isFanout_iff.mpr hfanout
  have hperm : (p.sortKey.sort entries).Perm entries := by
    rw [SortKey.sort_eq_mergeSort]
    exact List.mergeSort_perm _ _
  refine ⟨fun hsize => ⟨⟨_, packSorted_eq_ok_iff.mpr ⟨hfan, ?_, ?_, rfl⟩⟩,
    ⟨_, packSorted_eq_ok_iff.mpr ⟨hfan, hsize, hvalid, rfl⟩⟩⟩, fun t query => ⟨fun h => ?_, ?_⟩⟩
  · rw [hperm.length_eq]
    exact hsize
  · exact fun e he => hvalid e (hperm.mem_iff.mp he)
  · rw [← SortKey.sort_eq_mergeSort]
    exact search_of_packSorted h query
  · exact fun h => search_of_packSorted h query

/-- Three points, the last one pushed first, packed two to a leaf in two partitions. -/
theorem search_three_points :
    let point (n : Int) : Box := .ofPoint (.ofInt n) (.ofInt n)
    let p : Packing := ⟨2, 2, 0, .minX⟩
    let entries : List Entry := [⟨point 2, 7⟩, ⟨point 0, 8⟩, ⟨point 1, 9⟩]
    ∃ t, p.pack entries = .ok t ∧
      t.search ⟨.ofInt 1, .ofInt 1, .ofInt 3, .ofInt 3⟩ = [9, 7] := by
  intro point p entries
  have h := search_eq_filter p entries (by decide) (by decide +kernel)
  obtain ⟨t, ht⟩ := (h.1 (by decide)).1
  have hkeys : (p.sortKey.value ⟨point 0, 8⟩).totalKey < (p.sortKey.value ⟨point 1, 9⟩).totalKey ∧
      (p.sortKey.value ⟨point 1, 9⟩).totalKey < (p.sortKey.value ⟨point 2, 7⟩).totalKey := by
    decide +kernel
  have hsort : (entries.mergeSort fun a b =>
      (p.sortKey.value a).totalKey ≤ (p.sortKey.value b).totalKey) =
        [⟨point 0, 8⟩, ⟨point 1, 9⟩, ⟨point 2, 7⟩] := by
    simp [entries, List.mergeSort, List.MergeSort.Internal.splitInTwo, Int.not_le.mpr hkeys.2,
      Int.le_of_lt hkeys.1, Int.not_le.mpr (Int.lt_trans hkeys.1 hkeys.2)]
  refine ⟨t, ht, ((h.2 t _).1 ht).1.trans ?_⟩
  rw [hsort]
  decide +kernel

end Packing

end SpatialIndex
