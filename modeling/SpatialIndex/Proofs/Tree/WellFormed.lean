import Mathlib.Data.Set.Card
import SpatialIndex.Proofs.Tree.Marking

/-!
# What a check of a tree decides

A tree with entries is well formed when following child ranges from the root leads to every node
and every entry in exactly one way, with all leaves on one level, children before their parents,
and true boxes and counts.  None of this mentions the walk of the check or its marks.  The check
accepts exactly the well-formed trees.
-/

namespace SpatialIndex

namespace Tree

/-- A way along child ranges from the root to a node, by the nodes passed, the last one first. -/
inductive Way (t : Tree) : (passed : List Nat) → (id : Nat) → Prop
  /-- The root is reached without passing a node. -/
  | root : Way t [] t.root.toNat
  /-- From a node to one of the nodes right below it. -/
  | down {passed : List Nat} {id child : Nat} (way : Way t passed id)
      (hchild : child ∈ t.childPositions id) : Way t (id :: passed) child

/-- A way along child ranges from the root to an entry. -/
inductive EntryWay (t : Tree) : (passed : List Nat) → (entry : Nat) → Prop
  /-- From a leaf to one of the entries it holds. -/
  | hold {passed : List Nat} {id entry : Nat} (way : Way t passed id)
      (hentry : entry ∈ t.entryPositions id) : EntryWay t (id :: passed) entry

/-- An entry lies below a node. -/
inductive Holds (t : Tree) : (id entry : Nat) → Prop
  /-- A leaf holds it. -/
  | own {id entry : Nat} (hentry : entry ∈ t.entryPositions id) : Holds t id entry
  /-- It lies below a node right below. -/
  | lower {id child entry : Nat} (hchild : child ∈ t.childPositions id)
      (hentry : Holds t child entry) : Holds t id entry

/-- The structure that a tree with entries is meant to have. -/
structure WellFormed (t : Tree) : Prop where
  /-- The root is in the arena. -/
  root_lt : t.root.toNat < t.nodes.size
  /-- The fanout is one that trees are packed with. -/
  fanout : 2 ≤ t.fanout.toNat ∧ t.fanout.toNat ≤ 1024
  /-- There are between one and 33 levels. -/
  height : 1 ≤ t.height.toNat ∧ t.height.toNat ≤ 33
  /-- Every node has between one and `fanout` children. -/
  children : ∀ (id : Nat) (node : Node), t.nodes[id]? = some node →
    1 ≤ node.children.len.toNat ∧ node.children.len.toNat ≤ t.fanout.toNat
  /-- The children of an inner node are in the arena, before the node itself. -/
  inner : ∀ (id : Nat) (node : Node), t.nodes[id]? = some node → node.isLeaf = false →
    node.children.stop ≤ t.nodes.size ∧ node.children.stop ≤ id
  /-- One way leads to every node. -/
  node_once : ∀ id < t.nodes.size, ∃! passed, t.Way passed id
  /-- One way leads to every entry. -/
  entry_once : ∀ entry < t.entries.size, ∃! passed, t.EntryWay passed entry
  /-- Leaves hold nothing but entries. -/
  entry_lt : ∀ (passed : List Nat) (entry : Nat), t.EntryWay passed entry →
    entry < t.entries.size
  /-- Every leaf is on the lowest level. -/
  leaf_depth : ∀ (passed : List Nat) (id : Nat) (node : Node), t.Way passed id →
    t.nodes[id]? = some node → node.isLeaf = true → passed.length = t.height.toNat - 1
  /-- The box of every node is the union of the boxes of its children. -/
  box : ∀ (id : Nat) (node : Node), t.nodes[id]? = some node →
    (Box.unionAll (t.childBoxes node)).equiv node.box = true
  /-- The count of every node is the number of entries below it. -/
  count : ∀ (id : Nat) (node : Node), t.nodes[id]? = some node →
    node.count.toNat = {entry | t.Holds id entry}.ncard

section Subtree

variable {t : Tree} {below root : Nat}

/-- What occurs only once in what is gathered comes from one member only. -/
theorem eq_of_nodup_flatMap {α β : Type} {f : α → List β} {l : List α} (h : (l.flatMap f).Nodup)
    {a b : α} {x : β} (ha : a ∈ l) (hb : b ∈ l) (hxa : x ∈ f a) (hxb : x ∈ f b) : a = b := by
  by_contra hne
  have : Std.Symm (Function.onFun List.Disjoint f) := ⟨fun _ _ h => h.symm⟩
  exact (List.nodup_flatMap.mp h).2.forall ha hb hne hxa hxb

/-- The entries below the root of a sound subtree are those reached. -/
theorem Subtree.holds_iff (h : t.Subtree below root) {entry : Nat} :
    t.Holds root entry ↔ entry ∈ t.subtreeEntries below root := by
  induction h with
  | leaf hnode hleaf =>
    rw [subtreeEntries]
    refine ⟨fun h => ?_, .own⟩
    cases h with
    | own hentry => exact hentry
    | lower hchild =>
      rw [childPositions_leaf hnode hleaf] at hchild
      cases hchild
  | inner hnode hinner _ _ _ _ ih =>
    rw [subtreeEntries, List.mem_flatMap]
    constructor
    · intro h
      cases h with
      | own hentry =>
        rw [entryPositions_inner hnode hinner] at hentry
        cases hentry
      | lower hchild hentry =>
        have hposition := hchild
        rw [childPositions_inner hnode hinner] at hposition
        exact ⟨_, hchild, (ih _ hposition).mp hentry⟩
    · rintro ⟨child, hchild, hentry⟩
      have hposition := hchild
      rw [childPositions_inner hnode hinner] at hposition
      exact .lower hchild ((ih child hposition).mpr hentry)

/-- Where a sound subtree reaches its entries once, its count is the number of entries below. -/
theorem Subtree.ncard_holds (h : t.Subtree below root)
    (hnodup : (t.subtreeEntries below root).Nodup) :
    {entry | t.Holds root entry}.ncard = (t.subtreeEntries below root).length := by
  have hset : {entry | t.Holds root entry} = ↑(t.subtreeEntries below root).toFinset := by
    ext entry
    simp [h.holds_iff]
  rw [hset, Set.ncard_coe_finset, List.toFinset_card_of_nodup hnodup]

/-- From a node that is reached, ways lead on to all nodes of its subtree. -/
theorem Way.exists_of_mem_subtreeNodes {passed : List Nat} {id x : Nat} (way : t.Way passed id)
    (h : t.Subtree below id) (hx : x ∈ t.subtreeNodes below id) :
    ∃ later before, t.Way later x ∧ x :: later = before ++ id :: passed := by
  induction h generalizing passed with
  | leaf =>
    rw [subtreeNodes, List.mem_singleton] at hx
    subst hx
    exact ⟨passed, [], way, rfl⟩
  | @inner below id node hnode hinner _ _ _ _ ih =>
    rw [subtreeNodes, List.mem_cons, List.mem_flatMap] at hx
    rcases hx with rfl | ⟨child, hchild, hx⟩
    · exact ⟨passed, [], way, rfl⟩
    · have hposition := hchild
      rw [childPositions_inner hnode hinner] at hposition
      obtain ⟨later, before, hway, heq⟩ := ih child hposition (way.down hchild) hx
      exact ⟨later, before ++ [child], hway, by simp [heq]⟩

end Subtree

namespace Layout

variable {t : Tree}

/-- Every way from the root stays in what is reached from it, one level further down at each
node. -/
theorem of_way (h : t.Layout) {passed : List Nat} {id : Nat} (way : t.Way passed id) :
    id ∈ t.subtreeNodes (t.height.toNat - 1) t.root.toNat ∧
      ∃ level, level + passed.length = t.height.toNat - 1 ∧ t.Subtree level id := by
  induction way with
  | root => exact ⟨Subtree.mem_subtreeNodes_self _ _ _, _, rfl, h.subtree⟩
  | down way hchild ih =>
    obtain ⟨hid, level, hlevel, hsub⟩ := ih
    obtain ⟨level', rfl, hsub'⟩ := hsub.of_mem_childPositions hchild
    refine ⟨h.subtree.subtreeNodes_perm.mem_iff.mpr ?_, level', ?_, hsub'⟩
    · exact List.mem_cons_of_mem _ (List.mem_flatMap.mpr ⟨_, hid, hchild⟩)
    · rw [List.length_cons]
      omega

/-- What is reached below the root lists neither the root nor any node twice. -/
theorem nodup_children (h : t.Layout) :
    t.root.toNat ∉ (t.subtreeNodes (t.height.toNat - 1) t.root.toNat).flatMap t.childPositions ∧
      ((t.subtreeNodes (t.height.toNat - 1) t.root.toNat).flatMap t.childPositions).Nodup := by
  rw [← List.nodup_cons, ← h.subtree.subtreeNodes_perm.nodup_iff, h.nodes.nodup_iff]
  exact List.nodup_range

/-- No two ways lead to the same node. -/
theorem way_unique (h : t.Layout) {passed passed' : List Nat} {id : Nat}
    (way : t.Way passed id) (way' : t.Way passed' id) : passed = passed' := by
  obtain ⟨hroot, hnodup⟩ := h.nodup_children
  induction way generalizing passed' with
  | root =>
    cases way' with
    | root => rfl
    | down way' hchild =>
      exact absurd (List.mem_flatMap.mpr ⟨_, (h.of_way way').1, hchild⟩) hroot
  | down way hchild ih =>
    cases way' with
    | root => exact absurd (List.mem_flatMap.mpr ⟨_, (h.of_way way).1, hchild⟩) hroot
    | down way' hchild' =>
      cases eq_of_nodup_flatMap hnodup (h.of_way way).1 (h.of_way way').1 hchild hchild'
      rw [ih way']

/-- A way leads to every node. -/
theorem exists_way (h : t.Layout) {id : Nat} (hid : id < t.nodes.size) :
    ∃ passed, t.Way passed id := by
  have hmem := h.nodes.mem_iff.mpr (List.mem_range.mpr hid)
  obtain ⟨passed, _, way, _⟩ := Way.root.exists_of_mem_subtreeNodes h.subtree hmem
  exact ⟨passed, way⟩

/-- Every node is the root of a sound subtree that reaches no entry twice. -/
theorem exists_subtree (h : t.Layout) {id : Nat} (hid : id < t.nodes.size) :
    ∃ level, t.Subtree level id ∧ (t.subtreeEntries level id).Nodup := by
  have hmem := h.nodes.mem_iff.mpr (List.mem_range.mpr hid)
  obtain ⟨level, hsub, hentries⟩ := h.subtree.exists_of_mem_subtreeNodes hmem
  exact ⟨level, hsub, (h.entries.nodup_iff.mpr List.nodup_range).sublist hentries⟩

/-- The leaves reached hold each entry once. -/
theorem nodup_entries (h : t.Layout) :
    ((t.subtreeNodes (t.height.toNat - 1) t.root.toNat).flatMap t.entryPositions).Nodup := by
  rw [← h.subtree.subtreeEntries_eq, h.entries.nodup_iff]
  exact List.nodup_range

/-- One way leads to every entry. -/
theorem existsUnique_entryWay (h : t.Layout) {entry : Nat} (hentry : entry < t.entries.size) :
    ∃! passed, t.EntryWay passed entry := by
  have hmem := h.entries.mem_iff.mpr (List.mem_range.mpr hentry)
  rw [h.subtree.subtreeEntries_eq, List.mem_flatMap] at hmem
  obtain ⟨id, hid, hhold⟩ := hmem
  obtain ⟨passed, way⟩ := h.exists_way (List.mem_range.mp (h.nodes.mem_iff.mp hid))
  refine ⟨_, .hold way hhold, ?_⟩
  rintro _ ⟨way', hhold'⟩
  cases eq_of_nodup_flatMap h.nodup_entries hid (h.of_way way').1 hhold hhold'
  rw [h.way_unique way way']

/-- In a sound layout every node fits. -/
theorem fits (h : t.Layout) {id : Nat} {node : Node} (hnode : t.nodes[id]? = some node) :
    t.Fits node := by
  obtain ⟨_, hsub, _⟩ := h.exists_subtree (Array.getElem?_eq_some_iff.mp hnode).1
  obtain ⟨node', hnode', hfits⟩ := hsub.exists_fits
  cases hnode.symm.trans hnode'
  exact hfits

/-- Every node of a sound tree fits its children. -/
theorem fits_of_mem (h : t.Layout) {node : Node} (hnode : node ∈ t.nodes.toList) :
    t.Fits node := by
  obtain ⟨id, hid⟩ := List.mem_iff_getElem?.mp hnode
  rw [Array.getElem?_toList] at hid
  exact h.fits hid

/-- A sound layout is well formed. -/
theorem wellFormed (h : t.Layout) : t.WellFormed where
  root_lt := h.subtree.lt_size
  fanout := isFanout_iff.mp h.fanout
  height := ⟨h.height_pos, h.height_le⟩
  children := by
    intro id node hnode
    have hfits := h.fits hnode
    exact ⟨Nat.pos_of_ne_zero fun h => hfits.nonempty (UInt32.toNat_inj.mp h), hfits.bounded⟩
  inner := by
    intro id node hnode hinner
    have hid := (Array.getElem?_eq_some_iff.mp hnode).1
    obtain ⟨_, hsub, _⟩ := h.exists_subtree hid
    cases hsub with
    | leaf hnode' hleaf =>
      cases hnode.symm.trans hnode'
      rw [hinner] at hleaf
      cases hleaf
    | inner hnode' _ _ hrange =>
      cases hnode.symm.trans hnode'
      exact ⟨by omega, hrange⟩
  node_once := by
    intro id hid
    obtain ⟨passed, way⟩ := h.exists_way hid
    exact ⟨passed, way, fun passed' way' => h.way_unique way' way⟩
  entry_once := fun entry hentry => h.existsUnique_entryWay hentry
  entry_lt := by
    rintro _ entry ⟨way, hhold⟩
    refine List.mem_range.mp (h.entries.mem_iff.mp ?_)
    rw [h.subtree.subtreeEntries_eq, List.mem_flatMap]
    exact ⟨_, (h.of_way way).1, hhold⟩
  leaf_depth := by
    intro passed id node way hnode hleaf
    obtain ⟨_, level, hlevel, hsub⟩ := h.of_way way
    cases hsub with
    | leaf => omega
    | inner hnode' hinner =>
      cases hnode.symm.trans hnode'
      rw [hinner] at hleaf
      cases hleaf
  box := fun _ _ hnode => (h.fits hnode).box
  count := by
    intro id node hnode
    obtain ⟨_, hsub, hnodup⟩ := h.exists_subtree (Array.getElem?_eq_some_iff.mp hnode).1
    obtain ⟨node', hnode', hcount⟩ := hsub.count_eq
    cases hnode.symm.trans hnode'
    rw [hcount, hsub.ncard_holds hnodup]

end Layout

namespace WellFormed

variable {t : Tree}

/-- What is reached from the root is in the arena. -/
theorem lt_size (h : t.WellFormed) {passed : List Nat} {id : Nat} (way : t.Way passed id) :
    id < t.nodes.size := by
  cases way with
  | root => exact h.root_lt
  | down _ hchild =>
    obtain ⟨node, hnode, hinner, hposition⟩ := exists_of_mem_childPositions hchild
    have := (ChildRange.mem_positions.mp hposition).2
    have := (h.inner _ node hnode hinner).1
    omega

/-- A way leads to a node. -/
theorem exists_node (h : t.WellFormed) {passed : List Nat} {id : Nat} (way : t.Way passed id) :
    ∃ node, t.nodes[id]? = some node := by
  have := h.lt_size way
  exact ⟨t.nodes[id], Array.getElem?_eq_getElem this⟩

/-- An inner node has a first child, and that comes before it. -/
theorem first_child (h : t.WellFormed) {id : Nat} {node : Node} (hnode : t.nodes[id]? = some node)
    (hinner : node.isLeaf = false) :
    node.children.start.toNat ∈ t.childPositions id ∧ node.children.start.toNat < id := by
  have hlen := (h.children id node hnode).1
  have hrange := (h.inner id node hnode hinner).2
  rw [childPositions_inner hnode hinner, ChildRange.mem_positions]
  rw [ChildRange.stop] at hrange ⊢
  omega

/-- Below every node that is reached there is a leaf: children come before their parent, so going
down ends. -/
theorem exists_leaf (h : t.WellFormed) {passed : List Nat} {id : Nat} (way : t.Way passed id) :
    ∃ later leaf node, t.Way later leaf ∧ t.nodes[leaf]? = some node ∧ node.isLeaf = true ∧
      passed.length ≤ later.length := by
  induction id using Nat.strongRecOn generalizing passed with
  | ind id ih =>
    obtain ⟨node, hnode⟩ := h.exists_node way
    cases hleaf : node.isLeaf with
    | true => exact ⟨passed, id, node, way, hnode, hleaf, Nat.le_refl _⟩
    | false =>
      obtain ⟨hchild, hlt⟩ := h.first_child hnode hleaf
      obtain ⟨later, leaf, node', way', hnode', hleaf', hlength⟩ := ih _ hlt (way.down hchild)
      exact ⟨later, leaf, node', way', hnode', hleaf', Nat.le_of_succ_le hlength⟩

/-- On the lowest level every node is a leaf, because a leaf below it would lie too deep. -/
theorem isLeaf_of_lowest (h : t.WellFormed) {passed : List Nat} {id : Nat} {node : Node}
    (way : t.Way passed id) (hnode : t.nodes[id]? = some node)
    (hdepth : passed.length = t.height.toNat - 1) : node.isLeaf = true := by
  by_contra hinner
  obtain ⟨hchild, _⟩ := h.first_child hnode (by simpa using hinner)
  obtain ⟨later, leaf, node', way', hnode', hleaf', hlength⟩ := h.exists_leaf (way.down hchild)
  have := h.leaf_depth later leaf node' way' hnode' hleaf'
  rw [List.length_cons] at hlength
  omega

/-- Every node has an allowed number of children and their box. -/
theorem fits (h : t.WellFormed) {id : Nat} {node : Node} (hnode : t.nodes[id]? = some node) :
    t.Fits node := by
  obtain ⟨hlen, hbounded⟩ := h.children id node hnode
  refine ⟨fun hzero => ?_, hbounded, h.box id node hnode⟩
  rw [hzero] at hlen
  cases hlen

/-- Different children of a node that is reached share no node below them. -/
theorem disjoint_nodes (h : t.WellFormed) {passed : List Nat} {id below c c' : Nat}
    (way : t.Way passed id) (hc : c ∈ t.childPositions id) (hc' : c' ∈ t.childPositions id)
    (hsub : t.Subtree below c) (hsub' : t.Subtree below c') {x : Nat}
    (hx : x ∈ t.subtreeNodes below c) (hx' : x ∈ t.subtreeNodes below c') : c = c' := by
  obtain ⟨later, before, hway, heq⟩ := (way.down hc).exists_of_mem_subtreeNodes hsub hx
  obtain ⟨later', before', hway', heq'⟩ := (way.down hc').exists_of_mem_subtreeNodes hsub' hx'
  cases (h.node_once x (h.lt_size hway)).unique hway hway'
  have happend : (before ++ [c]) ++ id :: passed = (before' ++ [c']) ++ id :: passed := by
    simpa using heq.symm.trans heq'
  have hlast := List.append_cancel_right happend
  simpa using congrArg List.getLast? hlast

/-- Different children of a node that is reached share no entry below them. -/
theorem disjoint_entries (h : t.WellFormed) {passed : List Nat} {id below c c' : Nat}
    (way : t.Way passed id) (hc : c ∈ t.childPositions id) (hc' : c' ∈ t.childPositions id)
    (hsub : t.Subtree below c) (hsub' : t.Subtree below c') {e : Nat}
    (he : e ∈ t.subtreeEntries below c) (he' : e ∈ t.subtreeEntries below c') : c = c' := by
  rw [hsub.subtreeEntries_eq, List.mem_flatMap] at he
  rw [hsub'.subtreeEntries_eq, List.mem_flatMap] at he'
  obtain ⟨x, hx, hhold⟩ := he
  obtain ⟨x', hx', hhold'⟩ := he'
  obtain ⟨later, _, hway, _⟩ := (way.down hc).exists_of_mem_subtreeNodes hsub hx
  obtain ⟨later', _, hway', _⟩ := (way.down hc').exists_of_mem_subtreeNodes hsub' hx'
  have hentry := EntryWay.hold hway hhold
  have heq := (h.entry_once e (h.entry_lt _ _ hentry)).unique hentry (.hold hway' hhold')
  cases (List.cons.inj heq).1
  exact h.disjoint_nodes way hc hc' hsub hsub' hx hx'

/-- A leaf that is reached is a sound subtree. -/
theorem subtree_leaf (h : t.WellFormed) {passed : List Nat} {id : Nat} {node : Node}
    (way : t.Way passed id) (hnode : t.nodes[id]? = some node) (hleaf : node.isLeaf = true) :
    t.Subtree 0 id := by
  have hlen := (h.children id node hnode).1
  have hlast : node.children.stop - 1 ∈ t.entryPositions id := by
    rw [entryPositions_leaf hnode hleaf, ChildRange.mem_positions, ChildRange.stop]
    omega
  have hrange := h.entry_lt _ _ (.hold way hlast)
  have hholds : {entry | t.Holds id entry} = ↑(t.entryPositions id).toFinset := by
    ext entry
    refine ⟨fun hentry => ?_, fun hentry => .own (by simpa using hentry)⟩
    cases hentry with
    | own hentry => simpa using hentry
    | lower hchild =>
      rw [childPositions_leaf hnode hleaf] at hchild
      cases hchild
  refine .leaf hnode hleaf (h.fits hnode) (by omega) ?_
  rw [h.count id node hnode, hholds, Set.ncard_coe_finset,
    List.toFinset_card_of_nodup (t.nodup_entryPositions id), entryPositions_leaf hnode hleaf,
    ChildRange.length_positions]

/-- Lists of distinct members for distinct indices that share none give a list of distinct
members. -/
theorem nodup_flatMap_of_unique {f : Nat → List Nat} {ids : List Nat} (hids : ids.Nodup)
    (hf : ∀ a ∈ ids, (f a).Nodup)
    (hunique : ∀ a ∈ ids, ∀ b ∈ ids, ∀ x, x ∈ f a → x ∈ f b → a = b) :
    (ids.flatMap f).Nodup := by
  refine List.nodup_flatMap.mpr ⟨hf, hids.imp_of_mem fun {a b} ha hb hne x hxa hxb => ?_⟩
  exact hne (hunique a ha b hb x hxa hxb)

/-- An inner node over sound subtrees counts the entries that these reach. -/
theorem count_inner (h : t.WellFormed) {below id : Nat} {node : Node}
    (hnode : t.nodes[id]? = some node) (hinner : node.isLeaf = false)
    (hsubs : ∀ child ∈ t.childPositions id, t.Subtree below child)
    (hnodup : ((t.childPositions id).flatMap (t.subtreeEntries below)).Nodup) :
    node.count.toNat = Node.entryTotal (t.childNodes node) := by
  have hholds : {entry | t.Holds id entry} =
      ↑((t.childPositions id).flatMap (t.subtreeEntries below)).toFinset := by
    ext entry
    rw [List.coe_toFinset, Set.mem_ofPred_eq, Set.mem_ofPred_eq, List.mem_flatMap]
    constructor
    · intro hentry
      cases hentry with
      | own hentry =>
        rw [entryPositions_inner hnode hinner] at hentry
        cases hentry
      | lower hchild hentry => exact ⟨_, hchild, (hsubs _ hchild).holds_iff.mp hentry⟩
    · rintro ⟨child, hchild, hentry⟩
      exact .lower hchild ((hsubs child hchild).holds_iff.mpr hentry)
  rw [h.count id node hnode, hholds, Set.ncard_coe_finset, List.toFinset_card_of_nodup hnodup,
    childNodes_eq hinner, ← childPositions_inner hnode hinner]
  exact (Subtree.sum_counts_eq _ _ _ fun child hchild => (hsubs child hchild).count_eq).symm

/-- Whatever is reached is a sound subtree that reaches nothing twice. -/
theorem subtree (h : t.WellFormed) {below : Nat} {passed : List Nat} {id : Nat}
    (way : t.Way passed id) (hdepth : passed.length + below = t.height.toNat - 1) :
    t.Subtree below id ∧ (t.subtreeNodes below id).Nodup ∧ (t.subtreeEntries below id).Nodup := by
  induction below generalizing passed id with
  | zero =>
    obtain ⟨node, hnode⟩ := h.exists_node way
    have hleaf := h.isLeaf_of_lowest way hnode (by omega)
    exact ⟨h.subtree_leaf way hnode hleaf, List.nodup_singleton _, t.nodup_entryPositions id⟩
  | succ below ih =>
    obtain ⟨node, hnode⟩ := h.exists_node way
    have hinner : node.isLeaf = false := by
      by_contra hleaf
      have := h.leaf_depth passed id node way hnode (by simpa using hleaf)
      omega
    have hbelow : ∀ child ∈ t.childPositions id, t.Subtree below child ∧
        (t.subtreeNodes below child).Nodup ∧ (t.subtreeEntries below child).Nodup :=
      fun child hchild => ih (way.down hchild) (by rw [List.length_cons]; omega)
    have hnodes : ((t.childPositions id).flatMap (t.subtreeNodes below)).Nodup :=
      nodup_flatMap_of_unique (t.nodup_childPositions id) (fun c hc => (hbelow c hc).2.1)
        fun c hc c' hc' _ => h.disjoint_nodes way hc hc' (hbelow c hc).1 (hbelow c' hc').1
    have hentries : ((t.childPositions id).flatMap (t.subtreeEntries below)).Nodup :=
      nodup_flatMap_of_unique (t.nodup_childPositions id) (fun c hc => (hbelow c hc).2.2)
        fun c hc c' hc' _ => h.disjoint_entries way hc hc' (hbelow c hc).1 (hbelow c' hc').1
    have hrange := (h.inner id node hnode hinner).2
    refine ⟨.inner hnode hinner (h.fits hnode) hrange ?_ ?_, ?_, hentries⟩
    · rw [← childPositions_inner hnode hinner]
      exact fun child hchild => (hbelow child hchild).1
    · exact h.count_inner hnode hinner (fun child hchild => (hbelow child hchild).1) hentries
    · rw [subtreeNodes, List.nodup_cons, List.mem_flatMap]
      refine ⟨?_, hnodes⟩
      rintro ⟨child, hchild, hid⟩
      have hle := (hbelow child hchild).1.le_of_mem_subtreeNodes hid
      rw [childPositions_inner hnode hinner, ChildRange.mem_positions] at hchild
      omega

/-- Ways stay in what is reached from the root. -/
theorem mem_subtreeNodes (h : t.WellFormed) {passed : List Nat} {id : Nat}
    (way : t.Way passed id) : id ∈ t.subtreeNodes (t.height.toNat - 1) t.root.toNat := by
  have hroot := (h.subtree Way.root (Nat.zero_add _)).1
  induction way with
  | root => exact Subtree.mem_subtreeNodes_self _ _ _
  | down way hchild ih =>
    rw [hroot.subtreeNodes_perm.mem_iff]
    exact List.mem_cons_of_mem _ (List.mem_flatMap.mpr ⟨_, ih, hchild⟩)

/-- A well-formed tree has a sound layout. -/
theorem layout (h : t.WellFormed) : t.Layout := by
  obtain ⟨hsub, hnodes, hentries⟩ := h.subtree Way.root (Nat.zero_add _)
  refine ⟨isFanout_iff.mpr h.fanout, h.height.1, h.height.2, hsub, ?_, ?_⟩
  · rw [List.perm_ext_iff_of_nodup hnodes List.nodup_range]
    intro id
    rw [List.mem_range]
    constructor
    · intro hid
      obtain ⟨_, hsub', _⟩ := hsub.exists_of_mem_subtreeNodes hid
      exact hsub'.lt_size
    · intro hid
      obtain ⟨passed, way, _⟩ := h.node_once id hid
      exact h.mem_subtreeNodes way
  · rw [List.perm_ext_iff_of_nodup hentries List.nodup_range]
    intro entry
    rw [List.mem_range]
    constructor
    · exact fun hentry => hsub.lt_size_of_mem_subtreeEntries hentry
    · intro hentry
      obtain ⟨_, ⟨way, hhold⟩, _⟩ := h.entry_once entry hentry
      rw [hsub.subtreeEntries_eq, List.mem_flatMap]
      exact ⟨_, h.mem_subtreeNodes way, hhold⟩

end WellFormed

/-- A check of a tree with entries accepts exactly the well-formed trees, and their root is the
last node of the arena. -/
theorem validate_eq_ok_iff_wellFormed {t : Tree} (hsize : 0 < t.size) :
    (t.validate = .ok () ↔ t.WellFormed) ∧
      (t.validate = .ok () → t.root.toNat + 1 = t.nodes.size) := by
  rw [validate_eq_ok_iff_layout hsize]
  exact ⟨⟨Layout.wellFormed, WellFormed.layout⟩, Layout.root_last⟩

/-- Three points under two leaves and a root. -/
def threePoints : Tree :=
  let point (n : Int) : Box := .ofPoint (.ofInt n) (.ofInt n)
  let around (low high : Int) : Box := ⟨.ofInt low, .ofInt low, .ofInt high, .ofInt high⟩
  { nodes := #[⟨around 0 1, ⟨0, 2⟩, true, 2⟩, ⟨point 2, ⟨2, 1⟩, true, 1⟩,
      ⟨around 0 2, ⟨0, 2⟩, false, 3⟩]
    entries := #[⟨point 0, 0⟩, ⟨point 1, 1⟩, ⟨point 2, 2⟩]
    root := 2
    height := 2
    fanout := 2 }

/-- The tree of three points is well formed, and its root stands last in the arena. -/
theorem threePoints_wellFormed : 0 < threePoints.size ∧ threePoints.WellFormed ∧
    threePoints.root.toNat + 1 = threePoints.nodes.size := by
  have hsize : 0 < threePoints.size := by decide +kernel
  have hok : threePoints.validate = .ok () := by rfl
  exact ⟨hsize, (validate_eq_ok_iff_wellFormed hsize).1.mp hok,
    (validate_eq_ok_iff_wellFormed hsize).2 hok⟩

end Tree

end SpatialIndex
