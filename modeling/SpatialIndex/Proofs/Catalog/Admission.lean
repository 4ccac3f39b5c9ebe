import SpatialIndex.Proofs.Catalog.Operations
import SpatialIndex.Proofs.Tree.Acceptance
import SpatialIndex.Proofs.Tree.Image
import SpatialIndex.Proofs.Tree.WellFormed

/-!
# Trees that are let in

A tree comes in from an image or as one to attach, and either way passes the check first.  If it
has entries, its fanout, its root and its height then agree with them as in a packed tree.  The
check asks less than packing in two places: it looks at none of these when there are no entries,
and it never looks at the box of an entry by itself, so a box with NaN hides its entry.
-/

namespace SpatialIndex

namespace Tree

variable {t : Tree}

/-- The ways by which a tree that was not packed here comes in. -/
inductive Admitted (t : Tree) : Prop
  /-- It is read from bytes. -/
  | loaded (bytes : List UInt8) (h : ofImage bytes = .ok t)
  /-- An index is made over it. -/
  | attached (c : Catalog) (d : IndexDefinition) (index : Index)
    (h : ((Catalog.attachIndex d t).run.run c).1 = .ok index)

/-- The fanout, the root and the height of a tree agree with its entries and leaves. -/
structure Summarized (t : Tree) : Prop where
  /-- The fanout is one that trees are packed with. -/
  fanout : 2 ≤ t.fanout.toNat ∧ t.fanout.toNat ≤ 1024
  /-- The root has the union of the boxes of all entries, and counts them all. -/
  root : ∃ node, t.rootNode? = some node ∧
    (Box.unionAll (t.entries.toList.map (·.box))).equiv node.box = true ∧
    node.count.toNat = t.size
  /-- Every leaf is on the lowest of as many levels as the height says. -/
  leaf_depth : ∀ (passed : List Nat) (id : Nat) (node : Node), t.Way passed id →
    t.nodes[id]? = some node → node.isLeaf = true → passed.length + 1 = t.height.toNat

/-- All that can be relied on in a packed tree. -/
structure Guaranteed (t : Tree) : Prop extends Summarized t where
  /-- Every box is finite and the right way round. -/
  boxes : ∀ e ∈ t.entries.toList, e.box.isValid = true

/-- The fanout, the root and the height are those of one level with nothing in it. -/
structure IsBare (t : Tree) : Prop where
  /-- The fanout is one that trees are packed with. -/
  fanout : 2 ≤ t.fanout.toNat ∧ t.fanout.toNat ≤ 1024
  /-- There is one level. -/
  height : t.height.toNat = 1
  /-- The root covers nothing and counts nothing. -/
  root : ∃ node, t.rootNode? = some node ∧ Box.empty.equiv node.box = true ∧ node.count.toNat = 0

/-- Whatever comes in passes the check. -/
theorem Admitted.validate (h : t.Admitted) : t.validate = .ok () := by
  cases h with
  | loaded bytes h => exact (ofImage_eq_ok_iff.mp h).1
  | attached c d index h =>
    rw [Catalog.attachIndex_run] at h
    split at h
    · cases h
    · split at h
      · cases h
      · assumption

/-- The box of the root is the union of the boxes of all entries: each covers the other one, since
both are the least around these boxes. -/
theorem Layout.equiv_root (h : t.Layout) {node : Node} (hnode : t.rootNode? = some node) :
    (Box.unionAll (t.entries.toList.map (·.box))).equiv node.box = true := by
  have hcovers (c : Box) : c.Covers node.box ↔
      c.Covers (Box.unionAll (t.entries.toList.map (·.box))) := by
    rw [h.subtree.covers_iff hnode, Box.covers_unionAll_iff, List.forall_mem_map]
    exact forall_congr' fun e => imp_congr_left h.perm_entries.mem_iff
  have hunion := Box.isNumeric_unionAll (t.entries.toList.map (·.box))
  have hroot := h.subtree.isNumeric hnode
  apply Box.equiv_of_covers hunion hroot
  · exact (hcovers _).mpr (Box.covers_refl hunion)
  · exact (hcovers _).mp (Box.covers_refl hroot)

/-- In a sound tree with entries the fanout, the root and the height agree with the entries and
leaves. -/
theorem Layout.summarized (h : t.Layout) : t.Summarized := by
  obtain ⟨node, hnode, hcount⟩ := h.subtree.count_eq
  refine ⟨isFanout_iff.mp h.fanout, ⟨node, hnode, h.equiv_root hnode, ?_⟩, ?_⟩
  · rw [hcount, h.entries.length_eq, List.length_range]
    rfl
  · intro passed id leaf way hleaf hisLeaf
    have hdepth := h.wellFormed.leaf_depth passed id leaf way hleaf hisLeaf
    have hpos := h.height_pos
    omega

/-- In a tree of a single leaf no way leads beyond the root. -/
theorem Way.eq_nil {root : Node} (hroot : t.rootNode? = some root) (hleaf : root.isLeaf = true)
    (hsize : t.nodes.size = 1) {passed : List Nat} {id : Nat} (way : t.Way passed id) :
    passed = [] := by
  cases way with
  | root => rfl
  | @down before parent _ way hchild =>
    obtain ⟨node, hnode, hinner, _⟩ := exists_of_mem_childPositions hchild
    have hparent := (Array.getElem?_eq_some_iff.mp hnode).1
    have hfirst := (Array.getElem?_eq_some_iff.mp hroot).1
    rw [show parent = t.root.toNat by omega] at hnode
    cases hroot.symm.trans hnode
    rw [hleaf] at hinner
    cases hinner

/-- The check leaves open whether a tree without entries is a bare leaf. -/
theorem summarized_iff_isBare (hok : t.validate = .ok ()) (hsize : t.size = 0) :
    t.Summarized ↔ t.IsBare := by
  obtain ⟨root, hroot, hleaf, _, hnodes⟩ := (validate_eq_ok_iff_of_isEmpty hsize).mp hok
  have hentries : t.entries.toList = [] := by
    rw [← List.length_eq_zero_iff, Array.length_toList]
    exact hsize
  constructor
  · rintro ⟨hfanout, ⟨node, hnode, hbox, hcount⟩, hdepth⟩
    rw [hentries] at hbox
    have hlevel := hdepth [] t.root.toNat root .root hroot hleaf
    exact ⟨hfanout, hlevel.symm, node, hnode, hbox, hcount.trans hsize⟩
  · rintro ⟨hfanout, hheight, node, hnode, hbox, hcount⟩
    refine ⟨hfanout, ⟨node, hnode, ?_, hcount.trans hsize.symm⟩, ?_⟩
    · rw [hentries]
      exact hbox
    · intro passed id leaf way _ _
      rw [way.eq_nil hroot hleaf hnodes, hheight]
      rfl

/-- Of a tree that is let in the fanout, the root and the height may disagree with its entries and
leaves only when there are none. -/
theorem Admitted.summarized_iff (h : t.Admitted) : t.Summarized ↔ (t.size = 0 → t.IsBare) := by
  rcases Nat.eq_zero_or_pos t.size with hsize | hsize
  · rw [summarized_iff_isBare h.validate hsize]
    exact ⟨fun h _ => h, fun h => h hsize⟩
  · have hlayout := (validate_eq_ok_iff_layout hsize).mp h.validate
    exact iff_of_true hlayout.summarized fun hzero => absurd hzero (Nat.ne_of_gt hsize)

/-- A packed tree gives every guarantee, be there entries or not. -/
theorem guaranteed_of_packSorted {p : Packing} {entries : List Entry}
    (h : p.packSorted entries = .ok t) : t.Guaranteed := by
  have hok := Packing.validate_of_packSorted h
  obtain ⟨hfanout, hsize, hvalid, rfl⟩ := Packing.packSorted_eq_ok_iff.mp h
  by_cases hentries : entries = []
  · rw [if_pos hentries] at hok ⊢
    obtain ⟨htwo, hmax⟩ := isFanout_iff.mp hfanout
    have hfan : (UInt64.ofNat p.fanout).toNat = p.fanout :=
      UInt64.toNat_ofNat_of_lt (Nat.lt_of_le_of_lt hmax (by decide))
    have hbare : (empty (.ofNat p.fanout)).IsBare :=
      ⟨by rw [empty, hfan]; exact ⟨htwo, hmax⟩, rfl, _, rfl,
        Box.equiv_refl Box.isNumeric_empty, rfl⟩
    refine ⟨(summarized_iff_isBare hok rfl).mpr hbare, fun e he => ?_⟩
    cases he
  · rw [if_neg hentries]
    exact ⟨(Packing.packed_layout hfanout hsize hentries).1.summarized, hvalid⟩

/-- The fanout, the root and the height of a tree that is let in agree with its entries and leaves,
except that nothing makes sure of it when there are no entries.  For every guarantee of a packed
tree only valid boxes are missing then, which nothing makes sure of either. -/
theorem guaranteed_iff_of_admitted (t : Tree) :
    (t.Admitted → (t.Summarized ↔ (t.size = 0 → t.IsBare)) ∧
      (t.Guaranteed ↔ (t.size = 0 → t.IsBare) ∧
        ∀ e ∈ t.entries.toList, e.box.isValid = true)) ∧
    ∀ (p : Packing) (entries : List Entry),
      p.pack entries = .ok t ∨ p.packSorted entries = .ok t → t.Guaranteed := by
  refine ⟨fun h => ?_, ?_⟩
  · have hsummarized := h.summarized_iff
    refine ⟨hsummarized, fun hall => ⟨hsummarized.mp hall.toSummarized, hall.boxes⟩, ?_⟩
    rintro ⟨hbare, hboxes⟩
    exact ⟨hsummarized.mpr hbare, hboxes⟩
  · rintro p entries (h | h)
    · exact guaranteed_of_packSorted h
    · exact guaranteed_of_packSorted h

/-- The tree of three points is read from its image, and all can be relied on in it. -/
theorem guaranteed_threePoints :
    ofImage threePoints.toImage = .ok threePoints ∧ threePoints.Guaranteed := by
  have hok : threePoints.validate = .ok () := by rfl
  have hread := ofImage_eq_ok_iff.mpr ⟨hok, List.prefix_refl threePoints.toImage⟩
  refine ⟨hread, (((guaranteed_iff_of_admitted threePoints).1 (.loaded _ hread)).2).mpr ⟨?_, ?_⟩⟩
  · intro hsize
    cases hsize
  · decide +kernel

/-- An empty leaf in a tree that seems to have seven levels, nine entries and an area. -/
def emptyTower : Tree where
  nodes := #[⟨⟨.ofInt 0, .ofInt 0, .ofInt 1, .ofInt 1⟩, ⟨0, 0⟩, true, 9⟩]
  entries := #[]
  root := 0
  height := 7
  fanout := 0

/-- A leaf of two entries, one of them with a box of NaN. -/
def hiddenEntry : Tree where
  nodes := #[⟨⟨.ofInt 0, .ofInt 0, .ofInt 1, .ofInt 1⟩, ⟨0, 2⟩, true, 2⟩]
  entries := #[⟨⟨.ofInt 0, .ofInt 0, .ofInt 1, .ofInt 1⟩, 1⟩,
    ⟨⟨.nan false, .nan false, .nan false, .nan false⟩, 2⟩]
  root := 0
  height := 1
  fanout := 16

/-- Both trees are read from their images.  No part of the first agrees with its lack of entries;
the second has an entry that meets a query and is not found by it. -/
theorem admitted_without_guarantee :
    (emptyTower.Admitted ∧ ¬(2 ≤ emptyTower.fanout.toNat) ∧ ¬emptyTower.Summarized) ∧
      hiddenEntry.Admitted ∧ ¬hiddenEntry.Guaranteed ∧
        ∃ query : Box, query.isValid = true ∧
          (∃ e ∈ hiddenEntry.entries.toList, e.box.intersects query = true) ∧
          hiddenEntry.search query = [] := by
  have hadmitted {t : Tree} (hok : t.validate = .ok ()) : t.Admitted :=
    .loaded t.toImage (ofImage_eq_ok_iff.mpr ⟨hok, List.prefix_refl _⟩)
  refine ⟨⟨hadmitted rfl, by decide, fun h => ?_⟩, hadmitted rfl, fun h => ?_, ?_⟩
  · exact absurd h.fanout.1 (by decide)
  · exact absurd (h.boxes _ (List.mem_cons_of_mem _ List.mem_cons_self)) (by decide +kernel)
  · refine ⟨.ofPoint (.ofInt 5) (.ofInt 5), by decide +kernel, ?_, by decide +kernel⟩
    exact ⟨_, List.mem_cons_of_mem _ List.mem_cons_self, by decide +kernel⟩

end Tree

end SpatialIndex
