import SpatialIndex.Proofs.Outcome
import SpatialIndex.Proofs.Tree.Subtree

/-!
# The walk of a check

A check walks from the root and marks what it reaches.  It goes through exactly when what it
reaches is a sound subtree, was not marked before and is not reached twice; the marks afterwards
are then those before with everything reached.  For the whole tree this says that a check accepts
exactly the trees with a sound `Layout`.
-/

namespace SpatialIndex

namespace Tree

/-- Marks with some positions added. -/
def markAll (marks : Array Bool) (positions : List Nat) : Array Bool :=
  positions.foldl (fun marks p => marks.setIfInBounds p true) marks

/-- Positions that are distinct and not marked yet. -/
def Fresh (marks : Array Bool) (positions : List Nat) : Prop :=
  positions.Nodup ∧ ∀ p ∈ positions, marks[p]?.getD false = false

/-- Marking nothing leaves the marks as they are. -/
@[simp] theorem markAll_nil (marks : Array Bool) : markAll marks [] = marks := rfl

/-- Positions are marked one after the other. -/
theorem markAll_cons (marks : Array Bool) (p : Nat) (ps : List Nat) :
    markAll marks (p :: ps) = markAll (marks.setIfInBounds p true) ps := rfl

/-- Marking two lists is marking the one after the other. -/
theorem markAll_append (marks : Array Bool) (ps qs : List Nat) :
    markAll marks (ps ++ qs) = markAll (markAll marks ps) qs := by
  simp [markAll]

/-- Setting marks leaves as many of them as before. -/
@[simp] theorem size_markAll (marks : Array Bool) (ps : List Nat) :
    (markAll marks ps).size = marks.size := by
  induction ps generalizing marks with
  | nil => rfl
  | cons p ps ih => rw [markAll_cons, ih, Array.size_setIfInBounds]

/-- A position is marked afterwards if it was before or if it is one of those added. -/
theorem getD_markAll (marks : Array Bool) (ps : List Nat) (hps : ∀ p ∈ ps, p < marks.size)
    (q : Nat) : (markAll marks ps)[q]?.getD false = true ↔
      marks[q]?.getD false = true ∨ q ∈ ps := by
  induction ps generalizing marks with
  | nil => simp
  | cons p ps ih =>
    have hp : p < marks.size := hps p List.mem_cons_self
    rw [markAll_cons, ih _ fun p' hp' => by
      simpa using hps p' (List.mem_cons_of_mem _ hp'), List.mem_cons]
    by_cases hq : q = p
    · subst q
      simp [hp]
    · simp [Ne.symm hq, hq]

/-- The empty list is fresh whatever has been marked. -/
theorem fresh_nil (marks : Array Bool) : Fresh marks [] := ⟨List.nodup_nil, by simp⟩

/-- Positions are fresh together when the first ones are, and the rest are after those. -/
theorem fresh_append {marks : Array Bool} {ps qs : List Nat} (hps : ∀ p ∈ ps, p < marks.size) :
    Fresh marks (ps ++ qs) ↔ Fresh marks ps ∧ Fresh (markAll marks ps) qs := by
  simp only [Fresh, List.nodup_append, List.mem_append, ← Bool.not_eq_true, getD_markAll _ _ hps]
  constructor
  · rintro ⟨⟨hps, hqs, hdisjoint⟩, hfresh⟩
    exact ⟨⟨hps, fun p hp => hfresh p (Or.inl hp)⟩, hqs, fun q hq h =>
      h.elim (hfresh q (Or.inr hq)) fun hq' => hdisjoint q hq' q hq rfl⟩
  · rintro ⟨⟨hps, hfresh⟩, hqs, hrest⟩
    refine ⟨⟨hps, hqs, ?_⟩, ?_⟩
    · rintro p hp q hq rfl
      exact hrest p hq (Or.inr hp)
    · rintro p (hp | hp)
      · exact hfresh p hp
      · exact fun h => hrest p hp (Or.inl h)

/-- Positions are fresh when the first is and the others are after it has been marked. -/
theorem fresh_cons {marks : Array Bool} {p : Nat} (ps : List Nat) (hp : p < marks.size) :
    Fresh marks (p :: ps) ↔ Fresh marks [p] ∧ Fresh (markAll marks [p]) ps := by
  rw [← List.singleton_append]
  exact fresh_append (by simpa using hp)

/-- Marking entries one by one goes through exactly for fresh ones. -/
theorem markEntries_eq_ok_iff {id : Nat} {ps : List Nat} {marks marks' : Array Bool}
    (hps : ∀ p ∈ ps, p < marks.size) :
    markEntries id ps marks = .ok marks' ↔ Fresh marks ps ∧ marks' = markAll marks ps := by
  induction ps generalizing marks with
  | nil => simp [markEntries, fresh_nil, eq_comm]
  | cons p ps ih =>
    have hrest : ∀ q ∈ ps, q < (marks.setIfInBounds p true).size := fun q hq => by
      simpa using hps q (List.mem_cons_of_mem _ hq)
    rw [fresh_cons ps (hps p List.mem_cons_self), markAll_cons]
    cases hmark : marks[p]?.getD false with
    | true => simp [markEntries, hmark, Fresh]
    | false =>
      have hfirst : Fresh marks [p] := ⟨by simp, by simpa using hmark⟩
      simp only [markEntries, hmark, Bool.false_eq_true, if_false, ih hrest,
        hfirst, true_and]
      rfl

/-- A summary passes when the box and the count are those of the children. -/
theorem checkSummary_eq_ok_iff {id : Nat} {node : Node} {union : Box} {total : Nat} {u : Unit} :
    checkSummary id node union total = .ok u ↔
      union.equiv node.box = true ∧ node.count.toNat = total := by
  unfold checkSummary
  split
  · simp_all
  · split
    · simp_all
    · simp_all

/-- Marks after reaching some nodes and entries. -/
def Marks.reach (marks : Marks) (nodes entries : List Nat) : Marks :=
  ⟨markAll marks.nodes nodes, markAll marks.entries entries⟩

/-- Reaching two lists is reaching the one after the other. -/
theorem Marks.reach_append (marks : Marks) (ns ns' es es' : List Nat) :
    marks.reach (ns ++ ns') (es ++ es') = (marks.reach ns es).reach ns' es' := by
  simp [Marks.reach, markAll_append]

/-- A node is reached before those after it. -/
theorem Marks.reach_cons (marks : Marks) (id : Nat) (ns es : List Nat) :
    marks.reach (id :: ns) es = (marks.reach [id] []).reach ns es := rfl

/-- One mark for each node and each entry of a tree. -/
structure Marks.Of (t : Tree) (marks : Marks) : Prop where
  /-- One for each node. -/
  nodes : marks.nodes.size = t.nodes.size
  /-- One for each entry. -/
  entries : marks.entries.size = t.entries.size

/-- Reaching nodes and entries keeps one mark for each of a tree. -/
theorem Marks.Of.reach {t : Tree} {marks : Marks} (h : marks.Of t) (ns es : List Nat) :
    (marks.reach ns es).Of t := ⟨by simp [Marks.reach, h.nodes], by simp [Marks.reach, h.entries]⟩

/-- The check of a leaf. -/
theorem checkLeaf_eq_ok_iff {t : Tree} {id : Nat} {node : Node} {marks marks' : Marks}
    (hmarks : marks.Of t) (hleaf : node.isLeaf = true) :
    checkLeaf t id node marks = .ok marks' ↔
      node.children.stop ≤ t.entries.size ∧ Fresh marks.entries node.children.positions ∧
        (Box.unionAll (t.childBoxes node)).equiv node.box = true ∧
        node.count.toNat = node.children.len.toNat ∧
        marks' = marks.reach [] node.children.positions := by
  unfold checkLeaf
  by_cases hrange : node.children.stop ≤ t.entries.size
  · have hpositions : ∀ p ∈ node.children.positions, p < marks.entries.size := fun p hp => by
      have := (ChildRange.mem_positions.mp hp).2
      have := hmarks.entries
      omega
    simp only [if_neg (Nat.not_lt.mpr hrange), bind_eq_ok, markEntries_eq_ok_iff hpositions,
      checkSummary_eq_ok_iff, length_leafEntries hleaf hrange, ← childBoxes_leaf hleaf]
    constructor
    · rintro ⟨_, ⟨hfresh, rfl⟩, _, ⟨hbox, hcount⟩, hmarks'⟩
      cases hmarks'
      exact ⟨hrange, hfresh, hbox, hcount, rfl⟩
    · rintro ⟨_, hfresh, hbox, hcount, rfl⟩
      exact ⟨_, ⟨hfresh, rfl⟩, (), ⟨hbox, hcount⟩, rfl⟩
  · simp [if_pos (Nat.not_le.mp hrange), hrange]

/-- What is asked of a node before its children are looked at. -/
theorem checkNode_eq_ok_iff_of_node {t : Tree} {below id : Nat} {node : Node}
    {marks marks' : Marks} (hnode : t.nodes[id]? = some node) :
    checkNode t below id marks = .ok marks' ↔
      Fresh marks.nodes [id] ∧ node.children.len ≠ 0 ∧
        node.children.len.toNat ≤ t.fanout.toNat ∧
        (node.isLeaf = true ∧ below = 0 ∧
            checkLeaf t id node (marks.reach [id] []) = .ok marks' ∨
          node.isLeaf = false ∧ ∃ below', below = below' + 1 ∧ node.children.stop ≤ id ∧
            node.children.positions.foldlM
              (fun marks child => checkNode t below' child marks) (marks.reach [id] []) =
                .ok marks' ∧
            (Box.unionAll (t.childBoxes node)).equiv node.box = true ∧
            node.count.toNat = Node.entryTotal (t.childNodes node)) := by
  have hreach : marks.reach [id] [] =
      { marks with nodes := marks.nodes.setIfInBounds id true } := rfl
  rw [checkNode, hreach]
  simp only [hnode]
  cases hmark : marks.nodes[id]?.getD false with
  | true =>
    have hstale : ¬ Fresh marks.nodes [id] := fun h => by simpa [hmark] using h.2 id
    simp [hstale]
  | false =>
    have hfresh : Fresh marks.nodes [id] := ⟨by simp, by simpa using hmark⟩
    by_cases hempty : node.children.len = 0
    · simp [hempty]
    by_cases hmany : t.fanout.toNat < node.children.len.toNat
    · simp [hempty, hmany, Nat.not_le.mpr hmany]
    cases hleaf : node.isLeaf with
    | true =>
      by_cases hbelow : below = 0
      · simp [hempty, hmany, hfresh, hbelow, Nat.not_lt.mp hmany]
      · simp [hempty, hmany, hbelow]
    | false =>
      cases below with
      | zero => simp [hempty, hmany]
      | succ below =>
        by_cases hrange : id < node.children.stop
        · simp [hempty, hmany, hrange, Nat.not_le.mpr hrange]
        · simp only [hempty, hmany, hrange, if_false, Bool.false_eq_true, bind_eq_ok,
            checkSummary_eq_ok_iff, childBoxes_inner hleaf]
          constructor
          · rintro ⟨_, hfold, _, ⟨hbox, hcount⟩, hmarks'⟩
            cases hmarks'
            exact ⟨hfresh, hempty, by omega,
              Or.inr ⟨trivial, below, rfl, by omega, hfold, hbox, hcount⟩⟩
          · rintro ⟨_, _, _, ⟨hfalse, _⟩ | ⟨_, below', hbelow, _, hfold, hbox, hcount⟩⟩
            · cases hfalse
            · cases hbelow
              exact ⟨_, hfold, (), ⟨hbox, hcount⟩, rfl⟩

/-- What a successful check of a node means: the subtree is sound, what it reaches is fresh, and
the marks afterwards are those before with all of it. -/
def CheckSpec (t : Tree) (below id : Nat) (marks marks' : Marks) : Prop :=
  t.Subtree below id ∧ Fresh marks.nodes (t.subtreeNodes below id) ∧
    Fresh marks.entries (t.subtreeEntries below id) ∧
    marks' = marks.reach (t.subtreeNodes below id) (t.subtreeEntries below id)

section Check

variable {t : Tree} {below id : Nat} {node : Node} {marks marks' : Marks}

/-- A position without a node is not accepted. -/
theorem checkNode_ne_ok (hnode : t.nodes[id]? = none) :
    ¬checkNode t below id marks = .ok marks' := by
  rw [checkNode, hnode]
  simp

/-- Nothing is a sound subtree from a position without a node. -/
theorem not_checkSpec (hnode : t.nodes[id]? = none) : ¬CheckSpec t below id marks marks' := by
  intro h
  rw [Array.getElem?_eq_getElem h.1.lt_size] at hnode
  cases hnode

/-- On the lowest level only a leaf passes. -/
theorem checkNode_lowest_eq_ok_iff (hmarks : marks.Of t) (hnode : t.nodes[id]? = some node) :
    checkNode t 0 id marks = .ok marks' ↔ CheckSpec t 0 id marks marks' := by
  rw [checkNode_eq_ok_iff_of_node hnode]
  constructor
  · rintro ⟨hfresh, hempty, hmany, ⟨hleaf, _, hcheck⟩ | ⟨_, _, hbelow, _⟩⟩
    · obtain ⟨hrange, hentries, hbox, hcount, rfl⟩ :=
        (checkLeaf_eq_ok_iff (hmarks.reach _ _) hleaf).mp hcheck
      rw [CheckSpec, subtreeNodes, subtreeEntries, entryPositions_leaf hnode hleaf]
      exact ⟨.leaf hnode hleaf ⟨hempty, hmany, hbox⟩ hrange hcount, hfresh, hentries, rfl⟩
    · cases hbelow
  · rintro ⟨hsub, hnodes, hentries, rfl⟩
    cases hsub with
    | leaf hnode' hleaf hfits hrange hcount =>
      cases hnode.symm.trans hnode'
      rw [subtreeEntries, entryPositions_leaf hnode hleaf] at hentries ⊢
      exact ⟨hnodes, hfits.nonempty, hfits.bounded, Or.inl ⟨hleaf, rfl,
        (checkLeaf_eq_ok_iff (hmarks.reach _ _) hleaf).mpr
          ⟨hrange, hentries, hfits.box, hcount, rfl⟩⟩⟩

/-- The marks of a sound subtree lie in the arena. -/
theorem Marks.Of.bounds (hmarks : marks.Of t) (hsub : t.Subtree below id) :
    (∀ x ∈ t.subtreeNodes below id, x < marks.nodes.size) ∧
      ∀ e ∈ t.subtreeEntries below id, e < marks.entries.size := by
  rw [hmarks.nodes, hmarks.entries]
  refine ⟨fun x hx => ?_, fun e he => hsub.lt_size_of_mem_subtreeEntries he⟩
  obtain ⟨_, h, _⟩ := hsub.exists_of_mem_subtreeNodes hx
  exact h.lt_size

/-- Children are checked one after the other, each with the marks that those before it left. -/
theorem foldlM_checkNode_eq_ok_iff {ids : List Nat} (hmarks : marks.Of t)
    (hcheck : ∀ (id : Nat) (marks marks' : Marks), marks.Of t →
      (checkNode t below id marks = .ok marks' ↔ CheckSpec t below id marks marks')) :
    ids.foldlM (fun marks id => checkNode t below id marks) marks = .ok marks' ↔
      (∀ id ∈ ids, t.Subtree below id) ∧ Fresh marks.nodes (ids.flatMap (t.subtreeNodes below)) ∧
        Fresh marks.entries (ids.flatMap (t.subtreeEntries below)) ∧
        marks' = marks.reach (ids.flatMap (t.subtreeNodes below))
          (ids.flatMap (t.subtreeEntries below)) := by
  induction ids generalizing marks with
  | nil => simp [fresh_nil, Marks.reach, pure, Except.pure, eq_comm]
  | cons id ids ih =>
    simp only [List.foldlM_cons, bind_eq_ok, hcheck id marks _ hmarks, List.flatMap_cons,
      Marks.reach_append, List.forall_mem_cons, CheckSpec]
    constructor
    · rintro ⟨_, ⟨hsub, hnodes, hentries, rfl⟩, hrest⟩
      obtain ⟨hsubs, hnodes', hentries', hmarks'⟩ := (ih (hmarks.reach _ _)).mp hrest
      have hbounds := hmarks.bounds hsub
      exact ⟨⟨hsub, hsubs⟩, (fresh_append hbounds.1).mpr ⟨hnodes, hnodes'⟩,
        (fresh_append hbounds.2).mpr ⟨hentries, hentries'⟩, hmarks'⟩
    · rintro ⟨⟨hsub, hsubs⟩, hnodes, hentries, hmarks'⟩
      have hbounds := hmarks.bounds hsub
      obtain ⟨hnodes, hnodes'⟩ := (fresh_append hbounds.1).mp hnodes
      obtain ⟨hentries, hentries'⟩ := (fresh_append hbounds.2).mp hentries
      exact ⟨_, ⟨hsub, hnodes, hentries, rfl⟩,
        (ih (hmarks.reach _ _)).mpr ⟨hsubs, hnodes', hentries', hmarks'⟩⟩

/-- Above the lowest level only an inner node passes, and its children pass one level down. -/
theorem checkNode_above_eq_ok_iff (hmarks : marks.Of t) (hnode : t.nodes[id]? = some node)
    (hcheck : ∀ (id : Nat) (marks marks' : Marks), marks.Of t →
      (checkNode t below id marks = .ok marks' ↔ CheckSpec t below id marks marks')) :
    checkNode t (below + 1) id marks = .ok marks' ↔
      CheckSpec t (below + 1) id marks marks' := by
  have hid : id < marks.nodes.size := by
    simpa [hmarks.nodes] using (Array.getElem?_eq_some_iff.mp hnode).1
  rw [checkNode_eq_ok_iff_of_node hnode, CheckSpec, subtreeNodes, subtreeEntries,
    fresh_cons (List.flatMap _ _) hid, Marks.reach_cons]
  constructor
  · rintro ⟨hfresh, hempty, hmany,
      ⟨_, hbelow, _⟩ | ⟨hinner, _, hbelow, hrange, hfold, hbox, hcount⟩⟩
    · cases hbelow
    · cases hbelow
      obtain ⟨hsubs, hnodes, hentries, rfl⟩ :=
        (foldlM_checkNode_eq_ok_iff (hmarks.reach _ _) hcheck).mp hfold
      rw [childPositions_inner hnode hinner]
      exact ⟨.inner hnode hinner ⟨hempty, hmany, hbox⟩ hrange hsubs hcount, ⟨hfresh, hnodes⟩,
        hentries, rfl⟩
  · rintro ⟨hsub, ⟨hfresh, hnodes⟩, hentries, rfl⟩
    cases hsub with
    | inner hnode' hinner hfits hrange hchildren hcount =>
      cases hnode.symm.trans hnode'
      rw [childPositions_inner hnode hinner] at hnodes hentries ⊢
      exact ⟨hfresh, hfits.nonempty, hfits.bounded, Or.inr ⟨hinner, below, rfl, hrange,
        (foldlM_checkNode_eq_ok_iff (hmarks.reach _ _) hcheck).mpr
          ⟨hchildren, hnodes, hentries, rfl⟩, hfits.box, hcount⟩⟩

end Check

/-- The check of a node goes through exactly when a sound subtree with fresh nodes and entries
hangs on it. -/
theorem checkNode_eq_ok_iff {t : Tree} (below id : Nat) (marks marks' : Marks)
    (hmarks : marks.Of t) :
    checkNode t below id marks = .ok marks' ↔ CheckSpec t below id marks marks' := by
  induction below generalizing id marks marks' with
  | zero =>
    cases hnode : t.nodes[id]? with
    | none => exact iff_of_false (checkNode_ne_ok hnode) (not_checkSpec hnode)
    | some node => exact checkNode_lowest_eq_ok_iff hmarks hnode
  | succ below ih =>
    cases hnode : t.nodes[id]? with
    | none => exact iff_of_false (checkNode_ne_ok hnode) (not_checkSpec hnode)
    | some node => exact checkNode_above_eq_ok_iff hmarks hnode ih

/-- Before anything has been reached there is one mark for each node and entry of a tree. -/
theorem Marks.none_of (t : Tree) : (Marks.none t).Of t := ⟨by simp [none], by simp [none]⟩

/-- Where nothing is marked, positions are fresh when they are distinct. -/
theorem fresh_replicate {size : Nat} {ps : List Nat} :
    Fresh (Array.replicate size false) ps ↔ ps.Nodup := by
  refine and_iff_left fun p _ => ?_
  rw [Array.getElem?_replicate]
  split <;> rfl

/-- All marks are set exactly when the distinct positions that were marked are all there are. -/
theorem count_markAll_eq_iff {size : Nat} {ps : List Nat} (hps : ∀ p ∈ ps, p < size)
    (hnodup : ps.Nodup) :
    (markAll (Array.replicate size false) ps).count true = size ↔ ps.Perm (List.range size) := by
  have hmarked := getD_markAll (Array.replicate size false) ps (by simpa using hps)
  generalize hall : markAll (Array.replicate size false) ps = marks at hmarked ⊢
  have hsize : marks.size = size := by simp [← hall]
  rw [← hsize, Array.count_eq_size, hsize, List.perm_ext_iff_of_nodup hnodup List.nodup_range]
  constructor
  · intro h p
    refine ⟨fun hp => List.mem_range.mpr (hps p hp), fun hp => ?_⟩
    have hlt : p < marks.size := by simpa [hsize] using hp
    have htrue := h _ (Array.getElem_mem hlt)
    have := (hmarked p).mp (by rw [Array.getElem?_eq_getElem hlt, ← htrue]; rfl)
    refine this.resolve_left fun h => ?_
    rw [Array.getElem?_replicate] at h
    split at h <;> cases h
  · intro h b hb
    obtain ⟨p, hlt, rfl⟩ := Array.mem_iff_getElem.mp hb
    have hp : p ∈ ps := (h p).mpr (List.mem_range.mpr (hsize ▸ hlt))
    have := (hmarked p).mpr (Or.inr hp)
    rw [Array.getElem?_eq_getElem hlt] at this
    exact this.symm

/-- Two comparisons one after the other pass when both numbers are as they should be. -/
private theorem counts_eq_ok_iff {a b c d : Nat} {missing missing' : Violation} :
    (if a ≠ b then do
      Except.error missing
      if c ≠ d then Except.error missing' else pure ()
    else if c ≠ d then Except.error missing' else pure ()) = Except.ok () ↔ a = b ∧ c = d := by
  by_cases hab : a = b
  · by_cases hcd : c = d
    · simp [hab, hcd, pure, Except.pure]
    · simp [hab, hcd]
  · simp [hab, bind, Except.bind]

/-- A check of a tree without entries asks for one empty leaf. -/
theorem validate_eq_ok_iff_of_isEmpty {t : Tree} (hsize : t.size = 0) : t.validate = .ok () ↔
    ∃ root, t.rootNode? = some root ∧ root.isLeaf = true ∧ root.children.len = 0 ∧
      t.nodes.size = 1 := by
  have hempty : t.isEmpty = true := by simp [isEmpty, hsize]
  cases hroot : t.rootNode? with
  | none => simp [validate, hroot]
  | some root => simp [validate, hroot, hempty, and_assoc]

/-- A check of a tree with entries goes through exactly for a sound layout. -/
theorem validate_eq_ok_iff_layout {t : Tree} (hsize : 0 < t.size) :
    t.validate = .ok () ↔ t.Layout := by
  have hnonempty : t.isEmpty = false := by simp [isEmpty, Nat.ne_of_gt hsize]
  cases hroot : t.nodes[t.root.toNat]? with
  | none =>
    have hvalidate : t.validate = .error .noRoot := by
      simp [validate, rootNode?, node?, hroot]
    refine iff_of_false (by simp [hvalidate]) fun h => ?_
    rw [Array.getElem?_eq_getElem h.subtree.lt_size] at hroot
    cases hroot
  | some root =>
    simp only [validate, rootNode?, node?, hroot, hnonempty, Bool.false_eq_true, if_false]
    by_cases hfanout : isFanout t.fanout.toNat = true
    · by_cases hheight : t.height = 0 ∨ maxHeight < t.height.toNat
      · refine iff_of_false (by simp [hfanout, hheight]) fun h => ?_
        have hpos := h.height_pos
        have hle := h.height_le
        rcases hheight with hzero | hmany
        · simp [hzero] at hpos
        · omega
      · obtain ⟨hpos, hle⟩ := not_or.mp hheight
        have hpos : 0 < t.height.toNat := Nat.pos_of_ne_zero fun h => hpos (UInt32.toNat_inj.mp h)
        simp only [hfanout, hheight, Bool.not_true, Bool.false_eq_true, if_false, bind_eq_ok,
          checkNode_eq_ok_iff _ _ _ _ (Marks.none_of t), counts_eq_ok_iff]
        constructor
        -- Each position is reached at most once, so there are as many marks as positions exactly if
        -- all are reached.
        · rintro ⟨_, ⟨hsub, hnodes, hentries, rfl⟩, hallNodes, hallEntries⟩
          obtain ⟨hnodeBounds, hentryBounds⟩ := (Marks.none_of t).bounds hsub
          simp only [Marks.none, fresh_replicate, Array.size_replicate] at *
          exact ⟨hfanout, hpos, Nat.not_lt.mp hle, hsub,
            (count_markAll_eq_iff hnodeBounds hnodes).mp hallNodes,
            (count_markAll_eq_iff hentryBounds hentries).mp hallEntries⟩
        · intro h
          obtain ⟨hnodeBounds, hentryBounds⟩ := (Marks.none_of t).bounds h.subtree
          have hnodes := h.nodes.nodup_iff.mpr List.nodup_range
          have hentries := h.entries.nodup_iff.mpr List.nodup_range
          simp only [Marks.none, Array.size_replicate] at hnodeBounds hentryBounds
          exact ⟨_, ⟨h.subtree, fresh_replicate.mpr hnodes, fresh_replicate.mpr hentries, rfl⟩,
            (count_markAll_eq_iff hnodeBounds hnodes).mpr h.nodes,
            (count_markAll_eq_iff hentryBounds hentries).mpr h.entries⟩
    · refine iff_of_false (by simp [hfanout]) fun h => hfanout h.fanout

end Tree

end SpatialIndex
