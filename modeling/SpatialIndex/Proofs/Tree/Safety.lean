import SpatialIndex.Proofs.Number.Fitting
import SpatialIndex.Proofs.Tree.Marking

/-!
# Checking a tree that nobody vouches for

The nodes of an arena that comes from outside may name anything as their children: nodes that lie
behind them, each other, or positions far outside.  Here the check is written once more with steps
on machine words that can go wrong, and goes wrong itself when it is nested deeper than a tree can
be high.  Whatever the arena holds, it ends, nothing goes wrong, and it comes to what
`Tree.validate` says.

The order of the tests carries this.  A range is followed only after it has been found to lie before
its node, and counts are added only after each of them has been found to be the number of entries
that hang on its node, no two of which are the same.
-/

namespace SpatialIndex

namespace ChildRange

variable (range : ChildRange)

/-- The end of a range of 32 bits fits 64 bits. -/
theorem fit?_stop : fit? 64 (range.start.toNat + range.len.toNat) = some range.stop := by
  have hstart := range.start.toNat_lt
  have hlen := range.len.toNat_lt
  exact fit?_of_lt (by omega)

/-- A range ends as far behind its start as it is long. -/
theorem difference?_stop : difference? range.stop range.start.toNat = some range.len.toNat := by
  have hstop : range.stop = range.start.toNat + range.len.toNat := rfl
  rw [difference?_of_le (by omega), hstop, Nat.add_sub_cancel_left]

/-- A range that does not end behind its start is empty. -/
theorem stop_le_start_iff : range.stop ≤ range.start.toNat ↔ range.len = 0 := by
  have hstop : range.stop = range.start.toNat + range.len.toNat := rfl
  rw [← UInt32.toNat_inj, UInt32.toNat_zero]
  omega

/-- A range that ends inside of a list can be read. -/
theorem slice?_stop {α : Type} {range : ChildRange} {l : List α} (h : range.stop ≤ l.length) :
    slice? l range.start.toNat range.stop = some (l.extract range.start.toNat range.stop) := by
  have hstop : range.stop = range.start.toNat + range.len.toNat := rfl
  exact slice?_of_le (by omega) h

end ChildRange

namespace Tree

/-- Marks the given entries, each of which must be new and in the arena. -/
def markSafely (id : Nat) : List Nat → Array Bool → ExceptT Violation Option (Array Bool)
  | [], marks => pure marks
  | entry :: rest, marks => do
    if ← (marks[entry]? : Option Bool) then throw (.entryReachedTwice entry id)
    else markSafely id rest (marks.setIfInBounds entry true)

/-- Checks a leaf over so many entries from a position on, and marks these. -/
def checkLeafSafely (t : Tree) (id : Nat) (node : Node) (start count stop : Nat) (marks : Marks) :
    ExceptT Violation Option Marks :=
  if t.entries.size < stop then throw (.entriesOutOfBounds id)
  else do
    let held ← slice? t.entries.toList start stop
    let entries ← markSafely id (List.range' start count) marks.entries
    let total ← fit? 64 held.length
    checkSummary id node (.unionAll (held.map (·.box))) total
    return { marks with entries }

/-- Checks one node at the given depth and all below it, and marks what it reaches, with so many
calls that may be nested. -/
def checkNodeSafely (t : Tree) :
    (calls : Nat) → (id depth : Nat) → Marks → ExceptT Violation Option Marks
  | 0, _, _, _ => .mk none
  | calls + 1, id, depth, marks =>
    match t.nodes[id]? with
    | none => throw (.nodeOutOfBounds id)
    | some node => do
      if ← (marks.nodes[id]? : Option Bool) then throw (.nodeReachedTwice id)
      else
        let marks := { marks with nodes := marks.nodes.setIfInBounds id true }
        let start := node.children.start.toNat
        let stop ← fit? 64 (start + node.children.len.toNat)
        if stop ≤ start then throw (.noChildren id)
        else
          let count ← difference? stop start
          if t.fanout.toNat < count then throw (.tooManyChildren id count t.fanout)
          else
            let next ← fit? 32 (depth + 1)
            if node.isLeaf then
              if next ≠ t.height.toNat then throw (.leafDepth id depth (t.height.toNat - 1))
              else checkLeafSafely t id node start count stop marks
            else if t.height.toNat ≤ next then throw (.innerDepth id depth (t.height.toNat - 1))
            else if id < stop then throw (.childrenAfterParent id start stop)
            else
              let children ← slice? t.nodes.toList start stop
              let marks ← (List.range' start count).foldlM (fun marks child => do
                let child ← fit? 32 child
                checkNodeSafely t calls child next marks) marks
              let total ← sum? 64 (children.map (·.count.toNat))
              checkSummary id node (.unionAll (children.map (·.box))) total
              return marks

/-- Checks a tree from its root, with no more calls nested than a tree can have levels. -/
def validateSafely (t : Tree) : ExceptT Violation Option Unit :=
  if t.nodes.size ≤ t.root.toNat then throw .noRoot
  else if t.isEmpty then do
    let root ← (t.nodes[t.root.toNat]? : Option Node)
    if root.isLeaf && root.children.len = 0 && t.nodes.size = 1 then return
    else throw .emptyWithNodes
  else if !isFanout t.fanout.toNat then throw (.fanoutOutOfRange t.fanout)
  else if t.height = 0 ∨ maxHeight < t.height.toNat then throw (.heightOutOfRange t.height)
  else do
    let marks ← checkNodeSafely t maxHeight t.root.toNat 0 (.none t)
    let nodes := marks.nodes.count true
    if nodes ≠ t.nodes.size then throw (.unreachedNodes nodes t.nodes.size)
    let entries := marks.entries.count true
    if entries ≠ t.entries.size then throw (.unreachedEntries entries t.entries.size)

section Check

variable {t : Tree} {node : Node} {marks : Marks} {id : Nat}

/-- Entries of the arena are marked without leaving it. -/
theorem markSafely_comesTo {ps : List Nat} {marks : Array Bool} (hps : ∀ p ∈ ps, p < marks.size) :
    ComesTo (markSafely id ps marks) (markEntries id ps marks) := by
  induction ps generalizing marks with
  | nil => exact .pure marks
  | cons p ps ih =>
    have hp : p < marks.size := hps p List.mem_cons_self
    have hseen : marks[p]? = some marks[p] := Array.getElem?_eq_getElem hp
    rw [markSafely, markEntries]
    refine ComesTo.step hseen ?_
    rw [hseen, Option.getD_some]
    cases marks[p] with
    | true => exact .throw _
    | false =>
      apply ih
      intro q hq
      rw [Array.size_setIfInBounds]
      exact hps q (List.mem_cons_of_mem _ hq)

/-- A leaf is checked without leaving the arena, whatever its range. -/
theorem checkLeafSafely_comesTo (hmarks : marks.Of t) (hleaf : node.isLeaf = true) :
    ComesTo (checkLeafSafely t id node node.children.start.toNat node.children.len.toNat
      node.children.stop marks) (checkLeaf t id node marks) := by
  unfold checkLeafSafely checkLeaf
  by_cases hrange : t.entries.size < node.children.stop
  · rw [if_pos hrange, if_pos hrange]
    exact .throw _
  · rw [if_neg hrange, if_neg hrange]
    have hslice : slice? t.entries.toList node.children.start.toNat node.children.stop =
        some (t.leafEntries node) := by
      rw [leafEntries, if_pos hleaf, Array.toList_extract]
      exact ChildRange.slice?_stop (by rw [Array.length_toList]; omega)
    have hcount : fit? 64 (t.leafEntries node).length = some (t.leafEntries node).length := by
      apply fit?_of_lt
      rw [length_leafEntries hleaf (by omega)]
      exact Nat.lt_trans node.children.len.toNat_lt (by decide)
    refine ComesTo.step hslice ((markSafely_comesTo ?_).bind fun entries _ => ?_)
    · intro p hp
      have hp := (ChildRange.mem_positions.mp hp).2
      have hsize := hmarks.entries
      omega
    · exact ComesTo.step hcount ((ComesTo.lift _).bind fun _ _ => .pure _)

/-- The counts of sound subtrees with different entries are together no more than ranges of 32 bits
can reach. -/
theorem entryTotal_lt {below : Nat} {ids : List Nat} (hsubs : ∀ id ∈ ids, t.Subtree below id)
    (hentries : (ids.flatMap (t.subtreeEntries below)).Nodup) :
    Node.entryTotal (ids.filterMap (t.nodes[·]?)) < 2 ^ 64 := by
  have hreach : ∀ e ∈ ids.flatMap (t.subtreeEntries below), e ∈ List.range (2 ^ 33) := by
    intro e he
    obtain ⟨id, hid, he⟩ := List.mem_flatMap.mp he
    rw [(hsubs id hid).subtreeEntries_eq] at he
    obtain ⟨_, _, hheld⟩ := List.mem_flatMap.mp he
    obtain ⟨node, _, _, hposition⟩ := exists_of_mem_entryPositions hheld
    have hstop := (ChildRange.mem_positions.mp hposition).2
    have hstart := node.children.start.toNat_lt
    have hlen := node.children.len.toNat_lt
    rw [ChildRange.stop] at hstop
    rw [List.mem_range]
    omega
  have hlength := (List.subperm_of_subset hentries hreach).length_le
  rw [List.length_range] at hlength
  rw [Subtree.sum_counts_eq t.nodes (t.subtreeEntries below) ids fun id hid =>
    (hsubs id hid).count_eq]
  omega

section Inner

variable {below calls next : Nat} (hmarks : marks.Of t)
  (hcheck : ∀ (id : Nat) (marks : Marks), marks.Of t → id < 2 ^ 32 →
    ComesTo (checkNodeSafely t calls id next marks) (checkNode t below id marks))

include hmarks hcheck

/-- Children are checked one after the other, each with the marks that those before it left. -/
theorem foldlM_checkNodeSafely_comesTo {ids : List Nat} (hids : ∀ child ∈ ids, child < 2 ^ 32) :
    ComesTo (ids.foldlM (fun marks child => do
        let child ← fit? 32 child
        checkNodeSafely t calls child next marks) marks)
      (ids.foldlM (fun marks child => checkNode t below child marks) marks) := by
  apply ComesTo.foldlM hmarks
  · intro marks hmarks child hchild
    have hfits := hids child hchild
    exact ComesTo.step (fit?_of_lt hfits) (hcheck child marks hmarks hfits)
  · intro marks hmarks child _ marks' hok
    obtain ⟨_, _, _, rfl⟩ := (checkNode_eq_ok_iff below child marks marks' hmarks).mp hok
    exact hmarks.reach _ _

omit hcheck in
/-- The counts of children that have passed their checks can be added. -/
theorem sum?_of_checkNode {ids : List Nat} {marks' : Marks}
    (hok : ids.foldlM (fun marks child => checkNode t below child marks) marks = .ok marks') :
    sum? 64 ((ids.filterMap (t.nodes[·]?)).map (·.count.toNat)) =
      some (Node.entryTotal (ids.filterMap (t.nodes[·]?))) := by
  obtain ⟨hsubs, _, hentries, _⟩ := (foldlM_checkNode_eq_ok_iff hmarks fun id marks marks' =>
    checkNode_eq_ok_iff below id marks marks').mp hok
  have hsum := entryTotal_lt hsubs hentries.1
  rw [Node.entryTotal_eq_sum] at hsum ⊢
  exact sum?_of_lt hsum

/-- The children of a node before which they all lie are checked, and summed up only then. -/
theorem checkInnerSafely_comesTo (hid : id < 2 ^ 32) (hinside : id < t.nodes.size)
    (hinner : node.isLeaf = false) (hrange : node.children.stop ≤ id) :
    ComesTo (do
      let children ← slice? t.nodes.toList node.children.start.toNat node.children.stop
      let marks ← (List.range' node.children.start.toNat node.children.len.toNat).foldlM
        (fun marks child => do
          let child ← fit? 32 child
          checkNodeSafely t calls child next marks) marks
      let total ← sum? 64 (children.map (·.count.toNat))
      checkSummary id node (.unionAll (children.map (·.box))) total
      return marks)
    (do
      let marks ← node.children.positions.foldlM (fun marks child =>
        checkNode t below child marks) marks
      let children := t.childNodes node
      checkSummary id node (.unionAll (children.map (·.box))) (Node.entryTotal children)
      return marks) := by
  have hslice : slice? t.nodes.toList node.children.start.toNat node.children.stop =
      some (t.childNodes node) := by
    rw [childNodes, hinner, if_neg Bool.false_ne_true, Array.toList_extract]
    exact ChildRange.slice?_stop (by rw [Array.length_toList]; omega)
  have hpositions : ∀ child ∈ node.children.positions, child < 2 ^ 32 := by
    intro child hchild
    have hbefore := (ChildRange.mem_positions.mp hchild).2
    omega
  refine ComesTo.step hslice ?_
  refine (foldlM_checkNodeSafely_comesTo hmarks hcheck hpositions).bind fun marks' hok => ?_
  have htotal := sum?_of_checkNode hmarks hok
  rw [← childNodes_eq hinner] at htotal
  exact ComesTo.step htotal ((ComesTo.lift _).bind fun _ _ => .pure _)

end Inner

/-- No step of checking a node goes wrong, if none goes wrong one level further down. -/
theorem checkNodeSafely_comesTo_of_below {below calls depth : Nat} (hmarks : marks.Of t)
    (hid : id < 2 ^ 32) (hdepth : depth + below + 1 = t.height.toNat)
    (hbelow : ∀ lower, below = lower + 1 → ∀ (id : Nat) (marks : Marks), marks.Of t →
      id < 2 ^ 32 →
        ComesTo (checkNodeSafely t calls id (depth + 1) marks) (checkNode t lower id marks)) :
    ComesTo (checkNodeSafely t (calls + 1) id depth marks) (checkNode t below id marks) := by
  rw [checkNodeSafely, checkNode]
  cases hnode : t.nodes[id]? with
  | none => exact .throw _
  | some node =>
    have hinside : id < t.nodes.size := (Array.getElem?_eq_some_iff.mp hnode).1
    obtain ⟨seen, hseen⟩ : ∃ seen, marks.nodes[id]? = some seen :=
      ⟨_, Array.getElem?_eq_getElem (hmarks.nodes ▸ hinside)⟩
    refine ComesTo.step hseen ?_
    simp only [hseen, Option.getD_some]
    cases seen with
    | true => exact .throw _
    | false =>
      refine ComesTo.step node.children.fit?_stop ?_
      simp only [Bool.false_eq_true, if_false, node.children.stop_le_start_iff]
      by_cases hempty : node.children.len = 0
      · rw [if_pos hempty, if_pos hempty]
        exact .throw _
      rw [if_neg hempty, if_neg hempty]
      refine ComesTo.step node.children.difference?_stop ?_
      by_cases hmany : t.fanout.toNat < node.children.len.toNat
      · rw [if_pos hmany, if_pos hmany]
        exact .throw _
      rw [if_neg hmany, if_neg hmany]
      have hheight := t.height.toNat_lt
      refine ComesTo.step (fit?_of_lt (by omega)) ?_
      -- `depth` counts levels from the root down and `below` from the lowest one up, so the two
      -- checks ask the same of the level of a node.
      cases hleaf : node.isLeaf with
      | true =>
        rw [if_pos rfl, if_pos rfl]
        by_cases hlowest : below = 0
        · rw [if_neg (by omega), if_neg (not_not_intro hlowest)]
          exact checkLeafSafely_comesTo (hmarks.reach [id] []) hleaf
        · have hlevel : t.height.toNat - 1 - below = depth := by omega
          rw [if_pos (by omega), if_pos hlowest, hlevel]
          exact .throw _
      | false =>
        simp only [Bool.false_eq_true, if_false]
        cases below with
        | zero =>
          have hlowest : t.height.toNat - 1 = depth := by omega
          rw [if_pos (by omega), hlowest]
          exact .throw _
        | succ lower =>
          rw [if_neg (by omega)]
          by_cases hafter : id < node.children.stop
          · rw [if_pos hafter]
            simp only [if_pos hafter]
            exact .throw _
          rw [if_neg hafter]
          simp only [if_neg hafter]
          exact checkInnerSafely_comesTo (hmarks.reach [id] []) (hbelow lower rfl) hid hinside
            hleaf (Nat.not_lt.mp hafter)

/-- Checking a node goes down one level at a time, no more calls are nested than there are levels,
and no step of it goes wrong. -/
theorem checkNodeSafely_comesTo {below calls depth : Nat} (hmarks : marks.Of t) (hid : id < 2 ^ 32)
    (hdepth : depth + below + 1 = t.height.toNat) (hcalls : below < calls) :
    ComesTo (checkNodeSafely t calls id depth marks) (checkNode t below id marks) := by
  obtain ⟨calls, rfl⟩ := Nat.exists_eq_add_of_le' (Nat.one_le_of_lt hcalls)
  induction below generalizing id calls depth marks with
  | zero => exact checkNodeSafely_comesTo_of_below hmarks hid hdepth nofun
  | succ below ih =>
    apply checkNodeSafely_comesTo_of_below hmarks hid hdepth
    intro lower hlower id marks hmarks hid
    obtain ⟨calls, rfl⟩ := Nat.exists_eq_add_of_le' (by omega : 1 ≤ calls)
    obtain rfl : below = lower := Nat.succ.inj hlower
    exact ih hmarks hid (by omega) calls (by omega)

/-- Checking a tree ends, and no step of it goes wrong, whatever the tree is made of: it comes to
what `validate` says. -/
theorem validateSafely_comesTo (t : Tree) : ComesTo t.validateSafely t.validate := by
  unfold validateSafely validate rootNode? node?
  by_cases hroot : t.nodes.size ≤ t.root.toNat
  · rw [if_pos hroot, Array.getElem?_eq_none hroot]
    exact .throw _
  have hlookup : t.nodes[t.root.toNat]? = some t.nodes[t.root.toNat] :=
    Array.getElem?_eq_getElem (Nat.not_le.mp hroot)
  rw [if_neg hroot, hlookup]
  dsimp only
  cases hempty : t.isEmpty with
  | true =>
    rw [if_pos rfl, if_pos rfl]
    refine ComesTo.step rfl ?_
    split
    · exact .pure _
    · exact .throw _
  | false =>
    rw [if_neg Bool.false_ne_true, if_neg Bool.false_ne_true]
    by_cases hfanout : (!isFanout t.fanout.toNat) = true
    · rw [if_pos hfanout, if_pos hfanout]
      exact .throw _
    rw [if_neg hfanout, if_neg hfanout]
    by_cases hheight : t.height = 0 ∨ maxHeight < t.height.toNat
    · rw [if_pos hheight, if_pos hheight]
      exact .throw _
    rw [if_neg hheight, if_neg hheight]
    have hlevels : t.height.toNat ≠ 0 := fun h => hheight (.inl (UInt32.toNat_inj.mp h))
    refine (checkNodeSafely_comesTo (Marks.none_of t) t.root.toNat_lt (by omega) (by omega)).bind
      fun marks _ => ?_
    split
    · exact .throw _
    · split
      · exact .throw _
      · exact .pure _

/-- Two nodes that name each other, with counts next to the largest: the one that comes first cannot
have the other as a child. -/
example (box : Box) (e : Entry) :
    (⟨#[⟨box, ⟨1, 1⟩, false, 18446744073709551615⟩, ⟨box, ⟨0, 1⟩, false, 18446744073709551615⟩],
      #[e], 1, 3, 2⟩ : Tree).validate = .error (.childrenAfterParent 0 1 2) := by
  rfl

end Check

end Tree

end SpatialIndex
