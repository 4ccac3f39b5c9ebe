import SpatialIndex.Proofs.Number.Fitting
import SpatialIndex.Proofs.Tree.Shape

/-!
# Packing within 32 bits

Packing asks only that the entries can be counted in 32 bits, and then cuts every position and
length down to 32 bits on every level.  Here it is written once more with steps on machine words
that can go wrong: no step does, because two children a node or more leave fewer nodes than
positions on all levels together, and because the counts of a level are together the number of
entries.
-/

namespace SpatialIndex

/-- Rounds a quotient up, unless the divisor is zero. -/
def ceilDiv? (n size : Nat) : Option Nat := if size = 0 then none else some (ceilDiv n size)

/-- Cuts a list into consecutive groups, unless these are to have no members. -/
def groups? {α : Type} (size : Nat) (l : List α) : Option (List (List α)) :=
  if size = 0 then none else some (groupsOf size l)

namespace Packing

/-- The range of `len` positions from `start` on, cut down to 32 bits. -/
def rangeSafely (start len : Nat) : Option ChildRange := do
  let _ ← fit? 64 (start + len)
  let start ← fit? 32 start
  let len ← fit? 32 len
  return ⟨.ofNat start, .ofNat len⟩

/-- A leaf over entries that begin at the position `start`. -/
def leafSafely (start : Nat) (group : List Entry) : Option Node := do
  let children ← rangeSafely start group.length
  let count ← fit? 64 group.length
  return ⟨.unionAll (group.map (·.box)), children, true, .ofNat count⟩

/-- An inner node over nodes that begin at the position `start`. -/
def parentSafely (start : Nat) (group : List Node) : Option Node := do
  let children ← rangeSafely start group.length
  let count ← sum? 64 (group.map (·.count.toNat))
  return ⟨.unionAll (group.map (·.box)), children, false, .ofNat count⟩

/-- One node for each group of a level that begins at the position `base`. -/
def packGroupsSafely {α : Type} (node : Nat → List α → Option Node) (fanout base : Nat)
    (level : List α) : Option (List Node) := do
  let groups ← groups? fanout level
  groups.zipIdx.mapM fun (group, i) => do
    let offset ← fit? 64 (i * fanout)
    let start ← fit? 64 (base + offset)
    node start group

/-- The entries of one partition. -/
def partitionSizeSafely (p : Packing) (count : Nat) : Option Nat := do
  let leaves ← ceilDiv? count p.fanout
  let share ← ceilDiv? leaves p.threads
  fit? 64 (share * p.fanout)

/-- All leaves, packed in one partition or in several. -/
def leavesSafely (p : Packing) (entries : List Entry) : Option (List Node) :=
  if p.threads ≤ 1 ∨ entries.length < p.parallelThreshold then
    packGroupsSafely leafSafely p.fanout 0 entries
  else do
    let size ← p.partitionSizeSafely entries.length
    let parts ← groups? size entries
    let packed ← parts.zipIdx.mapM fun (part, i) => do
      let base ← fit? 64 (i * size)
      packGroupsSafely leafSafely p.fanout base part
    return packed.flatten

/-- A level that begins at the position `base`, all levels above it, and how many levels that
makes, which may be so many. -/
def levelsSafely (fanout : Nat) :
    (most : Nat) → (base : Nat) → (level : List Node) → Option (List Node × Nat)
  | 0, _, _ => none
  | most + 1, base, level =>
    if 2 ≤ level.length then do
      let next ← fit? 64 (base + level.length)
      let parents ← packGroupsSafely parentSafely fanout base level
      let (above, height) ← levelsSafely fanout most next parents
      let height ← fit? 32 (height + 1)
      return (level ++ above, height)
    else some (level, 1)

/-- Packs entries in the order in which they come. -/
def packSafely (p : Packing) (entries : List Entry) : ExceptT PackingFault Option Tree :=
  if !isFanout p.fanout then throw (.fanoutOutOfRange p.fanout)
  else if UInt32.size ≤ entries.length then throw (.tooMany entries.length)
  else
    match entries.find? (!·.box.isValid) with
    | some bad => throw (.invalidBox bad.row bad.box)
    | none =>
      if entries.isEmpty then return .empty (.ofNat p.fanout)
      else do
        let leaves ← p.leavesSafely entries
        let (nodes, height) ← levelsSafely p.fanout maxHeight 0 leaves
        let last ← difference? nodes.length 1
        let root ← fit? 32 last
        return {
          nodes := nodes.toArray
          entries := entries.toArray
          root := .ofNat root
          height := .ofNat height
          fanout := .ofNat p.fanout }

variable {fanout base : Nat}

/-- A range that ends within 32 bits is not cut off. -/
theorem rangeSafely_of_lt {start len : Nat} (h : start + len < UInt32.size) :
    rangeSafely start len = some (range start len) := by
  have hsize : UInt32.size = 2 ^ 32 := rfl
  rw [rangeSafely, fit?_of_lt (by omega), fit?_of_lt (n := start) (by omega),
    fit?_of_lt (n := len) (by omega)]
  rfl

/-- A leaf whose entries end within 32 bits is made without anything being cut off. -/
theorem leafSafely_of_lt {start : Nat} {group : List Entry}
    (h : start + group.length < UInt32.size) :
    leafSafely start group = some (leaf start group) := by
  have hsize : UInt32.size = 2 ^ 32 := rfl
  rw [leafSafely, rangeSafely_of_lt h, fit?_of_lt (by omega)]
  rfl

/-- The counts of the children of a node are added from the first one on, and come to the same. -/
theorem parentSafely_of_lt {start : Nat} {group : List Node}
    (h : start + group.length < UInt32.size) (hcount : Node.entryTotal group < UInt64.size) :
    parentSafely start group = some (parent start group) := by
  have hsum := Node.toNat_totalCount hcount
  have htotal : sum? 64 (group.map (·.count.toNat)) = some (Node.totalCount group).toNat := by
    rw [hsum]
    rw [Node.entryTotal_eq_sum] at hcount ⊢
    exact sum?_of_lt hcount
  rw [parentSafely, rangeSafely_of_lt h, htotal]
  show some _ = some _
  rw [UInt64.ofNat_toNat]
  rfl

section Groups

variable {α : Type} {node : Nat → List α → Node} {nodeSafely : Nat → List α → Option Node}

/-- No step goes wrong on a level that ends among positions of 32 bits, if none goes wrong on any
of its groups. -/
theorem packGroupsSafely_of_lt (hfanout : 0 < fanout) {level : List α}
    (hend : base + level.length < UInt32.size)
    (hnode : ∀ before group after, level = before ++ group ++ after →
      nodeSafely (base + before.length) group = some (node (base + before.length) group)) :
    packGroupsSafely nodeSafely fanout base level = some (packGroups node fanout base level) := by
  have hsize : UInt32.size = 2 ^ 32 := rfl
  rw [packGroupsSafely, groups?, if_neg (by omega)]
  apply mapM_zipIdx_of_forall
  intro i group hgroup
  rw [getElem?_groupsOf hfanout] at hgroup
  split at hgroup
  · rename_i hinside
    have hgroup := Option.some.inj hgroup
    have hbefore : (level.take (i * fanout)).length = i * fanout := by
      rw [List.length_take, Nat.min_eq_left (Nat.le_of_lt hinside)]
    have hlevel : level = level.take (i * fanout) ++ group ++
        (level.drop (i * fanout)).drop fanout := by
      rw [← hgroup, List.append_assoc, List.take_append_drop, List.take_append_drop]
    have hstep := hnode _ _ _ hlevel
    rw [hbefore] at hstep
    dsimp only
    rw [fit?_of_lt (by omega)]
    show (fit? 64 (base + i * fanout) >>= fun start => nodeSafely start group) = _
    rw [fit?_of_lt (by omega)]
    exact hstep
  · cases hgroup

/-- The nodes of a packed level count together what the groups below them weigh. -/
theorem entryTotal_packGroups (hfanout : 0 < fanout) {weight : List α → Nat}
    (hnil : weight [] = 0)
    (happend : ∀ group rest, weight (group ++ rest) = weight group + weight rest)
    (hnode : ∀ start group, weight group < UInt64.size →
      (node start group).count.toNat = weight group) {level : List α}
    (hlevel : weight level < UInt64.size) :
    Node.entryTotal (packGroups node fanout base level) = weight level := by
  induction level using groups_induction hfanout generalizing base with
  | nil =>
    rw [packGroups_nil, hnil]
    rfl
  | group level hne ih =>
    have hsplit := happend (level.take fanout) (level.drop fanout)
    rw [List.take_append_drop] at hsplit
    rw [packGroups_eq_cons hfanout hne, Node.entryTotal_cons, ih (by omega), hnode _ _ (by omega),
      hsplit]

end Groups

/-- The leaves count the entries. -/
theorem entryTotal_packLeaves (hfanout : 0 < fanout) {entries : List Entry}
    (hcount : entries.length < UInt64.size) :
    Node.entryTotal (packLeaves fanout base entries) = entries.length :=
  entryTotal_packGroups hfanout rfl (fun _ _ => List.length_append)
    (fun _ _ hgroup => UInt64.toNat_ofNat_of_lt hgroup) hcount

/-- The nodes above a level count together what the level does. -/
theorem entryTotal_packParents (hfanout : 0 < fanout) {level : List Node}
    (hcount : Node.entryTotal level < UInt64.size) :
    Node.entryTotal (packParents fanout base level) = Node.entryTotal level :=
  entryTotal_packGroups hfanout rfl Node.entryTotal_append
    (fun _ _ hgroup => Node.toNat_totalCount hgroup) hcount

/-- Leaves over entries that end within 32 bits are packed without anything being cut off. -/
theorem packLeavesSafely_of_lt (hfanout : 0 < fanout) {entries : List Entry}
    (hend : base + entries.length < UInt32.size) :
    packGroupsSafely leafSafely fanout base entries = some (packLeaves fanout base entries) := by
  apply packGroupsSafely_of_lt hfanout hend
  intro before group after hentries
  apply leafSafely_of_lt
  rw [hentries, List.length_append, List.length_append] at hend
  omega

/-- Parents are packed without anything being cut off if the nodes below end within 32 bits and
their entries are counted within 64. -/
theorem packParentsSafely_of_lt (hfanout : 0 < fanout) {level : List Node}
    (hend : base + level.length < UInt32.size) (hcount : Node.entryTotal level < UInt64.size) :
    packGroupsSafely parentSafely fanout base level = some (packParents fanout base level) := by
  apply packGroupsSafely_of_lt hfanout hend
  intro before group after hlevel
  rw [hlevel, List.length_append, List.length_append] at hend
  rw [hlevel, Node.entryTotal_append, Node.entryTotal_append] at hcount
  exact parentSafely_of_lt (by omega) (by omega)

/-- There are no more levels than nodes, unless there is no node. -/
theorem height_levels_le (hfanout : 2 ≤ fanout) (base : Nat) (level : List Node) :
    (levels fanout base level).2 ≤ (levels fanout base level).1.length + 1 := by
  induction base, level using levels_induction hfanout with
  | single base level hshort =>
    rw [levels_eq_self hshort]
    exact Nat.le_add_left _ _
  | above base level hlong ih =>
    rw [levels_eq_above hfanout hlong, List.length_append]
    dsimp only
    omega

/-- Levels that end among positions of 32 bits are added one by one without a step going wrong. -/
theorem levelsSafely_of_lt (hfanout : 2 ≤ fanout) {level : List Node}
    (hend : base + (levels fanout base level).1.length < UInt32.size)
    (hcount : Node.entryTotal level < UInt64.size) {most : Nat}
    (hmost : (levels fanout base level).2 ≤ most) :
    levelsSafely fanout most base level = some (levels fanout base level) := by
  have hsize : UInt32.size = 2 ^ 32 := rfl
  induction base, level using levels_induction hfanout generalizing most with
  | single base level hshort =>
    have hone : 1 ≤ most := Nat.le_trans (height_levels_pos hfanout base level) hmost
    obtain ⟨most, rfl⟩ := Nat.exists_eq_add_of_le' hone
    rw [levelsSafely, if_neg (by omega), levels_eq_self hshort]
  | above base level hlong ih =>
    rw [levels_eq_above hfanout hlong] at hmost
    obtain ⟨most, rfl⟩ := Nat.exists_eq_add_of_le' (Nat.le_of_add_left_le hmost)
    have hheight := height_levels_le hfanout (base + level.length) (packParents fanout base level)
    have hsum : Node.entryTotal (packParents fanout base level) = Node.entryTotal level :=
      entryTotal_packParents (by omega) hcount
    rw [levels_eq_above hfanout hlong, List.length_append] at hend
    have hparents := packParentsSafely_of_lt (by omega : 0 < fanout)
      (by omega : base + level.length < UInt32.size) hcount
    have habove := ih (by omega) (hsum ▸ hcount) (Nat.le_of_add_le_add_right hmost)
    rw [levelsSafely, if_pos hlong, fit?_of_lt (by omega)]
    show (packGroupsSafely parentSafely fanout base level >>= _) = _
    rw [hparents]
    show (levelsSafely fanout most _ _ >>= _) = _
    rw [habove]
    show (fit? 32 _ >>= _) = _
    rw [fit?_of_lt (by omega), levels_eq_above hfanout hlong]
    rfl

section Partition

variable {p : Packing} (hfanout : 2 ≤ p.fanout ∧ p.fanout ≤ 1024)

include hfanout

/-- A partition takes less than one group more than all entries together. -/
theorem partitionSize_lt (hthreads : 0 < p.threads) (n : Nat) :
    p.partitionSize n < n + p.fanout := by
  have hshare : ceilDiv (ceilDiv n p.fanout) p.threads ≤ ceilDiv n p.fanout := by
    rw [ceilDiv_le_iff hthreads]
    exact Nat.le_mul_of_pos_right _ hthreads
  have hround : ceilDiv n p.fanout * p.fanout ≤ n + p.fanout - 1 := Nat.div_mul_le_self _ _
  have hpartition : p.partitionSize n ≤ ceilDiv n p.fanout * p.fanout :=
    Nat.mul_le_mul_right _ hshare
  omega

/-- The size of a partition fits 64 bits. -/
theorem partitionSizeSafely_of_lt (hthreads : 0 < p.threads) {n : Nat} (hn : n < UInt32.size) :
    p.partitionSizeSafely n = some (p.partitionSize n) := by
  have hsize : UInt32.size = 2 ^ 32 := rfl
  have hbound := partitionSize_lt hfanout hthreads n
  rw [partitionSizeSafely, ceilDiv?, if_neg (by omega)]
  show (ceilDiv? (ceilDiv n p.fanout) p.threads >>= _) = _
  rw [ceilDiv?, if_neg (by omega)]
  exact fit?_of_lt (by rw [← partitionSize]; omega)

/-- Packing the leaves in several partitions goes as well as packing them in one. -/
theorem leavesSafely_of_lt {entries : List Entry} (hentries : entries ≠ [])
    (hcount : entries.length < UInt32.size) : p.leavesSafely entries = some (p.leaves entries) := by
  have hsize : UInt32.size = 2 ^ 32 := rfl
  rw [leavesSafely, leaves]
  by_cases hone : p.threads ≤ 1 ∨ entries.length < p.parallelThreshold
  · rw [if_pos hone, if_pos hone]
    exact packLeavesSafely_of_lt (by omega) (by omega)
  · have hpos := partitionSize_pos (by omega) (by omega : 0 < p.threads) hentries
    have hparts : ((groupsOf (p.partitionSize entries.length) entries).zipIdx.mapM
        fun (part, i) => do
          let base ← fit? 64 (i * p.partitionSize entries.length)
          packGroupsSafely leafSafely p.fanout base part) =
        some ((groupsOf (p.partitionSize entries.length) entries).mapIdx fun i part =>
          packLeaves p.fanout (i * p.partitionSize entries.length) part) := by
      apply mapM_zipIdx_of_forall
      intro i part hpart
      rw [getElem?_groupsOf hpos] at hpart
      split at hpart
      · have hlength := congrArg List.length (Option.some.inj hpart)
        rw [List.length_take, List.length_drop] at hlength
        dsimp only
        rw [fit?_of_lt (by omega)]
        exact packLeavesSafely_of_lt (by omega) (by omega)
      · cases hpart
    rw [if_neg hone, if_neg hone, partitionSizeSafely_of_lt hfanout (by omega) hcount]
    show (groups? _ entries >>= _) = _
    rw [groups?, if_neg (by omega)]
    exact congrArg (· >>= fun packed => some packed.flatten) hparts

end Partition

/-- There is a node on the lowest level, so there is a last node. -/
theorem levels_leaves_pos {p : Packing} (hfanout : 2 ≤ p.fanout) {entries : List Entry}
    (hentries : entries ≠ []) : 0 < (levels p.fanout 0 (p.leaves entries)).1.length := by
  have hleaves : 0 < (p.leaves entries).length := by
    rw [length_leaves p (by omega)]
    exact ceilDiv_pos (by omega) (List.length_pos_iff.mpr hentries)
  obtain ⟨above, habove⟩ := exists_levels_eq hfanout 0 (p.leaves entries)
  rw [habove, List.length_append]
  omega

/-- All levels over the leaves are added without a step going wrong. -/
theorem levelsSafely_leaves {p : Packing} (hfanout : isFanout p.fanout = true)
    {entries : List Entry} (hcount : entries.length < UInt32.size) :
    levelsSafely p.fanout maxHeight 0 (p.leaves entries) =
      some (levels p.fanout 0 (p.leaves entries)) := by
  have htwo := (isFanout_iff.mp hfanout).1
  obtain ⟨hnodes, hheight⟩ := packed_bounds hfanout hcount
  have hsum : Node.entryTotal (p.leaves entries) < UInt64.size := by
    have hwide : entries.length < UInt64.size := Nat.lt_trans hcount (by decide)
    rw [leaves_eq_packLeaves p (by omega), entryTotal_packLeaves (by omega) hwide]
    exact hwide
  exact levelsSafely_of_lt htwo (Nat.zero_add _ ▸ hnodes) hsum (Nat.le_succ_of_le hheight)

/-- The arena that entries are packed into ends among positions of 32 bits, so no step of packing
goes wrong: fanouts and numbers of entries for which one could are refused first. -/
theorem packSafely_comesTo (p : Packing) (entries : List Entry) :
    ComesTo (p.packSafely entries) (p.packSorted entries) := by
  unfold packSafely packSorted
  by_cases hfanout : (!isFanout p.fanout) = true
  · rw [if_pos hfanout, if_pos hfanout]
    exact .throw _
  rw [if_neg hfanout, if_neg hfanout]
  by_cases hmany : UInt32.size ≤ entries.length
  · rw [if_pos hmany, if_pos hmany]
    exact .throw _
  rw [if_neg hmany, if_neg hmany]
  cases entries.find? (!·.box.isValid) with
  | some bad => exact .throw _
  | none =>
    dsimp only
    by_cases hempty : entries.isEmpty = true
    · rw [if_pos hempty, if_pos hempty]
      exact .pure _
    · have hsize : UInt32.size = 2 ^ 32 := rfl
      have hentries : entries ≠ [] := by simpa using hempty
      have hallowed : isFanout p.fanout = true := by simpa using hfanout
      have hbounds := isFanout_iff.mp hallowed
      have hcount : entries.length < UInt32.size := Nat.not_le.mp hmany
      have hfirst := levels_leaves_pos hbounds.1 hentries
      have hlast : (levels p.fanout 0 (p.leaves entries)).1.length < UInt32.size :=
        (packed_bounds hallowed hcount).1
      rw [if_neg hempty, if_neg hempty]
      refine ComesTo.step (leavesSafely_of_lt hbounds hentries hcount) ?_
      refine ComesTo.step (levelsSafely_leaves hallowed hcount) ?_
      refine ComesTo.step (difference?_of_le (by omega)) ?_
      exact ComesTo.step (fit?_of_lt (by omega)) (.pure _)

/-- Entries are packed without anything being cut off or running over. -/
structure FitsWords (p : Packing) (entries : List Entry) : Prop where
  /-- Every step of packing goes through, and packing comes to what it is to come to. -/
  steps : ComesTo (p.packSafely entries) (p.packSorted entries)
  /-- The size of a partition is not zero and fits 64 bits. -/
  partition : entries ≠ [] → 0 < p.threads → 0 < p.partitionSize entries.length ∧
    p.partitionSizeSafely entries.length = some (p.partitionSize entries.length)
  /-- There are no more nodes than positions, and the root is the last of them. -/
  nodes : ∀ t, p.packSorted entries = .ok t →
    t.nodes.size ≤ 4294967295 ∧ t.root.toNat + 1 = t.nodes.size

/-- The arena of a packed tree ends among positions of 32 bits, with the root at its end. -/
theorem size_le_of_packSorted {p : Packing} {entries : List Entry} {t : Tree}
    (ht : p.packSorted entries = .ok t) :
    t.nodes.size ≤ 4294967295 ∧ t.root.toNat + 1 = t.nodes.size := by
  have hsize : UInt32.size = 4294967296 := rfl
  obtain ⟨hfanout, hcount, _, rfl⟩ := packSorted_eq_ok_iff.mp ht
  by_cases hentries : entries = []
  · rw [if_pos hentries]
    exact ⟨Nat.le_add_left _ _, rfl⟩
  · have hnodes : (levels p.fanout 0 (p.leaves entries)).1.length < UInt32.size :=
      (packed_bounds hfanout hcount).1
    have hfirst := levels_leaves_pos (isFanout_iff.mp hfanout).1 hentries
    have hroot : (UInt32.ofNat ((levels p.fanout 0 (p.leaves entries)).1.length - 1)).toNat =
        (levels p.fanout 0 (p.leaves entries)).1.length - 1 :=
      UInt32.toNat_ofNat_of_lt (by omega)
    rw [if_neg hentries, packed, List.size_toArray]
    dsimp only
    omega

/-- Nodes of two over a power of two are one short of the next power together. -/
theorem length_levels_two {j : Nat} {level : List Node} (hlevel : level.length = 2 ^ j) :
    (levels 2 base level).1.length + 1 = 2 ^ (j + 1) := by
  induction j generalizing base level with
  | zero =>
    rw [levels_eq_self (by omega)]
    dsimp only
    omega
  | succ j ih =>
    have hpow := Nat.two_pow_pos j
    rw [Nat.pow_succ] at hlevel
    have hparents : (packParents 2 base level).length = 2 ^ j := by
      rw [packParents, length_packGroups (by omega), hlevel, ceilDiv]
      omega
    have habove : (levels 2 (base + level.length) (packParents 2 base level)).1.length + 1 =
        2 ^ (j + 1) := ih hparents
    rw [levels_eq_above (Nat.le_refl 2) (by omega), List.length_append, Nat.pow_succ]
    omega

/-- The bound is reached: in nodes of two, as many entries as can be counted in 32 bits fill every
position but the last. -/
theorem size_packed_largest {p : Packing} (hfanout : p.fanout = 2) {entries : List Entry}
    (hcount : entries.length = 4294967295) : (p.packed entries).nodes.size = 4294967295 := by
  have hleaves : (p.leaves entries).length = 2 ^ 31 := by
    rw [length_leaves p (by omega), hcount, hfanout]
    decide
  have hnodes : (levels 2 0 (p.leaves entries)).1.length + 1 = 2 ^ 32 := length_levels_two hleaves
  rw [packed, List.size_toArray, hfanout]
  omega

/-- With two children a node or more and no more than 1024, entries that can be counted in 32 bits
are packed, in the order in which they come or in order, without a position, a length or a count
being cut off or running over, whatever the number of partitions. -/
theorem pack_fitsWords (p : Packing) {entries : List Entry}
    (hfanout : 2 ≤ p.fanout ∧ p.fanout ≤ 1024) (hcount : entries.length ≤ 4294967295) :
    p.FitsWords entries ∧ p.FitsWords (p.sortKey.sort entries) := by
  have hfits (l : List Entry) (hl : l.length = entries.length) : p.FitsWords l := by
    refine ⟨p.packSafely_comesTo l, fun hne hthreads => ⟨?_, ?_⟩, fun t => size_le_of_packSorted⟩
    · exact partitionSize_pos (by omega) hthreads hne
    · exact partitionSizeSafely_of_lt hfanout hthreads
        (Nat.lt_of_le_of_lt (hl ▸ hcount) (by decide))
  exact ⟨hfits entries rfl, hfits _ (p.sortKey.sort_perm entries).length_eq⟩

/-- Three points in nodes of two, on two threads: partitions of two entries, three nodes. -/
theorem pack_fitsWords_points :
    let point (n : Int) : Box := .ofPoint (.ofInt n) (.ofInt n)
    let p : Packing := ⟨2, 2, 0, .centerX⟩
    let entries : List Entry := [⟨point 2, 7⟩, ⟨point 0, 8⟩, ⟨point 1, 9⟩]
    p.FitsWords entries ∧ p.partitionSizeSafely 3 = some 2 ∧
      ∃ t, p.packSorted entries = .ok t ∧ t.root.toNat + 1 = t.nodes.size := by
  intro point p entries
  have h := (@pack_fitsWords p entries (by decide) (by decide)).1
  obtain ⟨t, ht⟩ : ∃ t, p.packSorted entries = .ok t :=
    ⟨_, packSorted_eq_ok_iff.mpr ⟨by decide, by decide, by decide +kernel, rfl⟩⟩
  have hpartition := (h.partition (List.cons_ne_nil _ _) (by decide)).2
  have htwo : p.partitionSize entries.length = 2 := by decide
  exact ⟨h, hpartition.trans (congrArg some htwo), t, ht, (h.nodes t ht).2⟩

end Packing

end SpatialIndex
