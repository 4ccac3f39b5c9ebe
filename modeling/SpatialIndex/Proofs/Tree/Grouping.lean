import SpatialIndex.Proofs.Tree.Subtree
import SpatialIndex.Tree.Pack

/-!
# Cutting a level into groups

Packing cuts a list into consecutive groups and makes a node of each.  The nodes of a level cover
the positions below it one after the other without gaps, and cutting at a multiple of the group
size first changes nothing.  How many nodes and levels there are is bounded by powers of two.
-/

namespace SpatialIndex

variable {α : Type} {size : Nat}

/-- The first group and the groups of what is left. -/
theorem groupsOf_eq_cons (hsize : 0 < size) {l : List α} (hl : l ≠ []) :
    groupsOf size l = l.take size :: groupsOf size (l.drop size) := by
  obtain ⟨size, rfl⟩ := Nat.exists_eq_succ_of_ne_zero (Nat.ne_of_gt hsize)
  cases l with
  | nil => exact absurd rfl hl
  | cons a rest => simp [groupsOf]

/-- What holds of no members, and of a list if it holds of what the first group leaves, holds of
every list. -/
@[elab_as_elim]
theorem groups_induction {motive : List α → Prop} (hsize : 0 < size) (nil : motive [])
    (group : ∀ l, l ≠ [] → motive (l.drop size) → motive l) (l : List α) : motive l := by
  induction hlen : l.length using Nat.strongRecOn generalizing l with
  | ind len ih =>
    by_cases hl : l = []
    · exact hl ▸ nil
    · have hpos := List.length_pos_iff.mpr hl
      exact group l hl (ih _ (by rw [List.length_drop]; omega) _ rfl)

/-- Another full group of members makes one group more. -/
theorem ceilDiv_add (hsize : 0 < size) (n : Nat) :
    ceilDiv (n + size) size = ceilDiv n size + 1 := by
  rw [ceilDiv, ceilDiv, show n + size + size - 1 = n + size - 1 + size by omega,
    Nat.add_div_right _ hsize]

/-- No members need no group. -/
theorem ceilDiv_zero (hsize : 0 < size) : ceilDiv 0 size = 0 :=
  Nat.div_eq_of_lt (by omega)

/-- Members that fit one group need one group. -/
theorem ceilDiv_of_le {n : Nat} (hn : 0 < n) (hle : n ≤ size) : ceilDiv n size = 1 := by
  rw [ceilDiv, show n + size - 1 = n - 1 + size by omega, Nat.add_div_right _ (by omega),
    Nat.div_eq_of_lt (by omega)]

/-- Groups are enough exactly if they hold all members. -/
theorem ceilDiv_le_iff {n groups : Nat} (hsize : 0 < size) :
    ceilDiv n size ≤ groups ↔ n ≤ groups * size := by
  rw [ceilDiv, ← Nat.lt_succ_iff, Nat.div_lt_iff_lt_mul hsize, Nat.succ_mul]
  omega

/-- There is a group if there is a member. -/
theorem ceilDiv_pos {n : Nat} (hsize : 0 < size) (hn : 0 < n) : 0 < ceilDiv n size :=
  Nat.div_pos (by omega) hsize

/-- There are as many groups as are needed to hold all members. -/
theorem length_groupsOf (hsize : 0 < size) (l : List α) :
    (groupsOf size l).length = ceilDiv l.length size := by
  induction l using groups_induction hsize with
  | nil =>
    rw [groupsOf]
    exact (ceilDiv_zero hsize).symm
  | group l hl ih =>
    have hpos := List.length_pos_iff.mpr hl
    rw [groupsOf_eq_cons hsize hl, List.length_cons, ih, List.length_drop]
    by_cases hle : size ≤ l.length
    · rw [← ceilDiv_add hsize, Nat.sub_add_cancel hle]
    · rw [Nat.sub_eq_zero_of_le (by omega), ceilDiv_zero hsize, ceilDiv_of_le hpos (by omega)]

/-- The group at each place. -/
theorem getElem?_groupsOf (hsize : 0 < size) (l : List α) (i : Nat) :
    (groupsOf size l)[i]? =
      if i * size < l.length then some ((l.drop (i * size)).take size) else none := by
  induction l using groups_induction hsize generalizing i with
  | nil => simp [groupsOf]
  | group l hl ih =>
    rw [groupsOf_eq_cons hsize hl]
    cases i with
    | zero =>
      have hpos := List.length_pos_iff.mpr hl
      rw [Nat.zero_mul, if_pos hpos]
      rfl
    | succ i =>
      rw [List.getElem?_cons_succ, ih, List.length_drop, List.drop_drop, Nat.succ_mul,
        Nat.add_comm size]
      by_cases hinside : i * size + size < l.length
      · rw [if_pos hinside, if_pos (by omega)]
      · rw [if_neg hinside, if_neg (by omega)]

/-- There are no groups when there are no members. -/
theorem groupsOf_eq_nil_iff {l : List α} : groupsOf size l = [] ↔ l = [] := by
  cases l with
  | nil => simp [groupsOf]
  | cons a rest => simp [groupsOf]

/-- The groups hold all members, in order. -/
theorem flatten_groupsOf (hsize : 0 < size) (l : List α) : (groupsOf size l).flatten = l := by
  induction l using groups_induction hsize with
  | nil => rw [groupsOf_eq_nil_iff.mpr rfl, List.flatten_nil]
  | group l hl ih => rw [groupsOf_eq_cons hsize hl, List.flatten_cons, ih, List.take_append_drop]

/-- No group is empty or too large. -/
theorem length_of_mem_groupsOf (hsize : 0 < size) {l group : List α}
    (h : group ∈ groupsOf size l) : 0 < group.length ∧ group.length ≤ size := by
  obtain ⟨i, hi⟩ := List.getElem?_of_mem h
  rw [getElem?_groupsOf hsize] at hi
  split at hi
  · rename_i hinside
    obtain rfl := Option.some.inj hi
    rw [List.length_take, List.length_drop]
    omega
  · cases hi

/-- Every group but the last is full. -/
theorem length_of_mem_dropLast_groupsOf (hsize : 0 < size) {l group : List α}
    (h : group ∈ (groupsOf size l).dropLast) : group.length = size := by
  induction l using groups_induction hsize with
  | nil =>
    rw [groupsOf_eq_nil_iff.mpr rfl] at h
    cases h
  | group l hl ih =>
    rw [groupsOf_eq_cons hsize hl] at h
    by_cases hlast : l.drop size = []
    · rw [hlast, groupsOf_eq_nil_iff.mpr rfl] at h
      cases h
    · rw [List.dropLast_cons_of_ne_nil (mt groupsOf_eq_nil_iff.mp hlast), List.mem_cons] at h
      rcases h with rfl | h
      · have hlonger : size < l.length := by simpa using hlast
        exact List.length_take_of_le (Nat.le_of_lt hlonger)
      · exact ih h

namespace Packing

section Groups

variable {node : Nat → List α → Node} {fanout : Nat} (hfanout : 0 < fanout)

include hfanout

/-- The node of the first group and the nodes of the groups after it. -/
theorem packGroups_eq_cons {base : Nat} {level : List α} (hlevel : level ≠ []) :
    packGroups node fanout base level = node base (level.take fanout) ::
      packGroups node fanout (base + fanout) (level.drop fanout) := by
  rw [packGroups, packGroups, groupsOf_eq_cons hfanout hlevel, List.mapIdx_cons, Nat.zero_mul,
    Nat.add_zero]
  refine congrArg (_ :: ·) (congrArg (List.mapIdx · _) ?_)
  funext i group
  rw [Nat.succ_mul, Nat.add_assoc, Nat.add_comm fanout]

omit hfanout in
/-- Where there are no members no nodes are made. -/
@[simp] theorem packGroups_nil (base : Nat) : packGroups node fanout base [] = [] := by
  simp [packGroups, groupsOf]

/-- There are as many nodes as groups that are needed to hold all members. -/
theorem length_packGroups (base : Nat) (level : List α) :
    (packGroups node fanout base level).length = ceilDiv level.length fanout := by
  rw [packGroups, List.length_mapIdx, length_groupsOf hfanout]

/-- Cutting a level behind whole groups first changes nothing. -/
theorem packGroups_append (base : Nat) (groups : Nat) (l l' : List α)
    (hl : l.length = groups * fanout) :
    packGroups node fanout base (l ++ l') =
      packGroups node fanout base l ++ packGroups node fanout (base + l.length) l' := by
  induction groups generalizing base l with
  | zero =>
    rw [Nat.zero_mul] at hl
    rw [List.eq_nil_of_length_eq_zero hl]
    simp
  | succ groups ih =>
    rw [Nat.succ_mul] at hl
    have hne : l ≠ [] := by
      rintro rfl
      simp at hl
      omega
    rw [packGroups_eq_cons hfanout hne, packGroups_eq_cons hfanout (by simp [hne]),
      List.take_append_of_le_length (by omega), List.drop_append_of_le_length (by omega),
      ih _ _ (by rw [List.length_drop]; omega), List.cons_append, List.length_drop,
      show base + fanout + (l.length - fanout) = base + l.length by omega]

/-- Every node of a packed level stands over a run of the level below, which starts where the node
says. -/
theorem exists_of_mem_packGroups {base : Nat} {level : List α} {n : Node}
    (hn : n ∈ packGroups node fanout base level) :
    ∃ before group after, level = before ++ group ++ after ∧ group ≠ [] ∧
      group.length ≤ fanout ∧ n = node (base + before.length) group := by
  induction level using groups_induction hfanout generalizing base with
  | nil => simp at hn
  | group level hlevel ih =>
    have hpos : 0 < level.length := List.length_pos_iff.mpr hlevel
    rw [packGroups_eq_cons hfanout hlevel, List.mem_cons] at hn
    rcases hn with rfl | hn
    · refine ⟨[], level.take fanout, level.drop fanout, by simp, ?_,
        List.length_take_le _ _, by simp⟩
      rw [← List.length_pos_iff, List.length_take]
      omega
    · obtain ⟨before, group, after, heq, hne, hle, rfl⟩ := ih hn
      refine ⟨level.take fanout ++ before, group, after, ?_, hne, hle, ?_⟩
      · rw [List.append_assoc, List.append_assoc, ← List.append_assoc before, ← heq,
          List.take_append_drop]
      · have hlong : fanout ≤ level.length := by
          by_contra hshort
          rw [List.drop_eq_nil_of_le (by omega)] at heq
          simp_all
        rw [List.length_append, List.length_take, Nat.min_eq_left hlong, Nat.add_assoc]

/-- Packing in partitions of whole groups gives the same nodes as packing all at once. -/
theorem flatten_packGroups {groups : Nat} (hgroups : 0 < groups) (base : Nat) (l : List α) :
    ((groupsOf (groups * fanout) l).mapIdx fun i part =>
      packGroups node fanout (base + i * (groups * fanout)) part).flatten =
        packGroups node fanout base l := by
  have hpos : 0 < groups * fanout := Nat.mul_pos hgroups hfanout
  induction l using groups_induction hpos generalizing base with
  | nil => simp [groupsOf]
  | group l hl ih =>
    have hlpos := List.length_pos_iff.mpr hl
    have hshift : (fun i part => packGroups node fanout
        (base + (i + 1) * (groups * fanout)) part) = fun i part =>
        packGroups node fanout (base + groups * fanout + i * (groups * fanout)) part := by
      funext i part
      rw [Nat.succ_mul, Nat.add_assoc, Nat.add_comm (groups * fanout)]
    rw [groupsOf_eq_cons hpos hl, List.mapIdx_cons, List.flatten_cons, Nat.zero_mul,
      Nat.add_zero, hshift, ih]
    by_cases hle : groups * fanout ≤ l.length
    · have htake : (l.take (groups * fanout)).length = groups * fanout := by
        rw [List.length_take, Nat.min_eq_left hle]
      conv_rhs => rw [← List.take_append_drop (groups * fanout) l]
      rw [packGroups_append hfanout base groups _ _ htake, htake]
    · rw [List.take_of_length_le (by omega), List.drop_eq_nil_of_le (by omega)]
      simp

/-- The nodes of a packed level cover the positions of the level below it in order. -/
theorem flatMap_positions_packGroups {base : Nat} {level : List α}
    (hnode : ∀ start group, group.length ≤ fanout →
      (node start group).children = range start group.length)
    (hsize : base + level.length < UInt32.size) :
    (packGroups node fanout base level).flatMap (·.children.positions) =
      List.range' base level.length := by
  induction level using groups_induction hfanout generalizing base with
  | nil => simp
  | group level hlevel ih =>
    have hpos := List.length_pos_iff.mpr hlevel
    have htake : (level.take fanout).length = min fanout level.length := List.length_take
    have hstart : (UInt32.ofNat base).toNat = base := UInt32.toNat_ofNat_of_lt (by omega)
    have hcount : (UInt32.ofNat (level.take fanout).length).toNat = min fanout level.length := by
      rw [htake]
      exact UInt32.toNat_ofNat_of_lt (by omega)
    rw [packGroups_eq_cons hfanout hlevel, List.flatMap_cons,
      hnode _ _ (List.length_take_le _ _), range, ChildRange.positions, hstart, hcount]
    by_cases hle : fanout ≤ level.length
    · rw [ih (by rw [List.length_drop]; omega), List.length_drop, Nat.min_eq_left hle,
        List.range'_append_1, Nat.add_sub_cancel' hle]
    · rw [List.drop_eq_nil_of_le (by omega), packGroups_nil, Nat.min_eq_right (by omega)]
      simp

end Groups

/-- A partition holds at least one leaf. -/
theorem partitionSize_pos {p : Packing} (hfanout : 0 < p.fanout) (hthreads : 0 < p.threads)
    {entries : List Entry} (hentries : entries ≠ []) : 0 < p.partitionSize entries.length := by
  have hleaves : 0 < ceilDiv entries.length p.fanout :=
    ceilDiv_pos hfanout (List.length_pos_iff.mpr hentries)
  exact Nat.mul_pos (ceilDiv_pos hthreads hleaves) hfanout

/-- The leaves are the same whatever the number of partitions. -/
theorem leaves_eq_packLeaves (p : Packing) (hfanout : 0 < p.fanout) (entries : List Entry) :
    p.leaves entries = packLeaves p.fanout 0 entries := by
  unfold leaves
  split
  · rfl
  · rename_i hmany
    by_cases hentries : entries = []
    · subst hentries
      simp [groupsOf, packLeaves]
    · have hpos := List.length_pos_iff.mpr hentries
      have hgroups : 0 < ceilDiv (ceilDiv entries.length p.fanout) p.threads :=
        ceilDiv_pos (by omega) (ceilDiv_pos hfanout hpos)
      have h := @flatten_packGroups _ leaf _ hfanout _ hgroups 0 entries
      simp only [Nat.zero_add] at h
      exact h

/-- There are as many leaves as it takes to hold the entries. -/
theorem length_leaves (p : Packing) (hfanout : 0 < p.fanout) (entries : List Entry) :
    (p.leaves entries).length = ceilDiv entries.length p.fanout := by
  rw [leaves_eq_packLeaves p hfanout, packLeaves, length_packGroups hfanout]

section Bounds

variable {fanout : Nat} (hfanout : 2 ≤ fanout)

include hfanout

/-- Groups of two or more halve the bound of a power of two. -/
theorem ceilDiv_le_two_pow {n j : Nat} (hn : n ≤ 2 ^ (j + 1)) : ceilDiv n fanout ≤ 2 ^ j := by
  rw [ceilDiv_le_iff (by omega)]
  exact Nat.le_trans hn (Nat.mul_le_mul_left (2 ^ j) hfanout)

/-- The level and the ones above it: what `levels` gives when there is a level above. -/
theorem levels_eq_above {base : Nat} {level : List Node} (hlevel : 2 ≤ level.length) :
    levels fanout base level =
      (level ++ (levels fanout (base + level.length) (packParents fanout base level)).1,
        (levels fanout (base + level.length) (packParents fanout base level)).2 + 1) := by
  conv_lhs => rw [levels]
  rw [dif_pos ⟨hfanout, hlevel⟩]

omit hfanout in
/-- A single node has no level above it. -/
theorem levels_eq_self {base : Nat} {level : List Node} (hlevel : level.length < 2) :
    levels fanout base level = (level, 1) := by
  rw [levels, dif_neg (by omega)]

/-- The lowest level comes first. -/
theorem exists_levels_eq (base : Nat) (level : List Node) :
    ∃ above, (levels fanout base level).1 = level ++ above := by
  by_cases hlevel : 2 ≤ level.length
  · rw [levels_eq_above hfanout hlevel]
    exact ⟨_, rfl⟩
  · rw [levels_eq_self (by omega)]
    exact ⟨[], (List.append_nil level).symm⟩

/-- There is at least one level. -/
theorem height_levels_pos (base : Nat) (level : List Node) : 0 < (levels fanout base level).2 := by
  by_cases hlevel : 2 ≤ level.length
  · rw [levels_eq_above hfanout hlevel]
    exact Nat.succ_pos _
  · rw [levels_eq_self (by omega)]
    exact Nat.one_pos

/-- A level of two or more nodes has fewer parents. -/
theorem length_packParents_lt (base : Nat) {level : List Node} (hlevel : 2 ≤ level.length) :
    (packParents fanout base level).length < level.length := by
  rw [packParents, packGroups, List.length_mapIdx]
  exact groupsOf_length_lt hfanout level hlevel

/-- What holds of a single node, and of a level if it holds of the level above, holds of every
level. -/
@[elab_as_elim]
theorem levels_induction {motive : Nat → List Node → Prop}
    (single : ∀ base level, level.length < 2 → motive base level)
    (above : ∀ base level, 2 ≤ level.length →
      motive (base + level.length) (packParents fanout base level) → motive base level)
    (base : Nat) (level : List Node) : motive base level := by
  induction hlen : level.length using Nat.strongRecOn generalizing base level with
  | ind len ih =>
    by_cases hlong : 2 ≤ level.length
    · exact above base level hlong
        (ih _ (hlen ▸ length_packParents_lt hfanout base hlong) _ _ rfl)
    · exact single base level (by omega)

/-- All levels together have fewer nodes than twice the bound of the lowest, and each level above
the lowest halves the bound. -/
theorem length_levels_le {j base : Nat} {level : List Node} (hlevel : level.length ≤ 2 ^ j) :
    (levels fanout base level).1.length < 2 ^ (j + 1) ∧ (levels fanout base level).2 ≤ j + 1 := by
  induction j generalizing base level with
  | zero =>
    rw [levels_eq_self (by omega)]
    exact ⟨by show level.length < _; omega, Nat.le_refl _⟩
  | succ j ih =>
    by_cases hlong : 2 ≤ level.length
    · have habove : (packParents fanout base level).length ≤ 2 ^ j := by
        rw [packParents, length_packGroups (by omega)]
        exact ceilDiv_le_two_pow hfanout hlevel
      obtain ⟨hnodes, hheight⟩ := @ih (base + level.length) _ habove
      rw [levels_eq_above hfanout hlong, List.length_append, Nat.pow_succ]
      exact ⟨by omega, by omega⟩
    · rw [levels_eq_self (by omega), Nat.pow_succ]
      have := Nat.two_pow_pos (j + 1)
      exact ⟨by show level.length < _; omega, Nat.le_add_left _ _⟩

end Bounds

end Packing

end SpatialIndex
