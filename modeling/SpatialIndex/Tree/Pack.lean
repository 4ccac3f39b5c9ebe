import SpatialIndex.Tree.Validate

/-!
# Packing entries into a tree

Entries are cut into consecutive groups of at most `fanout`, one leaf for each group, and the
nodes of a level are cut the same way into the children of the level above, until one node is
left.  Levels are laid out one after the other from the lowest up, so children come before their
parent and the root comes last.  Leaves may be packed in several partitions; partitions begin at
group boundaries, so their leaves put together are the leaves of the whole.
-/

namespace SpatialIndex

/-- A list cut into consecutive groups of the given size, the last one possibly shorter.  A size
of zero counts as one. -/
def groupsOf {α : Type} (size : Nat) : List α → List (List α)
  | [] => []
  | a :: rest => (a :: rest.take (size - 1)) :: groupsOf size (rest.drop (size - 1))
termination_by l => l.length

/-- The least number of groups of the given size that hold `n` members. -/
def ceilDiv (n size : Nat) : Nat := (n + size - 1) / size

/-- Cutting a list of several members into groups of two or more gives fewer groups than members. -/
theorem groupsOf_length_lt {α : Type} {size : Nat} (hsize : 2 ≤ size) :
    ∀ l : List α, 2 ≤ l.length → (groupsOf size l).length < l.length := by
  have hle : ∀ n (l : List α), l.length ≤ n → (groupsOf size l).length ≤ l.length := by
    intro n
    induction n with
    | zero =>
      intro l hl
      have : l = [] := List.eq_nil_of_length_eq_zero (by omega)
      subst this
      simp [groupsOf]
    | succ n ih =>
      intro l hl
      cases l with
      | nil => simp [groupsOf]
      | cons a rest =>
        have := ih (rest.drop (size - 1)) (by simp at hl ⊢; omega)
        simp only [groupsOf, List.length_cons, List.length_drop] at this ⊢
        omega
  intro l hl
  match l, hl with
  | a :: b :: rest, _ =>
    have := hle _ ((b :: rest).drop (size - 1)) (Nat.le_refl _)
    simp only [groupsOf, List.length_cons, List.length_drop] at this ⊢
    omega

/-- How entries are packed. -/
structure Packing where
  /-- The most children of a node. -/
  fanout : Nat
  /-- In how many partitions leaves may be packed; none counts as one. -/
  threads : Nat
  /-- With fewer entries than this, leaves are packed in one partition. -/
  parallelThreshold : Nat
  /-- The coordinate that orders entries. -/
  sortKey : SortKey

/-- Why entries cannot be packed. -/
inductive PackingFault
  /-- The fanout is not one that trees are packed with. -/
  | fanoutOutOfRange (fanout : Nat)
  /-- There are more entries than positions. -/
  | tooMany (count : Nat)
  /-- The box of an entry is not valid. -/
  | invalidBox (row : RowId) (box : Box)

/-- The fault in words. -/
def PackingFault.message : PackingFault → String
  | fanoutOutOfRange fanout =>
    s!"Fanout must be between {minFanout} and {maxFanout}, got: {fanout}"
  | tooMany count => s!"Cannot index {count} entries, the limit is {UInt32.size - 1}"
  | invalidBox row box => s!"Entry for row {row} has invalid bounding box {box.text}"

namespace Packing

/-- The range of `len` positions from `start` on. -/
def range (start len : Nat) : ChildRange := ⟨.ofNat start, .ofNat len⟩

/-- A leaf over entries that begin at the position `start`. -/
def leaf (start : Nat) (group : List Entry) : Node where
  box := .unionAll (group.map (·.box))
  children := range start group.length
  isLeaf := true
  count := .ofNat group.length

/-- An inner node over nodes that begin at the position `start`. -/
def parent (start : Nat) (group : List Node) : Node where
  box := .unionAll (group.map (·.box))
  children := range start group.length
  isLeaf := false
  count := Node.totalCount group

/-- One node for each group of a level that begins at the position `base`. -/
def packGroups {α : Type} (node : Nat → List α → Node) (fanout base : Nat) (level : List α) :
    List Node :=
  (groupsOf fanout level).mapIdx fun i group => node (base + i * fanout) group

/-- The leaves over entries that begin at the position `base`. -/
def packLeaves (fanout base : Nat) (entries : List Entry) : List Node :=
  packGroups leaf fanout base entries

/-- The parents of nodes that begin at the position `base`. -/
def packParents (fanout base : Nat) (level : List Node) : List Node :=
  packGroups parent fanout base level

/-- The entries of one partition: as many whole groups as an even share of the leaves needs. -/
def partitionSize (p : Packing) (count : Nat) : Nat :=
  ceilDiv (ceilDiv count p.fanout) p.threads * p.fanout

/-- All leaves, packed in one partition or in several. -/
def leaves (p : Packing) (entries : List Entry) : List Node :=
  if p.threads ≤ 1 ∨ entries.length < p.parallelThreshold then packLeaves p.fanout 0 entries
  else
    let size := p.partitionSize entries.length
    ((groupsOf size entries).mapIdx fun i part => packLeaves p.fanout (i * size) part).flatten

/-- A level that begins at the position `base`, all levels above it, and how many levels that
makes. -/
def levels (fanout base : Nat) (level : List Node) : List Node × Nat :=
  if _ : 2 ≤ fanout ∧ 2 ≤ level.length then
    let (above, height) := levels fanout (base + level.length) (packParents fanout base level)
    (level ++ above, height + 1)
  else (level, 1)
termination_by level.length
decreasing_by
  rename_i h
  simp only [packParents, packGroups, List.length_mapIdx]
  exact groupsOf_length_lt h.1 _ h.2

/-- Packs entries in the order in which they come. -/
def packSorted (p : Packing) (entries : List Entry) : Except PackingFault Tree :=
  if !isFanout p.fanout then .error (.fanoutOutOfRange p.fanout)
  else if UInt32.size ≤ entries.length then .error (.tooMany entries.length)
  else
    match entries.find? (!·.box.isValid) with
    | some bad => .error (.invalidBox bad.row bad.box)
    | none =>
      if entries.isEmpty then .ok (.empty (.ofNat p.fanout))
      else
        let (nodes, height) := levels p.fanout 0 (p.leaves entries)
        .ok {
          nodes := nodes.toArray
          entries := entries.toArray
          root := .ofNat (nodes.length - 1)
          height := .ofNat height
          fanout := .ofNat p.fanout }

/-- Puts entries in order and packs them. -/
def pack (p : Packing) (entries : List Entry) : Except PackingFault Tree :=
  p.packSorted (p.sortKey.sort entries)

end Packing

end SpatialIndex
