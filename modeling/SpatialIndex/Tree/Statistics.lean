import SpatialIndex.Tree.Basic

/-!
# The shape of a tree in figures
-/

namespace SpatialIndex

/-- How large a tree is. -/
structure Statistics where
  /-- How many entries it holds. -/
  entries : Nat
  /-- How many nodes it has. -/
  nodes : Nat
  /-- How many of them are leaves with entries. -/
  leaves : Nat
  /-- How many levels it has. -/
  height : UInt32
  /-- The most children of a node. -/
  fanout : UInt64
deriving DecidableEq

/-- The figures of a tree. -/
def Tree.statistics (t : Tree) : Statistics where
  entries := t.size
  nodes := t.nodes.size
  leaves := t.nodes.toList.countP fun node => node.isLeaf && node.children.len != 0
  height := t.height
  fanout := t.fanout

namespace Statistics

/-- The mean number of entries in a leaf, zero when there is none. -/
def leafFill (s : Statistics) : Double :=
  if s.leaves = 0 then .zero
  else (Binary.ofInt s.entries).div (.ofInt s.leaves)

/-- The figures in one line. -/
def text (s : Statistics) : String :=
  s!"entries={s.entries} nodes={s.nodes} leaves={s.leaves} height={s.height} fanout={s.fanout}"

end Statistics

end SpatialIndex
