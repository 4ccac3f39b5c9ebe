import SpatialIndex.Entry

/-!
# Trees in an arena

The nodes of a tree lie in one array and its entries in another.  A node names its children by a
range of positions: a leaf has a run of entries, any other node a run of nodes.  Nothing here
assumes that the ranges are sensible; `Tree.validate` decides that, and packing establishes it.
-/

namespace SpatialIndex

/-- The position of a node in the arena. -/
abbrev NodeId := UInt32

/-- A run of positions. -/
structure ChildRange where
  /-- The first position. -/
  start : UInt32
  /-- How many positions there are. -/
  len : UInt32
deriving DecidableEq

namespace ChildRange

/-- The position after the last one. -/
def stop (range : ChildRange) : Nat := range.start.toNat + range.len.toNat

/-- The positions of the range in order. -/
def positions (range : ChildRange) : List Nat := List.range' range.start.toNat range.len.toNat

end ChildRange

/-- A node of a tree. -/
structure Node where
  /-- The box around all children. -/
  box : Box
  /-- Entries for a leaf, nodes otherwise. -/
  children : ChildRange
  /-- The children are entries. -/
  isLeaf : Bool
  /-- How many entries lie below the node. -/
  count : UInt64
deriving DecidableEq

/-- Numeric equality of the box, and equality of the rest. -/
def Node.equiv (a b : Node) : Bool :=
  a.box.equiv b.box && a.children == b.children && a.isLeaf == b.isLeaf && a.count == b.count

/-- How many entries lie below several nodes together. -/
def Node.totalCount (nodes : List Node) : UInt64 :=
  nodes.foldr (fun node total => node.count + total) 0

/-- How many entries lie below several nodes together, as a number without an upper bound. -/
def Node.entryTotal (nodes : List Node) : Nat :=
  nodes.foldr (fun node total => node.count.toNat + total) 0

/-- A tree given by its parts. -/
structure Tree where
  /-- The arena of nodes. -/
  nodes : Array Node
  /-- The entries, in the order of the leaves that hold them when the tree was packed. -/
  entries : Array Entry
  /-- The position of the root. -/
  root : NodeId
  /-- The number of levels; a single leaf has one. -/
  height : UInt32
  /-- The most children that a node may have. -/
  fanout : UInt64
deriving DecidableEq

namespace Tree

/-- The tree without entries: one empty leaf. -/
def empty (fanout : UInt64) : Tree where
  nodes := #[⟨.empty, ⟨0, 0⟩, true, 0⟩]
  entries := #[]
  root := 0
  height := 1
  fanout := fanout

/-- Numeric equality of all boxes, and equality of the rest. -/
def equiv (a b : Tree) : Bool :=
  a.nodes.size == b.nodes.size &&
  (a.nodes.toList.zip b.nodes.toList).all (fun (x, y) => x.equiv y) &&
  a.entries.size == b.entries.size &&
  (a.entries.toList.zip b.entries.toList).all (fun (x, y) => x.equiv y) &&
  a.root == b.root && a.height == b.height && a.fanout == b.fanout

/-- The node at a position. -/
def node? (t : Tree) (id : NodeId) : Option Node := t.nodes[id.toNat]?

/-- The root, if its position lies in the arena. -/
def rootNode? (t : Tree) : Option Node := t.node? t.root

/-- How many entries the tree holds. -/
def size (t : Tree) : Nat := t.entries.size

/-- The tree holds no entry. -/
def isEmpty (t : Tree) : Bool := t.size = 0

/-- The box of the root. -/
def bounds (t : Tree) : Box := (t.rootNode?.map (·.box)).getD .empty

/-- The nodes below an inner node; a leaf has none. -/
def childNodes (t : Tree) (node : Node) : List Node :=
  if node.isLeaf then []
  else (t.nodes.extract node.children.start.toNat node.children.stop).toList

/-- The entries of a leaf; an inner node has none. -/
def leafEntries (t : Tree) (node : Node) : List Entry :=
  if node.isLeaf then
    (t.entries.extract node.children.start.toNat node.children.stop).toList
  else []

/-- The rows of every leaf that holds any, leaf by leaf in the order of the arena. -/
def leafGroups (t : Tree) : List (List RowId) :=
  (t.nodes.toList.filter (·.isLeaf)).map (fun leaf => (t.leafEntries leaf).map (·.row))
    |>.filter (!·.isEmpty)

end Tree

end SpatialIndex
