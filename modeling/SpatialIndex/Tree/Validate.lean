import SpatialIndex.Tree.Basic

/-!
# Checking the structure of a tree

`Tree.validate` accepts a tree when every node and every entry is reached from the root exactly
once, along ranges that lie in the arena before their node, with all leaves on the lowest level,
and when every node's box and count are those of its children.  The walk goes down one level at a
time, so it ends whatever the arena holds.
-/

namespace SpatialIndex

/-- The fewest children a tree may be packed with. -/
def minFanout : Nat := 2

/-- The most children a tree may be packed with. -/
def maxFanout : Nat := 1024

/-- A fanout that trees may be packed with. -/
def isFanout (fanout : Nat) : Bool := minFanout ≤ fanout && fanout ≤ maxFanout

/-- The most levels a tree can have: two children a node over as many entries as 32 bits count. -/
def maxHeight : Nat := 33

/-- What is wrong with the structure of a tree. -/
inductive Violation
  /-- The root is not a position of the arena. -/
  | noRoot
  /-- A tree without entries has more than one empty leaf. -/
  | emptyWithNodes
  /-- The fanout is not one that trees are packed with. -/
  | fanoutOutOfRange (fanout : UInt64)
  /-- The height is zero or larger than any packed tree's. -/
  | heightOutOfRange (height : UInt32)
  /-- A child is not a position of the arena. -/
  | nodeOutOfBounds (id : Nat)
  /-- A node is the child of two nodes. -/
  | nodeReachedTwice (id : Nat)
  /-- A node has no children. -/
  | noChildren (id : Nat)
  /-- A node has more children than the fanout allows. -/
  | tooManyChildren (id count : Nat) (fanout : UInt64)
  /-- A leaf lies above the lowest level. -/
  | leafDepth (id depth expected : Nat)
  /-- The children of a leaf are not positions of entries. -/
  | entriesOutOfBounds (id : Nat)
  /-- An entry belongs to two leaves. -/
  | entryReachedTwice (entry id : Nat)
  /-- A node that is no leaf lies on the lowest level. -/
  | innerDepth (id depth expected : Nat)
  /-- The children of a node do not all come before it. -/
  | childrenAfterParent (id start stop : Nat)
  /-- A node's box is not the union of its children's. -/
  | wrongBox (id : Nat) (box union : Box)
  /-- A node's count is not the sum of its children's. -/
  | wrongCount (id : Nat) (count : UInt64) (total : Nat)
  /-- Some nodes are never reached. -/
  | unreachedNodes (reached total : Nat)
  /-- Some entries are never reached. -/
  | unreachedEntries (reached total : Nat)

/-- The violation in words. -/
def Violation.message : Violation → String
  | noRoot => "R-tree has no root node"
  | emptyWithNodes => "Empty R-tree must consist of a single empty leaf"
  | fanoutOutOfRange fanout => s!"R-tree fanout {fanout} out of range"
  | heightOutOfRange height => s!"R-tree height {height} out of range"
  | nodeOutOfBounds id => s!"Node {id} out of bounds"
  | nodeReachedTwice id => s!"Node {id} reached twice"
  | noChildren id => s!"Node {id} has no children"
  | tooManyChildren id count fanout => s!"Node {id} has {count} children, fanout is {fanout}"
  | leafDepth id depth expected => s!"Leaf {id} at depth {depth}, expected {expected}"
  | entriesOutOfBounds id => s!"Leaf {id} entry range out of bounds"
  | entryReachedTwice entry id => s!"Entry {entry} reached twice, again from leaf {id}"
  | innerDepth id depth expected =>
    s!"Internal node {id} at depth {depth}, leaves expected at {expected}"
  | childrenAfterParent id start stop =>
    s!"Node {id} child range {start}..{stop} does not precede it"
  | wrongBox id box union =>
    s!"Node {id} bbox {box.text} differs from union of children {union.text}"
  | wrongCount id count total =>
    s!"Node {id} count {count} differs from children total {total}"
  | unreachedNodes reached total => s!"{reached} of {total} nodes reachable from the root"
  | unreachedEntries reached total => s!"{reached} of {total} entries reachable from the root"

namespace Tree

/-- The positions that a walk has reached so far. -/
structure Marks where
  /-- One mark for each node. -/
  nodes : Array Bool
  /-- One mark for each entry. -/
  entries : Array Bool

/-- No position has been reached. -/
def Marks.none (t : Tree) : Marks :=
  ⟨Array.replicate t.nodes.size false, Array.replicate t.entries.size false⟩

/-- Marks the given entries, each of which must be new. -/
def markEntries (id : Nat) : List Nat → Array Bool → Except Violation (Array Bool)
  | [], marks => .ok marks
  | entry :: rest, marks =>
    if marks[entry]?.getD false then .error (.entryReachedTwice entry id)
    else markEntries id rest (marks.setIfInBounds entry true)

/-- Compares what a node says of its children with what they are. -/
def checkSummary (id : Nat) (node : Node) (union : Box) (total : Nat) :
    Except Violation Unit :=
  if !union.equiv node.box then .error (.wrongBox id node.box union)
  else if node.count.toNat ≠ total then .error (.wrongCount id node.count total)
  else .ok ()

/-- Checks a leaf and marks its entries. -/
def checkLeaf (t : Tree) (id : Nat) (node : Node) (marks : Marks) : Except Violation Marks :=
  if t.entries.size < node.children.stop then .error (.entriesOutOfBounds id)
  else do
    let entries ← markEntries id node.children.positions marks.entries
    let held := t.leafEntries node
    checkSummary id node (.unionAll (held.map (·.box))) held.length
    return { marks with entries }

/-- Checks one node and all below it, `below` levels above the lowest one, and marks what it
reaches. -/
def checkNode (t : Tree) : (below : Nat) → (id : Nat) → Marks → Except Violation Marks
  | below, id, marks =>
    match t.nodes[id]? with
    | none => .error (.nodeOutOfBounds id)
    | some node =>
      let lowest := t.height.toNat - 1
      if marks.nodes[id]?.getD false then .error (.nodeReachedTwice id)
      else
        let marks := { marks with nodes := marks.nodes.setIfInBounds id true }
        if node.children.len = 0 then .error (.noChildren id)
        else if t.fanout.toNat < node.children.len.toNat then
          .error (.tooManyChildren id node.children.len.toNat t.fanout)
        else if node.isLeaf then
          if below ≠ 0 then .error (.leafDepth id (lowest - below) lowest)
          else checkLeaf t id node marks
        else
          match below with
          | 0 => .error (.innerDepth id lowest lowest)
          | below + 1 =>
            if id < node.children.stop then
              .error (.childrenAfterParent id node.children.start.toNat node.children.stop)
            else do
              let marks ← node.children.positions.foldlM (fun marks child =>
                checkNode t below child marks) marks
              let children := t.childNodes node
              checkSummary id node (.unionAll (children.map (·.box)))
                (Node.entryTotal children)
              return marks
termination_by structural below => below

/-- Decides whether the structure of the tree is sound, and names the first fault otherwise.  A
tree without entries is only asked to be a single empty leaf. -/
def validate (t : Tree) : Except Violation Unit :=
  match t.rootNode? with
  | none => .error .noRoot
  | some root =>
    if t.isEmpty then
      if root.isLeaf && root.children.len = 0 && t.nodes.size = 1 then .ok ()
      else .error .emptyWithNodes
    else if !isFanout t.fanout.toNat then .error (.fanoutOutOfRange t.fanout)
    else if t.height = 0 ∨ maxHeight < t.height.toNat then .error (.heightOutOfRange t.height)
    else do
      let marks ← checkNode t (t.height.toNat - 1) t.root.toNat (.none t)
      let nodes := marks.nodes.count true
      if nodes ≠ t.nodes.size then .error (.unreachedNodes nodes t.nodes.size)
      let entries := marks.entries.count true
      if entries ≠ t.entries.size then .error (.unreachedEntries entries t.entries.size)

end Tree

end SpatialIndex
