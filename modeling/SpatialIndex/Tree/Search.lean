import SpatialIndex.Tree.Basic

/-!
# Searching a tree by box

A search keeps the nodes that it has still to enter on a stack.  It enters the topmost one, finds
the matching entries there if it is a leaf and otherwise puts the children that the query meets on
top, leftmost first, so leaves are entered from left to right.
-/

namespace SpatialIndex

namespace Tree

/-- The children of an inner node whose box meets the query, by position from left to right. -/
def matchingChildren (t : Tree) (query : Box) (node : Node) : List NodeId :=
  ((node.children.positions.zip (t.childNodes node)).filter
    (fun (_, child) => child.box.intersects query)).map (fun (id, _) => .ofNat id)

/-- The rows of the entries of a leaf whose box meets the query. -/
def matchingRows (t : Tree) (query : Box) (node : Node) : List RowId :=
  ((t.leafEntries node).filter (·.box.intersects query)).map (·.row)

/-- Enters the topmost node of the stack: that node, and the stack afterwards.  There is nothing
to enter when the stack is empty or names no node. -/
def enter? (t : Tree) (query : Box) : List NodeId → Option (Node × List NodeId)
  | [] => none
  | id :: rest => (t.node? id).map fun node => (node, t.matchingChildren query node ++ rest)

/-- The nodes entered from a stack in at most `fuel` steps, and the stack that is left. -/
def run (t : Tree) (query : Box) : (fuel : Nat) → List NodeId → List Node × List NodeId
  | 0, stack => ([], stack)
  | fuel + 1, stack =>
    match t.enter? query stack with
    | none => ([], stack)
    | some (node, stack) =>
      let (entered, left) := t.run query fuel stack
      (node :: entered, left)

/-- The stack a search begins with: the root if the query is valid and meets its box. -/
def searchStack (t : Tree) (query : Box) : List NodeId :=
  if query.isValid && !t.isEmpty && t.bounds.intersects query then [t.root] else []

/-- The nodes that a search enters, in order.  A sound tree is entered at most once at each
node. -/
def entered (t : Tree) (query : Box) : List Node :=
  (t.run query t.nodes.size (t.searchStack query)).1

/-- The rows of all entries whose box meets the query, from left to right.  A query that is not
valid finds nothing. -/
def search (t : Tree) (query : Box) : List RowId :=
  (t.entered query).flatMap (t.matchingRows query)

/-- How many entries a search finds. -/
def countIntersecting (t : Tree) (query : Box) : Nat := (t.search query).length

/-- An upper bound for the number of matches, read off the root and its children alone. -/
def estimate (t : Tree) (query : Box) : UInt64 :=
  if t.isEmpty || !query.isValid then 0
  else
    match t.rootNode? with
    | none => 0
    | some root =>
      if root.isLeaf then (if root.box.intersects query then root.count else 0)
      else Node.totalCount ((t.childNodes root).filter (·.box.intersects query))

end Tree

end SpatialIndex
