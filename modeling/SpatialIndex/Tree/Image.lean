import SpatialIndex.Tree.Validate

/-!
# Images of trees

An image is a tree as bytes: a mark, a version, and the parts of the tree one after the other,
numbers with their lowest byte first and arrays with their length in front.  Reading takes back
exactly what writing gives, ignores bytes after it, and lets in only trees whose structure is
sound.
-/

namespace SpatialIndex

/-- A reader takes a value off the front of the bytes. -/
abbrev ByteReader (α : Type) := StateT (List UInt8) Option α

namespace Image

/-- The bytes of a number, lowest first. -/
def numberBytes : (count : Nat) → Nat → List UInt8
  | 0, _ => []
  | count + 1, n => .ofNat n :: numberBytes count (n / 256)

/-- The number that bytes stand for, lowest first. -/
def numberOfBytes : List UInt8 → Nat
  | [] => 0
  | byte :: rest => byte.toNat + 256 * numberOfBytes rest

/-- Takes a number of the given count of bytes. -/
def number (count : Nat) : ByteReader Nat := fun bytes =>
  let front := bytes.take count
  if front.length = count then some (numberOfBytes front, bytes.drop count) else none

/-- The four bytes of a side. -/
def singleBytes (x : Single) : List UInt8 := numberBytes 4 x.bits.toNat

/-- Takes a side. -/
def single : ByteReader Single := return ⟨.ofNat _ (← number 4)⟩

/-- The byte of a truth value. -/
def boolByte (b : Bool) : UInt8 := if b then 1 else 0

/-- Takes a truth value; no byte but those of the two values is one. -/
def bool : ByteReader Bool := fun
  | 0 :: rest => some (false, rest)
  | 1 :: rest => some (true, rest)
  | _ => none

/-- The bytes of a box. -/
def boxBytes (b : Box) : List UInt8 :=
  singleBytes b.minX ++ singleBytes b.minY ++ singleBytes b.maxX ++ singleBytes b.maxY

/-- Takes a box. -/
def box : ByteReader Box := return ⟨← single, ← single, ← single, ← single⟩

/-- The bytes of a node. -/
def nodeBytes (n : Node) : List UInt8 :=
  boxBytes n.box ++ numberBytes 4 n.children.start.toNat ++ numberBytes 4 n.children.len.toNat ++
    [boolByte n.isLeaf] ++ numberBytes 8 n.count.toNat

/-- Takes a node. -/
def node : ByteReader Node := do
  let box ← box
  let start ← number 4
  let len ← number 4
  let isLeaf ← bool
  let count ← number 8
  return ⟨box, ⟨.ofNat start, .ofNat len⟩, isLeaf, .ofNat count⟩

/-- The bytes of an entry. -/
def entryBytes (e : Entry) : List UInt8 :=
  boxBytes e.box ++ numberBytes 8 e.row.toUInt64.toNat

/-- Takes an entry. -/
def entry : ByteReader Entry := do
  let box ← box
  let row ← number 8
  return ⟨box, (UInt64.ofNat row).toInt64⟩

/-- Takes as many values as asked for. -/
def values {α : Type} (value : ByteReader α) : (count : Nat) → ByteReader (List α)
  | 0 => return []
  | count + 1 => do
    let first ← value
    return first :: (← values value count)

/-- The bytes of a list, its length in front. -/
def listBytes {α : Type} (bytes : α → List UInt8) (l : List α) : List UInt8 :=
  numberBytes 8 l.length ++ l.flatMap bytes

/-- Takes a list. -/
def list {α : Type} (value : ByteReader α) : ByteReader (List α) := do
  values value (← number 8)

/-- The bytes of the parts of a tree. -/
def bodyBytes (t : Tree) : List UInt8 :=
  listBytes nodeBytes t.nodes.toList ++ listBytes entryBytes t.entries.toList ++
    numberBytes 4 t.root.toNat ++ numberBytes 4 t.height.toNat ++ numberBytes 8 t.fanout.toNat

/-- Takes the parts of a tree. -/
def body : ByteReader Tree := do
  let nodes ← list node
  let entries ← list entry
  let root ← number 4
  let height ← number 4
  let fanout ← number 8
  return ⟨nodes.toArray, entries.toArray, .ofNat root, .ofNat height, .ofNat fanout⟩

/-- The bytes that every image begins with. -/
def mark : List UInt8 := "GEOSCAN_RTREE".toUTF8.toList

/-- The one version of the format. -/
def version : UInt8 := 1

end Image

/-- Why bytes are not the image of a tree. -/
inductive ImageFault
  /-- The mark or the version is missing, or the tree is not sound. -/
  | invalid
  /-- The parts of the tree end early, or a truth value is neither. -/
  | unreadable

/-- The image of a tree. -/
def Tree.toImage (t : Tree) : List UInt8 := Image.mark ++ Image.version :: Image.bodyBytes t

/-- The tree of an image. -/
def Tree.ofImage (bytes : List UInt8) : Except ImageFault Tree :=
  match Image.mark.isPrefixOf? bytes with
  | some (version :: rest) =>
    if version ≠ Image.version then .error .invalid
    else
      match Image.body rest with
      | none => .error .unreadable
      | some (t, _) =>
        match t.validate with
        | .ok () => .ok t
        | .error _ => .error .invalid
  | _ => .error .invalid

end SpatialIndex
