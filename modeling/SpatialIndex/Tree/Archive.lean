import SpatialIndex.Error

/-!
# Images kept by name

An archive is a directory of images that has no directories in it.  An image is written under a
provisional name and then renamed, so nobody ever reads half of one, and a file that had the
provisional name is gone afterwards.  Where the renaming cannot succeed the image stays behind under
the provisional name.
-/

namespace SpatialIndex

/-- Images by file name. -/
structure Archive where
  /-- The files, each name once. -/
  files : List (String × List UInt8) := []

namespace Archive

/-- Where a path leads, seen from the directory. -/
inductive Target
  /-- To a file that is there or may be made. -/
  | file (name : String)
  /-- To a file as if it were a directory, by a stroke or a dot after its name. -/
  | inside (name : String)
  /-- To the directory itself, out of it, or to a directory that is not there. -/
  | elsewhere
deriving DecidableEq

/-- The most bytes of a file name. -/
def maxNameBytes : Nat := 255

/-- A part of a path that can be the name of a file. -/
def isName (part : String) : Bool :=
  part != ".." && !part.toList.contains '\x00' && part.utf8ByteSize ≤ maxNameBytes

/-- Where a path leads.  Empty parts and single dots stay where they are; since the directory has
none in it, only a path with one other part leads to a file. -/
def target (path : String) : Target :=
  let parts := path.toList.splitOn '/' |>.map String.ofList
  match parts.filter fun part => part != "" && part != "." with
  | [name] =>
    if !isName name || path.toList.head? = some '/' then .elsewhere
    else if parts.getLast? = some name then .file name
    else .inside name
  | _ => .elsewhere

/-- The name under which an image is written before it is renamed. -/
def provisional (name : String) : String := name ++ ".tmp"

/-- The archive without a file. -/
def erase (a : Archive) (name : String) : Archive := ⟨a.files.filter (·.1 != name)⟩

/-- The archive with an image under a name, in place of the one that had it. -/
def insert (a : Archive) (name : String) (image : List UInt8) : Archive :=
  ⟨(name, image) :: (a.erase name).files⟩

/-- There is a file at the end of the path. -/
def contains (a : Archive) (path : String) : Bool :=
  match target path with
  | .file name => (a.files.lookup name).isSome
  | _ => false

/-- Writes the image of a tree; the archive afterwards, and whether the image is at the end of the
path. -/
def save (a : Archive) (path : String) (t : Tree) : Archive × Except Error Unit :=
  match target path with
  | .file name =>
    if isName (provisional name) then
      ((a.erase (provisional name)).insert name t.toImage, .ok ())
    else (a, .error .unavailableFile)
  | .inside name =>
    (if isName (provisional name) then a.insert (provisional name) t.toImage else a,
      .error .unavailableFile)
  | .elsewhere => (a, .error .unavailableFile)

/-- The tree whose image is at the end of the path. -/
def load (a : Archive) (path : String) : Except Error Tree :=
  match target path with
  | .file name =>
    match a.files.lookup name with
    | some image => (Tree.ofImage image).mapError .image
    | none => .error .unavailableFile
  | _ => .error .unavailableFile

end Archive

end SpatialIndex
