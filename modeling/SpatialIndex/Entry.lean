import SpatialIndex.Box

/-!
# Entries and their order

An entry is what the index keeps of one row.  Before packing, entries are put in the order of one
coordinate; entries with equal coordinates stay in the order in which they came, so the outcome is
determined by the list alone.
-/

namespace SpatialIndex

/-- Row ids as the index and its image keep them. -/
abbrev RowId := Int64

/-- The box of one row's key, with the row's id. -/
structure Entry where
  /-- The box around the key. -/
  box : Box
  /-- The row. -/
  row : RowId
deriving DecidableEq

/-- Numeric equality of the box, for the same row. -/
def Entry.equiv (a b : Entry) : Bool := a.box.equiv b.box && a.row == b.row

/-- The coordinate that orders entries. -/
inductive SortKey
  /-- The left side of the box. -/
  | minX
  /-- The first coordinate of the middle of the box. -/
  | centerX
deriving DecidableEq

namespace SortKey

/-- The coordinate of one entry. -/
def value (key : SortKey) (entry : Entry) : Single :=
  match key with
  | .minX => entry.box.minX
  | .centerX => Box.middle entry.box.minX entry.box.maxX

/-- The entries in ascending order of their coordinate, equal ones in their given order.  The
coordinate of an entry is computed once. -/
def sort (key : SortKey) (entries : List Entry) : List Entry :=
  let placed := entries.map fun entry => ((key.value entry).totalKey, entry)
  (placed.mergeSort fun a b => a.1 ≤ b.1).map (·.2)

/-- Computing the coordinates beforehand does not change the order. -/
theorem sort_eq_mergeSort (key : SortKey) (entries : List Entry) :
    key.sort entries =
      entries.mergeSort fun a b => (key.value a).totalKey ≤ (key.value b).totalKey := by
  unfold sort
  rw [List.map_mergeSort (r := fun a b : Int × Entry => decide (a.1 ≤ b.1))
    (s := fun a b => decide ((key.value a).totalKey ≤ (key.value b).totalKey))]
  · simp [Function.comp_def]
  · simp

/-- Each coordinate is at most the next one. -/
def isSorted (key : SortKey) : List Entry → Bool
  | a :: b :: rest => (key.value a).le (key.value b) && isSorted key (b :: rest)
  | _ => true

end SortKey

end SpatialIndex
