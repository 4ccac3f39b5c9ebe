import SpatialIndex.Expression.Evaluate
import SpatialIndex.Table.Storage
import Mathlib.Data.List.Nodup
import Mathlib.Data.List.Perm.Basic
import SpatialIndex.Proofs.Outcome

/-!
# Reading rows by id

The id of a row finds the row again as long as all ids fit their type, so fetching the ids of some
rows gives what a scan of all rows gives of them.
-/

namespace SpatialIndex

/-- What is first found at a place is there. -/
theorem getElem?_of_idxOf? {α : Type} [BEq α] [LawfulBEq α] {l : List α} {a : α} {i : Nat}
    (h : l.idxOf? a = some i) : l[i]? = some a := by
  obtain ⟨hlt, hget, _⟩ := List.idxOf?_eq_some_iff.mp h
  rw [List.getElem?_eq_getElem hlt, hget]

/-- What a list has is found at its first place. -/
theorem idxOf?_eq_ite {α : Type} [DecidableEq α] (l : List α) (a : α) :
    l.idxOf? a = if a ∈ l then some (l.idxOf a) else none := by
  split
  · rename_i hmem
    obtain ⟨i, hi⟩ := Option.isSome_iff_exists.mp (List.isSome_idxOf?.mpr hmem)
    rw [List.idxOf_eq_getD_idxOf?, hi]
    rfl
  · rename_i hmissing
    exact List.idxOf?_eq_none_iff.mpr hmissing

/-- A row laid out in columns has at every place the value of the column there. -/
theorem valueAt_projectRow {columns : List Nat} {row out : Row}
    (h : projectRow columns row = .ok out) {place column : Nat}
    (hplace : columns[place]? = some column) : valueAt out place = valueAt row column := by
  have hforall := mapM_eq_ok_iff.mp h
  obtain ⟨hlt, rfl⟩ := List.getElem?_eq_some_iff.mp hplace
  have hlt' : place < out.length := hforall.length_eq ▸ hlt
  have hvalue := (List.forall₂_iff_get.mp hforall).2 place hlt hlt'
  rw [valueAt, valueAt, List.getElem?_eq_getElem hlt']
  simp only [List.get_eq_getElem] at hvalue
  split at hvalue
  · rename_i value hrow
    rw [hrow, Except.ok.inj hvalue]
  · cases hvalue

/-- A row that has been laid out has a value for each column asked for. -/
theorem length_projectRow {columns : List Nat} {row out : Row}
    (h : projectRow columns row = .ok out) : out.length = columns.length :=
  (mapM_eq_ok_iff.mp h).length_eq.symm

namespace Storage

variable {s : Storage} {columns : List Nat}

/-- The row, laid out in the given columns, if it has all of them. -/
def laidOut? (columns : List Nat) (row : Row) : Option Row := (projectRow columns row).toOption

/-- A row can be laid out when it has all the columns asked for. -/
theorem laidOut?_eq_some {row out : Row} :
    laidOut? columns row = some out ↔ projectRow columns row = .ok out := by
  unfold laidOut?
  cases projectRow columns row with
  | error e => simp [Except.toOption]
  | ok a => simp [Except.toOption]

/-- The step of reading one numbered row. -/
def layOut (columns : List Nat) (r : RowId × Row) : Except Error (RowId × Row) := do
  let row ← projectRow columns r.2
  return (r.1, row)

/-- Without their ids the numbered rows are the rows of the storage. -/
theorem map_snd_numbered (s : Storage) : s.numbered.map (·.2) = s.rows.toList := by
  rw [numbered, List.map_map]
  exact List.zipIdx_map_fst 0 s.rows.toList

/-- There are no more rows than ids, so that no two rows have the same id. -/
def FitsIds (s : Storage) : Prop := (s.rows.size : Int) ≤ Int64.maxValue.toInt

/-- The id of a row finds the row. -/
theorem row?_of_mem_numbered (hsize : s.FitsIds) {r : RowId × Row}
    (h : r ∈ s.numbered) : s.row? r.1 = some r.2 := by
  obtain ⟨⟨row, i⟩, hmem, rfl⟩ := List.mem_map.mp h
  have hrow : s.rows.toList[i]? = some row := by simpa using List.mem_zipIdx_iff_getElem?.mp hmem
  have hlt : i < s.rows.size := by simpa using (List.getElem?_eq_some_iff.mp hrow).1
  have hmax : Int64.maxValue.toInt = 9223372036854775807 := rfl
  have hint : (Int64.ofNat i).toInt = i := by
    unfold FitsIds at hsize
    exact Int64.toInt_ofNat_of_lt (by omega)
  have hnonneg : ¬Int64.ofNat i < 0 := by
    rw [Int64.lt_iff_toInt_lt, hint]
    simp
  rw [row?, if_neg hnonneg, hint, Int.toNat_natCast]
  simpa using hrow

/-- The ids of the rows count up from zero. -/
theorem map_fst_numbered (s : Storage) :
    s.numbered.map (·.1) = (List.range s.rows.size).map Int64.ofNat := by
  have hplaces := congrArg (List.map Int64.ofNat) (List.zipIdx_map_snd 0 s.rows.toList)
  rw [List.map_map, Array.length_toList, ← List.range_eq_range'] at hplaces
  rw [numbered, List.map_map, ← hplaces]
  rfl

/-- The ids of rows ascend. -/
theorem pairwise_ids (hsize : s.FitsIds) : (s.numbered.map (·.1)).Pairwise (· < ·) := by
  have hmax : Int64.maxValue.toInt = 9223372036854775807 := rfl
  unfold FitsIds at hsize
  rw [map_fst_numbered, List.pairwise_map]
  refine List.pairwise_lt_range.imp_of_mem fun {i j} hi hj hlt => ?_
  rw [List.mem_range] at hi hj
  rw [Int64.lt_iff_toInt_lt, Int64.toInt_ofNat_of_lt (by omega), Int64.toInt_ofNat_of_lt (by omega)]
  exact_mod_cast hlt

/-- No two rows have the same id. -/
theorem nodup_ids (hsize : s.FitsIds) : (s.numbered.map (·.1)).Nodup := by
  refine List.nodup_iff_pairwise_ne.mpr ((pairwise_ids hsize).imp ?_)
  rintro id _ hlt rfl
  exact Int64.lt_irrefl hlt

/-- A row is found by its id also after other rows have been added. -/
theorem row?_of_prefix {s' : Storage} (hinitial : s.rows.toList <+: s'.rows.toList) {id : RowId}
    {row : Row} (h : s.row? id = some row) : s'.row? id = some row := by
  unfold row? at h ⊢
  split at h
  · cases h
  · rename_i hnonneg
    rw [if_neg hnonneg]
    rw [← Array.getElem?_toList] at h ⊢
    obtain ⟨more, hmore⟩ := hinitial
    rw [← hmore, List.getElem?_append_left (List.getElem?_eq_some_iff.mp h).1]
    exact h

/-- A row with all of the columns can be laid out. -/
theorem exists_projectRow {row : Row} (h : ∀ column ∈ columns, column < row.length) :
    ∃ out, projectRow columns row = .ok out := by
  refine ⟨_, mapM_eq_ok_iff_filterMap.mpr ⟨fun column hcolumn => ?_, rfl⟩⟩
  rw [List.getElem?_eq_getElem (h column hcolumn)]
  exact ⟨_, rfl⟩

/-- A row that is laid out in columns has all of them. -/
theorem lt_of_projectRow {row out : Row} (h : projectRow columns row = .ok out) {column : Nat}
    (hcolumn : column ∈ columns) : column < row.length := by
  obtain ⟨value, hvalue⟩ := (mapM_eq_ok_iff_filterMap.mp h).1 column hcolumn
  by_contra hlacks
  rw [List.getElem?_eq_none (by omega)] at hvalue
  cases hvalue

/-- What fetching one id is to give: the id with the row that the storage has under it. -/
def IsFetched (s : Storage) (columns : List Nat) (id : RowId) (r : RowId × Row) : Prop :=
  r.1 = id ∧ ∃ row, s.row? id = some row ∧ projectRow columns row = .ok r.2

/-- Ids of rows with all of the columns are fetched one for one, in order. -/
theorem fetch_of_forall {ids : List RowId}
    (h : ∀ id ∈ ids, ∃ row, s.row? id = some row ∧ ∀ column ∈ columns, column < row.length) :
    ∃ rows, s.fetch columns ids = .ok rows ∧ List.Forall₂ (s.IsFetched columns) ids rows := by
  induction ids with
  | nil => exact ⟨[], rfl, .nil⟩
  | cons id rest ih =>
    rw [List.forall_mem_cons] at h
    obtain ⟨row, hrow, hcolumns⟩ := h.1
    obtain ⟨out, hout⟩ := exists_projectRow hcolumns
    obtain ⟨rows, hrows, hfetched⟩ := ih h.2
    refine ⟨(id, out) :: rows, ?_, .cons ⟨rfl, row, hrow, hout⟩ hfetched⟩
    rw [fetch, hrow]
    dsimp only
    rw [hout, hrows]
    rfl

/-- Fetching lays out the rows that are found. -/
theorem fetch_eq (s : Storage) (columns : List Nat) (ids : List RowId) :
    s.fetch columns ids =
      (ids.filterMap fun id => (s.row? id).map fun row => (id, row)).mapM (layOut columns) := by
  induction ids with
  | nil => rfl
  | cons id rest ih =>
    rw [fetch]
    cases hrow : s.row? id with
    | none => rw [List.filterMap_cons_none (by rw [hrow]; rfl), ih]
    | some row =>
      rw [List.filterMap_cons_some (b := (id, row)) (by rw [hrow]; rfl), List.mapM_cons, ih]
      simp [layOut]

/-- There are no more rows than ids to fetch. -/
theorem length_le_of_fetch {ids : List RowId} {out : List (RowId × Row)}
    (h : s.fetch columns ids = .ok out) : out.length ≤ ids.length := by
  rw [fetch_eq] at h
  rw [← (mapM_eq_ok_iff.mp h).length_eq]
  exact List.length_filterMap_le _ _

/-- Rows found again by their ids are the rows, if every row has an id of its own. -/
theorem filterMap_row?_of_subset (hsize : s.FitsIds) {l : List (RowId × Row)}
    (hl : ∀ r ∈ l, r ∈ s.numbered) :
    (l.map (·.1)).filterMap (fun id => (s.row? id).map fun row => (id, row)) = l := by
  rw [List.filterMap_map]
  induction l with
  | nil => rfl
  | cons r l ih =>
    rw [List.forall_mem_cons] at hl
    rw [List.filterMap_cons_some (b := r)
      (by simp [row?_of_mem_numbered hsize hl.1]), ih hl.2]

/-- Laying out numbered rows lays out the rows. -/
theorem map_snd_filterMap_layOut (columns : List Nat) (l : List (RowId × Row)) :
    (l.filterMap fun r => (layOut columns r).toOption).map (·.2) =
      (l.map (·.2)).filterMap (laidOut? columns) := by
  rw [List.map_filterMap, List.filterMap_map]
  congr 1
  funext r
  rw [Function.comp_apply, laidOut?, layOut]
  cases projectRow columns r.2 with
  | error e => rfl
  | ok row => rfl

/-- A scan lays out every row. -/
theorem scanAll_eq_ok {out : List (RowId × Row)} (h : s.scanAll columns = .ok out) :
    (∀ r ∈ s.numbered, ∃ r', layOut columns r = .ok r') ∧
      out.map (·.2) = s.rows.toList.filterMap (laidOut? columns) := by
  have hmapM : s.numbered.mapM (layOut columns) = .ok out := h
  obtain ⟨hall, rfl⟩ := mapM_eq_ok_iff_filterMap.mp hmapM
  exact ⟨hall, by rw [map_snd_filterMap_layOut, map_snd_numbered]⟩

/-- Fetching the ids of the rows that pass a test gives the rows of a scan that pass it, up to
their order. -/
theorem fetch_of_perm (hsize : s.FitsIds) {out : List (RowId × Row)}
    (hscan : s.scanAll columns = .ok out) {keep : Row → Bool} {ids : List RowId}
    (hids : ids.Perm ((s.numbered.filter fun r => keep r.2).map (·.1))) :
    ∃ fetched, s.fetch columns ids = .ok fetched ∧
      (fetched.map (·.2)).Perm ((s.rows.toList.filter keep).filterMap (laidOut? columns)) := by
  have hfound := hids.filterMap fun id => (s.row? id).map fun row => (id, row)
  rw [filterMap_row?_of_subset hsize fun r hr => (List.mem_filter.mp hr).1] at hfound
  have hall := (scanAll_eq_ok hscan).1
  have hfetch := (fetch_eq s columns ids).trans (mapM_eq_ok_iff_filterMap.mpr
    ⟨fun r hr => hall r (List.mem_filter.mp (hfound.subset hr)).1, rfl⟩)
  refine ⟨_, hfetch, ?_⟩
  refine (hfound.filterMap fun r => (layOut columns r).toOption).map (·.2) |>.trans ?_
  rw [map_snd_filterMap_layOut, ← map_snd_numbered, List.filter_map]
  exact .refl _

end Storage

end SpatialIndex
