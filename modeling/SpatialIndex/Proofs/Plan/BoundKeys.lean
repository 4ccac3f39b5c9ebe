import SpatialIndex.Proofs.Catalog.Creation
import SpatialIndex.Proofs.Plan.PulledFilter
import SpatialIndex.Proofs.Plan.Serving

/-!
# The key of an index wherever it is evaluated

The key of an index is written over the columns of its table.  It is evaluated on rows that have
been laid out in other columns: when the index is built, on those that the key reads; in a plan, on
those that a scan reads; in a filter that a scan carries, on the one column of the filter.  Each
time the key is bound to places of such a row, and each place holds the value of the column it
stands for, so the key has the value, or the failure, that it has on the row of the table.
-/

namespace SpatialIndex

namespace Expression

variable {registry : Registry} {key : Expression} {row out : Row}

/-- A key that reads its columns at the places of a row which hold their values comes to the same
there. -/
theorem evaluate_atPlaces (hreferences : key.references = []) {place : ColumnBinding → Nat}
    (hplace : ∀ b ∈ key.columnBindings, valueAt out (place b) = valueAt row b.column) :
    Expression.evaluate registry out
        (key.mapColumns (m := Id) fun b type => .reference (place b) type) =
      key.evaluate registry row := by
  rw [evaluate_eq, evaluate_eq]
  refine evaluateFrom_mapColumns Returning.id key _ ?_ (by simp [hreferences]) rfl
  rintro b hb type r rfl
  exact hplace b hb

end Expression

namespace KeyReader

/-- A key is read from exactly its columns, in ascending order and each once. -/
theorem mem_columns_ofKey {key : Expression} {column : Nat} :
    column ∈ (ofKey key).columns ↔ ∃ b ∈ key.columnBindings, b.column = column := by
  rw [ofKey, mem_ascendingColumns, List.mem_map]

/-- The columns that a key reads are laid out in ascending order, each once. -/
theorem pairwise_columns_ofKey (key : Expression) : (ofKey key).columns.Pairwise (· < ·) :=
  pairwise_ascendingColumns _

/-- A row with the columns of a key can be laid out for it. -/
theorem exists_projectRow_ofKey {key : Expression} {row : Row}
    (hcolumns : ∀ b ∈ key.columnBindings, b.column < row.length) :
    ∃ out, projectRow (ofKey key).columns row = .ok out := by
  apply Storage.exists_projectRow
  intro column hcolumn
  obtain ⟨b, hb, rfl⟩ := mem_columns_ofKey.mp hcolumn
  exact hcolumns b hb

end KeyReader

namespace KeyBinding

variable {registry : Registry} {g : Get} {key : Expression} {row out : Row}

/-- A key can be written unless a column of it cannot be read. -/
theorem key?_eq_none_iff {binding : KeyBinding} :
    binding.key? g key = none ↔ ∃ b ∈ key.columnBindings, ¬binding.Reads g b := by
  constructor
  · intro hnone
    by_contra hreads
    push Not at hreads
    cases hnone.symm.trans (key?_eq_some_iff.mpr ⟨hreads, rfl⟩)
  · rintro ⟨b, hb, hmissing⟩
    rw [Option.eq_none_iff_forall_ne_some]
    intro bound hbound
    exact hmissing ((key?_eq_some_iff.mp hbound).1 b hb)

/-- The key of an index over the output of a scan, bound to the columns that the scan reads, has
each of its columns at the first place where the scan reads it. -/
theorem bind_key (hreads : ∀ b ∈ key.columnBindings, b.column ∈ g.columns) :
    (scanOutput.key g key).bind g.scanBindings =
      .ok (key.mapColumns (m := Id) fun b type => .reference (g.columns.idxOf b.column) type) := by
  rw [Expression.bind, KeyBinding.key, Expression.mapColumns_mapColumns]
  refine Expression.mapColumns_eq_pure key fun b hb type => ?_
  have hplace : g.columns.idxOf b.column < g.columns.length :=
    List.idxOf_lt_length_of_mem (hreads b hb)
  rw [KeyBinding.column, Expression.mapColumns, g.idxOf?_scanBindings hplace]
  rfl

/-- On a row laid out in the columns of a scan a key bound to them has the value that it has on the
row of the table. -/
theorem evaluate_bind_key (hreferences : key.references = [])
    (hreads : ∀ b ∈ key.columnBindings, b.column ∈ g.columns)
    (hrow : projectRow g.columns row = .ok out) :
    Expression.evaluate registry out
        (key.mapColumns (m := Id) fun b type => .reference (g.columns.idxOf b.column) type) =
      key.evaluate registry row := by
  apply Expression.evaluate_atPlaces hreferences
  intro b hb
  have hplace : g.columns.idxOf b.column < g.columns.length :=
    List.idxOf_lt_length_of_mem (hreads b hb)
  apply valueAt_projectRow hrow
  rw [List.getElem?_eq_getElem hplace, List.getElem_idxOf hplace]

/-- On the value of the only column that a key reads, a key bound to that column has the value that
it has on the row of the table. -/
theorem evaluate_filterColumn_key (hreferences : key.references = []) {column : Nat} {value : Value}
    (honly : ∀ b ∈ key.columnBindings, b.column = column) (hvalue : row[column]? = some value) :
    ((filterColumn column).key g key).evaluate registry [value] = key.evaluate registry row := by
  refine @Expression.evaluate_atPlaces registry key row [value] hreferences (fun _ => 0) ?_
  intro b hb
  rw [honly b hb, valueAt, valueAt, hvalue]
  rfl

end KeyBinding

/-- Wherever the key of an index is evaluated, it comes to what it comes to on the row of the table,
be that a value or a failure: on the columns that it reads, each once, as for building the index;
over the output of a scan that reads them; and in a filter on the only one of them.  It can be
written over a scan unless some column of it cannot be read there. -/
theorem evaluate_boundKey (registry : Registry) {key : Expression}
    (hreferences : key.references = []) {row : Row}
    (hcolumns : ∀ b ∈ key.columnBindings, b.column < row.length) :
    ((KeyReader.ofKey key).columns.Pairwise (· < ·) ∧
      ∃ out, projectRow (KeyReader.ofKey key).columns row = .ok out ∧
        (KeyReader.ofKey key).key.evaluate registry out = key.evaluate registry row) ∧
    (∀ g : Get, (∀ b ∈ key.columnBindings, b.column ∈ g.columns) → ∃ planned bound,
      KeyBinding.scanOutput.key? g key = some planned ∧
        planned.bind g.scanBindings = .ok bound ∧
        ∀ out, projectRow g.columns row = .ok out →
          bound.evaluate registry out = key.evaluate registry row) ∧
    (∀ (g : Get) (column : Nat) (value : Value), (∀ b ∈ key.columnBindings, b.column = column) →
      row[column]? = some value → ∃ bound,
        (KeyBinding.filterColumn column).key? g key = some bound ∧
          bound.evaluate registry [value] = key.evaluate registry row) ∧
    ∀ (binding : KeyBinding) (g : Get) (e : Expression),
      binding.key? g e = none ↔ ∃ b ∈ e.columnBindings, ¬binding.Reads g b := by
  refine ⟨?_, fun g hreads => ?_, fun g column value honly hvalue => ?_,
    fun _ _ _ => KeyBinding.key?_eq_none_iff⟩
  · obtain ⟨out, hout⟩ := KeyReader.exists_projectRow_ofKey hcolumns
    exact ⟨KeyReader.pairwise_columns_ofKey key, out, hout,
      KeyReader.evaluate_ofKey registry hreferences hout⟩
  · exact ⟨_, _, KeyBinding.key?_eq_some_iff.mpr ⟨hreads, rfl⟩, KeyBinding.bind_key hreads,
      fun out hout => KeyBinding.evaluate_bind_key hreferences hreads hout⟩
  · exact ⟨_, KeyBinding.key?_eq_some_iff.mpr ⟨honly, rfl⟩,
      KeyBinding.evaluate_filterColumn_key hreferences honly hvalue⟩

namespace Places

/-- A test of two columns, of which it reads one twice. -/
def twoColumns : Expression :=
  .conjunction .and [.comparison .less (.column ⟨0, 0⟩ .bigint) (.column ⟨0, 2⟩ .bigint),
    .isNotNull (.column ⟨0, 2⟩ .bigint)]

/-- A scan of all three columns, of one of them twice, not in their order. -/
def shuffled : Get := .ofTable 0 table [2, 1, 0, 2] 2

end Places

open Places in
/-- A test of two columns of a row with three is the same on the columns laid out for the test and
on those of a scan in another order, and a test of one column is the same on its value alone. -/
theorem evaluate_boundKey_columns :
    (∃ out, (KeyReader.ofKey twoColumns).key.evaluate .spatial out = .ok (.boolean true)) ∧
    (∃ planned bound, KeyBinding.scanOutput.key? shuffled twoColumns = some planned ∧
      planned.bind shuffled.scanBindings = .ok bound ∧
      bound.evaluate .spatial [.bigint 5, .null, .bigint 1, .bigint 5] = .ok (.boolean true)) ∧
    (∃ bound, (KeyBinding.filterColumn 1).key? shuffled (.isNull (.column ⟨0, 1⟩ .geometry)) =
      some bound ∧ bound.evaluate .spatial [.null] = .ok (.boolean true)) ∧
    (KeyBinding.filterColumn 0).key? shuffled twoColumns = none := by
  have hvalue : twoColumns.evaluate .spatial [.bigint 1, .null, .bigint 5] =
      .ok (.boolean true) := rfl
  have hcolumns : ∀ b ∈ twoColumns.columnBindings,
      b.column < [Value.bigint 1, .null, .bigint 5].length := by decide
  obtain ⟨⟨_, out, _, hbuilt⟩, hscan, _, hnone⟩ := evaluate_boundKey .spatial rfl hcolumns
  obtain ⟨planned, bound, hplanned, hbound, hscanned⟩ := hscan shuffled (by decide)
  have hcolumn : ∀ b ∈ (Expression.isNull (.column ⟨0, 1⟩ .geometry)).columnBindings,
      b.column < [Value.bigint 1, .null, .bigint 5].length := by decide
  obtain ⟨_, _, hfilter, _⟩ := evaluate_boundKey .spatial rfl hcolumn
  obtain ⟨alone, halone, hfiltered⟩ := hfilter shuffled 1 .null (by decide) rfl
  exact ⟨⟨out, hbuilt.trans hvalue⟩, ⟨planned, bound, hplanned, hbound,
    (hscanned _ rfl).trans hvalue⟩, ⟨alone, halone, hfiltered⟩,
    (hnone (.filterColumn 0) shuffled twoColumns).mpr ⟨⟨0, 2⟩, by decide, by decide⟩⟩

end SpatialIndex
