import SpatialIndex.Proofs.Batches
import SpatialIndex.Proofs.Plan.Walk

/-!
# Batches under a plan

A plan may have several scans that go through an index, and each of them fetches its rows batch by
batch.  How large the batches are shows in nothing that the plan gives, be it rows or a failure.
-/

namespace SpatialIndex

variable (c : Catalog) (registry : Registry) (batchSize batchSize' : Nat)

/-- A scan reads the same rows, or fails in the same way, in batches of every size. -/
theorem Get.scanRows_eq (g : Get) : g.scanRows c batchSize = g.scanRows c batchSize' := by
  rw [scanRows, scanRows]
  cases g.access with
  | sequential => rfl
  | index binding =>
    dsimp only
    rw [← bind_assoc, ← bind_assoc, IndexScan.start_bind_collect, IndexScan.start_bind_collect]

/-- The rows of a scan, or its failure, do not depend on the size of its batches. -/
theorem Get.execute_eq (g : Get) :
    g.execute c registry batchSize = g.execute c registry batchSize' := by
  rw [execute, execute, scanRows_eq c batchSize batchSize']

/-- A plan gives the same rows, or fails in the same way, with scans in batches of every size. -/
theorem Plan.execute_eq (p : Plan) :
    p.execute c registry batchSize = p.execute c registry batchSize' := by
  fun_induction Plan.execute c registry batchSize p with
  | case1 g children => rw [execute, Get.execute_eq]
  | case2 predicates projection child ih => rw [execute, ih]
  | case3 tableIndex expressions child ih => rw [execute, ih]
  | case4 count offset child ih => rw [execute, ih]
  | case5 left right ihleft ihright => rw [execute, ihleft, ihright]
  | case6 children => rw [execute]; assumption
  | case7 operator children => rw [execute] <;> assumption

/-- Scans through an index fetch the rows that the index finds in batches of the given size, or of
one: they lose none and repeat none, whatever other sessions do between the batches, and come to an
end.  So a plan gives the same in batches of every size. -/
theorem Plan.execute_in_batches {batchSize : Nat} (hbatch : batchSize < 2 ^ 64) :
    (∀ table columns candidates, candidates.length < 2 ^ 63 →
      (IndexScan.fresh table columns candidates batchSize).FetchesInBatches (max batchSize 1)) ∧
    (∀ c b columns scan, IndexScan.start c b columns batchSize = .ok scan →
      scan = .fresh b.table columns (b.index.tree.search b.box) batchSize) ∧
    ∀ (c : Catalog) (registry : Registry) (p : Plan) (batchSize' : Nat),
      p.execute c registry batchSize = p.execute c registry batchSize' := by
  refine ⟨fun table columns candidates => IndexScan.fresh_fetchesInBatches table columns hbatch,
    fun c b columns scan hstart => ?_, fun c registry p batchSize' => ?_⟩
  · rw [IndexScan.start] at hstart
    split at hstart
    · exact (Except.ok.inj hstart).symm
    · cases hstart
  · exact p.execute_eq c registry batchSize batchSize'

open Places in
/-- Three candidates make two batches of two or a single one of the largest size, and the plan that
searches for a place gives the same in either. -/
theorem Plan.execute_in_batches_places :
    (IndexScan.fresh table [0] [0, 1, 0] 2).batches = [[0, 1], [0]] ∧
    (IndexScan.fresh table [0] [0, 1, 0] 2).FetchesInBatches 2 ∧
    (IndexScan.fresh table [0] [0, 1, 0] 18446744073709551615).FetchesInBatches
      18446744073709551615 ∧
    (plan.useIndexes catalog .spatial).1.execute catalog .spatial 2 =
      (plan.useIndexes catalog .spatial).1.execute catalog .spatial 18446744073709551615 := by
  have htwo := execute_in_batches (by decide : 2 < 2 ^ 64)
  have hlargest := execute_in_batches (by decide : 18446744073709551615 < 2 ^ 64)
  exact ⟨by cbv, htwo.1 _ _ _ (by decide), hlargest.1 _ _ _ (by decide), htwo.2.2 _ _ _ _⟩

end SpatialIndex
