import SpatialIndex.Config.Basic
import SpatialIndex.Proofs.Tree.Grouping

/-!
# Packing in partitions

Leaves may be packed in several partitions at once.  A partition is made of whole groups, so it
begins where a leaf begins, and the leaves of all partitions one after the other are those of a
single one.  How many partitions there were cannot be told from the tree.
-/

namespace SpatialIndex

namespace Packing

variable {p q : Packing}

/-- The leaves depend on nothing but the fanout. -/
theorem leaves_eq_of_fanout (hsame : p.fanout = q.fanout) (hfanout : 0 < p.fanout)
    (entries : List Entry) : p.leaves entries = q.leaves entries := by
  have hfanout' : 0 < q.fanout := hsame ▸ hfanout
  rw [p.leaves_eq_packLeaves hfanout, q.leaves_eq_packLeaves hfanout', hsame]

/-- What packing entries in their order comes to depends on nothing but the fanout. -/
theorem packSorted_eq_of_fanout (hsame : p.fanout = q.fanout) (entries : List Entry) :
    p.packSorted entries = q.packSorted entries := by
  unfold packSorted
  rw [hsame]
  by_cases hallowed : isFanout q.fanout = true
  · have hfanout : 0 < p.fanout := by
      have hbounds := isFanout_iff.mp hallowed
      omega
    rw [leaves_eq_of_fanout hsame hfanout]
  · have hrefused : (!isFanout q.fanout) = true := by simpa using hallowed
    rw [if_pos hrefused, if_pos hrefused]

/-- What packing entries comes to depends on nothing but the fanout and the order. -/
theorem pack_eq_of_fanout (hsame : p.fanout = q.fanout) (horder : p.sortKey = q.sortKey)
    (entries : List Entry) : p.pack entries = q.pack entries := by
  rw [pack, pack, horder, packSorted_eq_of_fanout hsame]

/-- The same packing on one thread, so in a single partition whatever the threshold. -/
def single (p : Packing) (threshold : Nat) : Packing :=
  { p with threads := 1, parallelThreshold := threshold }

/-- Packing comes to the same as packing on one thread, be it a tree or a fault: whatever the number
of threads and the least number of entries for more than one partition, for entries that are put in
order first, for entries that are packed as they come, and with the settings of a configuration. -/
theorem pack_eq_single (entries : List Entry) (threshold : Nat) :
    (∀ p : Packing, p.pack entries = (p.single threshold).pack entries ∧
      p.packSorted entries = (p.single threshold).packSorted entries) ∧
    ∀ c : Config, c.packing.pack entries =
      { c with buildThreads := 1, parallelThreshold := threshold }.packing.pack entries := by
  have hfanout (p : Packing) : p.fanout = (p.single threshold).fanout := rfl
  have horder (p : Packing) : p.sortKey = (p.single threshold).sortKey := rfl
  have hpack (p : Packing) : p.pack entries = (p.single threshold).pack entries :=
    pack_eq_of_fanout (hfanout p) (horder p) entries
  exact ⟨fun p => ⟨hpack p, packSorted_eq_of_fanout (hfanout p) entries⟩, fun c => hpack c.packing⟩

end Packing

end SpatialIndex
