import Mathlib.Data.Fintype.Perm
import SpatialIndex.Proofs.Entry
import SpatialIndex.Proofs.Tree.Acceptance
import SpatialIndex.Proofs.Tree.WellFormed

/-!
# Packing and the order of entries

Packing depends on nothing but the sorted entries.  A packed tree holds them in their order, so
packing its entries once more gives the same tree, and so does packing the entries in any other
order in which those with the same coordinate come one after the other as before.  Entries that
pass the check for sorted ones may be packed as they come with the same outcome, unless a negative
zero comes after a positive one: the check takes the two for equal, and sorting does not.
-/

namespace SpatialIndex

section Rearranged

variable {key : SortKey} {entries : List Entry} {σ : Equiv.Perm (Fin entries.length)}

/-- The entries in another order: at each place stands the one from the place that `σ` names. -/
def rearranged (entries : List Entry) (σ : Equiv.Perm (Fin entries.length)) : List Entry :=
  (List.finRange entries.length).map fun i => entries[σ i]

namespace SortKey

/-- Entries with the same coordinate stay in their order. -/
def KeepsTies (key : SortKey) (entries : List Entry) (σ : Equiv.Perm (Fin entries.length)) : Prop :=
  ∀ i j, i < j → (key.value entries[σ i]).totalKey = (key.value entries[σ j]).totalKey → σ i < σ j

/-- If entries with the same coordinate stay in their order, then those of each coordinate are the
same list as before. -/
theorem KeepsTies.filter_rearranged (h : key.KeepsTies entries σ) (v : Int) :
    ((rearranged entries σ).filter fun e => (key.value e).totalKey = v) =
      entries.filter fun e => (key.value e).totalKey = v := by
  -- The places of these entries in the old order, as they come in the new order, ascend.
  have hplaces : ((List.finRange entries.length).map σ).filter
      (fun i => (key.value entries[i]).totalKey = v) =
        (List.finRange entries.length).filter fun i => (key.value entries[i]).totalKey = v := by
    refine List.Perm.eq_of_pairwise (fun _ _ _ _ hij hji => absurd hij hji.asymm) ?_
      ((List.pairwise_lt_finRange _).filter _) (σ.map_finRange_perm.filter _)
    rw [List.pairwise_filter, List.pairwise_map]
    refine (List.pairwise_lt_finRange _).imp fun {i j} hij hi hj => ?_
    rw [decide_eq_true_eq] at hi hj
    exact h i j hij (hi.trans hj.symm)
  have hentries : (List.finRange entries.length).map (fun i => entries[i]) = entries :=
    List.map_getElem_finRange entries
  have hlist := congrArg (List.map fun i : Fin entries.length => entries[i]) hplaces
  conv_rhs => rw [← hentries]
  rw [rearranged, List.filter_map, List.filter_map]
  rw [List.filter_map, List.map_map] at hlist
  exact hlist

/-- Sorting entries in another order gives the same entries if those with the same coordinate stay
in their order. -/
theorem KeepsTies.sort_rearranged (h : key.KeepsTies entries σ) :
    key.sort (rearranged entries σ) = key.sort entries :=
  sort_eq_sort_iff.mpr h.filter_rearranged

/-- Entries whose coordinates are all different have no ties to keep. -/
theorem keepsTies_of_nodup (h : (entries.map fun e => (key.value e).totalKey).Nodup)
    (σ : Equiv.Perm (Fin entries.length)) : key.KeepsTies entries σ := by
  intro i j hij hsame
  have hplace (k : Fin entries.length) :
      (k : Nat) < (entries.map fun e => (key.value e).totalKey).length := by simp
  have hinjective := List.nodup_iff_injective_getElem.mp h
  have heq := @hinjective ⟨σ i, hplace _⟩ ⟨σ j, hplace _⟩ (by simpa using hsame)
  rw [σ.injective (Fin.ext (Fin.mk.inj_iff.mp heq))] at hij
  exact absurd hij (Nat.lt_irrefl _)

end SortKey

end Rearranged

namespace Tree

variable {t : Tree}

/-- A tree without NaN in its boxes is equal to itself as numbers, too. -/
theorem equiv_refl (hnodes : ∀ node ∈ t.nodes.toList, node.box.IsNumeric)
    (hentries : ∀ e ∈ t.entries.toList, e.box.IsNumeric) : t.equiv t = true := by
  have hnode : ∀ node ∈ t.nodes.toList, node.equiv node = true := by
    intro node hmem
    simp [Node.equiv, Box.equiv_refl (hnodes node hmem)]
  have hentry : ∀ e ∈ t.entries.toList, e.equiv e = true := by
    intro e hmem
    simp [Entry.equiv, Box.equiv_refl (hentries e hmem)]
  simp only [equiv, beq_self_eq_true, Bool.and_true, Bool.true_and, List.zip_eq_zipWith,
    List.zipWith_self, List.all_map, Bool.and_eq_true, List.all_eq_true]
  exact ⟨hnode, hentry⟩

end Tree

namespace Packing

variable {p : Packing} {entries entries' : List Entry} {t : Tree}

/-- A packed tree is equal to itself as numbers, too: none of its boxes has a NaN. -/
theorem equiv_self_of_packSorted (h : p.packSorted entries = .ok t) : t.equiv t = true := by
  obtain ⟨hfanout, hsize, hvalid, rfl⟩ := packSorted_eq_ok_iff.mp h
  by_cases hentries : entries = []
  · rw [if_pos hentries]
    refine Tree.equiv_refl (fun node hnode => ?_) fun e he => ?_
    · rw [List.mem_singleton.mp hnode]
      exact Box.isNumeric_empty
    · cases he
  · rw [if_neg hentries]
    have hlayout := (packed_layout hfanout hsize hentries).1
    refine Tree.equiv_refl (fun node hnode => ?_) fun e he => ?_
    · exact (Box.equiv_iff.mp (hlayout.fits_of_mem hnode).box).2.1
    · exact Box.isNumeric_of_isValid (hvalid e he)

/-- The trees over two lists that can be packed are the same only if the lists are. -/
theorem packSorted_eq_packSorted_iff (h : p.Accepts entries) (h' : p.Accepts entries') :
    p.packSorted entries = p.packSorted entries' ↔ entries = entries' := by
  refine ⟨fun hsame => ?_, congrArg p.packSorted⟩
  obtain ⟨t, ht, rfl⟩ := h.packSorted
  obtain ⟨t', ht', rfl⟩ := h'.packSorted
  rw [ht, ht'] at hsame
  rw [Except.ok.inj hsame]

/-- Packing entries as they come gives the tree over the sorted ones exactly if sorting changes
nothing. -/
theorem packSorted_eq_pack_iff (h : p.Accepts entries) :
    p.packSorted entries = p.pack entries ↔ p.sortKey.sort entries = entries := by
  have hsorted := h.perm (p.sortKey.sort_perm entries).symm
  rw [pack, packSorted_eq_packSorted_iff h hsorted, eq_comm]

/-- Packing is reproducible.  When entries can be packed, the entries of their tree, sorted once
more or as they come, are packed into the same tree, which is equal to itself also as numbers.
Entries in another order come to the same if those with the same coordinate stay in their order,
and so in any order if all coordinates are different. -/
theorem pack_reproducible (p : Packing) (entries : List Entry) :
    (p.Accepts entries → ∃ t, p.pack entries = .ok t ∧ p.pack t.entries.toList = .ok t ∧
      p.packSorted t.entries.toList = .ok t ∧ t.equiv t = true) ∧
    (∀ σ : Equiv.Perm (Fin entries.length), p.sortKey.KeepsTies entries σ →
      p.pack (rearranged entries σ) = p.pack entries) ∧
    ((entries.map fun e => (p.sortKey.value e).totalKey).Nodup →
      ∀ σ : Equiv.Perm (Fin entries.length), p.pack (rearranged entries σ) = p.pack entries) := by
  have hties : ∀ σ : Equiv.Perm (Fin entries.length), p.sortKey.KeepsTies entries σ →
      p.pack (rearranged entries σ) = p.pack entries :=
    fun σ h => congrArg p.packSorted h.sort_rearranged
  refine ⟨fun h => ?_, hties, fun h σ => hties σ (SortKey.keepsTies_of_nodup h σ)⟩
  obtain ⟨t, ht, hentries⟩ := (h.perm (p.sortKey.sort_perm entries).symm).packSorted
  refine ⟨t, ht, ?_, ?_, equiv_self_of_packSorted ht⟩
  · rw [hentries, pack, p.sortKey.sort_sort]
    exact ht
  · rw [hentries]
    exact ht

/-- Of three places the first and the last share a coordinate.  They are packed into the same tree
when the one between them comes first, and three different places whatever comes first. -/
theorem pack_reproducible_points :
    let point (n : Int) : Box := .ofPoint (.ofInt n) (.ofInt n)
    let p : Packing := ⟨2, 2, 0, .centerX⟩
    (∃ t, p.pack [⟨point 2, 7⟩, ⟨point 0, 8⟩, ⟨point 2, 9⟩] = .ok t ∧
      p.packSorted t.entries.toList = .ok t ∧
      p.pack [⟨point 0, 8⟩, ⟨point 2, 7⟩, ⟨point 2, 9⟩] = .ok t) ∧
    p.pack [⟨point 3, 9⟩, ⟨point 0, 8⟩, ⟨point 2, 7⟩] =
      p.pack [⟨point 2, 7⟩, ⟨point 0, 8⟩, ⟨point 3, 9⟩] := by
  intro point p
  have htied := pack_reproducible p [⟨point 2, 7⟩, ⟨point 0, 8⟩, ⟨point 2, 9⟩]
  obtain ⟨t, ht, _, hsorted, _⟩ := htied.1 ⟨by decide, by decide, by decide +kernel⟩
  have hkeeps : p.sortKey.KeepsTies [⟨point 2, 7⟩, ⟨point 0, 8⟩, ⟨point 2, 9⟩]
      (Equiv.swap (0 : Fin 3) 1) := by
    show ∀ i j : Fin 3, _
    decide +kernel
  have hdistinct := pack_reproducible p [⟨point 2, 7⟩, ⟨point 0, 8⟩, ⟨point 3, 9⟩]
  refine ⟨⟨t, ht, hsorted, ?_⟩, ?_⟩
  · exact (htied.2.1 (Equiv.swap (0 : Fin 3) 1) hkeeps).trans ht
  · exact hdistinct.2.2 (by decide +kernel) (Equiv.swap (0 : Fin 3) 2)

/-- What the check for sorted entries decides.  Entries with valid boxes pass it exactly if sorting
leaves the number at every place as it is.  Sorting leaves the entries themselves as they are
exactly if, besides, no negative zero comes after a positive one, and exactly then packing the
entries as they come gives the same tree as packing them in order. -/
theorem presorted_iff (p : Packing) (entries : List Entry)
    (hvalid : ∀ e ∈ entries, e.box.isValid = true) :
    (p.sortKey.isSorted entries = true ↔
      (p.sortKey.sort entries).map (fun e => (p.sortKey.value e).key) =
        entries.map fun e => (p.sortKey.value e).key) ∧
    (p.sortKey.sort entries = entries ↔ p.sortKey.isSorted entries = true ∧
      entries.Pairwise fun a b => ¬(p.sortKey.value a).ZerosReversed (p.sortKey.value b)) ∧
    (p.Accepts entries → (p.packSorted entries = p.pack entries ↔
      p.sortKey.isSorted entries = true ∧
        entries.Pairwise fun a b => ¬(p.sortKey.value a).ZerosReversed (p.sortKey.value b))) := by
  have hnumbers : ∀ e ∈ entries, (p.sortKey.value e).isNaN = false :=
    fun e he => SortKey.isNaN_value (hvalid e he)
  have hsort := SortKey.sort_eq_self_iff hnumbers
  exact ⟨SortKey.isSorted_iff_map_key hnumbers, hsort,
    fun h => (packSorted_eq_pack_iff h).trans hsort⟩

/-- Places on a line from left to right are packed alike in either way. -/
theorem presorted_iff_points :
    let point (n : Int) : Box := .ofPoint (.ofInt n) (.ofInt n)
    let p : Packing := ⟨2, 1, 0, .minX⟩
    let entries : List Entry := [⟨point (-1), 7⟩, ⟨point 0, 8⟩, ⟨point 0, 9⟩]
    p.sortKey.sort entries = entries ∧ p.packSorted entries = p.pack entries := by
  intro point p entries
  have hvalid : ∀ e ∈ entries, e.box.isValid = true := by decide +kernel
  have h := presorted_iff p entries hvalid
  have hsorted : p.sortKey.isSorted entries = true ∧ entries.Pairwise fun a b =>
      ¬(p.sortKey.value a).ZerosReversed (p.sortKey.value b) := by
    simp only [Binary.ZerosReversed]
    decide +kernel
  exact ⟨h.2.1.mpr hsorted, (h.2.2 ⟨by decide, by decide, hvalid⟩).mpr hsorted⟩

/-- The origin twice, the second time with a negative zero for its first coordinate. -/
def reversedZeros : List Entry :=
  [⟨.ofPoint .zero .zero, 1⟩, ⟨.ofPoint (Binary.zero.neg) .zero, 2⟩]

/-- These entries pass the check, but sorting swaps them, and the trees differ. -/
theorem isSorted_reversedZeros :
    (∀ e ∈ reversedZeros, e.box.isValid = true) ∧ ∀ key : SortKey,
      key.isSorted reversedZeros = true ∧ key.sort reversedZeros ≠ reversedZeros ∧
        (⟨2, 1, 0, key⟩ : Packing).packSorted reversedZeros ≠
          (⟨2, 1, 0, key⟩ : Packing).pack reversedZeros := by
  have hvalid : ∀ e ∈ reversedZeros, e.box.isValid = true := by decide +kernel
  refine ⟨hvalid, fun key => ?_⟩
  have hsorted : key.isSorted reversedZeros = true := by
    cases key <;> decide +kernel
  have hsort : key.sort reversedZeros ≠ reversedZeros := by
    intro h
    have hzeros := ((SortKey.sort_eq_self_iff
      fun e he => SortKey.isNaN_value (hvalid e he)).mp h).2
    refine List.rel_of_pairwise_cons hzeros (List.mem_singleton_self _) ?_
    unfold Binary.ZerosReversed
    cases key <;> decide +kernel
  have haccepts : (⟨2, 1, 0, key⟩ : Packing).Accepts reversedZeros :=
    ⟨⟨Nat.le_refl 2, by show 2 ≤ 1024; decide⟩, by decide, hvalid⟩
  exact ⟨hsorted, hsort, fun h => hsort ((packSorted_eq_pack_iff haccepts).mp h)⟩

end Packing

end SpatialIndex
