import SpatialIndex.Error
import SpatialIndex.Proofs.Tree.Packing

/-!
# What can be packed

Entries can be packed when the fanout is allowed, there are no more entries than positions, and
every box is valid.  Every way of packing them then gives a sound tree that holds just these
entries.  Otherwise every way refuses them, and the fault it names is really there.
-/

namespace SpatialIndex

namespace Packing

variable {p : Packing} {entries entries' : List Entry} {fault : PackingFault}

/-- What packing asks for. -/
structure Accepts (p : Packing) (entries : List Entry) : Prop where
  /-- The fanout is allowed. -/
  fanout : 2 ≤ p.fanout ∧ p.fanout ≤ 1024
  /-- The entries can be counted in 32 bits. -/
  count : entries.length ≤ 4294967295
  /-- Every box is finite and the right way round. -/
  boxes : ∀ e ∈ entries, e.box.isValid = true

/-- What a fault says of the packing or of the entries is the case, and is not as it should be. -/
def Applies (p : Packing) (entries : List Entry) : PackingFault → Prop
  | .fanoutOutOfRange fanout => fanout = p.fanout ∧ ¬(2 ≤ fanout ∧ fanout ≤ 1024)
  | .tooMany count => count = entries.length ∧ 4294967295 < count
  | .invalidBox row box => ⟨box, row⟩ ∈ entries ∧ box.isValid = false

/-- What can be packed does not depend on the order of the entries. -/
theorem Accepts.perm (h : p.Accepts entries) (hperm : entries.Perm entries') :
    p.Accepts entries' :=
  ⟨h.fanout, hperm.length_eq ▸ h.count, fun e he => h.boxes e (hperm.mem_iff.mpr he)⟩

/-- Whether a fault applies does not depend on the order of the entries. -/
theorem Applies.perm (h : p.Applies entries fault) (hperm : entries.Perm entries') :
    p.Applies entries' fault := by
  cases fault with
  | fanoutOutOfRange fanout => exact h
  | tooMany count => exact ⟨h.1.trans hperm.length_eq, h.2⟩
  | invalidBox row box => exact ⟨hperm.mem_iff.mp h.1, h.2⟩

/-- Accepted entries are packed, in the order in which they come. -/
theorem Accepts.packSorted (h : p.Accepts entries) :
    ∃ t, p.packSorted entries = .ok t ∧ t.entries.toList = entries := by
  have hsize : entries.length < UInt32.size := Nat.lt_succ_of_le h.count
  have hpack := packSorted_eq_ok_iff.mpr ⟨isFanout_iff.mpr h.fanout, hsize, h.boxes, rfl⟩
  exact ⟨_, hpack, entries_of_packSorted hpack⟩

/-- A fault that packing ends with applies. -/
theorem applies_of_packSorted (h : p.packSorted entries = .error fault) :
    p.Applies entries fault := by
  unfold Packing.packSorted at h
  split at h
  · rename_i hfanout
    cases h
    exact ⟨rfl, fun hallowed => by simp [isFanout_iff.mpr hallowed] at hfanout⟩
  · split at h
    · rename_i hmany
      cases h
      exact ⟨rfl, Nat.lt_of_lt_of_le (by decide) hmany⟩
    · split at h
      · rename_i bad hbad
        cases h
        exact ⟨List.mem_of_find?_eq_some hbad, by simpa using List.find?_some hbad⟩
      · split at h <;> cases h

/-- What an attempt to pack entries is to come to: a sound tree of just these entries if they can
be packed, and otherwise a fault that applies, reported as unacceptable input. -/
structure Settles (p : Packing) (entries : List Entry) (outcome : Except PackingFault Tree) :
    Prop where
  /-- What can be packed is packed. -/
  accepted : p.Accepts entries → ∃ t, outcome = .ok t ∧ t.validate = .ok () ∧
    t.entries.toList.Perm entries
  /-- What cannot be packed is refused. -/
  refused : ¬p.Accepts entries → ∃ fault, outcome = .error fault ∧ p.Applies entries fault ∧
    (Error.packing fault).category = .input

/-- Packing entries as they come gives a sound tree of them, or a fault that applies. -/
theorem settles_packSorted (p : Packing) (entries : List Entry) :
    p.Settles entries (p.packSorted entries) := by
  refine ⟨fun h => ?_, fun h => ?_⟩
  · obtain ⟨t, ht, hentries⟩ := h.packSorted
    exact ⟨t, ht, validate_of_packSorted ht, .of_eq hentries⟩
  · cases hpack : p.packSorted entries with
    | error fault => exact ⟨fault, rfl, applies_of_packSorted hpack, rfl⟩
    | ok t =>
      obtain ⟨hfanout, hsize, hvalid, _⟩ := packSorted_eq_ok_iff.mp hpack
      exact absurd ⟨isFanout_iff.mp hfanout, Nat.le_of_lt_succ hsize, hvalid⟩ h

/-- What settles entries in one order settles them in every other. -/
theorem Settles.perm {outcome : Except PackingFault Tree} (h : p.Settles entries outcome)
    (hperm : entries.Perm entries') : p.Settles entries' outcome := by
  refine ⟨fun haccepts => ?_, fun hrefuses => ?_⟩
  · obtain ⟨t, ht, hsound, hentries⟩ := h.accepted (haccepts.perm hperm.symm)
    exact ⟨t, ht, hsound, hentries.trans hperm⟩
  · obtain ⟨fault, hfault, happlies, hinput⟩ := h.refused fun h => hrefuses (h.perm hperm)
    exact ⟨fault, hfault, happlies.perm hperm, hinput⟩

/-- Whatever the fanout, the number of partitions, the least number of entries for more than one
and the coordinate that orders entries: packing entries, be it in order, as they come, or with the
settings of a configuration, gives a tree that passes its check and holds just these entries when
the fanout is allowed, the entries can be counted and their boxes are valid, and refuses them as
unacceptable input in every other case. -/
theorem pack_settles (entries : List Entry) :
    (∀ p : Packing, p.Settles entries (p.pack entries) ∧
      p.Settles entries (p.packSorted entries)) ∧
    ∀ c : Config, c.packing.Settles entries (c.packing.pack entries) := by
  have hpack (p : Packing) : p.Settles entries (p.pack entries) :=
    (p.settles_packSorted _).perm (p.sortKey.sort_perm entries)
  exact ⟨fun p => ⟨hpack p, p.settles_packSorted entries⟩, fun c => hpack c.packing⟩

/-- Three points are packed, and refused together with a box that is the wrong way round. -/
theorem pack_settles_points :
    let point (n : Int) : Box := .ofPoint (.ofInt n) (.ofInt n)
    let p : Packing := ⟨2, 2, 0, .centerX⟩
    let entries : List Entry := [⟨point 2, 7⟩, ⟨point 0, 8⟩, ⟨point 1, 9⟩]
    (∃ t, p.pack entries = .ok t ∧ t.validate = .ok () ∧ t.entries.toList.Perm entries) ∧
      ∃ fault, p.pack (⟨⟨.ofInt 1, .ofInt 0, .ofInt 0, .ofInt 1⟩, 6⟩ :: entries) =
        .error fault := by
  intro point p entries
  have hrefuses : ¬p.Accepts (⟨⟨.ofInt 1, .ofInt 0, .ofInt 0, .ofInt 1⟩, 6⟩ :: entries) :=
    fun h => absurd (h.boxes _ List.mem_cons_self) (by decide +kernel)
  obtain ⟨fault, hfault, _⟩ := ((pack_settles _).1 p).1.refused hrefuses
  exact ⟨((pack_settles entries).1 p).1.accepted ⟨by decide, by decide, by decide +kernel⟩,
    fault, hfault⟩

end Packing

end SpatialIndex
