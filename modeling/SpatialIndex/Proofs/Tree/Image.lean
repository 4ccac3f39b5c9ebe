import SpatialIndex.Proofs.Tree.Packing
import SpatialIndex.Tree.Image

/-!
# Images are exact

A reader accepts exactly the bytes that begin with what the writer gives, and where it accepts
nothing the bytes either stop too early or hold a byte that is no truth value.  Both are proved of
each reader in turn, up to the parts of a whole tree.
-/

namespace SpatialIndex

namespace Image

variable {α β : Type} {bytes rest : List UInt8}

section Reader

variable {reader : ByteReader α} {next : α → ByteReader β}

/-- Two readers one after the other take what the second takes after the first. -/
theorem bind_eq_some {b : β} : (reader >>= next) bytes = some (b, rest) ↔
    ∃ a later, reader bytes = some (a, later) ∧ next a later = some (b, rest) := by
  simp only [bind, StateT.bind, Option.bind_eq_some_iff, Prod.exists]

/-- Two readers one after the other take nothing when one of them takes nothing. -/
theorem bind_eq_none : (reader >>= next) bytes = none ↔ reader bytes = none ∨
    ∃ a later, reader bytes = some (a, later) ∧ next a later = none := by
  simp only [bind, StateT.bind, Option.bind_eq_none_iff, Prod.forall]
  cases hread : reader bytes with
  | none => simp
  | some pair =>
    simp only [Option.some.injEq, reduceCtorEq, false_or]
    constructor
    · exact fun h => ⟨pair.1, pair.2, rfl, h pair.1 pair.2 rfl⟩
    · rintro ⟨a, later, rfl, h⟩ _ _ ⟨⟩
      exact h

/-- A value by itself is read without taking a byte. -/
theorem pure_eq_some {a b : α} : (pure a : ByteReader α) bytes = some (b, rest) ↔
    a = b ∧ bytes = rest := by
  show some (a, bytes) = some (b, rest) ↔ _
  rw [Option.some.injEq, Prod.mk.injEq]

end Reader

section Accepts

/-- A number has as many bytes as it is written with. -/
theorem length_numberBytes (count n : Nat) : (numberBytes count n).length = count := by
  induction count generalizing n with
  | zero => rfl
  | succ count ih => rw [numberBytes, List.length_cons, ih]

/-- A number that fits its bytes is read back from them. -/
theorem numberOfBytes_numberBytes {count n : Nat} (hn : n < 256 ^ count) :
    numberOfBytes (numberBytes count n) = n := by
  induction count generalizing n with
  | zero =>
    rw [Nat.pow_zero] at hn
    exact (Nat.lt_one_iff.mp hn).symm
  | succ count ih =>
    have hbyte : (UInt8.ofNat n).toNat = n % 256 := UInt8.toNat_ofNat'
    rw [Nat.pow_succ] at hn
    rw [numberBytes, numberOfBytes, ih (Nat.div_lt_of_lt_mul (by omega)), hbyte,
      Nat.mod_add_div]

/-- Bytes are those of the number that they stand for, which fits them. -/
theorem numberBytes_numberOfBytes (bytes : List UInt8) :
    numberBytes bytes.length (numberOfBytes bytes) = bytes ∧
      numberOfBytes bytes < 256 ^ bytes.length := by
  induction bytes with
  | nil => exact ⟨rfl, Nat.one_pos⟩
  | cons byte bytes ih =>
    have hbyte := byte.toNat_lt
    have hhead : UInt8.ofNat (byte.toNat + 256 * numberOfBytes bytes) = byte := by
      rw [← UInt8.toNat_inj, UInt8.toNat_ofNat']
      omega
    have htail : (byte.toNat + 256 * numberOfBytes bytes) / 256 = numberOfBytes bytes := by omega
    rw [numberOfBytes, List.length_cons, numberBytes, hhead, htail, ih.1, Nat.pow_succ]
    exact ⟨rfl, by omega⟩

/-- Numbers of a given count of bytes are read exactly. -/
theorem number_eq_some {count n : Nat} : number count bytes = some (n, rest) ↔
    n < 256 ^ count ∧ bytes = numberBytes count n ++ rest := by
  unfold number
  constructor
  · intro h
    simp only [Option.ite_none_right_eq_some, Option.some.injEq, Prod.mk.injEq] at h
    obtain ⟨hlength, rfl, rfl⟩ := h
    obtain ⟨hbytes, hlt⟩ := numberBytes_numberOfBytes (bytes.take count)
    rw [hlength] at hbytes hlt
    exact ⟨hlt, by rw [hbytes, List.take_append_drop]⟩
  · rintro ⟨hn, rfl⟩
    have hlength := length_numberBytes count n
    rw [List.take_left' hlength, List.drop_left' hlength, if_pos hlength,
      numberOfBytes_numberBytes hn]

/-- A side is read where its bytes stand, and nowhere else. -/
theorem single_eq_some {x : Single} : single bytes = some (x, rest) ↔
    bytes = singleBytes x ++ rest := by
  simp only [single, bind_eq_some, number_eq_some, pure_eq_some]
  constructor
  · rintro ⟨n, later, ⟨hn, rfl⟩, rfl, rfl⟩
    have hbits : (BitVec.ofNat Format.single.width n).toNat = n := Nat.mod_eq_of_lt hn
    rw [singleBytes, hbits]
  · intro h
    exact ⟨x.bits.toNat, rest, ⟨x.bits.isLt, h⟩, by rw [BitVec.ofNat_toNat]; rfl, rfl⟩

/-- A truth value is read where its byte stands, and nowhere else. -/
theorem bool_eq_some {b : Bool} : bool bytes = some (b, rest) ↔ bytes = boolByte b :: rest := by
  unfold bool
  split
  · simp only [Option.some.injEq, Prod.mk.injEq, List.cons.injEq]
    cases b <;> simp [boolByte]
  · simp only [Option.some.injEq, Prod.mk.injEq, List.cons.injEq]
    cases b <;> simp [boolByte]
  · rename_i hfalse htrue
    simp only [reduceCtorEq, false_iff]
    intro h
    cases b with
    | false => exact hfalse rest h
    | true => exact htrue rest h

/-- A box is read where its bytes stand, and nowhere else. -/
theorem box_eq_some {b : Box} : box bytes = some (b, rest) ↔ bytes = boxBytes b ++ rest := by
  simp only [box, bind_eq_some, single_eq_some, pure_eq_some, boxBytes, List.append_assoc]
  constructor
  · rintro ⟨_, _, rfl, _, _, rfl, _, _, rfl, _, _, rfl, rfl, rfl⟩
    rfl
  · rintro rfl
    exact ⟨_, _, rfl, _, _, rfl, _, _, rfl, _, _, rfl, rfl, rfl⟩

/-- A node is read where its bytes stand, and nowhere else. -/
theorem node_eq_some {n : Node} : node bytes = some (n, rest) ↔ bytes = nodeBytes n ++ rest := by
  simp only [node, bind_eq_some, box_eq_some, number_eq_some, bool_eq_some, pure_eq_some,
    nodeBytes, List.append_assoc, List.singleton_append]
  constructor
  · rintro ⟨b, _, rfl, start, _, ⟨hstart, rfl⟩, len, _, ⟨hlen, rfl⟩, isLeaf, _, rfl, count, _,
      ⟨hcount, rfl⟩, rfl, rfl⟩
    rw [UInt32.toNat_ofNat_of_lt' hstart, UInt32.toNat_ofNat_of_lt' hlen,
      UInt64.toNat_ofNat_of_lt' hcount]
    rfl
  · rintro rfl
    exact ⟨_, _, rfl, _, _, ⟨n.children.start.toNat_lt, rfl⟩, _, _, ⟨n.children.len.toNat_lt, rfl⟩,
      _, _, rfl, _, _, ⟨n.count.toNat_lt, rfl⟩, by simp, rfl⟩

/-- An entry is read where its bytes stand, and nowhere else. -/
theorem entry_eq_some {e : Entry} : entry bytes = some (e, rest) ↔
    bytes = entryBytes e ++ rest := by
  simp only [entry, bind_eq_some, box_eq_some, number_eq_some, pure_eq_some, entryBytes,
    List.append_assoc]
  constructor
  · rintro ⟨b, _, rfl, row, _, ⟨hrow, rfl⟩, rfl, rfl⟩
    rw [UInt64.toUInt64_toInt64, UInt64.toNat_ofNat_of_lt' hrow]
  · rintro rfl
    exact ⟨_, _, rfl, _, _, ⟨e.row.toUInt64.toNat_lt, rfl⟩, by simp, rfl⟩

section List

variable {value : ByteReader α} {valueBytes : α → List UInt8}
  (hvalue : ∀ bytes a rest, value bytes = some (a, rest) ↔ bytes = valueBytes a ++ rest)

include hvalue

/-- As many values as asked for are read where their bytes stand one after the other. -/
theorem values_eq_some {count : Nat} {l : List α} : values value count bytes = some (l, rest) ↔
    l.length = count ∧ bytes = l.flatMap valueBytes ++ rest := by
  induction count generalizing bytes l with
  | zero =>
    rw [values, pure_eq_some, List.length_eq_zero_iff, eq_comm]
    exact and_congr_right fun h => by rw [h]; rfl
  | succ count ih =>
    simp only [values, bind_eq_some, hvalue, pure_eq_some]
    constructor
    · rintro ⟨a, _, rfl, l, _, hrest, rfl, rfl⟩
      obtain ⟨rfl, rfl⟩ := ih.mp hrest
      exact ⟨rfl, by rw [List.flatMap_cons, List.append_assoc]⟩
    · rintro ⟨hlength, rfl⟩
      cases l with
      | nil => cases hlength
      | cons a l =>
        rw [List.flatMap_cons, List.append_assoc]
        exact ⟨a, _, rfl, l, _, ih.mpr ⟨Nat.succ.inj hlength, rfl⟩, rfl, rfl⟩

/-- A list is read where its length and the bytes of its members stand, if the length fits its
bytes. -/
theorem list_eq_some {l : List α} : list value bytes = some (l, rest) ↔
    l.length < UInt64.size ∧ bytes = listBytes valueBytes l ++ rest := by
  simp only [list, bind_eq_some, number_eq_some, values_eq_some hvalue, listBytes,
    List.append_assoc]
  constructor
  · rintro ⟨n, _, ⟨hn, rfl⟩, rfl, rfl⟩
    exact ⟨hn, rfl⟩
  · rintro ⟨hl, rfl⟩
    exact ⟨_, _, ⟨hl, rfl⟩, rfl, rfl⟩

end List

end Accepts

end Image

/-- The sizes of the arrays fit the lengths in front of them. -/
def Tree.Representable (t : Tree) : Prop :=
  t.nodes.size < UInt64.size ∧ t.entries.size < UInt64.size

namespace Image

/-- The parts of a tree are read where their bytes stand, if their lengths fit. -/
theorem body_eq_some {bytes rest : List UInt8} {t : Tree} : body bytes = some (t, rest) ↔
    t.Representable ∧ bytes = bodyBytes t ++ rest := by
  simp only [body, bind_eq_some, list_eq_some fun _ _ _ => node_eq_some,
    list_eq_some fun _ _ _ => entry_eq_some, number_eq_some, pure_eq_some, bodyBytes,
    List.append_assoc]
  constructor
  · rintro ⟨nodes, _, ⟨hnodes, rfl⟩, entries, _, ⟨hentries, rfl⟩, root, _, ⟨hroot, rfl⟩, height, _,
      ⟨hheight, rfl⟩, fanout, _, ⟨hfanout, rfl⟩, rfl, rfl⟩
    rw [UInt32.toNat_ofNat_of_lt' hroot, UInt32.toNat_ofNat_of_lt' hheight,
      UInt64.toNat_ofNat_of_lt' hfanout]
    exact ⟨⟨hnodes, hentries⟩, rfl⟩
  · rintro ⟨⟨hnodes, hentries⟩, rfl⟩
    exact ⟨_, _, ⟨hnodes, rfl⟩, _, _, ⟨hentries, rfl⟩, _, _, ⟨t.root.toNat_lt, rfl⟩, _, _,
      ⟨t.height.toNat_lt, rfl⟩, _, _, ⟨t.fanout.toNat_lt, rfl⟩, by simp, rfl⟩

section Failure

/-- A reader takes bytes off the front whatever comes after them, and where it takes nothing the
bytes are broken or can be completed to something that it reads to the end. -/
structure Framed {α : Type} (reader : ByteReader α) (broken : List UInt8 → Prop) : Prop where
  /-- What is taken does not depend on the bytes after it. -/
  takes : ∀ {bytes a rest}, reader bytes = some (a, rest) →
    ∃ front, bytes = front ++ rest ∧ ∀ more, reader (front ++ more) = some (a, more)
  /-- Bytes that are not broken can be completed. -/
  fails : ∀ {bytes}, reader bytes = none →
    broken bytes ∨ ∃ more a, more ≠ [] ∧ reader (bytes ++ more) = some (a, [])
  /-- Nothing is read from broken bytes. -/
  rejects : ∀ {bytes}, broken bytes → reader bytes = none
  /-- What is broken has a byte. -/
  not_nil : ¬broken []

namespace Framed

variable {α β : Type} {reader : ByteReader α} {broken broken' : List UInt8 → Prop}

/-- Bytes from which nothing is read are broken or stop too early. -/
theorem eq_none_iff (h : Framed reader broken) {bytes : List UInt8} : reader bytes = none ↔
    broken bytes ∨ ∃ more a, more ≠ [] ∧ reader (bytes ++ more) = some (a, []) := by
  refine ⟨h.fails, ?_⟩
  rintro (hbroken | ⟨more, a, hmore, hread⟩)
  · exact h.rejects hbroken
  · cases hbytes : reader bytes with
    | none => rfl
    | some pair =>
      obtain ⟨front, rfl, hfront⟩ := h.takes hbytes
      rw [List.append_assoc, hfront] at hread
      have hnil := (Prod.mk.inj (Option.some.inj hread)).2
      exact absurd (List.append_eq_nil_iff.mp hnil).2 hmore

/-- Another description of the broken bytes describes the same reader. -/
theorem congr (h : Framed reader broken) (hiff : ∀ bytes, broken bytes ↔ broken' bytes) :
    Framed reader broken' := by
  have heq : broken = broken' := funext fun bytes => propext (hiff bytes)
  exact heq ▸ h

/-- Reading nothing takes nothing, and no bytes are broken for it. -/
theorem pure (a : α) : Framed (Pure.pure a) fun _ => False where
  takes h := by
    obtain ⟨hvalue, hrest⟩ := pure_eq_some.mp h
    exact ⟨[], by rw [hrest]; rfl, fun _ => pure_eq_some.mpr ⟨hvalue, rfl⟩⟩
  fails h := by cases h
  rejects h := h.elim
  not_nil h := h

/-- One reader after the other: broken is what the first one finds broken or, behind what it
takes, the second one. -/
theorem bind {next : α → ByteReader β} {later : α → List UInt8 → Prop} (h : Framed reader broken)
    (hnext : ∀ a, Framed (next a) (later a)) :
    Framed (reader >>= next) fun bytes => broken bytes ∨
      ∃ a rest, reader bytes = some (a, rest) ∧ later a rest where
  takes := by
    intro bytes b rest hread
    obtain ⟨a, middle, hfirst, hsecond⟩ := bind_eq_some.mp hread
    obtain ⟨front, rfl, hfront⟩ := h.takes hfirst
    obtain ⟨front', rfl, hfront'⟩ := (hnext a).takes hsecond
    refine ⟨front ++ front', (List.append_assoc _ _ _).symm, fun more => ?_⟩
    rw [List.append_assoc]
    exact bind_eq_some.mpr ⟨a, _, hfront _, hfront' more⟩
  fails := by
    intro bytes hread
    rcases bind_eq_none.mp hread with hfirst | ⟨a, rest, hfirst, hsecond⟩
    · rcases h.fails hfirst with hbroken | ⟨more, a, hmore, hcomplete⟩
      · exact .inl (.inl hbroken)
      · -- What completes the first is followed by whatever completes the second.
        cases hsecond : next a [] with
        | none =>
          rcases (hnext a).fails hsecond with hbroken | ⟨more', b, _, hcomplete'⟩
          · exact absurd hbroken (hnext a).not_nil
          · obtain ⟨front, heq, hfront⟩ := h.takes hcomplete
            refine .inr ⟨more ++ more', b, by simp [hmore], ?_⟩
            rw [← List.append_assoc, heq, List.append_nil]
            exact bind_eq_some.mpr ⟨a, _, hfront _, hcomplete'⟩
        | some pair =>
          obtain ⟨front, hnil, _⟩ := (hnext a).takes hsecond
          have hrest : pair.2 = [] := (List.append_eq_nil_iff.mp hnil.symm).2
          refine .inr ⟨more, pair.1, hmore, bind_eq_some.mpr ⟨a, _, hcomplete, ?_⟩⟩
          rw [hsecond, ← hrest]
    · rcases (hnext a).fails hsecond with hbroken | ⟨more, b, hmore, hcomplete⟩
      · exact .inl (.inr ⟨a, rest, hfirst, hbroken⟩)
      · obtain ⟨front, rfl, hfront⟩ := h.takes hfirst
        refine .inr ⟨more, b, hmore, ?_⟩
        rw [List.append_assoc]
        exact bind_eq_some.mpr ⟨a, _, hfront _, hcomplete⟩
  rejects := by
    rintro bytes (hbroken | ⟨a, rest, hfirst, hbroken⟩)
    · exact bind_eq_none.mpr (.inl (h.rejects hbroken))
    · exact bind_eq_none.mpr (.inr ⟨a, rest, hfirst, (hnext a).rejects hbroken⟩)
  not_nil := by
    rintro (hbroken | ⟨a, rest, hfirst, hbroken⟩)
    · exact h.not_nil hbroken
    · obtain ⟨front, hnil, _⟩ := h.takes hfirst
      rw [(List.append_eq_nil_iff.mp hnil.symm).2] at hbroken
      exact (hnext a).not_nil hbroken

/-- No bytes are broken for the reading of a number, only too few. -/
theorem number (count : Nat) : Framed (number count) fun _ => False where
  takes := by
    intro bytes n rest hread
    obtain ⟨hn, rfl⟩ := number_eq_some.mp hread
    exact ⟨_, rfl, fun _ => number_eq_some.mpr ⟨hn, rfl⟩⟩
  fails := by
    intro bytes hread
    have hshort : bytes.length < count := by
      by_contra hlong
      simp [Image.number, List.length_take, Nat.min_eq_left (Nat.not_lt.mp hlong)] at hread
    refine .inr ⟨List.replicate (count - bytes.length) 0,
      numberOfBytes (bytes ++ List.replicate (count - bytes.length) 0), ?_, ?_⟩
    · rw [Ne, List.replicate_eq_nil_iff]
      omega
    · have hlength : (bytes ++ List.replicate (count - bytes.length) 0).length = count := by
        rw [List.length_append, List.length_replicate]
        omega
      rw [Image.number, List.take_of_length_le (by omega), List.drop_eq_nil_of_le (by omega),
        if_pos hlength]
  rejects h := h.elim
  not_nil h := h

/-- A byte that is no truth value is where a byte for one should be. -/
theorem bool : Framed bool fun bytes =>
    ∃ byte rest, byte ≠ 0 ∧ byte ≠ 1 ∧ bytes = byte :: rest where
  takes := by
    intro bytes b rest hread
    rw [bool_eq_some] at hread
    exact ⟨[boolByte b], hread, fun _ => bool_eq_some.mpr rfl⟩
  fails := by
    intro bytes hread
    cases bytes with
    | nil => exact .inr ⟨[0], false, by simp, rfl⟩
    | cons byte bytes =>
      refine .inl ⟨byte, bytes, ?_, ?_, rfl⟩
      · rintro rfl
        cases hread
      · rintro rfl
        cases hread
  rejects := by
    rintro _ ⟨byte, rest, hzero, hone, rfl⟩
    unfold Image.bool
    split
    · rename_i h
      cases h
      exact absurd rfl hzero
    · rename_i h
      cases h
      exact absurd rfl hone
    · rfl
  not_nil := by
    rintro ⟨_, _, _, _, h⟩
    cases h

/-- No bytes are broken for the reading of a side. -/
theorem single : Framed single fun _ => False :=
  ((number 4).bind fun _ => .pure _).congr (by simp)

/-- No bytes are broken for the reading of a box. -/
theorem box : Framed box fun _ => False :=
  (single.bind fun _ => single.bind fun _ => single.bind fun _ => single.bind fun _ =>
    .pure _).congr (by simp)

/-- No bytes are broken for the reading of an entry. -/
theorem entry : Framed entry fun _ => False :=
  (box.bind fun _ => (number 8).bind fun _ => .pure _).congr (by simp)

end Framed

/-- The bytes of a node with another byte where its truth value should be. -/
def BreaksNode (bytes : List UInt8) : Prop :=
  ∃ (b : Box) (children : ChildRange) (byte : UInt8) (rest : List UInt8), byte ≠ 0 ∧ byte ≠ 1 ∧
    bytes = boxBytes b ++ (numberBytes 4 children.start.toNat ++
      (numberBytes 4 children.len.toNat ++ byte :: rest))

/-- The bytes of a tree with another byte where the truth value of one of its nodes should be. -/
def BreaksBody (bytes : List UInt8) : Prop :=
  ∃ (count : Nat) (nodes : List Node) (rest : List UInt8), count < UInt64.size ∧
    nodes.length < count ∧ BreaksNode rest ∧
      bytes = numberBytes 8 count ++ (nodes.flatMap nodeBytes ++ rest)

namespace Framed

/-- The bytes of a node are broken when another byte stands for its truth value. -/
theorem node : Framed node BreaksNode := by
  refine (box.bind fun _ => (number 4).bind fun _ => (number 4).bind fun _ => bool.bind fun _ =>
    (number 8).bind fun _ => .pure _).congr fun bytes => ?_
  simp only [false_or, and_false, exists_false, or_false, box_eq_some, number_eq_some]
  constructor
  · rintro ⟨b, _, rfl, start, _, ⟨hstart, rfl⟩, len, _, ⟨hlen, rfl⟩, byte, rest, hzero, hone, rfl⟩
    refine ⟨b, ⟨.ofNat start, .ofNat len⟩, byte, rest, hzero, hone, ?_⟩
    rw [UInt32.toNat_ofNat_of_lt' hstart, UInt32.toNat_ofNat_of_lt' hlen]
  · rintro ⟨b, children, byte, rest, hzero, hone, rfl⟩
    exact ⟨b, _, rfl, _, _, ⟨children.start.toNat_lt, rfl⟩, _, _, ⟨children.len.toNat_lt, rfl⟩,
      byte, rest, hzero, hone, rfl⟩

section List

variable {value : ByteReader α} {valueBytes : α → List UInt8}
  (hvalue : ∀ bytes a rest, value bytes = some (a, rest) ↔ bytes = valueBytes a ++ rest)
  (h : Framed value broken)

include hvalue h

/-- The bytes of several values are broken when those of one are, after all of the earlier ones. -/
theorem values (count : Nat) : Framed (values value count) fun bytes =>
    ∃ (l : List α) (rest : List UInt8), l.length < count ∧ broken rest ∧
      bytes = l.flatMap valueBytes ++ rest := by
  induction count with
  | zero => exact (Framed.pure []).congr fun _ => by simp
  | succ count ih =>
    refine (h.bind fun _ => ih.bind fun _ => .pure _).congr fun bytes => ?_
    simp only [and_false, exists_false, or_false, hvalue]
    constructor
    · rintro (hbroken | ⟨a, _, rfl, l, rest, hlength, hbroken, rfl⟩)
      · exact ⟨[], bytes, Nat.succ_pos _, hbroken, rfl⟩
      · exact ⟨a :: l, rest, Nat.succ_lt_succ hlength, hbroken, by simp⟩
    · rintro ⟨l, rest, hlength, hbroken, rfl⟩
      cases l with
      | nil => exact .inl hbroken
      | cons a l =>
        exact .inr ⟨a, _, by rw [List.flatMap_cons, List.append_assoc], l, rest,
          Nat.lt_of_succ_lt_succ hlength, hbroken, rfl⟩

/-- The bytes of a list are broken when those of one member are, after the length and the earlier
members. -/
theorem list : Framed (list value) fun bytes =>
    ∃ (count : Nat) (l : List α) (rest : List UInt8), count < UInt64.size ∧ l.length < count ∧
      broken rest ∧ bytes = numberBytes 8 count ++ (l.flatMap valueBytes ++ rest) := by
  refine ((number 8).bind fun count => Framed.values hvalue h count).congr fun bytes => ?_
  simp only [false_or, number_eq_some]
  constructor
  · rintro ⟨count, _, ⟨hcount, rfl⟩, l, rest, hlength, hbroken, rfl⟩
    exact ⟨count, l, rest, hcount, hlength, hbroken, rfl⟩
  · rintro ⟨count, l, rest, hcount, hlength, hbroken, rfl⟩
    exact ⟨count, _, ⟨hcount, rfl⟩, l, rest, hlength, hbroken, rfl⟩

end List

/-- The bytes of a tree are broken when those of one of its nodes are. -/
theorem body : Framed body BreaksBody := by
  refine ((Framed.list (fun _ _ _ => node_eq_some) node).bind fun _ =>
    (Framed.list (fun _ _ _ => entry_eq_some) entry).bind fun _ => (number 4).bind fun _ =>
      (number 4).bind fun _ => (number 8).bind fun _ => .pure _).congr fun bytes => ?_
  simp only [false_and, and_false, exists_false, or_false]
  rfl

end Framed

/-- Parts of a tree are not read exactly when the bytes hold a byte that is no truth value where
one should be, or stop before the end. -/
theorem body_eq_none {bytes : List UInt8} : body bytes = none ↔ BreaksBody bytes ∨
    ∃ (t : Tree) (more : List UInt8), t.Representable ∧ more ≠ [] ∧
      bodyBytes t = bytes ++ more := by
  rw [Framed.body.eq_none_iff]
  refine or_congr_right ⟨?_, ?_⟩
  · rintro ⟨more, t, hmore, hread⟩
    obtain ⟨ht, hbytes⟩ := body_eq_some.mp hread
    exact ⟨t, more, ht, hmore, by rw [hbytes, List.append_nil]⟩
  · rintro ⟨t, more, ht, hmore, hbytes⟩
    exact ⟨more, t, hmore, body_eq_some.mpr ⟨ht, by rw [hbytes, List.append_nil]⟩⟩

end Failure

end Image

namespace Tree

open Image

variable {bytes : List UInt8} {t : Tree}

/-- A tree that passes its check has arrays that an image can hold. -/
theorem representable_of_validate (h : t.validate = .ok ()) : t.Representable := by
  by_cases hsize : 0 < t.size
  · have hlayout := (validate_eq_ok_iff_layout hsize).mp h
    have hlt : UInt32.size + UInt32.size < UInt64.size := by decide
    exact ⟨Nat.lt_of_le_of_lt hlayout.nodes_size_le (by omega),
      Nat.lt_of_le_of_lt hlayout.entries_size_le hlt⟩
  · have hzero : t.size = 0 := by omega
    obtain ⟨_, _, _, _, hnodes⟩ := (validate_eq_ok_iff_of_isEmpty hzero).mp h
    exact ⟨by rw [hnodes]; decide, by rw [show t.entries.size = 0 from hzero]; decide⟩

/-- The image of a tree is a header, which is the same for all trees, and the bytes of its parts. -/
theorem toImage_eq (t : Tree) : t.toImage = (mark ++ [version]) ++ bodyBytes t := by
  rw [toImage, List.append_assoc, List.singleton_append]

/-- Behind the mark and the version the parts of a tree are read and checked. -/
theorem ofImage_append (rest : List UInt8) : ofImage ((mark ++ [version]) ++ rest) =
    match body rest with
    | none => .error .unreadable
    | some (t, _) =>
      match t.validate with
      | .ok () => .ok t
      | .error _ => .error .invalid := by
  have hmark : mark.isPrefixOf? ((mark ++ [version]) ++ rest) = some (version :: rest) := by
    rw [List.isPrefixOf?_eq_some_iff_append_eq, List.append_assoc, List.singleton_append]
  rw [ofImage, hmark]
  rfl

/-- Without the mark and the version nothing is read. -/
theorem ofImage_eq_invalid (h : ¬mark ++ [version] <+: bytes) :
    ofImage bytes = .error .invalid := by
  rw [ofImage]
  split
  · rename_i first rest hmark
    have hbytes := List.isPrefixOf?_eq_some_iff_append_eq.mp hmark
    have hversion : first ≠ version := by
      rintro rfl
      exact h ⟨rest, by rw [← hbytes, List.append_assoc, List.singleton_append]⟩
    rw [if_pos hversion]
  · rfl

/-- What is read behind the mark and the version is the tree whose image comes first. -/
theorem body_eq_some_iff {rest : List UInt8} : (∃ later, body rest = some (t, later)) ↔
    t.Representable ∧ t.toImage <+: (mark ++ [version]) ++ rest := by
  rw [toImage_eq, List.prefix_append_right_inj]
  constructor
  · rintro ⟨later, hread⟩
    obtain ⟨ht, rfl⟩ := body_eq_some.mp hread
    exact ⟨ht, later, rfl⟩
  · rintro ⟨ht, later, rfl⟩
    exact ⟨later, body_eq_some.mpr ⟨ht, rfl⟩⟩

/-- Whatever begins with the image of a tree begins with the header. -/
theorem header_of_toImage (h : t.toImage <+: bytes) : mark ++ [version] <+: bytes := by
  rw [toImage_eq] at h
  exact (List.prefix_append _ _).trans h

/-- The tree of an image is one that passes its check and whose image comes first. -/
theorem ofImage_eq_ok_iff :
    ofImage bytes = .ok t ↔ t.validate = .ok () ∧ t.toImage <+: bytes := by
  by_cases hheader : mark ++ [version] <+: bytes
  · obtain ⟨rest, rfl⟩ := hheader
    have hread : t.validate = .ok () ∧ t.toImage <+: (mark ++ [version]) ++ rest ↔
        t.validate = .ok () ∧ ∃ later, body rest = some (t, later) :=
      and_congr_right fun h => by rw [body_eq_some_iff, and_iff_right (representable_of_validate h)]
    rw [hread, ofImage_append]
    cases hbody : body rest with
    | none => simp
    | some pair =>
      obtain ⟨u, later⟩ := pair
      dsimp only
      cases hcheck : u.validate with
      | ok _ =>
        simp only [Except.ok.injEq, Option.some.injEq, Prod.mk.injEq]
        constructor
        · rintro rfl
          exact ⟨hcheck, later, rfl, rfl⟩
        · rintro ⟨_, _, rfl, _⟩
          rfl
      | error violation =>
        refine iff_of_false (fun h => by cases h) ?_
        rintro ⟨ht, _, ⟨⟩⟩
        rw [hcheck] at ht
        cases ht
  · rw [ofImage_eq_invalid hheader]
    exact iff_of_false (fun h => by cases h) fun h => hheader (header_of_toImage h.2)

/-- Bytes are no image when the mark or the version is not there, or a tree comes first that does
not pass its check. -/
theorem ofImage_eq_invalid_iff : ofImage bytes = .error .invalid ↔
    ¬mark ++ [version] <+: bytes ∨
      ∃ t : Tree, t.Representable ∧ t.toImage <+: bytes ∧ t.validate ≠ .ok () := by
  by_cases hheader : mark ++ [version] <+: bytes
  · obtain ⟨rest, rfl⟩ := hheader
    simp only [← and_assoc, ← body_eq_some_iff, List.prefix_append, not_true, false_or]
    rw [ofImage_append]
    cases hbody : body rest with
    | none => simp
    | some pair =>
      obtain ⟨u, later⟩ := pair
      dsimp only
      cases hcheck : u.validate with
      | ok _ => simp [hcheck]
      | error violation => simp [hcheck]
  · simp [ofImage_eq_invalid hheader, hheader]

/-- The parts of a tree are unreadable when they stop early or a truth value is neither. -/
theorem ofImage_eq_unreadable_iff : ofImage bytes = .error .unreadable ↔
    ∃ rest, bytes = (mark ++ [version]) ++ rest ∧ (BreaksBody rest ∨
      ∃ (t : Tree) (more : List UInt8), t.Representable ∧ more ≠ [] ∧
        bodyBytes t = rest ++ more) := by
  simp only [← body_eq_none]
  by_cases hheader : mark ++ [version] <+: bytes
  · obtain ⟨rest, rfl⟩ := hheader
    rw [ofImage_append]
    simp only [List.append_cancel_left_eq, exists_eq_left']
    cases hbody : body rest with
    | none => simp
    | some pair =>
      obtain ⟨u, later⟩ := pair
      dsimp only
      cases hcheck : u.validate with
      | ok _ => simp
      | error violation => simp
  · rw [ofImage_eq_invalid hheader]
    refine iff_of_false (fun h => by cases h) ?_
    rintro ⟨rest, rfl, _⟩
    exact hheader (List.prefix_append _ _)

/-- Nothing shorter than an image is read as one: the tree read would have a shorter image, but
come first in the longer one as well. -/
theorem ofImage_ne_ok_of_shorter (ht : t.Representable) (h : bytes <+: t.toImage)
    (hne : bytes ≠ t.toImage) : ∃ fault, ofImage bytes = .error fault := by
  cases hread : ofImage bytes with
  | error fault => exact ⟨fault, rfl⟩
  | ok u =>
    obtain ⟨hu, hprefix⟩ := ofImage_eq_ok_iff.mp hread
    have hwhole := hprefix.trans h
    rw [toImage_eq t] at hwhole
    obtain ⟨_, hread'⟩ := body_eq_some_iff.mpr ⟨representable_of_validate hu, hwhole⟩
    have hself : body (bodyBytes t) = some (t, []) :=
      body_eq_some.mpr ⟨ht, (List.append_nil _).symm⟩
    cases hself.symm.trans hread'
    exact absurd (List.IsPrefix.eq_of_length_le h hprefix.length_le) hne

/-- Reading and writing images are exact.  Bytes give a tree when it passes its check and its image
comes first, whatever follows.  They are no image when the mark or the version is not there or a
tree comes first that does not pass; they are unreadable when the parts of the tree stop early or
one of its truth values is neither.  So every packed tree is read back as it was, and nothing
shorter than an image is read. -/
theorem ofImage_exact :
    (∀ (bytes : List UInt8) (t : Tree),
      ofImage bytes = .ok t ↔ t.validate = .ok () ∧ t.toImage <+: bytes) ∧
    (∀ bytes : List UInt8, ofImage bytes = .error .invalid ↔
      ¬mark ++ [version] <+: bytes ∨
        ∃ t : Tree, t.Representable ∧ t.toImage <+: bytes ∧ t.validate ≠ .ok ()) ∧
    (∀ bytes : List UInt8, ofImage bytes = .error .unreadable ↔
      ∃ rest, bytes = (mark ++ [version]) ++ rest ∧ (BreaksBody rest ∨
        ∃ (t : Tree) (more : List UInt8), t.Representable ∧ more ≠ [] ∧
          bodyBytes t = rest ++ more)) ∧
    (∀ (p : Packing) (entries : List Entry) (t : Tree),
      p.pack entries = .ok t ∨ p.packSorted entries = .ok t → ofImage t.toImage = .ok t) ∧
    (∀ (t : Tree) (bytes : List UInt8), t.Representable → bytes <+: t.toImage →
      bytes ≠ t.toImage → ∃ fault, ofImage bytes = .error fault) := by
  refine ⟨fun _ _ => ofImage_eq_ok_iff, fun _ => ofImage_eq_invalid_iff,
    fun _ => ofImage_eq_unreadable_iff, ?_, fun _ _ => ofImage_ne_ok_of_shorter⟩
  rintro p entries t (h | h)
  · exact ofImage_eq_ok_iff.mpr ⟨Packing.validate_of_packSorted h, List.prefix_refl _⟩
  · exact ofImage_eq_ok_iff.mpr ⟨Packing.validate_of_packSorted h, List.prefix_refl _⟩

/-- The tree of two points is read back, and nothing is read from its mark alone. -/
theorem ofImage_two_points :
    let point (n : Int) : Box := .ofPoint (.ofInt n) (.ofInt n)
    ∃ t, Packing.packSorted ⟨2, 1, 0, .minX⟩ [⟨point 1, 7⟩, ⟨point 2, 8⟩] = .ok t ∧
      ofImage t.toImage = .ok t ∧ ∃ fault, ofImage mark = .error fault := by
  intro point
  obtain ⟨t, ht⟩ : ∃ t, Packing.packSorted ⟨2, 1, 0, .minX⟩ [⟨point 1, 7⟩, ⟨point 2, 8⟩] = .ok t :=
    ⟨_, Packing.packSorted_eq_ok_iff.mpr ⟨by decide, by decide, by decide +kernel, rfl⟩⟩
  obtain ⟨hread, _, _, hpacked, hshorter⟩ := ofImage_exact
  have hok := hpacked _ _ t (.inr ht)
  refine ⟨t, ht, hok, hshorter t mark ?_ ?_ ?_⟩
  · exact representable_of_validate ((hread _ _).mp hok).1
  · exact ⟨_, rfl⟩
  · rw [toImage]
    simp

end Tree

end SpatialIndex
