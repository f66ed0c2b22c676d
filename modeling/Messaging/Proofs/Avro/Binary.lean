import Messaging.Proofs.Avro.Reading
import Messaging.Proofs.Avro.Reordered
import Messaging.Proofs.Number.Varint
import Messaging.Proofs.Text.Uuid

/-! # Values that are read back from their binary encoding

`fits_of_shaped`: a value of the shape of a schema is let through before it is written, if no field
has the name of an earlier one for an alias. `encodeAs_decodes`: it is written, in whatever order
the entries of maps are, and what is written is read back as the value, whatever follows it, if all
lengths are within the limits of the reader.
The limits are a relation of values and schemas that has to allow for this in values without parts
and in indices (`Value.Legible`); `Value.Short` is one where there are no big decimals. -/

namespace Messaging.Avro

open Number Binary

namespace Schema

/-- Has no field of the schema, if it is a record, the name of an earlier one for an alias? -/
def Unshadowed : Schema → Prop
  | record _ fields => fields.Pairwise fun f g => f.1.name ∉ g.1.aliases
  | _ => True

/-- Has the schema, if it is a union, no more branches than an index can name? -/
def Few : Schema → Prop
  | union branches => branches.length ≤ 0x8000000000000000
  | _ => True

end Schema

namespace Value

/-- Are the lengths of the value, by itself, within the limits of the reader? -/
def Short : Schema → Value → Prop
  | _, bytes b => b.length ≤ maxLength
  | _, string s => (Bytes.ofString s).length ≤ maxLength
  | .decimal .bytes, decimal b => b.length ≤ maxLength
  | _, enum index _ => index < 0x80000000
  | _, array items => items.length ≤ maxLength
  | _, map entries =>
    entries.length ≤ maxLength ∧ ∀ e ∈ entries, (Bytes.ofString e.1).length ≤ maxLength
  | _, _ => True

/-! ### Values that fit -/

theorem fits_congr {names : Names} {s t : Schema} (h : s.resolve names = t.resolve names)
    (v : Value) : v.fits names s = v.fits names t := by
  cases v <;> simp only [fits, h]

theorem encodeAs_congr {names : Names} {s t : Schema} (h : s.resolve names = t.resolve names)
    (v : Value) : v.encodeAs names s = v.encodeAs names t := by
  cases v <;> simp only [encodeAs, h]

/-- A field is checked under its own schema: no later field has its name, by itself or for an
alias. -/
theorem checkedField_eq {fields : List (Field × Schema)}
    (hdistinct : Definition.distinctFields fields = true)
    (hshadow : fields.Pairwise fun f g => f.1.name ∉ g.1.aliases) {f : Field × Schema}
    (hf : f ∈ fields) : checkedField fields f.1.name = some f.2 := by
  have hpairs := Definition.pairwise_of_distinctFields hdistinct
  obtain ⟨before, after, rfl⟩ := List.append_of_mem hf
  have hname := (List.pairwise_cons.mp (List.pairwise_append.mp hpairs).2.1).1
  have halias := (List.pairwise_cons.mp (List.pairwise_append.mp hshadow).2.1).1
  have hafter : (after.reverse.find? fun g =>
      g.1.name = f.1.name || g.1.aliases.contains f.1.name) = none := by
    refine List.find?_eq_none.mpr fun g hg => ?_
    have hg' := List.mem_reverse.mp hg
    simp [(hname g hg').1, halias g hg']
  rw [checkedField, List.reverse_append, List.reverse_cons, List.append_assoc, List.find?_append,
    hafter]
  simp

theorem fits_leaf {names : Names} {s : Schema} {v : Value} (hs : s.IsLeaf) (h : LeafOf s v) :
    v.fits names s = true := by
  cases s <;> cases v <;>
    first
    | exact absurd hs h
    | exact hs.elim
    | rfl
    | skip
  · simp only [LeafOf] at h
    simp [fits, Schema.resolve, h]
  · simp only [LeafOf] at h
    simp [fits, Schema.resolve, h]
  · simp [fits, Schema.resolve, h.1]
  · simp [fits, Schema.resolve, h.1]

theorem itemsFit_iff {names : Names} {s : Schema} {items : List Value} :
    itemsFit names s items = true ↔ ∀ v ∈ items, v.fits names s = true := by
  induction items with
  | nil => simp [itemsFit]
  | cons v rest ih => simp [itemsFit, ih]

theorem entriesFit_iff {names : Names} {s : Schema} {entries : List (String × Value)} :
    entriesFit names s entries = true ↔ ∀ e ∈ entries, e.2.fits names s = true := by
  induction entries with
  | nil => simp [entriesFit]
  | cons e rest ih => simp [entriesFit, ih]

theorem fieldsFit_of_forall₂ {names : Names} {schemas fields : List (Field × Schema)}
    {entries : List (String × Value)}
    (h : List.Forall₂ (fun f e => checkedField schemas e.1 = some f.2 ∧ e.2.fits names f.2 = true)
      fields entries) : fieldsFit names schemas entries = true := by
  induction h with
  | nil => rfl
  | cons hfirst _ ih => simp [fieldsFit, hfirst.1, hfirst.2, ih]

/-- A value of the shape of the schema is let through. -/
theorem fits_of_shaped {names : Names} {P : List Schema} (hP : Sound names P)
    (hshadow : ∀ s ∈ P, s.Unshadowed) {s : Schema} {v : Value} (h : Shaped names LeafOf s v)
    (hs : s ∈ P) : v.fits names s = true := by
  induction h with
  | leaf leaf node => exact fits_leaf leaf node
  | ref found _ ih =>
    rw [fits_congr (hP.resolve_ref found)]
    exact ih (hP.target found)
  | array _ _ ih => exact itemsFit_iff.mpr fun v hv => ih v hv (hP.items hs)
  | map _ _ _ ih => exact entriesFit_iff.mpr fun e he => ih e he (hP.values hs)
  | @record name fields entries _ order _ ih =>
    have hlength : entries.length = fields.length := by
      simpa using congrArg List.length order
    have hfields : fieldsFit names fields entries = true := fieldsFit_of_forall₂
      (Shaped.forall₂_fields order fun p hp hname => by
        have hf := (List.of_mem_zip hp).1
        refine ⟨?_, ih p hp (hP.fields hs _ hf)⟩
        rw [hname]
        exact checkedField_eq (hP.wellFormed _ hs).1 (hshadow _ hs) hf)
    simp [fits, Schema.resolve, hlength, hfields]
  | @union branches index branch v _ chosen _ ih =>
    have hfit := ih (hP.branches hs _ (List.mem_of_getElem? chosen))
    simpa [fits, Schema.resolve, chosen] using hfit

end Value

/-! ### What is written is read back -/

namespace Binary

theorem readLong_writeInt {i : Int} (h : -0x8000000000000000 ≤ i ∧ i < 0x8000000000000000)
    (rest : Bytes) : readLong (writeInt i ++ rest) = .ok (i, rest) := by
  rw [readLong, writeInt, Varint.decode_encode (Varint.zigzag_lt h)]
  simp only [Varint.unzigzag_zigzag]

theorem readInt_writeInt {i : Int} (h : -0x80000000 ≤ i ∧ i < 0x80000000) (rest : Bytes) :
    readInt (writeInt i ++ rest) = .ok (i, rest) := by
  rw [readInt, readLong_writeInt (by omega)]
  exact if_pos (by omega)

theorem readIndex_writeInt {index : Nat} (h : index < 0x8000000000000000) (rest : Bytes) :
    readIndex (writeInt index ++ rest) = .ok (some (index, rest)) := by
  rw [readIndex, writeInt, Varint.decode_encode (Varint.zigzag_lt (by omega))]
  simp only [Varint.unzigzag_zigzag]

theorem readLength_writeInt {n : Nat} (h : n ≤ maxLength) (rest : Bytes) :
    readLength (writeInt n ++ rest) = .ok (n, rest) := by
  have hmax : maxLength = 0x20000000 := rfl
  rw [readLength, readLong_writeInt (by omega)]
  exact if_pos (by omega)

theorem readBlockLength_writeInt {n : Nat} (h : n ≤ maxLength) (rest : Bytes) :
    readBlockLength (writeInt n ++ rest) = .ok (n, rest) := by
  have hmax : maxLength = 0x20000000 := rfl
  have hsign : ¬(n : Int) < 0 := by omega
  rw [readBlockLength, readLong_writeInt (by omega)]
  simp only [Except.bind, if_neg hsign]
  exact if_pos (by omega)

theorem split?_append (b rest : Bytes) : split? b.length (b ++ rest) = some (b, rest) := by
  rw [split?, if_pos (by simp), List.take_left, List.drop_left]

theorem readExactly_append {count : Nat} {b : Bytes} (h : b.length = count) (rest : Bytes) :
    readExactly count (b ++ rest) = .ok (b, rest) := by
  rw [← h, readExactly, split?_append]

theorem readBytes_writeBytes {b : Bytes} (h : b.length ≤ maxLength) (rest : Bytes) :
    readBytes (writeBytes b ++ rest) = .ok (b, rest) := by
  rw [readBytes, writeBytes, List.append_assoc, readLength_writeInt h]
  exact readExactly_append rfl rest

theorem readString_writeBytes {s : String} (h : (Bytes.ofString s).length ≤ maxLength)
    (rest : Bytes) :
    readString (writeBytes (Bytes.ofString s) ++ rest) = .ok (.string s, rest) := by
  rw [readString, writeBytes, List.append_assoc, readLength_writeInt h]
  simp only [Except.bind, split?_append, Bytes.toString?_ofString]

theorem readUuid_writeBytes {b : Bytes} (h : b.length = 16) (rest : Bytes) :
    readUuid (writeBytes (Bytes.ofString (Text.Uuid.text b)) ++ rest) = .ok (.uuid b, rest) := by
  have hlength := Text.Uuid.length_ofString_text h
  have hmax : maxLength = 0x20000000 := rfl
  rw [readUuid, readBytes_writeBytes (by omega)]
  simp only [Except.bind, Bytes.toString?_ofString, Option.bind_some, Text.Uuid.ofString?_text h]
  exact if_neg (by omega)

/-! ### Decimal numbers -/

/-- The bytes that are cut off in front all repeat the sign. -/
theorem trimSign_spec : ∀ b : Bytes, b ≠ [] → (trimSign b).length ≤ b.length ∧
    List.replicate (b.length - (trimSign b).length) (if isNegative b then 255 else 0) ++
      trimSign b = b
  | [], h => absurd rfl h
  | [a], _ => by simp [trimSign]
  | a :: c :: rest, _ => by
    obtain ⟨hlength, hrest⟩ := trimSign_spec (c :: rest) (List.cons_ne_nil _ _)
    rw [trimSign]
    split
    · next hcut =>
      have hsign : isNegative (c :: rest) = isNegative (a :: c :: rest) ∧
          a = if isNegative (a :: c :: rest) then 255 else 0 := by
        rcases hcut with ⟨rfl, hc⟩ | ⟨rfl, hc⟩
        · simp [isNegative, hc]
        · simp [isNegative, hc]
      have hcount : (a :: c :: rest).length - (trimSign (c :: rest)).length =
          (c :: rest).length - (trimSign (c :: rest)).length + 1 := by
        rw [List.length_cons (a := a)]
        omega
      refine ⟨Nat.le_succ_of_le hlength, ?_⟩
      rw [hcount, List.replicate_succ, ← hsign.1, List.cons_append, hrest, hsign.1, ← hsign.2]
    · simp

/-- Bytes of the size are kept as they are. -/
theorem signExtend_eq {size : Nat} {b : Bytes} (hb : b ≠ []) (h : b.length = size) :
    signExtend size b = some b := by
  obtain ⟨hlength, hb'⟩ := trimSign_spec b hb
  rw [signExtend, if_pos (by omega), ← h]
  exact congrArg some hb'

/-! ### Parts one after the other -/

theorem readMany_flatten {α : Type} {one : Bytes → Decoded α} {as : List α} {bs : List Bytes}
    (h : List.Forall₂ (fun a b => ∀ rest, one (b ++ rest) = .ok (a, rest)) as bs) (rest : Bytes) :
    readMany one as.length (bs.flatten ++ rest) = .ok (as, rest) := by
  induction h with
  | nil => rfl
  | cons hfirst _ ih =>
    rw [List.length_cons, List.flatten_cons, List.append_assoc, readMany, hfirst]
    simp only [Except.bind, ih]
    rfl

/-- The bytes of a list in one block, if it has items, and the empty one that ends the blocks. -/
def blocks {α : Type} (as : List α) (b : Bytes) : Bytes :=
  (if as.isEmpty then [] else writeInt as.length) ++ b ++ [0]

theorem length_blocks_pos {α : Type} (as : List α) (b : Bytes) : 0 < (blocks as b).length := by
  rw [blocks, List.length_append]
  exact Nat.succ_pos _

theorem blocks_congr {α β : Type} {as : List α} {cs : List β} (h : as.length = cs.length)
    (b : Bytes) : blocks as b = blocks cs b := by
  simp only [blocks, List.isEmpty_iff_length_eq_zero, h]

theorem readBlocks_flatten {α : Type} {one : Bytes → Decoded α} {as : List α} {bs : List Bytes}
    (h : List.Forall₂ (fun a b => ∀ rest, one (b ++ rest) = .ok (a, rest)) as bs)
    (hlength : as.length ≤ maxLength) {fuel : Nat} (hfuel : 2 ≤ fuel) (rest : Bytes) :
    readBlocks one fuel (blocks as bs.flatten ++ rest) = .ok (as, rest) := by
  obtain ⟨fuel, rfl⟩ : ∃ n, fuel = n + 2 := ⟨fuel - 2, by omega⟩
  have hend : ∀ fuel, readBlocks one (fuel + 1) ([0] ++ rest) = .ok ([], rest) := fun fuel => by
    have hzero := readBlockLength_writeInt (Nat.zero_le maxLength) rest
    have hwrite : writeInt ((0 : Nat) : Int) = [0] := rfl
    rw [hwrite] at hzero
    rw [readBlocks, hzero]
    rfl
  cases h with
  | nil => exact hend _
  | @cons a b as bs hfirst hrest =>
    have hmany := readMany_flatten (.cons hfirst hrest) ([0] ++ rest)
    have hcount : (a :: as).length ≠ 0 := by simp
    simp only [blocks, List.isEmpty_cons, Bool.false_eq_true, if_false, List.append_assoc]
    rw [readBlocks, readBlockLength_writeInt hlength]
    simp only [Except.bind, if_neg hcount, hmany, hend]
    simp [Except.map]

theorem readFields_flatten {one : Schema → Bytes → Decoded Value} {fields : List (Field × Schema)}
    {entries : List (String × Value)} {bs : List Bytes}
    (order : entries.map Prod.fst = fields.map fun f => f.1.name)
    (h : List.Forall₂
      (fun p b => ∀ rest, one p.1.2 (b ++ rest) = .ok (p.2.2, rest)) (fields.zip entries) bs)
    (rest : Bytes) : readFields one fields (bs.flatten ++ rest) = .ok (entries, rest) := by
  induction fields generalizing entries bs with
  | nil =>
    obtain rfl := List.map_eq_nil_iff.mp order
    cases h
    rfl
  | cons f fields ih =>
    cases entries with
    | nil => cases order
    | cons e entries =>
      obtain ⟨hname, horder⟩ := List.cons.inj order
      cases h with
      | cons hfirst hrest =>
        rw [List.flatten_cons, List.append_assoc, readFields, hfirst]
        simp only [Except.bind, ih horder hrest, Except.map]
        exact congrArg (fun k => Except.ok ((k, e.2) :: entries, rest)) hname.symm

end Binary

namespace Value

theorem encodeItems_eq {names : Names} {s : Schema} {vs : List Value} {bs : List Bytes}
    (h : List.Forall₂ (fun v b => v.encodeAs names s = .ok b) vs bs) :
    encodeItems names s vs = .ok bs.flatten := by
  induction h with
  | nil => rfl
  | cons hfirst _ ih =>
    rw [encodeItems, hfirst, ih]
    rfl

theorem encodeEntries_eq {names : Names} {s : Schema} {es : List (String × Value)}
    {bs : List Bytes}
    (h : List.Forall₂ (fun e b => ∃ c, e.2.encodeAs names s = .ok c ∧
      b = writeBytes (Bytes.ofString e.1) ++ c) es bs) :
    encodeEntries names s es = .ok bs.flatten := by
  induction h with
  | nil => rfl
  | cons hfirst _ ih =>
    obtain ⟨c, hc, rfl⟩ := hfirst
    rw [encodeEntries, hc, ih]
    rfl

theorem encodeAs_array {names : Names} {s : Schema} {vs : List Value} {bs : List Bytes}
    (h : List.Forall₂ (fun v b => v.encodeAs names s = .ok b) vs bs) :
    (array vs).encodeAs names (.array s) = .ok (blocks vs bs.flatten) := by
  simp only [encodeAs, Schema.resolve, encodeItems_eq h]
  rfl

theorem encodeAs_map {names : Names} {s : Schema} {es : List (String × Value)} {bs : List Bytes}
    (h : List.Forall₂ (fun e b => ∃ c, e.2.encodeAs names s = .ok c ∧
      b = writeBytes (Bytes.ofString e.1) ++ c) es bs) :
    (map es).encodeAs names (.map s) = .ok (blocks es bs.flatten) := by
  simp only [encodeAs, Schema.resolve, encodeEntries_eq h]
  rfl

theorem encodeFields_eq {names : Names} {fields : List (Field × Schema)}
    {entries : List (String × Value)} {bs : List Bytes}
    (order : entries.map Prod.fst = fields.map fun f => f.1.name)
    (h : List.Forall₂ (fun p b => p.2.2.encodeAs names p.1.2 = .ok b) (fields.zip entries) bs) :
    encodeFields names fields entries = .ok bs.flatten := by
  induction fields generalizing entries bs with
  | nil =>
    obtain rfl := List.map_eq_nil_iff.mp order
    cases h
    rfl
  | cons f fields ih =>
    cases entries with
    | nil => cases order
    | cons e entries =>
      cases h with
      | cons hfirst hrest =>
        rw [encodeFields, hfirst, ih (List.cons.inj order).2 hrest]
        rfl

/-! ### Whole values -/

/-- The bytes are read as the value, whatever follows them, in any number of steps from some on. -/
def Decodes (names : Names) (s : Schema) (b : Bytes) (v : Value) : Prop :=
  ∃ n, ∀ m ≥ n, ∀ rest, decodeWithin names m s (b ++ rest) = .ok (v, rest)

namespace Decodes

variable {names : Names}

/-- One step more than the parts take. -/
theorem of_succ {s : Schema} {b : Bytes} {v : Value}
    (h : ∃ n, ∀ m ≥ n, ∀ rest, decodeWithin names (m + 1) s (b ++ rest) = .ok (v, rest)) :
    Decodes names s b v := by
  obtain ⟨n, hn⟩ := h
  refine ⟨n + 1, fun m hm => ?_⟩
  obtain ⟨m, rfl⟩ : ∃ k, m = k + 1 := ⟨m - 1, by omega⟩
  exact hn m (by omega)

theorem of_step {s : Schema} {b : Bytes} {v : Value}
    (h : ∀ m rest, decodeWithin names (m + 1) s (b ++ rest) = .ok (v, rest)) :
    Decodes names s b v :=
  of_succ ⟨0, fun m _ => h m⟩

theorem decode {s : Schema} {b : Bytes} {v : Value} (h : Decodes names s b v) :
    decode names s b = .ok v := by
  obtain ⟨n, hn⟩ := h
  have hwhole : ∀ m ≥ n, decodeWithin names m s b = .ok (v, []) := fun m hm => by
    have hm' := hn m hm []
    rwa [List.append_nil] at hm'
  exact decode_eq_of_eventually ⟨n, hwhole⟩

theorem ref {name : Name} {s : Schema} {b : Bytes} {v : Value}
    (found : names.find? name.full = some s) (h : Decodes names s b v) :
    Decodes names (.ref name) b v := by
  obtain ⟨n, hn⟩ := h
  refine .of_succ ⟨n, fun m hm rest => ?_⟩
  rw [decodeWithin]
  simp only [found]
  exact hn m hm rest

theorem array {s : Schema} {vs : List Value} {bs : List Bytes}
    (h : List.Forall₂ (fun v b => Decodes names s b v) vs bs) (hlength : vs.length ≤ maxLength) :
    Decodes names (.array s) (blocks vs bs.flatten) (.array vs) := by
  obtain ⟨n, hn⟩ := forall₂_eventually h
  refine .of_succ ⟨n, fun m hm rest => ?_⟩
  have hpos := length_blocks_pos vs bs.flatten
  have hfuel : 2 ≤ (blocks vs bs.flatten ++ rest).length + 1 := by
    rw [List.length_append]
    omega
  rw [decodeWithin, readBlocks_flatten (hn m hm) hlength hfuel rest]
  rfl

theorem entry {one : Bytes → Decoded Value} {key : String} {v : Value} {c : Bytes}
    (hkey : (Bytes.ofString key).length ≤ maxLength)
    (h : ∀ rest, one (c ++ rest) = .ok (v, rest)) (rest : Bytes) :
    readEntry one (writeBytes (Bytes.ofString key) ++ c ++ rest) = .ok ((key, v), rest) := by
  rw [readEntry, List.append_assoc, readString_writeBytes hkey]
  simp only [Except.bind, h]
  rfl

theorem map {s : Schema} {es : List (String × Value)} {bs : List Bytes}
    (h : List.Forall₂ (fun e b => ∃ c, Decodes names s c e.2 ∧
      b = writeBytes (Bytes.ofString e.1) ++ c) es bs)
    (hlength : es.length ≤ maxLength)
    (hkeys : ∀ e ∈ es, (Bytes.ofString e.1).length ≤ maxLength) :
    Decodes names (.map s) (blocks es bs.flatten) (.map (Table.ofList es)) := by
  obtain ⟨n, hn⟩ := forall₂_eventually
    (R := fun m e b => ∀ rest, readEntry (decodeWithin names m s) (b ++ rest) = .ok (e, rest))
    ((List.forall₂_and_left _ _ |>.mpr ⟨hkeys, h⟩).imp fun e b ⟨hkey, c, ⟨n, hn⟩, hb⟩ =>
      ⟨n, fun m hm rest => by rw [hb]; exact entry hkey (hn m hm) rest⟩)
  refine .of_succ ⟨n, fun m hm rest => ?_⟩
  have hpos := length_blocks_pos es bs.flatten
  have hfuel : 2 ≤ (blocks es bs.flatten ++ rest).length + 1 := by
    rw [List.length_append]
    omega
  rw [decodeWithin, readBlocks_flatten (hn m hm) hlength hfuel rest]
  rfl

theorem record {name : Name} {fields : List (Field × Schema)} {es : List (String × Value)}
    {bs : List Bytes} (order : es.map Prod.fst = fields.map fun f => f.1.name)
    (h : List.Forall₂ (fun p b => Decodes names p.1.2 b p.2.2) (fields.zip es) bs) :
    Decodes names (.record name fields) bs.flatten (.record es) := by
  obtain ⟨n, hn⟩ := forall₂_eventually h
  refine .of_succ ⟨n, fun m hm rest => ?_⟩
  rw [decodeWithin, readFields_flatten order (hn m hm) rest]
  rfl

theorem union {branches : List Schema} {index : Nat} {branch : Schema} {v : Value} {b : Bytes}
    (chosen : branches[index]? = some branch) (hindex : index < 0x8000000000000000)
    (h : Decodes names branch b v) :
    Decodes names (.union branches) (writeInt index ++ b) (.union index v) := by
  obtain ⟨n, hn⟩ := h
  refine .of_succ ⟨n, fun m hm rest => ?_⟩
  have hsign : ¬(index : Int) < 0 := by omega
  rw [decodeWithin, List.append_assoc, readIndex_writeInt hindex]
  simp only [if_neg hsign, Int.toNat_natCast, chosen]
  rw [hn m hm]
  rfl

end Decodes

/-- A value without parts is written, and read back if it is short. -/
theorem leaf_decodes {names : Names} {s : Schema} {v : Value} (hs : s.IsLeaf) (hexact : s.Exact)
    (h : LeafOf s v) (hdecimal : DecimalFills s v) :
    ∃ b, v.encodeAs names s = .ok b ∧ (Short s v → Decodes names s b v) := by
  cases s <;> cases v <;> first | exact absurd hs h | exact hs.elim | exact hexact.elim | skip
  case null.null => exact ⟨[], rfl, fun _ => .of_step fun _ _ => rfl⟩
  case boolean.boolean b =>
    cases b
    · exact ⟨[0], rfl, fun _ => .of_step fun _ _ => rfl⟩
    · exact ⟨[1], rfl, fun _ => .of_step fun _ _ => rfl⟩
  case int.int i =>
    refine ⟨_, rfl, fun _ => .of_step fun m rest => ?_⟩
    rw [decodeWithin, readInt_writeInt h]
    rfl
  case long.long i =>
    refine ⟨_, rfl, fun _ => .of_step fun m rest => ?_⟩
    rw [decodeWithin, readLong_writeInt h]
    rfl
  case bytes.bytes b =>
    refine ⟨_, rfl, fun hshort => .of_step fun m rest => ?_⟩
    rw [decodeWithin, readBytes_writeBytes hshort]
    rfl
  case string.string t =>
    refine ⟨_, rfl, fun hshort => .of_step fun m rest => ?_⟩
    rw [decodeWithin, readString_writeBytes hshort]
  case enum.enum name symbols default index symbol =>
    refine ⟨_, rfl, fun hshort => .of_step fun m rest => ?_⟩
    have hindex : index < 0x80000000 := hshort
    have hsymbol : symbolAt symbols index = .ok (.enum index symbol) := by
      rw [symbolAt, if_neg (by omega), Int.toNat_natCast, show symbols[index]? = some symbol from h]
    rw [decodeWithin, readInt_writeInt (by omega)]
    simp only [Except.bind, hsymbol]
    rfl
  case fixed.fixed name size b =>
    refine ⟨_, rfl, fun _ => .of_step fun m rest => ?_⟩
    rw [decodeWithin, readExactly_append h]
    rfl
  case decimal.decimal base b =>
    cases base with
    | bytes =>
      have hwrite : (decimal b).encodeAs names (.decimal .bytes) = .ok (writeBytes b) :=
        if_neg hdecimal
      refine ⟨_, hwrite, fun hshort => .of_step fun m rest => ?_⟩
      rw [decodeWithin, readDecimal, readBytes_writeBytes hshort]
      rfl
    | fixed name size =>
      obtain ⟨hb, hsize⟩ := hdecimal
      have hwrite : (decimal b).encodeAs names (.decimal (.fixed name size)) = .ok b := by
        have hroom : ¬(maxRoom < size ∧ b.length < size) := by omega
        simp only [encodeAs, Schema.resolve, writeDecimal, if_neg hroom, signExtend_eq hb hsize]
      refine ⟨_, hwrite, fun _ => .of_step fun m rest => ?_⟩
      rw [decodeWithin, readDecimal, readExactly_append hsize]
      rfl
  case uuid.uuid b =>
    refine ⟨_, rfl, fun _ => .of_step fun m rest => ?_⟩
    rw [decodeWithin, readUuid_writeBytes h]
  case intAs.intAs meaning meaning' i =>
    obtain ⟨rfl, hrange⟩ := h
    refine ⟨_, rfl, fun _ => .of_step fun m rest => ?_⟩
    rw [decodeWithin, readInt_writeInt hrange]
    rfl
  case longAs.longAs meaning meaning' i =>
    obtain ⟨rfl, hrange⟩ := h
    refine ⟨_, rfl, fun _ => .of_step fun m rest => ?_⟩
    rw [decodeWithin, readLong_writeInt hrange]
    rfl
  case duration.duration b =>
    refine ⟨_, rfl, fun _ => .of_step fun m rest => ?_⟩
    rw [decodeWithin, readExactly_append h]
    rfl

/-- Do the limits leave lengths short and indices in 64 bits, and is a value without parts that
conforms to its schema written, and read back within the limits? -/
structure Legible (names : Names) (P : List Schema) (L : Schema → Value → Prop) : Prop where
  short : ∀ s v, L s v → Short s v
  index : ∀ {branches index v}, .union branches ∈ P → L (.union branches) (.union index v) →
    index < branches.length → index < 0x8000000000000000
  leaf : ∀ s ∈ P, s.IsLeaf → ∀ v, LeafOf s v → DecimalFills s v →
    ∃ b, v.encodeAs names s = .ok b ∧ (L s v → Decodes names s b v)

theorem legible_short {names : Names} {P : List Schema} (hexact : ∀ s ∈ P, s.Exact)
    (hfew : ∀ s ∈ P, s.Few) : Legible names P Short where
  short _ _ h := h
  index {branches index _} hs _ hindex := by
    have hlength : branches.length ≤ 0x8000000000000000 := hfew _ hs
    omega
  leaf s hs leaf _ h hdecimal := leaf_decodes leaf (hexact s hs) h hdecimal

/-- A value that conforms to its schema is written, in whatever order the entries of its maps are,
and read back within the limits. -/
theorem encodeAs_decodes {names : Names} {P : List Schema} (hP : Sound names P)
    {L : Schema → Value → Prop} (hL : Legible names P L) {s : Schema} {v w : Value}
    (h : Conforms names s v) (hw : v.Reordered w) (hs : s ∈ P) :
    ∃ b, w.encodeAs names s = .ok b ∧ (Shaped names L s v → Decodes names s b v) := by
  refine h.reordered (fun _ _ h => h.1) (motive := fun s v w => s ∈ P →
    ∃ b, w.encodeAs names s = .ok b ∧ (Shaped names L s v → Decodes names s b v))
    ?leaf ?ref ?array ?map ?record ?union hw hs
  case leaf =>
    intro s v leaf node hs
    obtain ⟨b, hb, hdecodes⟩ := hL.leaf _ hs leaf _ node.1 node.2
    exact ⟨b, hb, fun hlimits => hdecodes (hlimits.node leaf)⟩
  case ref =>
    intro name s v w found ih hs
    obtain ⟨b, hb, hdecodes⟩ := ih (hP.target found)
    refine ⟨b, (encodeAs_congr (hP.resolve_ref found) _).trans hb, fun hlimits => ?_⟩
    exact .ref found (hdecodes (hlimits.target found))
  case array =>
    intro s vs ws hall hs
    obtain ⟨bs, hdecodes, hencode⟩ := exists_of_forall₂
      (hall.imp fun _ _ ih => (ih (hP.items hs)).imp fun _ h => h.symm)
    refine ⟨_, encodeAs_array hencode, fun hlimits => ?_⟩
    obtain ⟨hnode, hitems⟩ := hlimits.items
    rw [← blocks_congr hall.length_eq]
    refine .array ?_ (hL.short _ _ hnode)
    exact (List.forall₂_and_left _ _ |>.mpr ⟨hitems, hdecodes⟩).imp fun _ _ h => h.2 h.1
  case map =>
    intro s es fs gs sorted order hall hs
    -- What is read are the entries in the order of writing, and a table puts them in order.
    obtain ⟨bs, hdecodes, hencode⟩ := exists_of_forall₂
      (R := fun (f : String × Value) b => ∃ c, (Shaped names L s f.2 → Decodes names s c f.2) ∧
        b = writeBytes (Bytes.ofString f.1) ++ c)
      (S := fun (g : String × Value) b => ∃ c, g.2.encodeAs names s = .ok c ∧
        b = writeBytes (Bytes.ofString g.1) ++ c)
      (hall.imp fun f g ⟨hname, ih⟩ => by
        obtain ⟨c, hc, hdecodes⟩ := ih (hP.values hs)
        exact ⟨_, ⟨c, hdecodes, rfl⟩, c, hc, by rw [hname]⟩)
    refine ⟨_, encodeAs_map hencode, fun hlimits => ?_⟩
    obtain ⟨hnode, hvalues⟩ := hlimits.entries
    obtain ⟨hcount, hkeys⟩ := hL.short _ _ hnode
    have hvalues' : ∀ f ∈ fs, Shaped names L s f.2 :=
      fun f hf => hvalues f (order.mem_iff.mpr hf)
    rw [← blocks_congr hall.length_eq, ← Table.ofList_of_perm sorted order.symm]
    refine .map ?_ (order.length_eq ▸ hcount) fun f hf => hkeys f (order.mem_iff.mpr hf)
    exact (List.forall₂_and_left _ _ |>.mpr ⟨hvalues', hdecodes⟩).imp
      fun _ _ ⟨hvalue, c, hc, hb⟩ => ⟨c, hc hvalue, hb⟩
  case record =>
    intro name fields es fs order order' hall hs
    have hmem : ∀ p ∈ fields.zip es, p.1.2 ∈ P := fun p hp =>
      hP.fields hs _ (List.of_mem_zip hp).1
    obtain ⟨bs, hdecodes, hencode⟩ := exists_of_forall₂
      (R := fun p b => Shaped names L p.1.2 p.2.2 → Decodes names p.1.2 b p.2.2)
      (S := fun (q : (Field × Schema) × (String × Value)) b =>
        q.2.2.encodeAs names q.1.2 = .ok b)
      ((List.forall₂_and_left _ _ |>.mpr ⟨hmem, hall⟩).imp fun p q ⟨hp, hfield, ih⟩ => by
        obtain ⟨b, hb, hdecodes⟩ := ih hp
        exact ⟨b, hdecodes, by rw [hfield]; exact hb⟩)
    have hencode' : (record fs).encodeAs names (.record name fields) = .ok bs.flatten := by
      simp only [encodeAs, Schema.resolve]
      exact encodeFields_eq order' hencode
    refine ⟨_, hencode', fun hlimits => .record order ?_⟩
    exact (List.forall₂_and_left _ _ |>.mpr ⟨hlimits.fields, hdecodes⟩).imp fun _ _ h => h.2 h.1
  case union =>
    intro branches index branch v w chosen ih hs
    obtain ⟨b, hb, hdecodes⟩ := ih (hP.branches hs _ (List.mem_of_getElem? chosen))
    have hencode : (union index w).encodeAs names (.union branches) =
        .ok (writeInt index ++ b) := by
      simp only [encodeAs, Schema.resolve, chosen, hb]
      rfl
    refine ⟨_, hencode, fun hlimits => ?_⟩
    obtain ⟨hnode, hvalue⟩ := hlimits.branch chosen
    have hindex := hL.index hs hnode (List.getElem?_eq_some_iff.mp chosen).1
    exact .union chosen hindex (hdecodes hvalue)

end Value

end Messaging.Avro
