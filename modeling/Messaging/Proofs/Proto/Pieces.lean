import Messaging.Proofs.Bytes
import Messaging.Proofs.Number.Varint
import Messaging.Proto.Wire
import Mathlib.Data.Int.ModEq

/-! # Pieces of the wire format are read back

`Reads` says that a reader takes some data for a value, whatever follows the data. It holds of the
keys of fields (`readKey_writeKey`), of scalars within their range (`Scalar.reads`) and of unknown
fields in their shortest form (`Unread.rereads`); what a message keeps of an unknown field is in that
form (`unread_of_read`). -/

namespace Messaging.Proto

open Number

/-- The reader takes the data for the value, whatever follows the data. -/
def Reads {α : Type} (read : Bytes → Option (α × Bytes)) (data : Bytes) (a : α) : Prop :=
  ∀ rest, read (data ++ rest) = some (a, rest)

theorem Reads.map {α β : Type} {read : Bytes → Option (α × Bytes)} {data : Bytes} {a : α}
    (h : Reads read data a) (f : α → β) :
    Reads (fun b => (read b).map fun x => (f x.1, x.2)) data (f a) := by
  intro rest
  simp only [h rest, Option.map_some]

/-! ### Keys and lengths -/

theorem reads_varint {n : Nat} (h : n < 2 ^ 64) : Reads readVarint (Varint.encode n) n := by
  intro rest
  have hn : n < Nat.pow 128 (9 + 1) := h.trans (by decide)
  rw [readVarint, Varint.encode, Varint.decodeWithin_encodeWithin 9 1 n rest hn]
  simp only [Nat.mul_one]
  exact if_pos h

theorem length_varint_pos (n : Nat) : 0 < (Varint.encode n).length := by
  unfold Varint.encode Varint.encodeWithin
  split <;> exact Nat.zero_lt_succ _

/-- A number that a field may have. -/
def IsNumber (number : Nat) : Prop := 0 < number ∧ number < 2 ^ 29

instance : DecidablePred IsNumber := fun number =>
  inferInstanceAs (Decidable (0 < number ∧ number < 2 ^ 29))

theorem WireType.ofCode?_code (w : WireType) : WireType.ofCode? w.code = some w := by
  cases w <;> rfl

theorem WireType.code_lt (w : WireType) : w.code < 8 := by
  cases w <;> decide

theorem readKey_writeKey {number : Nat} (h : IsNumber number) (w : WireType) (rest : Bytes) :
    readKey (writeKey number w ++ rest) = some (number, w, rest) := by
  obtain ⟨hpos, hlt⟩ := h
  have hcode := w.code_lt
  have hmod : (8 * number + w.code) % 8 = w.code := by omega
  have hdiv : (8 * number + w.code) / 8 = number := by omega
  rw [readKey, writeKey, reads_varint (by omega) rest, Option.bind_eq_bind, Option.bind_some]
  simp only
  rw [if_neg (by omega), hmod, hdiv, WireType.ofCode?_code, Option.bind_eq_bind, Option.bind_some,
    if_neg (by omega)]

theorem length_writeKey_pos (number : Nat) (w : WireType) : 0 < (writeKey number w).length :=
  length_varint_pos _

theorem reads_exactly {count : Nat} {data : Bytes} (h : data.length = count) :
    Reads (readExactly count) data data := by
  intro rest
  subst h
  rw [readExactly, if_pos (by rw [List.length_append]; omega), List.take_left, List.drop_left]

theorem reads_delimited {data : Bytes} (h : data.length < 2 ^ 64) :
    Reads readDelimited (writeDelimited data) data := by
  intro rest
  rw [readDelimited, writeDelimited, List.append_assoc, reads_varint h, Option.bind_eq_bind,
    Option.bind_some]
  exact reads_exactly rfl rest

theorem reads_littleEndian {count n : Nat} (h : n < 256 ^ count) :
    Reads (fun b => (readExactly count b).map fun x => (Bytes.littleEndian x.1, x.2))
      (Bytes.ofLittleEndian count n) n := by
  have hread := (reads_exactly (Bytes.length_ofLittleEndian count n)).map Bytes.littleEndian
  rwa [Bytes.littleEndian_ofLittleEndian h] at hread

theorem length_writeDelimited_pos (data : Bytes) : 0 < (writeDelimited data).length := by
  have hpos := length_varint_pos data.length
  rw [writeDelimited, List.length_append]
  omega

theorem length_le_writeDelimited (data : Bytes) : data.length ≤ (writeDelimited data).length := by
  rw [writeDelimited, List.length_append]
  omega

/-! ### Scalars -/

theorem natCast_wrap (bits : Nat) (i : Int) : (wrap bits i : Int) = i % (2 ^ bits : Nat) := by
  have hpos : (0 : Int) < (2 ^ bits : Nat) := by exact_mod_cast Nat.two_pow_pos bits
  exact Int.toNat_of_nonneg (Int.emod_nonneg i hpos.ne')

theorem wrap_lt (bits : Nat) (i : Int) : wrap bits i < 2 ^ bits := by
  have hpos : (0 : Int) < (2 ^ bits : Nat) := by exact_mod_cast Nat.two_pow_pos bits
  have hlt := Int.emod_lt_of_pos i hpos
  rw [← natCast_wrap] at hlt
  exact_mod_cast hlt

/-- A number that fits its bits is not changed. -/
theorem wrap_natCast {bits n : Nat} (h : n < 2 ^ bits) : wrap bits n = n := by
  have hcast := natCast_wrap bits n
  rw [← Int.natCast_emod, Nat.mod_eq_of_lt h] at hcast
  exact_mod_cast hcast

/-- An integer is its lowest bits if it fits them. -/
theorem signed_wrap {bits width : Nat} (h : bits ≤ width) {i : Int}
    (hlow : -((2 ^ bits : Nat) : Int) ≤ 2 * i) (hhigh : 2 * i < (2 ^ bits : Nat)) :
    signed bits (wrap width i) = i := by
  have hdvd : ((2 ^ bits : Nat) : Int) ∣ (2 ^ width : Nat) := by
    exact_mod_cast Nat.pow_dvd_pow 2 h
  have hbmod : (i % (2 ^ width : Nat)).bmod (2 ^ bits) = i.bmod (2 ^ bits) := by
    rw [← Int.emod_bmod, Int.emod_emod_of_dvd i hdvd, Int.emod_bmod]
  rw [signed, natCast_wrap]
  exact hbmod.trans (Int.bmod_eq_of_le_mul_two (by omega) (by omega))

/-- The least integer of a type of integers, and the least above them all. -/
def Scalar.range? : Scalar → Option (Int × Int)
  | .int32 | .sint32 | .sfixed32 => some (-2 ^ 31, 2 ^ 31)
  | .int64 | .sint64 | .sfixed64 => some (-2 ^ 63, 2 ^ 63)
  | .uint32 | .fixed32 => some (0, 2 ^ 32)
  | .uint64 | .fixed64 => some (0, 2 ^ 64)
  | _ => none

/-- Is the value one of the type? -/
def Scalar.Holds (s : Scalar) : Value → Prop
  | .bool _ => s = .bool
  | .int i => ∃ low high, s.range? = some (low, high) ∧ low ≤ i ∧ i < high
  | .float _ => s = .float
  | .double _ => s = .double
  | .string _ => s = .string
  | .bytes _ => s = .bytes
  | _ => False

namespace Scalar

/-- The number on the wire that stands for an integer of the type. -/
def numberOf (s : Scalar) (i : Int) : Nat :=
  match s with
  | .sint32 | .sint64 => Varint.zigzag i
  | .fixed32 | .sfixed32 => wrap 32 i
  | _ => wrap 64 i

theorem numberOf_lt {s : Scalar} {i low high : Int} (hs : s.range? = some (low, high))
    (hlow : low ≤ i) (hhigh : i < high) :
    s.numberOf i < 2 ^ 64 ∧ (s.wireType = .fixed32 → s.numberOf i < 2 ^ 32) := by
  cases s <;> cases hs <;> simp only [numberOf, wireType]
  case sint32 | sint64 => exact ⟨Varint.zigzag_lt ⟨by omega, by omega⟩, nofun⟩
  case fixed32 | sfixed32 =>
    exact ⟨(wrap_lt 32 i).trans (by decide), fun _ => wrap_lt 32 i⟩
  all_goals exact ⟨wrap_lt 64 i, nofun⟩

theorem intOf_numberOf {s : Scalar} {i low high : Int} (hs : s.range? = some (low, high))
    (hlow : low ≤ i) (hhigh : i < high) : s.intOf (s.numberOf i) = i := by
  cases s <;> cases hs <;> simp only [numberOf, intOf]
  case int32 | sfixed32 | int64 | sfixed64 => exact signed_wrap (by decide) (by omega) (by omega)
  case uint32 | fixed32 =>
    obtain ⟨n, rfl⟩ := Int.eq_ofNat_of_zero_le hlow
    rw [wrap_natCast (by omega), Nat.mod_eq_of_lt (by omega)]
  case uint64 | fixed64 =>
    obtain ⟨n, rfl⟩ := Int.eq_ofNat_of_zero_le hlow
    rw [wrap_natCast (by omega)]
  case sint32 =>
    have hlt : Varint.zigzag i < 4294967296 := by
      unfold Varint.zigzag
      split <;> omega
    rw [Nat.mod_eq_of_lt hlt, Varint.unzigzag_zigzag]
  case sint64 => exact Varint.unzigzag_zigzag i

/-- An integer of the type is read back. -/
theorem reads_int {s : Scalar} {i low high : Int} (hs : s.range? = some (low, high))
    (hlow : low ≤ i) (hhigh : i < high) :
    Reads (s.read s.wireType) (s.writeInt i) (.int i) := by
  obtain ⟨hlt, hlt32⟩ := numberOf_lt hs hlow hhigh
  have hint := intOf_numberOf hs hlow hhigh
  have hvarint := (reads_varint hlt).map fun n => Value.int (s.intOf n)
  have hfixed (count : Nat) (h : s.numberOf i < 256 ^ count) :=
    (reads_littleEndian h).map fun n => Value.int (s.intOf n)
  rw [hint] at hvarint
  rw [hint] at hfixed
  intro rest
  cases s <;> cases hs
  case fixed32 | sfixed32 => exact hfixed 4 (hlt32 rfl) rest
  case fixed64 | sfixed64 => exact hfixed 8 hlt rest
  all_goals exact hvarint rest

/-- A value of the type is read back. -/
theorem reads {s : Scalar} {v : Value} (h : s.Holds v)
    (hlen : (v.leafData (.scalar s)).length < 2 ^ 64) :
    Reads (s.read s.wireType) (v.leafData (.scalar s)) v := by
  cases v
  case bool b =>
    obtain rfl : s = .bool := h
    cases b
    · exact (reads_varint (show 0 < 2 ^ 64 by decide)).map fun n => Value.bool (n ≠ 0)
    · exact (reads_varint (show 1 < 2 ^ 64 by decide)).map fun n => Value.bool (n ≠ 0)
  case int i =>
    obtain ⟨low, high, hs, hlow, hhigh⟩ := h
    exact reads_int hs hlow hhigh
  case float x =>
    obtain rfl : s = .float := h
    have h := (reads_exactly (Bytes.length_ofLittleEndian 4 x.bits.toNat)).map fun x =>
      Value.float ⟨(Bytes.littleEndian x).toUInt32⟩
    rw [Bytes.littleEndian_ofLittleEndian x.bits.toNat_lt, Nat.toUInt32, UInt32.ofNat_toNat] at h
    exact h
  case double x =>
    obtain rfl : s = .double := h
    have h := (reads_exactly (Bytes.length_ofLittleEndian 8 x.bits.toNat)).map fun x =>
      Value.double ⟨(Bytes.littleEndian x).toUInt64⟩
    rw [Bytes.littleEndian_ofLittleEndian x.bits.toNat_lt, Nat.toUInt64, UInt64.ofNat_toNat] at h
    exact h
  case string text =>
    obtain rfl : s = .string := h
    intro rest
    have hdata := reads_delimited (lt_of_le_of_lt (length_le_writeDelimited _) hlen) rest
    have htext := Bytes.toString?_ofString text
    simp only [Value.leafData, Scalar.read, hdata, Option.bind_eq_bind, Option.bind_some, htext]
    rfl
  case bytes data =>
    obtain rfl : s = .bytes := h
    exact (reads_delimited (lt_of_le_of_lt (length_le_writeDelimited data) hlen)).map Value.bytes
  all_goals exact h.elim

theorem length_writeInt_pos (s : Scalar) (i : Int) : 0 < (s.writeInt i).length := by
  unfold writeInt
  split <;> simp [length_varint_pos]

theorem length_leafData_pos {s : Scalar} {v : Value} (h : s.Holds v) :
    0 < (v.leafData (.scalar s)).length := by
  cases v <;> simp only [Value.leafData]
  case bool => exact Nat.zero_lt_one
  case int i => exact length_writeInt_pos s i
  case float | double =>
    rw [Bytes.length_ofLittleEndian]
    decide
  case string | bytes => exact length_writeDelimited_pos _
  all_goals exact h.elim

end Scalar

/-! ### Unknown fields -/

/-- The data is an unknown field of the number in its shortest form, in which groups are nested
`depth` deep at most. -/
inductive Unread : Nat → Nat → Bytes → Prop
  | varint {depth number n : Nat} (fits : n < 2 ^ 64) :
      Unread depth number (writeKey number .varint ++ Varint.encode n)
  | fixed64 {depth number : Nat} {x : Bytes} (length : x.length = 8) :
      Unread depth number (writeKey number .fixed64 ++ x)
  | fixed32 {depth number : Nat} {x : Bytes} (length : x.length = 4) :
      Unread depth number (writeKey number .fixed32 ++ x)
  | delimited {depth number : Nat} {x : Bytes} (fits : x.length < 2 ^ 64) :
      Unread depth number (writeKey number .delimited ++ writeDelimited x)
  | group {depth number : Nat} {inner : List (Nat × Bytes)} (numbers : ∀ e ∈ inner, IsNumber e.1)
      (fields : ∀ e ∈ inner, Unread depth e.1 e.2) :
      Unread (depth + 1) number
        (writeKey number .startGroup ++ inner.flatMap Prod.snd ++ writeKey number .endGroup)

/-- The data is a key of the number and what is read as all of it behind the key, with as many steps
as it has bytes. -/
def Rereads (depth number : Nat) (raw : Bytes) : Prop :=
  ∃ w data, raw = writeKey number w ++ data ∧ w ≠ .endGroup ∧
    ∀ fuel, data.length < fuel → Reads (readUnknown fuel depth number w) data raw

theorem Rereads.of_succ {depth number : Nat} {w : WireType} {data : Bytes} (hw : w ≠ .endGroup)
    (h : ∀ fuel, data.length ≤ fuel →
      Reads (readUnknown (fuel + 1) depth number w) data (writeKey number w ++ data)) :
    Rereads depth number (writeKey number w ++ data) := by
  refine ⟨w, data, rfl, hw, fun fuel hfuel => ?_⟩
  obtain ⟨fuel, rfl⟩ : ∃ k, fuel = k + 1 := ⟨fuel - 1, by omega⟩
  exact h fuel (by omega)

/-- The fields of a group are read up to its end. -/
theorem readGroup_fields {depth number : Nat} (hnumber : IsNumber number)
    {inner : List (Nat × Bytes)} (hnumbers : ∀ e ∈ inner, IsNumber e.1)
    (hfields : ∀ e ∈ inner, Rereads depth e.1 e.2) {fuel : Nat}
    (hfuel : (inner.flatMap Prod.snd ++ writeKey number .endGroup).length ≤ fuel) :
    Reads (readGroup fuel depth number) (inner.flatMap Prod.snd ++ writeKey number .endGroup)
      (inner.flatMap Prod.snd ++ writeKey number .endGroup) := by
  induction inner generalizing fuel with
  | nil =>
    intro rest
    have hpos := length_writeKey_pos number .endGroup
    obtain ⟨fuel, rfl⟩ : ∃ k, fuel = k + 1 := ⟨fuel - 1, by simp at hfuel; omega⟩
    simp only [List.flatMap_nil, List.nil_append, readGroup, readKey_writeKey hnumber,
      Option.bind_eq_bind, Option.bind_some, if_true]
  | cons e inner ih =>
    intro rest
    obtain ⟨w, data, hraw, hw, hread⟩ := hfields e List.mem_cons_self
    have hkey := readKey_writeKey (hnumbers e List.mem_cons_self) w
    have hpos := length_writeKey_pos e.1 w
    have hend := length_writeKey_pos number .endGroup
    simp only [List.flatMap_cons, hraw, List.append_assoc, List.length_append] at hfuel
    obtain ⟨fuel, rfl⟩ : ∃ k, fuel = k + 1 := ⟨fuel - 1, by omega⟩
    have hfuel' : (inner.flatMap Prod.snd ++ writeKey number .endGroup).length ≤ fuel := by
      rw [List.length_append]
      omega
    have hinner := ih (fun a ha => hnumbers a (List.mem_cons_of_mem e ha))
      (fun a ha => hfields a (List.mem_cons_of_mem e ha)) hfuel' rest
    simp only [List.flatMap_cons, List.append_assoc] at hinner ⊢
    rw [hraw, List.append_assoc, readGroup, hkey, Option.bind_eq_bind, Option.bind_some]
    simp only [if_neg hw, hread fuel (by omega) _, hinner, Option.bind_eq_bind, Option.bind_some]
    rw [hraw]

/-- An unknown field is read back. -/
theorem Unread.rereads {depth number : Nat} {raw : Bytes} (h : Unread depth number raw)
    (hnumber : IsNumber number) : Rereads depth number raw := by
  induction h with
  | @varint depth number n fits =>
    refine .of_succ nofun fun fuel _ => ?_
    simpa only [readUnknown] using
      (reads_varint fits).map fun n => writeKey number .varint ++ Varint.encode n
  | @fixed64 depth number x length =>
    refine .of_succ nofun fun fuel _ => ?_
    simpa only [readUnknown] using
      (reads_exactly length).map fun x => writeKey number .fixed64 ++ x
  | @fixed32 depth number x length =>
    refine .of_succ nofun fun fuel _ => ?_
    simpa only [readUnknown] using
      (reads_exactly length).map fun x => writeKey number .fixed32 ++ x
  | @delimited depth number x fits =>
    refine .of_succ nofun fun fuel _ => ?_
    simpa only [readUnknown] using
      (reads_delimited fits).map fun x => writeKey number .delimited ++ writeDelimited x
  | @group depth number inner numbers fields ih =>
    rw [List.append_assoc]
    refine .of_succ nofun fun fuel hfuel => ?_
    have hgroup := readGroup_fields hnumber numbers (fun e he => ih e he (numbers e he)) hfuel
    simpa only [readUnknown] using hgroup.map fun x => writeKey number .startGroup ++ x

/-! ### What is kept of unknown fields -/

theorem lt_of_readVarint {b rest : Bytes} {n : Nat} (h : readVarint b = some (n, rest)) :
    n < 2 ^ 64 := by
  unfold readVarint at h
  split at h
  · simp only [Option.ite_none_right_eq_some, Option.some.injEq, Prod.mk.injEq] at h
    exact h.2.1 ▸ h.1
  · cases h

theorem length_of_readExactly {count : Nat} {b x rest : Bytes}
    (h : readExactly count b = some (x, rest)) : x.length = count := by
  simp only [readExactly, Option.ite_none_right_eq_some, Option.some.injEq, Prod.mk.injEq] at h
  obtain ⟨hle, rfl, -⟩ := h
  exact List.length_take_of_le hle

theorem length_of_readDelimited {b x rest : Bytes} (h : readDelimited b = some (x, rest)) :
    x.length < 2 ^ 64 := by
  obtain ⟨⟨count, more⟩, hcount, h⟩ := Option.bind_eq_some_iff.mp h
  rw [length_of_readExactly h]
  exact lt_of_readVarint hcount

theorem isNumber_of_readKey {b rest : Bytes} {number : Nat} {w : WireType}
    (h : readKey b = some (number, w, rest)) : IsNumber number := by
  obtain ⟨⟨key, more⟩, -, h⟩ := Option.bind_eq_some_iff.mp h
  simp only [Option.ite_none_left_eq_some] at h
  obtain ⟨hlt, h⟩ := h
  obtain ⟨w', -, h⟩ := Option.bind_eq_some_iff.mp h
  simp only [Option.ite_none_left_eq_some, Option.some.injEq, Prod.mk.injEq] at h
  obtain ⟨hne, rfl, -, -⟩ := h
  exact ⟨Nat.pos_of_ne_zero hne, by omega⟩

/-- What is kept of an unknown field is its shortest form, and so are the fields of a group. -/
theorem unread_of_read (fuel : Nat) :
    (∀ {depth number w b raw rest}, readUnknown fuel depth number w b = some (raw, rest) →
      Unread depth number raw) ∧
    ∀ {depth number b raw rest}, readGroup fuel depth number b = some (raw, rest) →
      ∃ inner : List (Nat × Bytes), raw = inner.flatMap Prod.snd ++ writeKey number .endGroup ∧
        (∀ e ∈ inner, IsNumber e.1) ∧ ∀ e ∈ inner, Unread depth e.1 e.2 := by
  induction fuel with
  | zero => exact ⟨nofun, nofun⟩
  | succ fuel ih =>
    refine ⟨fun {depth number w b raw rest} h => ?_, fun {depth number b raw rest} h => ?_⟩
    · unfold readUnknown at h
      cases w with simp only [Option.map_eq_some_iff, Prod.mk.injEq] at h
      | varint =>
        obtain ⟨⟨n, more⟩, hread, rfl, -⟩ := h
        exact .varint (lt_of_readVarint hread)
      | fixed64 =>
        obtain ⟨⟨x, more⟩, hread, rfl, -⟩ := h
        exact .fixed64 (length_of_readExactly hread)
      | fixed32 =>
        obtain ⟨⟨x, more⟩, hread, rfl, -⟩ := h
        exact .fixed32 (length_of_readExactly hread)
      | delimited =>
        obtain ⟨⟨x, more⟩, hread, rfl, -⟩ := h
        exact .delimited (length_of_readDelimited hread)
      | startGroup =>
        cases depth with
        | zero => cases h
        | succ depth =>
          simp only [Option.map_eq_some_iff, Prod.mk.injEq] at h
          obtain ⟨⟨x, more⟩, hread, rfl, -⟩ := h
          obtain ⟨inner, rfl, hnumbers, hfields⟩ := ih.2 hread
          rw [← List.append_assoc]
          exact .group hnumbers hfields
      | endGroup => cases h
    · unfold readGroup at h
      obtain ⟨⟨first, w, more⟩, hkey, h⟩ := Option.bind_eq_some_iff.mp h
      dsimp only at h
      split at h
      · simp only [Option.ite_none_right_eq_some, Option.some.injEq, Prod.mk.injEq] at h
        exact ⟨[], h.2.1.symm, nofun, nofun⟩
      · obtain ⟨⟨x, more'⟩, hfirst, h⟩ := Option.bind_eq_some_iff.mp h
        obtain ⟨⟨y, last⟩, hmore, h⟩ := Option.bind_eq_some_iff.mp h
        obtain ⟨inner, rfl, hnumbers, hfields⟩ := ih.2 hmore
        cases h
        refine ⟨(first, x) :: inner, (List.append_assoc _ _ _).symm, ?_, ?_⟩
        · exact List.forall_mem_cons.mpr ⟨isNumber_of_readKey hkey, hnumbers⟩
        · exact List.forall_mem_cons.mpr ⟨ih.1 hfirst, hfields⟩

end Messaging.Proto
