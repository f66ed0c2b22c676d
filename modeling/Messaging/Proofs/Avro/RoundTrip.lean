import Mathlib
import Messaging.Codec
import Messaging.Proofs.Avro.Binary
import Messaging.Proofs.Avro.Spelling

/-! # Records that are read back by the codecs for Avro

`avro_round_trip`: the record of a value that conforms to its schema is encoded by both codecs, in
whatever order the entries of maps are written, and decoded from the data as it was. Each of the
conditions is needed (`avro_round_trip_fails`): a field with the name of an earlier one for an alias
is written under the wrong schema, the reader of the binary encoding refuses long data, and a type
called `null` behind the branch `null` is not told from it. -/

namespace Messaging

open Avro

namespace Avro

/-- Is no branch of the schema, if it is a union, called `null` behind the branch `null`? -/
def Schema.TellsNull : Schema → Prop
  | .union branches => branches.Pairwise fun a b => a.isNull = true → b.branchName ≠ "null"
  | _ => True

namespace Schema

theorem Narrow.tellsBranches {s : Schema} (hnarrow : s.Narrow) (hwell : s.WellFormed)
    (htells : s.TellsNull) : s.TellsBranches := by
  cases s with
  | union branches =>
    intro index branch chosen hnull
    obtain ⟨hindex, rfl⟩ := List.getElem?_eq_some_iff.mp chosen
    refine List.findIdx?_eq_some_iff_getElem.mpr ⟨hindex, by simp, fun i hi => ?_⟩
    -- A branch before one that is not `null` is `null`.
    have hpair := List.pairwise_iff_getElem.mp (pairwise_isNull hnarrow hwell) i index
      (by omega) hindex hi
    rw [hnull, ne_eq, Bool.not_eq_false] at hpair
    have hname := List.pairwise_iff_getElem.mp htells i index (by omega) hindex hi hpair
    have hnullName : Schema.null.branchName = "null" := rfl
    rw [eq_null_of_isNull hpair, hnullName]
    simpa using hname.symm
  | _ => trivial

theorem Narrow.few {s : Schema} (hnarrow : s.Narrow) (hwell : s.WellFormed) : s.Few := by
  cases s with
  | union branches =>
    have hpairs := pairwise_isNull hnarrow hwell
    match branches, hpairs with
    | [], _ | [_], _ | [_, _], _ => simp [Few]
    | a :: b :: c :: rest, hpairs =>
      obtain ⟨ha, hrest⟩ := List.pairwise_cons.mp hpairs
      have hab := ha b (by simp)
      have hac := ha c (by simp)
      have hbc := (List.pairwise_cons.mp hrest).1 c (by simp)
      cases ha : a.isNull <;> cases hb : b.isNull <;> cases hc : c.isNull <;> simp_all
  | _ => trivial

end Schema

end Avro

namespace Codec

variable {schema : Schema} {names : Names}

theorem create_binary {definition : String}
    (h : Schema.define definition = .ok (schema, names)) :
    create .avro .binary definition = .ok (avroBinary schema names) := by
  simp only [create, defineAvro, h, Except.mapError, Except.map]

theorem create_json {definition : String} (h : Schema.define definition = .ok (schema, names)) :
    create .avro .json definition = .ok (avroJson schema names) := by
  simp only [create, defineAvro, h, Except.mapError, Except.map]

/-- What becomes of a record that is converted, in JSON. -/
theorem encodeIn_avroJson {value : Json} {v : Value}
    (h : Value.ofJson names .generic schema value = .ok v) (order : Arrangement) :
    (avroJson schema names).encodeIn order (.record value) =
      .ok (Bytes.ofString (v.toAvroJson names schema).print) := by
  simp only [encodeIn, encodeAvroJson, Payload.toJson, Except.bind, h, Except.mapError, Except.map]

theorem decode_avroJson {data : Bytes} {json : Json} {v : Value}
    (hparse : Json.parseBytes? data = some json)
    (h : Value.ofJson names .encoded schema json = .ok v) (target : Payload) :
    (avroJson schema names).decode target data = .ok (.record v.toJson) := by
  simp only [decode, decodeAvroJson, hparse, h, Except.map, Except.mapError]

/-- What becomes of a record that is converted, in binary. -/
theorem encodeIn_avroBinary_eq {value : Json} {v : Value}
    (h : Value.ofJson names .generic schema value = .ok v) (order : Arrangement) :
    (avroBinary schema names).encodeIn order (.record value) =
      ((order.arrange v).encode names schema).mapError (ofFault "cannot encode avro binary") := by
  simp only [encodeIn, encodeAvroBinary, h, Except.mapError, Except.bind]

theorem encodeIn_avroBinary {value : Json} {v : Value} {order : Arrangement} {data : Bytes}
    (h : Value.ofJson names .generic schema value = .ok v) (hfits : v.fits names schema = true)
    (hdata : (order.arrange v).encodeAs names schema = .ok data) :
    (avroBinary schema names).encodeIn order (.record value) = .ok data := by
  rw [encodeIn_avroBinary_eq h, Value.encode, (order.reorders v).fits_eq, if_pos hfits, hdata]
  rfl

/-- A record that does not convert is refused in both encodings. -/
theorem encodeIn_of_error {value : Json} {e : ConvertFault}
    (h : Value.ofJson names .generic schema value = .error e) (order : Arrangement) :
    (avroBinary schema names).encodeIn order (.record value) =
        .error (ofConvertFault "cannot encode avro binary" e) ∧
      (avroJson schema names).encodeIn order (.record value) =
        .error (ofConvertFault "cannot encode avro json" e) := by
  constructor
  · simp only [encodeIn, encodeAvroBinary, h, Except.mapError, Except.bind]
  · simp only [encodeIn, encodeAvroJson, Payload.toJson, h, Except.mapError, Except.bind,
      Except.map]

theorem decode_avroBinary {data : Bytes} {v : Value}
    (h : Value.decode names schema data = .ok v) (target : Payload) :
    (avroBinary schema names).decode target data = .ok (.record v.toJson) := by
  simp only [decode, decodeAvroBinary, h, Except.map, Except.mapError]

end Codec

namespace Avro

/-- A schema that is read from a definition, without floating-point numbers and big decimals and
with narrow unions, and a value that conforms to it. -/
structure Covered (definition : String) (schema : Schema) (names : Names) (v : Value) : Prop where
  define : Schema.define definition = .ok (schema, names)
  exact : ∀ s ∈ schema.partsWith names, s.Exact
  narrow : ∀ s ∈ schema.partsWith names, s.Narrow
  conforms : v.Conforms names schema

namespace Covered

variable {definition : String} {schema : Schema} {names : Names} {v : Value}

theorem sound (h : Covered definition schema names v) : Sound names (schema.partsWith names) :=
  sound_of_define h.define

theorem ofJson_toJson (h : Covered definition schema names v) :
    Value.ofJson names .generic schema v.toJson = .ok v :=
  (Value.converts_toJson h.sound h.exact h.narrow h.conforms.shaped
    (schema.self_mem_partsWith names)).ofJson

theorem ofJson_toAvroJson (h : Covered definition schema names v)
    (htells : ∀ s ∈ schema.partsWith names, s.TellsNull) :
    Value.ofJson names .encoded schema (v.toAvroJson names schema) = .ok v := by
  obtain ⟨w, hw, rfl⟩ := Value.converts_toAvroJson h.sound
    (Value.spellable_eq h.sound h.exact
      fun s hs => (h.narrow s hs).tellsBranches (h.sound.wellFormed s hs) (htells s hs))
    h.conforms.shaped (schema.self_mem_partsWith names)
  exact hw.ofJson

/-- The JSON encoding is read back from its text. -/
theorem parseBytes?_toAvroJson (h : Covered definition schema names v)
    (hdepth : (v.toAvroJson names schema).depth ≤ Json.Document.maxDepth) :
    Json.parseBytes? (Bytes.ofString (v.toAvroJson names schema).print) =
      some (v.toAvroJson names schema) :=
  Json.parseBytes?_print (Value.isPlain_toAvroJson h.sound
    (fun s hs => (h.exact s hs).floatFree) h.conforms.shaped
    (schema.self_mem_partsWith names)) hdepth

theorem fits (h : Covered definition schema names v)
    (hshadow : ∀ s ∈ schema.partsWith names, s.Unshadowed) : v.fits names schema = true :=
  Value.fits_of_shaped h.sound hshadow h.conforms.shaped (schema.self_mem_partsWith names)

theorem encodeAs_decodes (h : Covered definition schema names v) (order : Arrangement) :
    ∃ data, (order.arrange v).encodeAs names schema = .ok data ∧
      (Value.Shaped names Value.Short schema v → Value.Decodes names schema data v) :=
  Value.encodeAs_decodes h.sound
    (Value.legible_short h.exact fun s hs => (h.narrow s hs).few (h.sound.wellFormed s hs))
    h.conforms (order.reorders v) (schema.self_mem_partsWith names)

end Covered

end Avro

/-- The record of a value is encoded in JSON, and decoded as it was if `null` is told from the other
branches and the text is not nested too deeply. It is encoded in binary, with the entries of maps in
any order, if no alias hides a field, and decoded as it was if it is short. -/
theorem avro_round_trip {definition : String} {schema : Schema} {names : Names} {v : Value}
    {binary json : Codec} (h : Covered definition schema names v)
    (hbinary : Codec.create .avro .binary definition = .ok binary)
    (hjson : Codec.create .avro .json definition = .ok json) :
    (∃ data, json.encode (.record v.toJson) = .ok data ∧
      ((∀ s ∈ schema.partsWith names, s.TellsNull) →
        (v.toAvroJson names schema).depth ≤ Json.Document.maxDepth →
          ∀ target, json.decode target data = .ok (.record v.toJson))) ∧
    ((∀ s ∈ schema.partsWith names, s.Unshadowed) → ∀ order : Arrangement,
      ∃ data, binary.encodeIn order (.record v.toJson) = .ok data ∧
        (Value.Shaped names Value.Short schema v →
          ∀ target, binary.decode target data = .ok (.record v.toJson))) := by
  cases (Codec.create_binary h.define).symm.trans hbinary
  cases (Codec.create_json h.define).symm.trans hjson
  refine ⟨⟨_, Codec.encodeIn_avroJson h.ofJson_toJson .given, fun htells hdepth target => ?_⟩,
    fun hshadow order => ?_⟩
  · have hparse := h.parseBytes?_toAvroJson hdepth
    exact Codec.decode_avroJson hparse (h.ofJson_toAvroJson htells) target
  · obtain ⟨data, hdata, hdecodes⟩ := h.encodeAs_decodes order
    refine ⟨data, Codec.encodeIn_avroBinary h.ofJson_toJson (h.fits hshadow) hdata, ?_⟩
    exact fun hshort target => Codec.decode_avroBinary (hdecodes hshort).decode target

/-! ### A recursive type -/

namespace Avro

/-- A list of bytes, each item with the rest of the list. -/
def chainText : String :=
  "\x7b\"type\":\"record\",\"name\":\"Chain\",\"fields\":[" ++
    "\x7b\"name\":\"data\",\"type\":\"bytes\"\x7d," ++
    "\x7b\"name\":\"next\",\"type\":[\"null\",\"Chain\"]\x7d]\x7d"

/-- The schema of a list of bytes. -/
def chain : Schema :=
  .record ⟨"", "Chain"⟩
    [(⟨"data", [], none⟩, .bytes), (⟨"next", [], none⟩, .union [.null, .ref ⟨"", "Chain"⟩])]

/-- The list of `ff 00` and nothing. -/
def chainOfTwo : Value :=
  .record [("data", .bytes [255, 0]),
    ("next", .union 1 (.record [("data", .bytes []), ("next", .union 0 .null)]))]

theorem chain_parts : ∀ s ∈ chain.partsWith [("Chain", chain)],
    s.Exact ∧ s.Narrow ∧ s.TellsNull ∧ s.Unshadowed := by
  simp [chain, Schema.partsWith, Schema.parts, Schema.fieldParts, Schema.branchParts, Schema.Exact,
    Schema.Narrow, Schema.isNull, Schema.TellsNull, Schema.Unshadowed, Schema.branchName, Name.full]

theorem chainOfTwo_shaped {N : Schema → Value → Prop}
    (hrecord : ∀ es, N chain (.record es)) (hnull : N .null .null)
    (hunion : ∀ i v, N (.union [.null, .ref ⟨"", "Chain"⟩]) (.union i v))
    (hbytes : ∀ b : Bytes, b.length ≤ 2 → N .bytes (.bytes b)) :
    Value.Shaped [("Chain", chain)] N chain chainOfTwo := by
  have hfields : ∀ {b : Bytes} {v : Value}, b.length ≤ 2 →
      Value.Shaped [("Chain", chain)] N (.union [.null, .ref ⟨"", "Chain"⟩]) v →
      Value.Shaped [("Chain", chain)] N chain (.record [("data", .bytes b), ("next", v)]) := by
    intro b v hb hv
    refine .record (hrecord _) rfl fun p hp => ?_
    rcases List.mem_cons.mp hp with rfl | hp
    · exact .leaf trivial (hbytes b hb)
    · rw [List.mem_singleton.mp hp]
      exact hv
  refine hfields (by decide) (.union (hunion _ _) rfl (.ref rfl ?_))
  exact hfields (by decide) (.union (hunion _ _) rfl (.leaf trivial hnull))

theorem chain_covered : Covered chainText chain [("Chain", chain)] chainOfTwo where
  define := by cbv
  exact s hs := (chain_parts s hs).1
  narrow s hs := (chain_parts s hs).2.1
  conforms := chainOfTwo_shaped (fun _ => ⟨id, trivial⟩) ⟨trivial, trivial⟩
    (fun _ _ => ⟨id, trivial⟩) fun _ _ => ⟨trivial, trivial⟩

end Avro

/-- A list of two items is read back by both codecs. -/
theorem avro_round_trip_chain :
    Covered chainText chain [("Chain", chain)] chainOfTwo ∧
    ∃ json binary, Codec.create .avro .json chainText = .ok json ∧
      Codec.create .avro .binary chainText = .ok binary ∧
      (∃ data, json.encode (.record chainOfTwo.toJson) = .ok data ∧
        json.decode (.record .null) data = .ok (.record chainOfTwo.toJson)) ∧
      ∃ data, binary.encode (.record chainOfTwo.toJson) = .ok data ∧
        binary.decode (.record .null) data = .ok (.record chainOfTwo.toJson) := by
  have hjson := Codec.create_json chain_covered.define
  have hbinary := Codec.create_binary chain_covered.define
  obtain ⟨⟨text, htext, hread⟩, hencode⟩ := avro_round_trip chain_covered hbinary hjson
  obtain ⟨data, hdata, hdecode⟩ := hencode (fun s hs => (chain_parts s hs).2.2.2) .given
  have hdepth : (chainOfTwo.toAvroJson [("Chain", chain)] chain).depth ≤
      Json.Document.maxDepth := by decide
  refine ⟨chain_covered, _, _, hjson, hbinary, ⟨text, htext, ?_⟩, data, hdata, ?_⟩
  · exact hread (fun s hs => (chain_parts s hs).2.2.1) hdepth _
  · refine hdecode (chainOfTwo_shaped (fun _ => trivial) trivial (fun _ _ => trivial) ?_) _
    exact fun b hb => Nat.le_trans hb (by decide)

/-! ### What the conditions rule out -/

namespace Avro

/-- A record whose second field has the name of the first for an alias. -/
def aliasedText : String :=
  "\x7b\"type\":\"record\",\"name\":\"R\",\"fields\":[\x7b\"name\":\"a\",\"type\":\"int\"\x7d," ++
    "\x7b\"name\":\"b\",\"aliases\":[\"a\"],\"type\":\"string\"\x7d]\x7d"

/-- The schema of that record. -/
def aliased : Schema :=
  .record ⟨"", "R"⟩ [(⟨"a", [], none⟩, .int), (⟨"b", ["a"], none⟩, .string)]

/-- A value of that record. -/
def aliasedValue : Value := .record [("a", .int 1), ("b", .string "x")]

theorem aliased_covered : Covered aliasedText aliased [("R", aliased)] aliasedValue where
  define := by cbv
  exact := by simp [aliased, Schema.partsWith, Schema.parts, Schema.fieldParts, Schema.Exact]
  narrow := by simp [aliased, Schema.partsWith, Schema.parts, Schema.fieldParts, Schema.Narrow]
  conforms := by
    refine .record ⟨id, trivial⟩ rfl fun p hp => ?_
    rcases List.mem_cons.mp hp with rfl | hp
    · exact .leaf trivial ⟨⟨by decide, by decide⟩, trivial⟩
    · rw [List.mem_singleton.mp hp]
      exact .leaf trivial ⟨trivial, trivial⟩

/-- A union of `null` and a record of that name. -/
def nullText : String :=
  "[\"null\",\x7b\"type\":\"record\",\"name\":\"null\",\"fields\":[]\x7d]"

/-- The schema of that union. -/
def nullUnion : Schema := .union [.null, .record ⟨"", "null"⟩ []]

/-- The types that the union declares. -/
def nullNames : Names := [("null", .record ⟨"", "null"⟩ [])]

/-- The value of that record, as a branch of the union. -/
def nullValue : Value := .union 1 (.record [])

theorem null_covered : Covered nullText nullUnion nullNames nullValue where
  define := by cbv
  exact := by
    simp [nullUnion, nullNames, Schema.partsWith, Schema.parts, Schema.branchParts,
      Schema.fieldParts, Schema.Exact]
  narrow := by
    simp [nullUnion, nullNames, Schema.partsWith, Schema.parts, Schema.branchParts,
      Schema.fieldParts, Schema.Narrow, Schema.isNull]
  conforms :=
    .union ⟨id, trivial⟩ rfl
      (.record ⟨id, trivial⟩ rfl fun _ hp => absurd hp List.not_mem_nil)

theorem bytes_covered (b : Bytes) : Covered "\"bytes\"" .bytes [] (.bytes b) where
  define := by cbv
  exact := by simp [Schema.partsWith, Schema.parts, Schema.Exact]
  narrow := by simp [Schema.partsWith, Schema.parts, Schema.Narrow]
  conforms := .leaf trivial ⟨trivial, trivial⟩

theorem decode_of_long {b : Bytes} (h : b.length = Binary.maxLength + 1) :
    Value.decode [] .bytes (Binary.writeBytes b) = .error .invalid := by
  have hmax : Binary.maxLength = 0x20000000 := rfl
  have hlong : ¬(0 ≤ (b.length : Int) ∧ (b.length : Int) ≤ Binary.maxLength) := by omega
  have hread : Binary.readBytes (Binary.writeBytes b) = .error .invalid := by
    rw [Binary.readBytes, Binary.readLength, Binary.writeBytes, Binary.readLong_writeInt (by omega)]
    simp only [Except.bind, if_neg hlong]
  rw [Value.decode, Value.decodeLimit, Value.decodeWithin, hread]
  rfl

/-- Bytes of which there is one more than the reader allows. -/
theorem bytes_fail_of_long {b : Bytes} (h : b.length = Binary.maxLength + 1) :
    ∃ data, (Codec.avroBinary .bytes []).encode (.record (Value.bytes b).toJson) = .ok data ∧
      (Codec.avroBinary .bytes []).decode (.record .null) data =
        .error (.wrapped "cannot decode avro binary" (.format .avro)) := by
  refine ⟨_, Codec.encodeIn_avroBinary (bytes_covered b).ofJson_toJson rfl rfl, ?_⟩
  simp only [Codec.decode, Codec.decodeAvroBinary, decode_of_long h, Except.map, Except.mapError,
    Codec.ofFault]

/-- One byte more than the reader allows. -/
def longBytes : Bytes := List.replicate (Binary.maxLength + 1) 0

theorem length_longBytes : longBytes.length = Binary.maxLength + 1 := List.length_replicate

end Avro

/-- Where an alias hides a field, the record of a value is not encoded in binary; where a type
behind `null` has that name, its value is not decoded from JSON; long bytes are not decoded from
binary. -/
theorem avro_round_trip_fails :
    (Covered aliasedText aliased [("R", aliased)] aliasedValue ∧
      (Codec.avroBinary aliased [("R", aliased)]).encode (.record aliasedValue.toJson) =
        .error (.wrapped "cannot encode avro binary" (.format .avro))) ∧
    (Covered nullText nullUnion nullNames nullValue ∧
      ∃ data, (Codec.avroJson nullUnion nullNames).encode (.record nullValue.toJson) = .ok data ∧
        (Codec.avroJson nullUnion nullNames).decode (.record .null) data =
          .error (.wrapped "cannot decode avro json" (.mismatch ⟨.object [], "Null"⟩))) ∧
    (Covered "\"bytes\"" .bytes [] (.bytes longBytes) ∧
      ∃ data, (Codec.avroBinary .bytes []).encode (.record (Value.bytes longBytes).toJson) =
          .ok data ∧
        (Codec.avroBinary .bytes []).decode (.record .null) data =
          .error (.wrapped "cannot decode avro binary" (.format .avro))) := by
  refine ⟨⟨aliased_covered, ?_⟩, ⟨null_covered, _, Codec.encodeIn_avroJson null_covered.ofJson_toJson
    .given,
    ?_⟩, bytes_covered longBytes, bytes_fail_of_long length_longBytes⟩
  · have hfits : aliasedValue.fits [("R", aliased)] aliased = false := by decide
    rw [Codec.encode, Codec.encodeIn_avroBinary_eq aliased_covered.ofJson_toJson, Value.encode,
      (Arrangement.given.reorders aliasedValue).fits_eq, hfits]
    rfl
  · have hparse := null_covered.parseBytes?_toAvroJson (by decide)
    have hread : Value.ofJson nullNames .encoded nullUnion
        (nullValue.toAvroJson nullNames nullUnion) =
          .error (.mismatch ⟨.object [], "Null"⟩) := by
      rfl
    simp only [Codec.decode, Codec.decodeAvroJson, hparse, hread, Except.map, Except.mapError,
      Codec.ofConvertFault]

end Messaging
