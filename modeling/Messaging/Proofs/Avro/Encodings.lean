import Mathlib
import Messaging.Codec
import Messaging.Proofs.Avro.BigDecimal
import Messaging.Proofs.Avro.Converted
import Messaging.Proofs.Avro.RoundTrip

/-! # The encoding does not change the record

`avro_encodings_agree`: a record that is sent in the binary and in the JSON encoding of a schema
without floating-point numbers is refused in both if it does not convert, and arrives as the same
record in both if its value is portable (`Value.Portable`), whatever order the entries of maps are
written in. Each of the conditions on a portable
value is needed (`avro_encodings_differ`): a branch behind another of its name is taken for that one
from JSON, a decimal number is cut or extended to its base in binary only, an alias can have a field
refused in binary, long data is refused in binary and deep text in JSON. -/

namespace Messaging

open Avro

namespace Avro

namespace Value

/-! ### Portable values -/

/-- Is the branch of a union the first with its name, unless it is `null`? -/
def Tells : Schema → Value → Prop
  | .union branches, union index _ => ∀ branch, branches[index]? = some branch →
      branch.isNull = false →
        branches.findIdx? (fun b => b.branchName = branch.branchName) = some index
  | _, _ => True

/-- A value that both encodings carry. -/
structure Portable (names : Names) (schema : Schema) (v : Value) : Prop where
  /-- In JSON the name of a branch tells it. -/
  tells : Shaped names Tells schema v
  /-- The text in JSON is not nested too deeply. -/
  depth : (v.toAvroJson names schema).depth ≤ Json.Document.maxDepth
  /-- No decimal number is empty or of another size than its base. -/
  fills : Shaped names DecimalFills schema v
  /-- The reader of the binary encoding allows for all lengths and indices. -/
  limited : Shaped names Limited schema v
  /-- The value is let through before it is written in binary. -/
  fits : v.fits names schema = true

/-- A value without parts is read back from its JSON encoding with the same generic form. -/
theorem leafOfJson?_encoded {names : Names} {s : Schema} {v : Value} (hs : s.IsLeaf)
    (hfloat : s.FloatFree) (hwell : s.WellFormed) (h : LeafOf s v) :
    ∃ w, leafOfJson? .encoded s (v.toAvroJson names s) = some w ∧ w.toJson = v.toJson := by
  by_cases hbig : s = .bigDecimal
  · subst hbig
    cases v <;> first | exact absurd hs h | skip
    case bigDecimal d =>
      obtain ⟨d', hread, htext, -⟩ := Number.BigDecimal.ofString?_text d h
      refine ⟨.bigDecimal d', ?_, by rw [toJson, toJson, htext]⟩
      simp only [toAvroJson, toJson, leafOfJson?, textOfJson?, Option.bind_some, hread,
        Option.map_some]
  · exact ⟨v, leafOfJson?_toAvroJson hs (hfloat.exact hbig) hwell h, rfl⟩

theorem spellable_toJson {names : Names} {P : List Schema} (hP : Sound names P)
    (hfloat : ∀ s ∈ P, s.FloatFree) :
    Spellable names P (fun s v => LeafOf s v ∧ Tells s v) fun v w => w.toJson = v.toJson where
  congruent := congruent_toJson
  leafOf _ _ h := h.1
  leaf s hs leaf _ h := leafOfJson?_encoded leaf (hfloat s hs) (hP.wellFormed s hs) h.1
  named _ h chosen hnull := h.2 _ chosen hnull

end Value

end Avro

/-! ### Records that are sent -/

/-- What arrives of a record that is encoded, with the entries of maps in an order, and decoded into
a target. -/
def Codec.relay (c : Codec) (order : Arrangement) (target : Payload) (x : Json) :
    Except CodecError Payload :=
  (c.encodeIn order (.record x)).bind (c.decode target)

namespace Avro

/-- A schema without floating-point numbers that is read from a definition, and a record that
converts to a value of it. -/
structure Offered (definition : String) (schema : Schema) (names : Names) (x : Json) (v : Value) :
    Prop where
  define : Schema.define definition = .ok (schema, names)
  floatFree : ∀ s ∈ schema.partsWith names, s.FloatFree
  tabled : x.IsTabled
  converts : Value.ofJson names .generic schema x = .ok v

namespace Offered

variable {definition : String} {schema : Schema} {names : Names} {x : Json} {v : Value}

theorem sound (h : Offered definition schema names x v) : Sound names (schema.partsWith names) :=
  sound_of_define h.define

theorem shaped (h : Offered definition schema names x v) :
    Value.Shaped names Value.LeafOf schema v :=
  Value.shaped_of_ofJson h.sound (schema.self_mem_partsWith names) h.tabled h.converts

theorem isPlain (h : Offered definition schema names x v) :
    (v.toAvroJson names schema).IsPlain :=
  Value.isPlain_toAvroJson h.sound h.floatFree h.shaped (schema.self_mem_partsWith names)

/-- A record arrives in JSON if its branches are told by their names and it is not too deep. -/
theorem relay_json (h : Offered definition schema names x v)
    (htells : Value.Shaped names Value.Tells schema v)
    (hdepth : (v.toAvroJson names schema).depth ≤ Json.Document.maxDepth) (order : Arrangement)
    (target : Payload) :
    (Codec.avroJson schema names).relay order target x = .ok (.record v.toJson) := by
  obtain ⟨w, hw, htext⟩ := Value.converts_toAvroJson h.sound
    (Value.spellable_toJson h.sound h.floatFree) (h.shaped.and htells)
    (schema.self_mem_partsWith names)
  rw [Codec.relay, Codec.encodeIn_avroJson h.converts, ← htext]
  exact Codec.decode_avroJson (Json.parseBytes?_print h.isPlain hdepth) hw.ofJson target

/-- A record that is too deep does not arrive in JSON. -/
theorem relay_json_of_deep (h : Offered definition schema names x v)
    (hdepth : Json.Document.maxDepth < (v.toAvroJson names schema).depth) (order : Arrangement)
    (target : Payload) :
    (Codec.avroJson schema names).relay order target x =
      .error (.wrapped "cannot decode avro json" (.format .json)) := by
  have hparse : Json.parseBytes? (Bytes.ofString (v.toAvroJson names schema).print) = none := by
    rw [Json.parseBytes?_ofString, Json.parse?_print_of_deep h.isPlain hdepth]
  rw [Codec.relay, Codec.encodeIn_avroJson h.converts]
  simp only [Except.bind, Codec.decode, Codec.decodeAvroJson, hparse, Except.map]

/-- A record arrives in binary if its decimal numbers fill their bases, its lengths are within the
limits and it is let through. -/
theorem relay_binary (h : Offered definition schema names x v)
    (hfills : Value.Shaped names Value.DecimalFills schema v)
    (hlimited : Value.Shaped names Value.Limited schema v) (hfits : v.fits names schema = true)
    (order : Arrangement) (target : Payload) :
    (Codec.avroBinary schema names).relay order target x = .ok (.record v.toJson) := by
  obtain ⟨data, hdata, hdecodes⟩ := Value.encodeAs_decodes h.sound
    (Value.legible_limited h.floatFree) (h.shaped.and hfills) (order.reorders v)
    (schema.self_mem_partsWith names)
  rw [Codec.relay, Codec.encodeIn_avroBinary h.converts hfits hdata]
  exact Codec.decode_avroBinary (hdecodes hlimited).decode target

end Offered

end Avro

/-- **The encoding does not change the record.** Let a record be sent in both encodings of a schema
without floating-point numbers, the entries of maps written in any order, and let its value be
portable if it converts. Either it arrives in neither encoding, or the same record arrives in both.
If it converts, the generic form of its value arrives; if it does not, both encodings are
refused. -/
theorem avro_encodings_agree {definition : String} {schema : Schema} {names : Names} {x : Json}
    {binary json : Codec} (hdefine : Schema.define definition = .ok (schema, names))
    (hbinary : Codec.create .avro .binary definition = .ok binary)
    (hjson : Codec.create .avro .json definition = .ok json)
    (hfloat : ∀ s ∈ schema.partsWith names, s.FloatFree) (hx : x.IsTabled)
    (hportable : ∀ v, Value.ofJson names .generic schema x = .ok v → v.Portable names schema)
    (order : Arrangement) (target : Payload) :
    (binary.relay order target x).toOption = (json.relay order target x).toOption ∧
      (∀ v, Value.ofJson names .generic schema x = .ok v →
        binary.relay order target x = .ok (.record v.toJson)) ∧
      ∀ e, Value.ofJson names .generic schema x = .error e →
        binary.encodeIn order (.record x) =
            .error (Codec.ofConvertFault "cannot encode avro binary" e) ∧
          json.encodeIn order (.record x) =
            .error (Codec.ofConvertFault "cannot encode avro json" e) := by
  cases (Codec.create_binary hdefine).symm.trans hbinary
  cases (Codec.create_json hdefine).symm.trans hjson
  cases hv : Value.ofJson names .generic schema x with
  | error e =>
    have hencode := Codec.encodeIn_of_error hv order
    refine ⟨by rw [Codec.relay, Codec.relay, hencode.1, hencode.2]; rfl, nofun, fun e' he => ?_⟩
    cases he
    exact hencode
  | ok v =>
    have h : Offered definition schema names x v := ⟨hdefine, hfloat, hx, hv⟩
    have hport := hportable v hv
    have hb := h.relay_binary hport.fills hport.limited hport.fits order target
    have hj := h.relay_json hport.tells hport.depth order target
    refine ⟨by rw [hb, hj], fun w hw => ?_, nofun⟩
    cases hw
    exact hb

namespace Avro

/-- A record of a big decimal and of a text that may be missing. -/
def priceText : String :=
  "\x7b\"type\":\"record\",\"name\":\"Price\",\"fields\":[" ++
    "\x7b\"name\":\"amount\",\"type\":\x7b\"type\":\"bytes\",\"logicalType\":\"big-decimal\"\x7d\x7d," ++
    "\x7b\"name\":\"unit\",\"type\":[\"null\",\"string\"]\x7d]\x7d"

/-- The schema of that record. -/
def price : Schema :=
  .record ⟨"", "Price"⟩
    [(⟨"amount", [], none⟩, .bigDecimal), (⟨"unit", [], none⟩, .union [.null, .string])]

/-- A price, with its amount written in an unusual way. -/
def priceRecord : Json := .object [("amount", .string "1e3"), ("unit", .string "EUR")]

/-- The value of that price. -/
def priceValue : Value :=
  .record [("amount", .bigDecimal ⟨1, -3⟩), ("unit", .union 1 (.string "EUR"))]

theorem price_floatFree : ∀ s ∈ price.partsWith [("Price", price)], s.FloatFree := by
  simp [price, Schema.partsWith, Schema.parts, Schema.fieldParts, Schema.branchParts,
    Schema.FloatFree]

theorem price_shaped {N : Schema → Value → Prop} (hrecord : ∀ es, N price (.record es))
    (hamount : N .bigDecimal (.bigDecimal ⟨1, -3⟩))
    (hunit : N (.union [.null, .string]) (.union 1 (.string "EUR")))
    (hstring : N .string (.string "EUR")) :
    Value.Shaped [("Price", price)] N price priceValue := by
  refine .record (hrecord _) rfl fun p hp => ?_
  rcases List.mem_cons.mp hp with rfl | hp
  · exact .leaf trivial hamount
  · rw [List.mem_singleton.mp hp]
    exact .union hunit rfl (.leaf trivial hstring)

theorem price_portable : priceValue.Portable [("Price", price)] price where
  tells := price_shaped (fun _ => trivial) trivial (fun branch hbranch _ => by
    cases hbranch
    decide) trivial
  depth := by decide
  fills := price_shaped (fun _ => trivial) trivial trivial trivial
  limited := price_shaped (fun _ => trivial)
    (show (Binary.bigDecimalBytes ⟨1, -3⟩).length ≤ Binary.maxLength by decide)
    (show 1 < 0x8000000000000000 by decide)
    (show (Bytes.ofString "EUR").length ≤ Binary.maxLength by cbv)
  fits := by decide

theorem priceRecord_tabled : priceRecord.IsTabled := by
  refine .object (List.pairwise_pair.mpr (by decide)) fun e he => ?_
  rcases List.mem_cons.mp he with rfl | he
  · exact .single rfl fun _ he => Json.noConfusion he
  · rw [List.mem_singleton.mp he]
    exact .single rfl fun _ he => Json.noConfusion he

end Avro

/-- A price arrives in both encodings as `1000 EUR`. -/
theorem avro_encodings_agree_price :
    Schema.define priceText = .ok (price, [("Price", price)]) ∧
    Value.ofJson [("Price", price)] .generic price priceRecord = .ok priceValue ∧
    ∃ binary json, Codec.create .avro .binary priceText = .ok binary ∧
      Codec.create .avro .json priceText = .ok json ∧
      binary.relay .given (.record .null) priceRecord =
        .ok (.record (.object [("amount", .string "1000"), ("unit", .string "EUR")])) ∧
      json.relay .given (.record .null) priceRecord =
        .ok (.record (.object [("amount", .string "1000"), ("unit", .string "EUR")])) := by
  have hdefine : Schema.define priceText = .ok (price, [("Price", price)]) := by cbv
  have hvalue : Value.ofJson [("Price", price)] .generic price priceRecord = .ok priceValue := by
    have hamount : Value.Converts [("Price", price)] .generic .bigDecimal (.string "1e3")
        (.bigDecimal ⟨1, -3⟩) := .leaf (s := .bigDecimal) trivial rfl
    have hunit : Value.Converts [("Price", price)] .generic (.union [.null, .string])
        (.string "EUR") (.union 1 (.string "EUR")) := by
      refine .union rfl (.leaf (s := .string) trivial rfl) fun i hi b hb => ?_
      obtain rfl : i = 0 := by omega
      cases hb
      exact .null fun h => Json.noConfusion h
    exact Value.Converts.ofJson (.record (.cons ⟨rfl, hamount⟩ (.cons ⟨rfl, hunit⟩ .nil)))
  have hbinary := Codec.create_binary hdefine
  have hjson := Codec.create_json hdefine
  obtain ⟨hsame, harrives, -⟩ := avro_encodings_agree hdefine hbinary hjson price_floatFree
    priceRecord_tabled (fun v hv => by
      cases hvalue.symm.trans hv
      exact price_portable) .given (.record .null)
  have hb := harrives priceValue hvalue
  have htext : priceValue.toJson =
      .object [("amount", .string "1000"), ("unit", .string "EUR")] := by rfl
  rw [htext] at hb
  rw [hb] at hsame
  refine ⟨hdefine, hvalue, _, _, hbinary, hjson, hb, ?_⟩
  cases hj : (Codec.avroJson price [("Price", price)]).relay .given (.record .null) priceRecord with
  | error e =>
    rw [hj] at hsame
    cases hsame
  | ok p =>
    rw [hj] at hsame
    cases hsame
    rfl

/-! ### What the conditions rule out -/

namespace Avro

/-- Arrives a record as given in the binary and in the JSON encoding of a definition, which has no
floating-point numbers? Where it does not arrive there is `none`. -/
def Arrives (definition : String) (x : Json) (inBinary inJson : Option Json) : Prop :=
  ∃ schema names binary json, Schema.define definition = .ok (schema, names) ∧
    Codec.create .avro .binary definition = .ok binary ∧
    Codec.create .avro .json definition = .ok json ∧
    (∀ s ∈ schema.partsWith names, s.FloatFree) ∧ x.IsTabled ∧
    (binary.relay .given (.record .null) x).toOption = inBinary.map .record ∧
    (json.relay .given (.record .null) x).toOption = inJson.map .record

theorem Offered.arrives {definition : String} {schema : Schema} {names : Names} {x : Json}
    {v : Value} (h : Offered definition schema names x v) {inBinary inJson : Option Json}
    (hbinary : ((Codec.avroBinary schema names).relay .given (.record .null) x).toOption =
      inBinary.map .record)
    (hjson : ((Codec.avroJson schema names).relay .given (.record .null) x).toOption =
      inJson.map .record) : Arrives definition x inBinary inJson :=
  ⟨_, _, _, _, h.define, Codec.create_binary h.define, Codec.create_json h.define, h.floatFree,
    h.tabled, hbinary, hjson⟩

theorem Covered.offered {definition : String} {schema : Schema} {names : Names} {v : Value}
    (h : Covered definition schema names v) : Offered definition schema names v.toJson v where
  define := h.define
  floatFree s hs := (h.exact s hs).floatFree
  tabled := v.isTabled_toJson
  converts := h.ofJson_toJson

/-- A union of two kinds of text, both called `string` in JSON. -/
def uuidText : String := "[\x7b\"type\":\"string\",\"logicalType\":\"uuid\"\x7d,\"string\"]"

theorem uuid_offered : Offered uuidText (.union [.uuid, .string]) [] (.string "abc")
    (.union 1 (.string "abc")) where
  define := by cbv
  floatFree := by
    simp [Schema.partsWith, Schema.parts, Schema.branchParts, Schema.FloatFree]
  tabled := .single rfl fun _ he => Json.noConfusion he
  converts := by
    have hmiss : Value.Misses [] .generic .uuid (.string "abc") :=
      .of_succ ⟨0, fun _ _ => ⟨_, rfl⟩⟩
    refine Value.Converts.ofJson (.union rfl (.leaf (s := .string) trivial rfl) fun i hi b hb => ?_)
    obtain rfl : i = 0 := by omega
    cases hb
    exact hmiss

theorem uuid_arrives : Arrives uuidText (.string "abc") (some (.string "abc")) none := by
  have hplain := uuid_offered.isPlain
  refine uuid_offered.arrives ?_ ?_
  · rw [uuid_offered.relay_binary (.union trivial rfl (.leaf trivial trivial))
      (.union (show 1 < 0x8000000000000000 by decide) rfl
        (.leaf trivial (show (Bytes.ofString "abc").length ≤ Binary.maxLength by cbv))) rfl]
    rfl
  · have hparse := Json.parseBytes?_print hplain (by decide)
    have hread : Value.ofJson [] .encoded (.union [.uuid, .string])
        ((Value.union 1 (.string "abc")).toAvroJson [] (.union [.uuid, .string])) =
          .error (.mismatch ⟨.string "abc", "Uuid"⟩) := by
      rfl
    rw [Codec.relay, Codec.encodeIn_avroJson uuid_offered.converts]
    simp only [Except.bind, Codec.decode, Codec.decodeAvroJson, hparse, hread]
    rfl

/-- A decimal number in two bytes. -/
def centsText : String :=
  "\x7b\"type\":\x7b\"type\":\"fixed\",\"name\":\"Cents\",\"size\":2\x7d," ++
    "\"logicalType\":\"decimal\",\"precision\":4\x7d"

theorem cents_offered : Offered centsText (.decimal (.fixed ⟨"", "Cents"⟩ 2)) []
    (.array [.int 1]) (.decimal [1]) where
  define := by cbv
  floatFree := by simp [Schema.partsWith, Schema.parts, Schema.FloatFree]
  tabled := .array fun j hj => by
    rw [List.mem_singleton.mp hj]
    exact .single rfl fun _ he => Json.noConfusion he
  converts := Value.Converts.ofJson
    (.leaf (s := .decimal (.fixed ⟨"", "Cents"⟩ 2)) trivial rfl)

theorem cents_arrives :
    Arrives centsText (.array [.int 1]) (some (.array [.int 0, .int 1])) (some (.array [.int 1])) := by
  refine cents_offered.arrives ?_ ?_
  · have hdata : (Value.decimal [1]).encodeAs [] (.decimal (.fixed ⟨"", "Cents"⟩ 2)) =
        .ok [0, 1] := by rfl
    have hread : Value.decode [] (.decimal (.fixed ⟨"", "Cents"⟩ 2)) [0, 1] =
        .ok (.decimal [0, 1]) := by rfl
    rw [Codec.relay, Codec.encodeIn_avroBinary cents_offered.converts rfl hdata]
    exact congrArg Except.toOption (Codec.decode_avroBinary hread (.record .null))
  · rw [cents_offered.relay_json (.leaf trivial trivial) (by decide)]
    rfl

/-- A decimal number in any number of bytes. -/
def decimalText : String :=
  "\x7b\"type\":\"bytes\",\"logicalType\":\"decimal\",\"precision\":4\x7d"

theorem decimal_offered : Offered decimalText (.decimal .bytes) [] (.array []) (.decimal []) where
  define := by cbv
  floatFree := by simp [Schema.partsWith, Schema.parts, Schema.FloatFree]
  tabled := .array fun j hj => absurd hj List.not_mem_nil
  converts := Value.Converts.ofJson (.leaf (s := .decimal .bytes) trivial rfl)

theorem decimal_arrives : Arrives decimalText (.array []) none (some (.array [])) := by
  refine decimal_offered.arrives ?_ ?_
  · rw [Codec.relay, Codec.encodeIn_avroBinary_eq decimal_offered.converts]
    rfl
  · rw [decimal_offered.relay_json (.leaf trivial trivial) (by decide)]
    rfl

theorem aliased_arrives :
    Arrives aliasedText aliasedValue.toJson none (some aliasedValue.toJson) := by
  have hshaped : Value.Shaped [("R", aliased)] Value.Tells aliased aliasedValue := by
    refine .record trivial rfl fun p hp => ?_
    rcases List.mem_cons.mp hp with rfl | hp
    · exact .leaf trivial trivial
    · rw [List.mem_singleton.mp hp]
      exact .leaf trivial trivial
  refine aliased_covered.offered.arrives ?_ ?_
  · have hfits : aliasedValue.fits [("R", aliased)] aliased = false := by decide
    rw [Codec.relay, Codec.encodeIn_avroBinary_eq aliased_covered.ofJson_toJson, Value.encode,
      (Arrangement.given.reorders aliasedValue).fits_eq, hfits]
    rfl
  · rw [aliased_covered.offered.relay_json hshaped (by decide)]
    rfl

/-- Bytes of which there is one more than the reader of the binary encoding allows. -/
theorem long_arrives {b : Bytes} (h : b.length = Binary.maxLength + 1) :
    Arrives "\"bytes\"" (Value.bytes b).toJson none (some (Value.bytes b).toJson) := by
  have hoffered := (bytes_covered b).offered
  refine hoffered.arrives ?_ ?_
  · rw [Codec.relay, Codec.encodeIn_avroBinary hoffered.converts rfl rfl]
    simp only [Except.bind, Codec.decode, Codec.decodeAvroBinary, decode_of_long h, Except.map,
      Except.mapError]
    rfl
  · rw [hoffered.relay_json (.leaf trivial trivial) (Nat.zero_le _)]
    rfl

/-- A list of one item and so many more, all empty. -/
def chainOf : Nat → Value
  | 0 => .record [("data", .bytes []), ("next", .union 0 .null)]
  | n + 1 => .record [("data", .bytes []), ("next", .union 1 (chainOf n))]

theorem chainOf_shaped {N : Schema → Value → Prop} (hrecord : ∀ es, N chain (.record es))
    (hnull : N .null .null)
    (hunion : ∀ i < 2, ∀ v, N (.union [.null, .ref ⟨"", "Chain"⟩]) (.union i v))
    (hbytes : N .bytes (.bytes [])) (n : Nat) :
    Value.Shaped [("Chain", chain)] N chain (chainOf n) := by
  have hfields : ∀ {v : Value},
      Value.Shaped [("Chain", chain)] N (.union [.null, .ref ⟨"", "Chain"⟩]) v →
      Value.Shaped [("Chain", chain)] N chain (.record [("data", .bytes []), ("next", v)]) := by
    intro v hv
    refine .record (hrecord _) rfl fun p hp => ?_
    rcases List.mem_cons.mp hp with rfl | hp
    · exact .leaf trivial hbytes
    · rw [List.mem_singleton.mp hp]
      exact hv
  induction n with
  | zero => exact hfields (.union (hunion 0 (by decide) _) rfl (.leaf trivial hnull))
  | succ n ih => exact hfields (.union (hunion 1 (by decide) _) rfl (.ref rfl ih))

theorem chainOf_covered (n : Nat) : Covered chainText chain [("Chain", chain)] (chainOf n) where
  define := chain_covered.define
  exact := chain_covered.exact
  narrow := chain_covered.narrow
  conforms := chainOf_shaped (fun _ => ⟨id, trivial⟩) ⟨trivial, trivial⟩
    (fun _ _ _ => ⟨id, trivial⟩) ⟨trivial, trivial⟩ n

/-- Each item takes two levels of the text. -/
theorem depth_chainOf (n : Nat) :
    ((chainOf n).toAvroJson [("Chain", chain)] chain).depth = 2 * n + 1 := by
  induction n with
  | zero => decide
  | succ n ih =>
    have hnext : (Value.union 1 (chainOf n)).toAvroJson [("Chain", chain)]
        (.union [.null, .ref ⟨"", "Chain"⟩]) =
          .object [("Chain", (chainOf n).toAvroJson [("Chain", chain)] chain)] := by
      have href : (Schema.ref ⟨"", "Chain"⟩).resolve [("Chain", chain)] =
          chain.resolve [("Chain", chain)] := rfl
      rw [Value.toAvroJson_union rfl, ← Value.toAvroJson_congr href]
      rfl
    have hstep : (chainOf (n + 1)).toAvroJson [("Chain", chain)] chain = .ofEntries
        [("data", .string ""), ("next", (Value.union 1 (chainOf n)).toAvroJson [("Chain", chain)]
          (.union [.null, .ref ⟨"", "Chain"⟩]))] :=
      Value.toAvroJson_record _ ⟨"", "Chain"⟩ _ _
    have hsorted : Table.Sorted [("data", Json.string ""),
        ("next", .object [("Chain", (chainOf n).toAvroJson [("Chain", chain)] chain)])] :=
      List.pairwise_pair.mpr (show "data" < "next" by decide)
    rw [hstep, hnext, Json.ofEntries, Table.ofList_of_sorted hsorted]
    simp only [Json.depth, Json.entriesDepth, ih]
    omega

theorem deep_arrives {n : Nat} (h : Json.Document.maxDepth ≤ 2 * n) :
    Arrives chainText (chainOf n).toJson (some (chainOf n).toJson) none := by
  have hoffered := (chainOf_covered n).offered
  have hfits := (chainOf_covered n).fits fun s hs => (chain_parts s hs).2.2.2
  refine hoffered.arrives ?_ ?_
  · rw [hoffered.relay_binary
      (chainOf_shaped (fun _ => trivial) trivial (fun _ _ _ => trivial) trivial n)
      (chainOf_shaped (fun _ => trivial) trivial
        (fun i hi v => show i < 0x8000000000000000 by omega)
        (show 0 ≤ Binary.maxLength from Nat.zero_le _) n) hfits]
    rfl
  · rw [hoffered.relay_json_of_deep (by rw [depth_chainOf]; omega)]
    rfl

end Avro

/-- Six records that do not arrive alike: a text in a union of two kinds of text, a decimal number
of one byte in a base of two, a decimal number without bytes, a field that an alias hides, long bytes
and a long list. -/
theorem avro_encodings_differ :
    Arrives uuidText (.string "abc") (some (.string "abc")) none ∧
    Arrives centsText (.array [.int 1]) (some (.array [.int 0, .int 1]))
      (some (.array [.int 1])) ∧
    Arrives decimalText (.array []) none (some (.array [])) ∧
    Arrives aliasedText aliasedValue.toJson none (some aliasedValue.toJson) ∧
    Arrives "\"bytes\"" (Value.bytes longBytes).toJson none (some (Value.bytes longBytes).toJson) ∧
    Arrives chainText (chainOf 64).toJson (some (chainOf 64).toJson) none :=
  ⟨uuid_arrives, cents_arrives, decimal_arrives, aliased_arrives, long_arrives length_longBytes,
    deep_arrives (by decide)⟩

end Messaging
