import Messaging.Proofs.Avro.Binary
import Messaging.Proofs.Avro.Converted
import Messaging.Proofs.Avro.RoundTrip
import Messaging.Proofs.Avro.Termination

/-! # Records that abort the binary encoding

Of all that a conversion lets through the writer only refuses decimal numbers: it is an error if one
has no bytes, and the call aborts if one is too long for its base of fixed size. So what the writer
does is told by the decimal numbers of a value in the order in which they are written
(`Value.fault?_encodeAs`), and the entries of maps have any order there.
`binary_encoding_aborts_iff`: the encoding of a record aborts if the conversion does not end, or if
a decimal number is too long, or its base too large for any number, and all before it can be
written. Otherwise it gives bytes or an error.

Bytes of fixed size and durations are checked for their length when they are converted; decimal
numbers are not (`binary_encoding_aborts`). -/

namespace Messaging

namespace Avro

/-- The fault of a step that fails. -/
def fault? {α : Type} : Except Fault α → Option Fault
  | .ok _ => none
  | .error e => some e

section

variable {α β γ : Type}

theorem fault?_map (x : Except Fault α) (f : α → β) : fault? (x.map f) = fault? x := by
  cases x <;> rfl

/-- Of two steps the first one that fails gives the fault. -/
theorem fault?_bind (x : Except Fault α) (y : Except Fault β) (f : α → β → γ) :
    fault? (do let a ← x; let b ← y; .ok (f a b)) = (fault? x).or (fault? y) := by
  cases x <;> cases y <;> rfl

theorem fault?_eq_none {x : Except Fault α} : fault? x = none ↔ ∃ a, x = .ok a := by
  cases x with
  | ok a => exact ⟨fun _ => ⟨a, rfl⟩, fun _ => rfl⟩
  | error e => exact ⟨nofun, nofun⟩

end

namespace Binary

/-- Can the decimal number be written in its base? -/
def Writable (d : DecimalBase × Bytes) : Prop := ∃ b, writeDecimal d.1 d.2 = .ok b

/-- Is the decimal number too long for its base, by the shortest bytes for it, or is there no room
for the bytes of its base? -/
def Oversize : DecimalBase × Bytes → Prop
  | (.fixed _ size, b) => size < (trimSign b).length ∨ (maxRoom < size ∧ b.length < size)
  | (.bytes, _) => False

theorem writeDecimal_aborts_iff {d : DecimalBase × Bytes} :
    fault? (writeDecimal d.1 d.2) = some .aborted ↔ Oversize d := by
  obtain ⟨base, b⟩ := d
  cases base with
  | bytes =>
    by_cases hb : b = []
    · simp [writeDecimal, hb, fault?, Oversize]
    · simp [writeDecimal, hb, fault?, Oversize]
  | fixed name size =>
    by_cases hroom : maxRoom < size ∧ b.length < size
    · simp [writeDecimal, hroom, fault?, Oversize]
    · by_cases hsize : (trimSign b).length ≤ size
      · simp [writeDecimal, hroom, signExtend, hsize, fault?, Oversize]
      · simp [writeDecimal, hroom, signExtend, hsize, fault?, Oversize, Nat.lt_of_not_le hsize]

end Binary

namespace Value

open Binary

mutual

/-- The decimal numbers in a value of a schema with their bases, in the order of writing. -/
def decimals (names : Names) (schema : Schema) : Value → List (DecimalBase × Bytes)
  | decimal b =>
    match schema.resolve names with
    | some (.decimal base) => [(base, b)]
    | _ => []
  | union index value =>
    match schema.resolve names with
    | some (.union branches) =>
      match branches[index]? with
      | some branch => value.decimals names branch
      | none => []
    | _ => []
  | array items =>
    match schema.resolve names with
    | some (.array s) => itemDecimals names s items
    | _ => []
  | map entries =>
    match schema.resolve names with
    | some (.map s) => entryDecimals names s entries
    | _ => []
  | record fields =>
    match schema.resolve names with
    | some (.record _ schemas) => fieldDecimals names schemas fields
    | _ => []
  | _ => []

/-- The decimal numbers in the items of an array. -/
def itemDecimals (names : Names) (schema : Schema) : List Value → List (DecimalBase × Bytes)
  | [] => []
  | v :: rest => v.decimals names schema ++ itemDecimals names schema rest

/-- The decimal numbers in the entries of a map. -/
def entryDecimals (names : Names) (schema : Schema) :
    List (String × Value) → List (DecimalBase × Bytes)
  | [] => []
  | (_, v) :: rest => v.decimals names schema ++ entryDecimals names schema rest

/-- The decimal numbers in the fields of a record. -/
def fieldDecimals (names : Names) :
    List (Field × Schema) → List (String × Value) → List (DecimalBase × Bytes)
  | (_, s) :: schemas, (_, v) :: rest => v.decimals names s ++ fieldDecimals names schemas rest
  | _, _ => []

end

/-! ### What the writer does -/

/-- The fault of the first decimal number in a list that cannot be written. -/
def firstFault (ds : List (DecimalBase × Bytes)) : Option Fault :=
  ds.findSome? fun d => fault? (writeDecimal d.1 d.2)

theorem firstFault_append (ds es : List (DecimalBase × Bytes)) :
    firstFault (ds ++ es) = (firstFault ds).or (firstFault es) :=
  List.findSome?_append

theorem firstFault_singleton (d : DecimalBase × Bytes) :
    firstFault [d] = fault? (writeDecimal d.1 d.2) := by
  rw [firstFault, List.findSome?_cons]
  cases fault? (writeDecimal d.1 d.2) <;> rfl

/-- It is the first number that cannot be written that aborts the call. -/
theorem firstFault_eq_aborted {ds : List (DecimalBase × Bytes)} :
    firstFault ds = some .aborted ↔ ∃ before d after, ds = before ++ d :: after ∧
      (∀ e ∈ before, Writable e) ∧ Oversize d := by
  rw [firstFault, List.findSome?_eq_some_iff]
  refine exists_congr fun before => exists_congr fun d => exists_congr fun after => ?_
  rw [writeDecimal_aborts_iff, and_comm (a := Oversize d)]
  simp only [fault?_eq_none, Writable]

variable {names : Names}

theorem decimals_congr {s t : Schema} (h : s.resolve names = t.resolve names) (v : Value) :
    v.decimals names s = v.decimals names t := by
  cases v <;> simp only [decimals, h]

theorem fault?_encodeItems {s : Schema} {vs : List Value}
    (h : ∀ v ∈ vs, fault? (v.encodeAs names s) = firstFault (v.decimals names s)) :
    fault? (encodeItems names s vs) = firstFault (itemDecimals names s vs) := by
  induction vs with
  | nil => rfl
  | cons v rest ih =>
    rw [encodeItems, itemDecimals, firstFault_append, fault?_bind, h v List.mem_cons_self,
      ih fun v hv => h v (List.mem_cons_of_mem _ hv)]

theorem fault?_encodeEntries {s : Schema} {es : List (String × Value)}
    (h : ∀ e ∈ es, fault? (e.2.encodeAs names s) = firstFault (e.2.decimals names s)) :
    fault? (encodeEntries names s es) = firstFault (entryDecimals names s es) := by
  induction es with
  | nil => rfl
  | cons e rest ih =>
    rw [encodeEntries, entryDecimals, firstFault_append, fault?_bind, h e List.mem_cons_self,
      ih fun e he => h e (List.mem_cons_of_mem _ he)]

theorem fault?_encodeFields {fields : List (Field × Schema)} {es : List (String × Value)}
    (order : es.map Prod.fst = fields.map fun f => f.1.name)
    (h : ∀ p ∈ fields.zip es,
      fault? (p.2.2.encodeAs names p.1.2) = firstFault (p.2.2.decimals names p.1.2)) :
    fault? (encodeFields names fields es) = firstFault (fieldDecimals names fields es) := by
  induction fields generalizing es with
  | nil =>
    obtain rfl := List.map_eq_nil_iff.mp order
    rfl
  | cons f fields ih =>
    cases es with
    | nil => cases order
    | cons e es =>
      have hfirst := h (f, e) List.mem_cons_self
      rw [encodeFields, fieldDecimals, firstFault_append, fault?_bind, hfirst,
        ih (List.cons.inj order).2 fun p hp => h p (List.mem_cons_of_mem _ hp)]

theorem fault?_encodeAs_leaf {s : Schema} {v : Value} (hs : s.IsLeaf) (h : LeafOf s v) :
    fault? (v.encodeAs names s) = firstFault (v.decimals names s) := by
  cases s <;> cases v <;> first | exact absurd hs h | exact hs.elim | rfl | skip
  case decimal.decimal base b => exact (firstFault_singleton (base, b)).symm

/-- The fault in writing a value of the shape of a schema, in whatever order the entries of its maps
are, is that of the first decimal number in it that cannot be written. -/
theorem fault?_encodeAs {P : List Schema} (hP : Sound names P) {s : Schema} {v w : Value}
    (h : Shaped names LeafOf s v) (hw : v.Reordered w) :
    fault? (w.encodeAs names s) = firstFault (w.decimals names s) := by
  refine h.reordered (fun _ _ h => h) (motive := fun s _ w =>
    fault? (w.encodeAs names s) = firstFault (w.decimals names s))
    fault?_encodeAs_leaf ?ref ?array ?map ?record ?union hw
  case ref =>
    intro name s v w found ih
    have hresolve := hP.resolve_ref found
    rw [encodeAs_congr hresolve, decimals_congr hresolve, ih]
  case array =>
    intro s vs ws hall
    simp only [encodeAs, decimals, Schema.resolve]
    rw [fault?_map, fault?_encodeItems fun w hw => (exists_mem_of_forall₂ hall hw).elim fun _ h => h.2]
  case map =>
    intro s es fs gs _ _ hall
    simp only [encodeAs, decimals, Schema.resolve]
    rw [fault?_map,
      fault?_encodeEntries fun g hg => (exists_mem_of_forall₂ hall hg).elim fun _ h => h.2.2]
  case record =>
    intro name fields es fs _ order hall
    simp only [encodeAs, decimals, Schema.resolve]
    refine fault?_encodeFields order fun q hq => ?_
    obtain ⟨p, -, hfield, ih⟩ := exists_mem_of_forall₂ hall hq
    rw [hfield]
    exact ih
  case union =>
    intro branches index branch v w chosen ih
    simp only [encodeAs, decimals, Schema.resolve, chosen]
    rw [fault?_map, ih]

/-- Writing aborts for a value that is let through if a decimal number is oversize and all before it
can be written. -/
theorem fault?_encode_eq_aborted {P : List Schema} (hP : Sound names P) {s : Schema} {v w : Value}
    (h : Shaped names LeafOf s v) (hw : v.Reordered w) :
    fault? (w.encode names s) = some .aborted ↔ v.fits names s = true ∧
      ∃ before d after, w.decimals names s = before ++ d :: after ∧
        (∀ e ∈ before, Writable e) ∧ Oversize d := by
  rw [← firstFault_eq_aborted, ← fault?_encodeAs hP h hw, encode, hw.fits_eq]
  by_cases hfits : v.fits names s = true
  · simp only [hfits, if_true, true_and]
  · simp [hfits, fault?]

end Value

end Avro

namespace Codec

open Avro

/-- Is the outcome of a step data, or an error in its context? -/
def Settles (context : String) (outcome : Except CodecError Bytes) : Prop :=
  (∃ data, outcome = .ok data) ∨ ∃ cause, outcome = .error (.wrapped context cause)

theorem mapError_eq_aborted {x : Except Fault Bytes} {context : String} :
    x.mapError (ofFault context) = .error .aborted ↔ fault? x = some .aborted := by
  cases x with
  | ok b => exact ⟨nofun, nofun⟩
  | error e => cases e <;> simp [Except.mapError, ofFault, fault?]

/-- There are no errors but those in the context and the abort. -/
theorem encodeIn_avroBinary_settles {schema : Schema} {names : Names} {x : Json}
    {order : Arrangement}
    (h : (avroBinary schema names).encodeIn order (.record x) ≠ .error .aborted) :
    Settles "cannot encode avro binary"
      ((avroBinary schema names).encodeIn order (.record x)) := by
  cases hvalue : Value.ofJson names .generic schema x with
  | ok v =>
    rw [encodeIn_avroBinary_eq hvalue] at h ⊢
    cases hdata : (order.arrange v).encode names schema with
    | ok data => exact .inl ⟨data, rfl⟩
    | error e =>
      cases e with
      | invalid => exact .inr ⟨_, rfl⟩
      | aborted => exact absurd (by rw [hdata]; rfl) h
  | error e =>
    rw [(encodeIn_of_error hvalue order).1] at h ⊢
    cases e with
    | mismatch m => exact .inr ⟨_, rfl⟩
    | unbounded => exact absurd rfl h

end Codec

open Avro

/-- **When the binary encoding aborts.** Under an accepted definition a record is encoded as data,
or is an error in the context of the encoding, unless the call aborts. It aborts exactly if the
conversion of the record does not end, or if it gives a value that is let through and in which, in
the order of writing, a decimal number is oversize and all before it can be written. The order of
writing has the entries of maps in any order that the writer may take. -/
theorem binary_encoding_aborts_iff {definition : String} {schema : Schema} {names : Names}
    (hdefine : Schema.define definition = .ok (schema, names)) {x : Json} (hx : x.IsTabled)
    (order : Arrangement) :
    ((Codec.avroBinary schema names).encodeIn order (.record x) ≠ .error .aborted →
      Codec.Settles "cannot encode avro binary"
        ((Codec.avroBinary schema names).encodeIn order (.record x))) ∧
    ((Codec.avroBinary schema names).encodeIn order (.record x) = .error .aborted ↔
      ¬Value.Ends names .generic schema x ∨
      ∃ v, Value.ofJson names .generic schema x = .ok v ∧ v.fits names schema = true ∧
        ∃ before d after, (order.arrange v).decimals names schema = before ++ d :: after ∧
          (∀ e ∈ before, Binary.Writable e) ∧ Binary.Oversize d) := by
  refine ⟨Codec.encodeIn_avroBinary_settles, ?_⟩
  rw [Value.ends_iff, not_not]
  cases hvalue : Value.ofJson names .generic schema x with
  | ok v =>
    have hsound := sound_of_define hdefine
    have hshaped := Value.shaped_of_ofJson hsound (schema.self_mem_partsWith names) hx hvalue
    rw [Codec.encodeIn_avroBinary_eq hvalue, Codec.mapError_eq_aborted,
      Value.fault?_encode_eq_aborted hsound hshaped (order.reorders v)]
    simp only [reduceCtorEq, false_or, Except.ok.injEq, exists_eq_left']
  | error e =>
    rw [(Codec.encodeIn_of_error hvalue order).1]
    cases e <;> simp [Codec.ofConvertFault]

/-- A map of pairs of a decimal number in any number of bytes and one in one byte. -/
def amountsText : String :=
  "\x7b\"type\":\"map\",\"values\":\x7b\"type\":\"record\",\"name\":\"Pair\",\"fields\":[" ++
    "\x7b\"name\":\"free\",\"type\":\x7b\"type\":\"bytes\"," ++
    "\"logicalType\":\"decimal\",\"precision\":2\x7d\x7d," ++
    "\x7b\"name\":\"held\",\"type\":\x7b\"type\":\x7b\"type\":\"fixed\",\"name\":\"Byte\"," ++
    "\"size\":1\x7d,\"logicalType\":\"decimal\",\"precision\":2\x7d\x7d]\x7d\x7d"

/-- A decimal number in one byte. -/
def amount : Schema := .decimal (.fixed ⟨"", "Byte"⟩ 1)

/-- The schema of a pair. -/
def amountPair : Schema :=
  .record ⟨"", "Pair"⟩ [(⟨"free", [], none⟩, .decimal .bytes), (⟨"held", [], none⟩, amount)]

/-- The codec of such maps. -/
def amountsCodec : Codec := .avroBinary (.map amountPair) [("Pair", amountPair)]

/-- A pair as it is given. -/
def pairJson (free held : List Json) : Json :=
  .object [("free", .array free), ("held", .array held)]

/-- A pair as a value. -/
def pairValue (free held : Bytes) : Value :=
  .record [("free", .decimal free), ("held", .decimal held)]

/-- A pair of which one number has no bytes, and a pair of which one needs a byte more. -/
def amountsJson : Json :=
  .object [("a", pairJson [] [.int 0]), ("b", pairJson [.int 1] [.int 1, .int 0])]

theorem isTabled_pairJson {free held : List Json} (h : ∀ j ∈ free ++ held, j.IsTabled) :
    (pairJson free held).IsTabled := by
  refine .object (List.pairwise_pair.mpr (show "free" < "held" by decide)) fun e he => ?_
  rcases List.mem_cons.mp he with rfl | he
  · exact .array fun j hj => h j (List.mem_append_left _ hj)
  · rw [List.mem_singleton.mp he]
    exact .array fun j hj => h j (List.mem_append_right _ hj)

theorem isTabled_amountsJson : amountsJson.IsTabled := by
  have hnumber : ∀ i, (Json.int i).IsTabled := fun i =>
    .single rfl fun _ he => Json.noConfusion he
  refine .object (List.pairwise_pair.mpr (show "a" < "b" by decide)) fun e he => ?_
  rcases List.mem_cons.mp he with rfl | he
  · exact isTabled_pairJson (by simp [hnumber])
  · rw [List.mem_singleton.mp he]
    exact isTabled_pairJson (by simp [hnumber])

set_option maxRecDepth 2000 in
theorem amountsText_define :
    Schema.define amountsText = .ok (.map amountPair, [("Pair", amountPair)]) := by
  cbv

/-- It is the order of the two pairs that decides: the encoding is an error if the number without
bytes comes first, and aborts if it is the one that needs a byte more. -/
theorem binary_encoding_aborts_iff_amounts :
    Schema.define amountsText = .ok (.map amountPair, [("Pair", amountPair)]) ∧
    amountsCodec.encodeIn .given (.record amountsJson) =
      .error (.wrapped "cannot encode avro binary" (.format .avro)) ∧
    ∃ order : Arrangement, amountsCodec.encodeIn order (.record amountsJson) =
      .error .aborted := by
  have hvalue : Value.ofJson [("Pair", amountPair)] .generic (.map amountPair) amountsJson =
      .ok (.map [("a", pairValue [] [0]), ("b", pairValue [1] [1, 0])]) := by rfl
  refine ⟨amountsText_define, ?_, ?_⟩
  · rw [amountsCodec, Codec.encodeIn_avroBinary_eq hvalue]
    rfl
  · obtain ⟨order, horder⟩ := Arrangement.exists_arrange
      (Value.Reordered.of_perm (.swap ("b", pairValue [1] [1, 0]) ("a", pairValue [] [0]) []))
    refine ⟨order, (binary_encoding_aborts_iff amountsText_define isTabled_amountsJson order).2.mpr
      (.inr ⟨_, hvalue, by decide, [(.bytes, [1])], (.fixed ⟨"", "Byte"⟩ 1, [1, 0]),
        [(.bytes, []), (.fixed ⟨"", "Byte"⟩ 1, [0])], ?_, ?_, ?_⟩)⟩
    · rw [horder]
      rfl
    · exact List.forall_mem_singleton.mpr ⟨[2, 1], rfl⟩
    · exact .inl (show 1 < 2 by decide)

/-- A decimal number in one byte, by itself. -/
def amountText : String :=
  "\x7b\"type\":\x7b\"type\":\"fixed\",\"name\":\"Byte\",\"size\":1\x7d," ++
    "\"logicalType\":\"decimal\",\"precision\":2\x7d"

/-- Two bytes are let through for a decimal number in one byte, and abort the encoding; for one byte
of fixed size they are a mismatch. -/
theorem binary_encoding_aborts :
    Codec.create .avro .binary amountText = .ok (.avroBinary amount []) ∧
    (Codec.avroBinary amount []).encode (.record (.array [.int 1, .int 0])) = .error .aborted ∧
    Value.ofJson [] .generic (.fixed ⟨"", "Byte"⟩ 1) (.array [.int 1, .int 0]) =
      .error (.mismatch ⟨.array [.int 1, .int 0], "Fixed"⟩) := by
  have hdefine : Schema.define amountText = .ok (amount, []) := by cbv
  refine ⟨Codec.create_binary hdefine, ?_, by rfl⟩
  have hvalue : Value.ofJson [] .generic amount (.array [.int 1, .int 0]) =
      .ok (.decimal [1, 0]) := by rfl
  rw [Codec.encode, Codec.encodeIn_avroBinary_eq hvalue, Codec.mapError_eq_aborted]
  rfl

end Messaging
