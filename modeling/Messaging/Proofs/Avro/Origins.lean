import Messaging.Proofs.Avro.Converted
import Messaging.Proofs.Avro.RoundTrip
import Messaging.Proofs.Avro.Undone
import Messaging.Proofs.Avro.Unfolding
import Messaging.Proofs.Number.Overflow

/-! # Where the numbers of a value come from

Every part of a value that is converted comes from a JSON value: from a part of the one that is
converted, or from a default. `Value.Traced` follows a conversion down to the parts without parts of
their own and relates each of these to the JSON value that it was read from; a conversion is traced
by what is read there (`traced_of_ofJsonWithin`).

`numbers_kept` says what becomes of numbers: integers and bytes are those of the JSON value, and
numbers of 64 bits are finite. Numbers of 32 bits are not checked for their range: one that is too
large becomes an infinity, which has no spelling in JSON and comes back as `null`
(`float_comes_back_as_null`). -/

namespace Messaging

open Number

/-- Is it a number that JSON has, an integer of 64 bits, signed or not, or else a finite number? -/
def Json.Num.InRange : Json.Num → Prop
  | .int i => -0x8000000000000000 ≤ i ∧ i < 0x10000000000000000
  | .float x => x.isFinite = true

theorem Json.Num.InRange.isFinite {n : Json.Num} (h : n.InRange) : n.toDouble.isFinite = true := by
  cases n with
  | float x => exact h
  | int i =>
    have hrange : i.natAbs < 2 ^ 64 := by
      obtain ⟨hlow, hhigh⟩ : -0x8000000000000000 ≤ i ∧ i < 0x10000000000000000 := h
      omega
    exact Double.isFinite_ofInt hrange

namespace Avro

namespace Value

/-! ### Traces -/

/-- Is the value put together along the schema from parts of the JSON value and from defaults, and
stands each part without parts in a relation to its schema and the JSON value it was read from? -/
inductive Traced (names : Names) (dialect : Dialect) (R : Schema → Json → Value → Prop) :
    Schema → Json → Value → Prop
  | leaf {s j v} (leaf : s.IsLeaf) (read : R s j v) : Traced names dialect R s j v
  | ref {name s j v} (found : names.find? name.full = some s)
      (value : Traced names dialect R s j v) : Traced names dialect R (.ref name) j v
  | array {s js vs} (length : vs.length = js.length)
      (values : ∀ p ∈ js.zip vs, Traced names dialect R s p.1 p.2) :
      Traced names dialect R (.array s) (.array js) (.array vs)
  | map {s es vs} (keys : vs.map Prod.fst = es.map Prod.fst)
      (values : ∀ p ∈ es.zip vs, Traced names dialect R s p.1.2 p.2.2) :
      Traced names dialect R (.map s) (.object es) (.map vs)
  | record {name fields es vs} (keys : vs.map Prod.fst = fields.map fun f => f.1.name)
      (values : ∀ p ∈ fields.zip vs,
        Traced names dialect R p.1.2 (fieldJson es p.1.1) p.2.2) :
      Traced names dialect R (.record name fields) (.object es) (.record vs)
  | named {branches j index branch inner v}
      (chosen : named? dialect branches j = some (index, branch, inner))
      (value : Traced names dialect R branch inner v) :
      Traced names dialect R (.union branches) j (.union index v)
  | branch {branches j index branch v} (unnamed : named? dialect branches j = none)
      (chosen : branches[index]? = some branch) (value : Traced names dialect R branch j v) :
      Traced names dialect R (.union branches) j (.union index v)

/-- A conversion is traced by what is read from the values that it comes to. -/
theorem traced_of_ofJsonWithin {names : Names} {dialect : Dialect} {schema : Schema} {json : Json}
    {R : Schema → Json → Value → Prop}
    (hR : ∀ {s j v}, s.IsLeaf → j ∈ valuesWith names schema json →
      leafOfJson? dialect s j = some v → R s j v)
    {fuel : Nat} {s : Schema} {j : Json} {v : Value} (hs : s ∈ schema.partsWith names)
    (hj : j ∈ valuesWith names schema json) (h : ofJsonWithin names dialect fuel s j = .ok v) :
    Traced names dialect R s j v := by
  have hclosed := schema.closed_partsWith names
  induction fuel generalizing s j v with
  | zero => cases h
  | succ fuel ih =>
    unfold ofJsonWithin at h
    cases s with
    | ref name =>
      dsimp only at h
      split at h
      · next t found => exact .ref found (ih (hclosed.target found) hj h)
      · cases h
    | array items =>
      dsimp only at h
      split at h
      · next js =>
        obtain ⟨vs, hvs, rfl⟩ := map_eq_ok h
        have hall := forall₂_of_mapM hvs
        refine .array hall.length_eq.symm fun p hp => ?_
        have hitem : p.1 ∈ valuesWith names schema json :=
          valuesWith_trans hj (List.mem_cons_of_mem _
            (Json.mem_itemParts.mpr ⟨p.1, (List.of_mem_zip hp).1, p.1.self_mem_parts⟩))
        exact ih (hclosed.items hs) hitem ((List.forall₂_iff_zip.mp hall).2 hp)
      · cases h
    | map values =>
      dsimp only at h
      split at h
      · next es =>
        obtain ⟨vs, hvs, rfl⟩ := map_eq_ok h
        have hall := forall₂_entries (forall₂_of_mapM hvs)
        refine .map (map_fst_eq hall) fun p hp => ?_
        have hentry : p.1.2 ∈ valuesWith names schema json :=
          valuesWith_trans hj (List.mem_cons_of_mem _
            (Json.mem_entryParts.mpr ⟨p.1, (List.of_mem_zip hp).1, p.1.2.self_mem_parts⟩))
        exact ih (hclosed.values hs) hentry ((List.forall₂_iff_zip.mp hall).2 hp).2
      · cases h
    | record name fields =>
      dsimp only at h
      split at h
      · next es =>
        obtain ⟨vs, hvs, rfl⟩ := map_eq_ok h
        have hall := forall₂_entries (forall₂_of_mapM hvs)
        refine .record (map_fst_eq hall) fun p hp => ?_
        have hf := (List.of_mem_zip hp).1
        exact ih (hclosed.fields hs _ hf) (fieldJson_mem_valuesWith hs hj hf)
          ((List.forall₂_iff_zip.mp hall).2 hp).2
      · cases h
    | union branches =>
      dsimp only at h
      split at h
      · next index branch inner hnamed =>
        obtain ⟨v, hv, rfl⟩ := map_eq_ok h
        split at hnamed
        · next hdialect =>
          obtain ⟨chosen, key, rfl⟩ := mem_of_namedBranch? hnamed
          have hinner : inner ∈ valuesWith names schema json :=
            valuesWith_trans hj (List.mem_cons_of_mem _ (Json.mem_entryParts.mpr
              ⟨(key, inner), List.mem_singleton_self _, inner.self_mem_parts⟩))
          exact .named (by rw [named?, if_pos hdialect, hnamed])
            (ih (hclosed.branches hs _ (List.mem_of_getElem? chosen)) hinner hv)
        · cases hnamed
      · next hnamed =>
        obtain ⟨o, ho, h⟩ := bind_eq_ok h
        split at h
        · next w =>
          cases h
          obtain ⟨index, branch, v, chosen, rfl, hv⟩ := firstBranch_eq_some ho
          rw [Nat.zero_add]
          split at hv
          · exact .branch hnamed chosen
              (ih (hclosed.branches hs _ (List.mem_of_getElem? chosen)) hj hv)
          · cases hv
        · cases h
    | _ =>
      dsimp only at h
      split at h
      · next hv =>
        cases h
        exact .leaf trivial (hR trivial hj hv)
      · cases h

/-! ### Numbers -/

/-- The integer that a value is. -/
def integer? : Value → Option Int
  | int i | long i | intAs _ i | longAs _ i => some i
  | _ => none

/-- Is it a floating-point number? -/
def isFloating : Value → Bool
  | float _ | double _ => true
  | _ => false

/-- What a value without parts says of the numbers in the JSON value that it was read from. -/
structure KeepsNumbers (j : Json) (v : Value) : Prop where
  /-- An integer is the JSON integer. -/
  integer : ∀ i, v.integer? = some i → j = .int i
  /-- Bytes that were given as numbers are these numbers. -/
  bytes : ∀ b items, v.bytes? = some b → j = .array items → items = b.map fun u => .int u.toNat
  /-- A number of 64 bits is the one nearest to the JSON number, and finite. -/
  double : ∀ x, v = .double x → ∃ n, j = .number n ∧ x = n.toDouble ∧ x.isFinite = true
  /-- A number of 32 bits is the one nearest to that, and finite if it is not too large. -/
  float : ∀ x, v = .float x → ∃ n, j = .number n ∧ x = n.toDouble.toSingle ∧
    (x.isFinite = true ↔ n.toDouble.magnitude < 2 ^ 128 - 2 ^ 103)
  /-- A JSON number only comes back as `null` if it is too large for its 32 bits. -/
  back : ∀ n, j = .number n →
    (v.toJson = .null ↔ (∃ x, v = .float x) ∧ 2 ^ 128 - 2 ^ 103 ≤ n.toDouble.magnitude)

theorem doubleOfJson?_eq_some {j : Json} {x : Double} (h : doubleOfJson? j = some x) :
    ∃ n, j = .number n ∧ x = n.toDouble := by
  unfold doubleOfJson? at h
  split at h
  · next n =>
    cases h
    exact ⟨n, rfl, rfl⟩
  · cases h

theorem toByte?_eq_some {n : Json.Num} {u : UInt8} (h : n.toByte? = some u) :
    n = .int u.toNat := by
  cases n with
  | float x => cases h
  | int i =>
    rw [Json.Num.toByte?] at h
    split at h
    · next hrange =>
      cases h
      have hbyte : i.toNat.toUInt8.toNat = i.toNat :=
        UInt8.toNat_ofNat_of_lt (show i.toNat < 256 by omega)
      rw [hbyte, Int.toNat_of_nonneg hrange.1]
    · cases h

/-- Bytes are read from numbers one by one. -/
theorem bytesOfJson?_array_eq_some {dialect : Dialect} {items : List Json} {b : Bytes}
    (h : bytesOfJson? dialect (.array items) = some b) : items = b.map fun u => .int u.toNat := by
  cases dialect with
  | encoded => cases h
  | generic =>
    rw [bytesOfJson?] at h
    induction items generalizing b with
    | nil =>
      cases h
      rfl
    | cons item rest ih =>
      rw [List.mapM_cons] at h
      obtain ⟨u, hu, h⟩ := Option.bind_eq_some_iff.mp h
      obtain ⟨us, hus, h⟩ := Option.bind_eq_some_iff.mp h
      cases h
      rw [List.map_cons, ← ih hus]
      split at hu
      · rw [toByte?_eq_some hu]
        rfl
      · cases hu

theorem ofSingle_eq_null_iff {x : Single} : Json.ofSingle x = .null ↔ ¬x.isFinite = true := by
  rw [Json.ofSingle, Json.ofDouble, x.isFinite_toDouble]
  split <;> simp_all

namespace KeepsNumbers

variable {j : Json} {v : Value}

/-- A value that is no floating-point number only has to keep integers and bytes. -/
theorem of_exact (hexact : v.isFloating = false)
    (hinteger : ∀ i, v.integer? = some i → j = .int i)
    (hbytes : ∀ b items, v.bytes? = some b → j = .array items →
      items = b.map fun u => .int u.toNat)
    (hnull : ∀ n, j = .number n → v.toJson ≠ .null) : KeepsNumbers j v where
  integer := hinteger
  bytes := hbytes
  double x hx := by
    subst hx
    cases hexact
  float x hx := by
    subst hx
    cases hexact
  back n hn := by
    refine iff_of_false (hnull n hn) ?_
    rintro ⟨⟨x, rfl⟩, -⟩
    cases hexact

/-- Text and truth values are read from no number. -/
theorem of_no_number (hj : ∀ n, j ≠ .number n) (hexact : v.isFloating = false)
    (hinteger : v.integer? = none) (hbytes : v.bytes? = none) : KeepsNumbers j v :=
  .of_exact hexact (fun i hi => by rw [hinteger] at hi; cases hi)
    (fun b _ hb => by rw [hbytes] at hb; cases hb) fun n hn => absurd hn (hj n)

/-- An integer that is read from this JSON integer, and written as it. -/
theorem of_integer {i : Int} (hj : j = .int i) (hexact : v.isFloating = false)
    (hinteger : v.integer? = some i) (hbytes : v.bytes? = none) (hback : v.toJson = .int i) :
    KeepsNumbers j v := by
  refine .of_exact hexact ?_ ?_ ?_
  · intro k hk
    rw [hinteger] at hk
    cases hk
    exact hj
  · intro b items hb
    rw [hbytes] at hb
    cases hb
  · intro n hn hnull
    rw [hback] at hnull
    cases hnull

/-- Bytes that are read from this JSON value. -/
theorem of_bytes {dialect : Dialect} {b : Bytes} (hj : bytesOfJson? dialect j = some b)
    (hexact : v.isFloating = false) (hinteger : v.integer? = none) (hbytes : v.bytes? = some b) :
    KeepsNumbers j v := by
  refine .of_exact hexact ?_ ?_ ?_
  · intro i hi
    rw [hinteger] at hi
    cases hi
  · intro b' items hb hitems
    rw [hbytes] at hb
    cases hb
    rw [hitems] at hj
    exact bytesOfJson?_array_eq_some hj
  · intro n hn
    rw [hn] at hj
    cases hj

theorem of_double {n : Json.Num} (hn : n.InRange) :
    KeepsNumbers (.number n) (.double n.toDouble) where
  integer i hi := by cases hi
  bytes b items hb := by cases hb
  double x hx := by
    cases hx
    exact ⟨n, rfl, rfl, hn.isFinite⟩
  float x hx := by cases hx
  back k hk := by
    cases hk
    have hback : (Value.double n.toDouble).toJson = .number (.float n.toDouble) := by
      rw [toJson, Json.ofDouble, if_pos hn.isFinite]
    refine iff_of_false ?_ ?_
    · rw [hback]
      intro hnull
      cases hnull
    · rintro ⟨⟨x, hx⟩, -⟩
      cases hx

theorem of_float {n : Json.Num} (hn : n.InRange) :
    KeepsNumbers (.number n) (.float n.toDouble.toSingle) where
  integer i hi := by cases hi
  bytes b items hb := by cases hb
  double x hx := by cases hx
  float x hx := by
    cases hx
    exact ⟨n, rfl, rfl, Double.isFinite_toSingle_iff hn.isFinite⟩
  back k hk := by
    cases hk
    rw [toJson, ofSingle_eq_null_iff, Double.isFinite_toSingle_iff hn.isFinite, not_lt]
    exact (and_iff_right ⟨_, rfl⟩).symm

end KeepsNumbers

/-- A value without parts keeps the numbers that it is read from. -/
theorem keepsNumbers_of_leafOfJson? {dialect : Dialect} {s : Schema} {j : Json} {v : Value}
    (hj : ∀ n, j = .number n → n.InRange) (h : leafOfJson? dialect s j = some v) :
    KeepsNumbers j v := by
  have htext : ∀ {text : String}, textOfJson? j = some text → ∀ n, j ≠ .number n := by
    rintro text htext n rfl
    cases htext
  cases s with
  | array | map | union | record | ref => cases h
  | null =>
    cases j with
    | null =>
      cases h
      exact .of_no_number (fun n hn => by cases hn) rfl rfl rfl
    | _ => cases h
  | boolean =>
    simp only [leafOfJson?] at h
    split at h <;> cases h
    exact .of_no_number (fun n hn => by cases hn) rfl rfl rfl
  | int | intAs | long | longAs =>
    obtain ⟨i, hi, rfl⟩ := Option.map_eq_some_iff.mp h
    exact .of_integer (intOfJson?_eq_some hi).1 rfl rfl rfl rfl
  | float =>
    obtain ⟨x, hx, rfl⟩ := Option.map_eq_some_iff.mp h
    obtain ⟨n, rfl, rfl⟩ := doubleOfJson?_eq_some hx
    exact .of_float (hj n rfl)
  | double =>
    obtain ⟨x, hx, rfl⟩ := Option.map_eq_some_iff.mp h
    obtain ⟨n, rfl, rfl⟩ := doubleOfJson?_eq_some hx
    exact .of_double (hj n rfl)
  | bytes | decimal =>
    obtain ⟨b, hb, rfl⟩ := Option.map_eq_some_iff.mp h
    exact .of_bytes hb rfl rfl rfl
  | fixed | duration =>
    obtain ⟨b, hb, h⟩ := Option.bind_eq_some_iff.mp h
    split at h <;> cases h
    exact .of_bytes hb rfl rfl rfl
  | string =>
    obtain ⟨text, ht, rfl⟩ := Option.map_eq_some_iff.mp h
    exact .of_no_number (htext ht) rfl rfl rfl
  | enum =>
    obtain ⟨text, ht, h⟩ := Option.bind_eq_some_iff.mp h
    obtain ⟨index, -, rfl⟩ := Option.map_eq_some_iff.mp h
    exact .of_no_number (htext ht) rfl rfl rfl
  | uuid | bigDecimal =>
    obtain ⟨x, hx, rfl⟩ := Option.map_eq_some_iff.mp h
    obtain ⟨text, ht, -⟩ := Option.bind_eq_some_iff.mp hx
    exact .of_no_number (htext ht) rfl rfl rfl

/-- **Integers and bytes are kept, and floating-point numbers are finite but for those that are too
large for their 32 bits.** -/
theorem numbers_kept {names : Names} {dialect : Dialect} {schema : Schema} {json : Json} {v : Value}
    (hjson : ∀ n, .number n ∈ valuesWith names schema json → n.InRange)
    (h : ofJson names dialect schema json = .ok v) :
    Traced names dialect (fun _ => KeepsNumbers) schema json v :=
  traced_of_ofJsonWithin
    (fun _ hj hv => keepsNumbers_of_leafOfJson? (fun n hn => hjson n (hn ▸ hj)) hv)
    (schema.self_mem_partsWith names) (mem_valuesWith.mpr (.inl json.self_mem_parts)) h

end Value

/-! ### Numbers of a sample -/

/-- What is measured at one time. -/
def sample : Schema :=
  .record ⟨"", "Sample"⟩
    [(⟨"at", [], none⟩, .longAs .timestampNanos), (⟨"data", [], none⟩, .bytes),
      (⟨"weight", [], none⟩, .float),
      (⟨"limit", [], some (.number (.float ⟨0x47EFFFFFF0000000⟩))⟩, .union [.null, .float])]

/-- A sample whose weight is just below half a place above the largest number of 32 bits. -/
def sampled : Json :=
  .object [("at", .int 1700000000000000000), ("data", .array [.int 0, .int 255]),
    ("weight", .number (.float ⟨0x47EFFFFFEFFFFFFF⟩))]

theorem sampled_inRange : ∀ n, .number n ∈ valuesWith [] sample sampled → n.InRange := by
  intro n hn
  have hcases : n = .int 1700000000000000000 ∨ n = .int 0 ∨ n = .int 255 ∨
      n = .float ⟨0x47EFFFFFEFFFFFFF⟩ ∨ n = .float ⟨0x47EFFFFFF0000000⟩ := by
    simpa [valuesWith, sampled, sample, Schema.defaultsWith, Schema.defaults, Schema.fieldDefaults,
      Schema.branchDefaults, Json.parts, Json.itemParts, Json.entryParts, Json.int, or_assoc]
      using hn
  rcases hcases with rfl | rfl | rfl | rfl | rfl
  · exact ⟨by decide, by decide⟩
  · exact ⟨by decide, by decide⟩
  · exact ⟨by decide, by decide⟩
  · show Double.isFinite _ = true
    decide
  · show Double.isFinite _ = true
    decide

/-- The weight is rounded to the largest number of 32 bits, the limit that is the default to an
infinity. -/
theorem numbers_kept_sample :
    ∃ v, Value.ofJson [] .generic sample sampled = .ok v ∧
      Value.Traced [] .generic (fun _ => Value.KeepsNumbers) sample sampled v ∧
      v.toJson = .object [("at", .int 1700000000000000000), ("data", .array [.int 0, .int 255]),
        ("limit", .null), ("weight", .number (.float ⟨0x47EFFFFFE0000000⟩))] := by
  have hvalue : Value.ofJson [] .generic sample sampled = .ok (.record
      [("at", .longAs .timestampNanos 1700000000000000000), ("data", .bytes [0, 255]),
        ("weight", .float ⟨0x7F7FFFFF⟩), ("limit", .union 1 (.float ⟨0x7F800000⟩))]) := by
    rfl
  exact ⟨_, hvalue, Value.numbers_kept sampled_inRange hvalue, by rfl⟩

/-- A number that is too large for 32 bits is let through and goes out as `null`; an integer that is
too large for them is a mismatch. -/
theorem float_comes_back_as_null :
    Codec.create .avro .json "\"float\"" = .ok (.avroJson .float []) ∧
    Double.isFinite ⟨0x48078287F49C4A1D⟩ = true ∧
    (∀ dialect, Value.ofJson [] dialect .float (.number (.float ⟨0x48078287F49C4A1D⟩)) =
      .ok (.float ⟨0x7F800000⟩)) ∧
    Single.isFinite ⟨0x7F800000⟩ = false ∧ (Value.float ⟨0x7F800000⟩).toJson = .null ∧
    (Codec.avroJson .float []).encode (.record (.number (.float ⟨0x48078287F49C4A1D⟩))) =
      .ok (Bytes.ofString "null") ∧
    Value.ofJson [] .encoded .int (.int 0x80000000) =
      .error (.mismatch ⟨.int 0x80000000, "Int"⟩) := by
  have hdefine : Schema.define "\"float\"" = .ok (.float, []) := by cbv
  have hvalue : ∀ dialect, Value.ofJson [] dialect .float
      (.number (.float ⟨0x48078287F49C4A1D⟩)) = .ok (.float ⟨0x7F800000⟩) := by
    intro dialect
    cases dialect with
    | generic => rfl
    | encoded => rfl
  exact ⟨Codec.create_json hdefine, by decide, hvalue, by decide, by rfl, by rfl, by rfl⟩

end Avro

end Messaging
