import Messaging.Proofs.Proto.Reading

/-! # Values of fields are read back

If single items are read back (`ReadsBack`), so are the fields of every cardinality: items that come
one by one or in one piece are gathered in a list, and entries in a map (`takes_field`). -/

namespace Messaging.Proto

open Number

/-! ### Single items -/

/-- Is the value, if it is a message, an empty one? -/
def Value.IsBlank : Value → Prop
  | .message fields unknown => fields = [] ∧ unknown = []
  | _ => True

theorem FieldType.isBlank_default (p : Pool) (type : FieldType) : (type.default p).IsBlank := by
  cases type with
  | scalar s => cases s <;> trivial
  | enum name => trivial
  | message name => exact ⟨rfl, rfl⟩

theorem Field.isBlank_defaultValue (p : Pool) (f : Field) : (f.defaultValue p).IsBlank := by
  unfold Field.defaultValue
  split
  · trivial
  · trivial
  · split
    · next d _ => cases d <;> simp only [Default.toValue] <;> (try split) <;> trivial
    · exact f.type.isBlank_default p

/-- A message is read into an empty one. -/
theorem readItem_message {nested : MessageType → Body → Bytes → Option Body} {old : Value}
    (hblank : old.IsBlank) (p : Pool) (name : String) (b : Bytes) :
    readItem nested p (.message name) .delimited old b =
      (readDelimited b).bind fun x =>
        (nested (p.message name) {} x.1).map fun body =>
          (.message body.fields body.unknown, x.2) := by
  simp only [readItem, if_true, Option.bind_eq_bind]
  cases readDelimited b with
  | none => rfl
  | some x =>
    simp only [Option.bind_some]
    cases old
    case message fields unknown =>
      obtain ⟨rfl, rfl⟩ := hblank
      cases nested (p.message name) {} x.1 <;> rfl
    all_goals cases nested (p.message name) {} x.1 <;> rfl

/-- The value is read back from its data where there was nothing before, but for what counts as
unset in it. -/
def ReadsBack (p : Pool) (depth : Nat) (type : FieldType) (v : Value) : Prop :=
  ∀ (fuel : Nat) (old : Value), (v.data p type).length ≤ fuel → (v.data p type).length < 2 ^ 64 →
    old.IsBlank → Reads (readItem (readNested p fuel depth) p type type.wireType old)
      (v.data p type) (v.settled p type)

section Leaves

variable {p : Pool} {depth : Nat} {s : Scalar} {v : Value}

theorem Scalar.Holds.data (h : s.Holds v) (type : FieldType) :
    v.data p type = v.leafData type := by
  cases v <;> first | rfl | exact h.elim

theorem Scalar.Holds.settled (h : s.Holds v) (type : FieldType) : v.settled p type = v := by
  cases v <;> first | rfl | exact h.elim

theorem readsBack_scalar (h : s.Holds v) : ReadsBack p depth (.scalar s) v := by
  intro fuel old _ hlen _
  rw [h.data] at hlen ⊢
  rw [h.settled]
  exact Scalar.reads h hlen

theorem readsBack_enum {name : String} {i : Int} (hlow : -2 ^ 31 ≤ i) (hhigh : i < 2 ^ 31) :
    ReadsBack p depth (.enum name) (.enum i) := by
  intro fuel old _ _ _
  have h := (reads_varint (wrap_lt 64 i)).map fun n => Value.enum (signed 32 n)
  rw [signed_wrap (by decide) (by omega) (by omega)] at h
  exact h

end Leaves

namespace Value.Fits

variable {p : Pool} {depth : Nat} {type : FieldType} {f : Field} {v : Value}

theorem scalar_iff {s : Scalar} : v.Fits p depth (.scalar s) ↔ s.Holds v := by
  rw [Value.Fits]

theorem enum_iff {name : String} :
    v.Fits p depth (.enum name) ↔ ∃ i, v = .enum i ∧ -2 ^ 31 ≤ i ∧ i < 2 ^ 31 := by
  rw [Value.Fits]

theorem message_iff {name : String} : v.Fits p depth (.message name) ↔
    ∃ d b, depth = d + 1 ∧ v = .message b.fields b.unknown ∧
      Body.Fits (Value.Fits p d) p d (p.message name) b := by
  cases depth with
  | zero => simp [Value.Fits]
  | succ d => simp [Value.Fits]

/-- A single item is written behind one key. -/
theorem fieldData (h : v.Fits p depth f.type) :
    fieldData p f v = writeKey f.number f.type.wireType ++ v.data p f.type := by
  cases htype : f.type with rw [htype] at h
  | scalar s =>
    have hs := scalar_iff.mp h
    cases v <;> first | exact hs.elim | simp only [Proto.fieldData, htype, hs.data]
  | enum name =>
    obtain ⟨i, rfl, -, -⟩ := enum_iff.mp h
    simp only [Proto.fieldData, htype, Value.data]
  | message name =>
    obtain ⟨d, b, -, rfl, -⟩ := message_iff.mp h
    simp only [Proto.fieldData, htype, Value.data, FieldType.wireType]

theorem length_data_pos (h : v.Fits p depth type) : 0 < (v.data p type).length := by
  cases type with
  | scalar s =>
    have hs := scalar_iff.mp h
    rw [hs.data]
    exact Scalar.length_leafData_pos hs
  | enum name =>
    obtain ⟨i, rfl, -, -⟩ := enum_iff.mp h
    exact length_varint_pos _
  | message name =>
    obtain ⟨d, b, -, rfl, -⟩ := message_iff.mp h
    simp only [Value.data]
    exact length_writeDelimited_pos _

end Value.Fits

/-! ### Lists -/

/-- The items of a value that is a list. -/
def Value.items : Value → List Value
  | .list items => items
  | _ => []

theorem length_le_flatMap {α : Type} {g : α → Bytes} {x : α} {xs : List α} (h : x ∈ xs) :
    (g x).length ≤ (xs.flatMap g).length :=
  (List.sublist_flatten_of_mem (List.mem_map_of_mem h)).length_le

/-- Items in one piece are read back if each of them is. -/
theorem readPacked_flatten {α : Type} {type : FieldType} {read : Bytes → Option (Value × Bytes)}
    {data : α → Bytes} {value : α → Value} {xs : List α} (hpos : ∀ x ∈ xs, 0 < (data x).length)
    (h : ∀ x ∈ xs, Reads read (data x) (value x)) {fuel : Nat}
    (hfuel : (xs.map data).flatten.length ≤ fuel) :
    readPacked type read fuel (xs.map data).flatten = some (xs.map value) := by
  induction xs generalizing fuel with
  | nil => cases fuel <;> exact if_pos rfl
  | cons x rest ih =>
    have hx := hpos x List.mem_cons_self
    simp only [List.map_cons, List.flatten_cons, List.length_append] at hfuel ⊢
    obtain ⟨fuel, rfl⟩ : ∃ k, fuel = k + 1 := ⟨fuel - 1, by omega⟩
    have hne : data x ++ (rest.map data).flatten ≠ [] :=
      List.append_ne_nil_of_left_ne_nil (List.ne_nil_of_length_pos hx) _
    have hleft : (rest.map data).flatten.length ≤ fuel := by omega
    have hrest := ih (fun y hy => hpos y (List.mem_cons_of_mem x hy))
      (fun y hy => h y (List.mem_cons_of_mem x hy)) hleft
    simp only [readPacked, if_neg hne, h x List.mem_cons_self _, hrest, Option.bind_eq_bind,
      Option.bind_some]

section Repeated

variable {p : Pool} {depth : Nat} {t : MessageType} {body : Body} {f : Field}

theorem readField_singular {nested : MessageType → Body → Bytes → Option Body}
    (hcard : f.cardinality = .singular) (w : WireType) (old : Value) :
    readField nested p depth f w old = readItem nested p f.type w old := by
  funext b
  simp only [readField, hcard]

theorem readField_repeated {nested : MessageType → Body → Bytes → Option Body}
    (hcard : f.cardinality = .repeated) (old : Value) (b : Bytes) :
    readField nested p depth f f.type.wireType old b =
      (readItem nested p f.type f.type.wireType (f.type.default p) b).map fun x =>
        (.list (old.items ++ [x.1]), x.2) := by
  have hcond : ¬(f.type.wireType = .delimited ∧ f.type.packable = true) := by
    simp [FieldType.packable]
  simp only [readField, hcard, if_neg hcond]
  cases readItem nested p f.type f.type.wireType (f.type.default p) b with
  | none => rfl
  | some x => cases old <;> rfl

theorem readField_packed {nested : MessageType → Body → Bytes → Option Body}
    (hcard : f.cardinality = .repeated) (hpackable : f.type.packable = true) (old : Value)
    (b : Bytes) :
    readField nested p depth f .delimited old b =
      (readDelimited b).bind fun x =>
        (readPacked f.type (readItem nested p f.type f.type.wireType (f.type.default p)) x.1.length
          x.1).map fun more => (.list (old.items ++ more), x.2) := by
  simp only [readField, hcard, hpackable, and_self, if_true]
  cases readDelimited b with
  | none => rfl
  | some x =>
    simp only [Option.bind_eq_bind, Option.bind_some]
    cases readPacked f.type (readItem nested p f.type f.type.wireType (f.type.default p))
      x.1.length x.1 with
    | none => rfl
    | some more => cases old <;> rfl

/-- Items that are added one by one make up the list. -/
theorem foldl_items {α : Type} (value : α → Value) (xs : List α) (acc : List Value) :
    xs.foldl (fun old x => .list (old.items ++ [value x])) (Value.list acc) =
      .list (acc ++ xs.map value) := by
  induction xs generalizing acc with
  | nil => rw [List.foldl_nil, List.map_nil, List.append_nil]
  | cons x rest ih =>
    rw [List.foldl_cons, Value.items, ih, List.map_cons, List.append_assoc, List.singleton_append]

variable (hf : t.byNumber? f.number = some f) (hnumber : IsNumber f.number)
  (hnew : body.get? f = none)

include hf hnumber hnew

/-- A single item is read into its field. -/
theorem takes_singular {v : Value} (hcard : f.cardinality = .singular)
    (hread : ReadsBack p depth f.type v) (hlen : (v.data p f.type).length < 2 ^ 64) :
    TakesBody p depth t body (writeKey f.number f.type.wireType ++ v.data p f.type)
      (body.set t f (v.settled p f.type)) := by
  refine takes_occurrence hf hnumber fun fuel hfuel => ?_
  rw [readField_singular hcard, hnew, Option.getD_none]
  exact hread fuel _ hfuel hlen (f.isBlank_defaultValue p)

/-- Items that come one by one are gathered. -/
theorem takes_repeated {items : List Value} (hcard : f.cardinality = .repeated)
    (hne : items ≠ []) (hread : ∀ v ∈ items, ReadsBack p depth f.type v)
    (hlen : ∀ v ∈ items, (v.data p f.type).length < 2 ^ 64) :
    TakesBody p depth t body
      (items.flatMap fun v => writeKey f.number f.type.wireType ++ v.data p f.type)
      (body.set t f (.list (items.map fun v => v.settled p f.type))) := by
  have hdefault : f.defaultValue p = .list [] := by rw [Field.defaultValue, hcard]
  have hitem : ∀ v ∈ items, ∀ old fuel, (v.data p f.type).length ≤ fuel →
      Reads (readField (readNested p fuel depth) p depth f f.type.wireType old)
        (v.data p f.type) (.list (old.items ++ [v.settled p f.type])) := by
    intro v hv old fuel hfuel rest
    rw [readField_repeated hcard, hread v hv fuel _ hfuel (hlen v hv) (f.type.isBlank_default p)]
    rfl
  have h := takes_gathered body (fun old v => .list (old.items ++ [v.settled p f.type])) hf hnumber
    hne hitem
  rwa [hnew, Option.getD_none, hdefault, foldl_items, List.nil_append] at h

/-- Items in one piece are read into their field. -/
theorem takes_packed {items : List Value} (hcard : f.cardinality = .repeated)
    (hpackable : f.type.packable = true) (hread : ∀ v ∈ items, ReadsBack p depth f.type v)
    (hpos : ∀ v ∈ items, 0 < (v.data p f.type).length)
    (hlen : (items.map fun v => v.data p f.type).flatten.length < 2 ^ 64) :
    TakesBody p depth t body
      (writeKey f.number .delimited
        ++ writeDelimited (items.map fun v => v.data p f.type).flatten)
      (body.set t f (.list (items.map fun v => v.settled p f.type))) := by
  have hdefault : f.defaultValue p = .list [] := by rw [Field.defaultValue, hcard]
  refine takes_occurrence hf hnumber fun fuel hfuel rest => ?_
  have hle := (length_le_writeDelimited _).trans hfuel
  have hitem : ∀ v ∈ items, (v.data p f.type).length ≤
      (items.map fun v => v.data p f.type).flatten.length := fun v hv => length_le_flatMap hv
  have hitems : readPacked f.type _ _ _ = some (items.map fun v => v.settled p f.type) :=
    readPacked_flatten hpos
      (fun v hv => hread v hv fuel (f.type.default p) ((hitem v hv).trans hle)
        ((hitem v hv).trans_lt hlen) (f.type.isBlank_default p)) le_rfl
  rw [readField_packed hcard hpackable, reads_delimited hlen rest, Option.bind_some, hitems, hnew,
    Option.getD_none, hdefault]
  rfl

end Repeated

/-! ### Maps -/

/-- The entries of a value that is a map. -/
def Value.entries : Value → List (Key × Value)
  | .map entries => entries
  | _ => []

theorem Key.toKey_toValue (k : Key) : k.toValue.toKey = k := by
  cases k <;> rfl

theorem setKey_of_forall_ne {k : Key} {v : Value} {entries : List (Key × Value)}
    (h : ∀ e ∈ entries, e.1 ≠ k) : setKey k v entries = entries ++ [(k, v)] := by
  induction entries with
  | nil => rfl
  | cons e rest ih =>
    rw [setKey, if_neg (h e List.mem_cons_self), ih fun a ha => h a (List.mem_cons_of_mem e ha),
      List.cons_append]

/-- Entries of different keys that are added one by one make up the map. -/
theorem foldl_entries (value : Value → Value) {xs acc : List (Key × Value)}
    (h : ((acc ++ xs).map Prod.fst).Nodup) :
    xs.foldl (fun old e => .map (setKey e.1 (value e.2) old.entries)) (Value.map acc) =
      .map (acc ++ xs.map fun e => (e.1, value e.2)) := by
  induction xs generalizing acc with
  | nil => rw [List.foldl_nil, List.map_nil, List.append_nil]
  | cons e rest ih =>
    have hfresh : ∀ a ∈ acc, a.1 ≠ e.1 := by
      rw [List.map_append, List.nodup_append] at h
      exact fun a ha => h.2.2 a.1 (List.mem_map_of_mem ha) e.1 List.mem_cons_self
    have hkeys : (acc ++ [(e.1, value e.2)] ++ rest).map Prod.fst =
        (acc ++ e :: rest).map Prod.fst := by simp
    rw [List.foldl_cons, Value.entries, setKey_of_forall_ne hfresh, ih (hkeys ▸ h), List.map_cons,
      List.append_assoc, List.singleton_append]

section Entry

variable {nested : MessageType → Body → Bytes → Option Body} {p : Pool} {depth fuel : Nat}
  {key value : Field} {type : FieldType}

theorem readEntry_nil (fuel : Nat) (entry : Value × Value) :
    readEntry nested p depth key value fuel entry [] = some entry := by
  cases fuel <;> exact if_pos rfl

/-- The key of an entry is taken. -/
theorem takes_entry_key {w : WireType} {data : Bytes} {old v k : Value}
    (h : Reads (readItem nested p key.type w old) data k) :
    Takes (readEntry nested p depth key value) (old, v) (writeKey 1 w ++ data) (k, v) := by
  refine .of_step (length_writeKey_pos _ _) fun rest fuel _ => ?_
  simp only [readEntry, if_neg (append_ne_nil_of_key 1 w (data ++ rest)),
    readKey_writeKey (show IsNumber 1 by decide), h rest, Option.bind_eq_bind, Option.bind_some,
    if_true]

/-- The value of an entry is taken. -/
theorem takes_entry_value {w : WireType} {data : Bytes} {old v k : Value}
    (h : Reads (readItem nested p value.type w old) data v) :
    Takes (readEntry nested p depth key value) (k, old) (writeKey 2 w ++ data) (k, v) := by
  refine .of_step (length_writeKey_pos _ _) fun rest fuel _ => ?_
  simp only [readEntry, if_neg (append_ne_nil_of_key 2 w (data ++ rest)),
    readKey_writeKey (show IsNumber 2 by decide), h rest, Option.bind_eq_bind, Option.bind_some,
    if_true, OfNat.ofNat_ne_one, if_false]

/-- A key that is a default is the default of its type. -/
theorem Key.toValue_eq_default {k : Key} {s : Scalar} (hs : s.Holds k.toValue)
    (hdefault : k.toValue.isDefault p (.scalar s) = true) : k.toValue = s.default := by
  cases k with
  | bool b =>
    obtain rfl : s = .bool := hs
    simpa [Key.toValue, Value.isDefault, Scalar.default] using hdefault
  | int i =>
    obtain ⟨low, high, hrange, -⟩ := hs
    have hi : i = 0 := by simpa [Key.toValue, Value.isDefault] using hdefault
    cases s <;> cases hrange <;> simp only [Key.toValue, Scalar.default, hi]
  | string x =>
    obtain rfl : s = .string := hs
    simpa [Key.toValue, Value.isDefault, Scalar.default] using hdefault

/-- A key that counts as unset is the default. -/
theorem Key.toValue_eq_defaultValue {k : Key} (hkey : key.IsPlain)
    (hfits : k.toValue.Fits p depth key.type) (hunset : ¬key.shows p k.toValue = true) :
    k.toValue = key.defaultValue p := by
  have hdefault : k.toValue.isDefault p key.type = true := by
    simp only [Field.shows, Bool.or_eq_true, not_or, Bool.not_eq_true'] at hunset
    simpa using hunset.2
  have hvalue : key.defaultValue p = key.type.default p := by
    simp only [Field.defaultValue, hkey.singular, hkey.default]
  rw [hvalue]
  cases htype : key.type with rw [htype] at hfits hdefault
  | scalar s =>
    exact toValue_eq_default (Value.Fits.scalar_iff.mp hfits) hdefault
  | enum name =>
    obtain ⟨i, hi, -⟩ := Value.Fits.enum_iff.mp hfits
    cases k <;> cases hi
  | message name =>
    obtain ⟨d, b, -, hb, -⟩ := Value.Fits.message_iff.mp hfits
    cases k <;> cases hb

theorem Key.settle_toValue {k : Key} (hkey : key.IsPlain)
    (hfits : k.toValue.Fits p depth key.type) : key.settle p k.toValue = k.toValue := by
  unfold Field.settle
  split
  · cases k <;> simp only [Key.toValue, Value.settled]
  · next h => exact (toValue_eq_defaultValue hkey hfits h).symm

theorem entryWire_eq (p : Pool) (key value : Field) (e : Key × Value) :
    entryWire p key value e =
      (if key.shows p e.1.toValue then fieldData p key e.1.toValue else []) ++
        if value.shows p e.2 then fieldData p value e.2 else [] := by
  obtain ⟨k, v⟩ := e
  cases k <;> rfl

/-- An entry is taken from the defaults. -/
theorem takes_entry {e : Key × Value} (hfields : p.entryFields? type = some (key, value))
    (hk : e.1.toValue.Fits p depth key.type) (hv : e.2.Fits p depth value.type)
    (hreadk : ReadsBack p depth key.type e.1.toValue)
    (hreadv : ReadsBack p depth value.type e.2)
    (hfuel : (entryWire p key value e).length ≤ fuel)
    (hlen : (entryWire p key value e).length < 2 ^ 64) :
    Takes (readEntry (readNested p fuel depth) p depth key value)
      (key.defaultValue p, value.defaultValue p) (entryWire p key value e)
      (key.settle p e.1.toValue, value.settle p e.2) := by
  obtain ⟨hone, htwo⟩ := Pool.number_of_entryFields? hfields
  rw [entryWire_eq, List.length_append] at hfuel hlen
  have hkey : Takes (readEntry (readNested p fuel depth) p depth key value)
      (key.defaultValue p, value.defaultValue p)
      (if key.shows p e.1.toValue then fieldData p key e.1.toValue else [])
      (key.settle p e.1.toValue, value.defaultValue p) := by
    unfold Field.settle
    split
    · next h =>
      rw [if_pos h, hk.fieldData, List.length_append] at hfuel hlen
      rw [hk.fieldData, hone]
      exact takes_entry_key (hreadk fuel _ (by omega) (by omega) (key.isBlank_defaultValue p))
    · exact .nil
  have hvalue (k : Value) : Takes (readEntry (readNested p fuel depth) p depth key value)
      (k, value.defaultValue p) (if value.shows p e.2 then fieldData p value e.2 else [])
      (k, value.settle p e.2) := by
    unfold Field.settle
    split
    · next h =>
      rw [if_pos h, hv.fieldData, List.length_append] at hfuel hlen
      rw [hv.fieldData, htwo]
      exact takes_entry_value (hreadv fuel _ (by omega) (by omega) (value.isBlank_defaultValue p))
    · exact .nil
  rw [entryWire_eq]
  exact hkey.append (hvalue _)

end Entry

section Map

variable {p : Pool} {depth : Nat} {t : MessageType} {body : Body} {f key value : Field}

theorem readField_map {nested : MessageType → Body → Bytes → Option Body}
    (hcard : f.cardinality = .map) (hfields : p.entryFields? f.type = some (key, value))
    (w : WireType) (old : Value) (b : Bytes) :
    readField nested p depth f w old b =
      (readDelimited b).bind fun x =>
        (readEntry nested p depth key value x.1.length
          (key.defaultValue p, value.defaultValue p) x.1).map fun e =>
            (.map (setKey e.1.toKey e.2 old.entries), x.2) := by
  simp only [readField, hcard, hfields, Option.bind_eq_bind, Option.bind_some]
  cases readDelimited b with
  | none => rfl
  | some x =>
    simp only [Option.bind_some]
    cases readEntry nested p depth key value x.1.length
      (key.defaultValue p, value.defaultValue p) x.1 with
    | none => rfl
    | some e => cases old <;> rfl

theorem fieldData_map (hfields : p.entryFields? f.type = some (key, value))
    (entries : List (Key × Value)) :
    fieldData p f (.map entries) = entries.flatMap fun e =>
      writeKey f.number .delimited ++ writeDelimited (entryWire p key value e) := by
  simp only [fieldData, hfields, entryData_eq, List.flatMap_map]

/-- Entries are gathered. -/
theorem takes_map {entries : List (Key × Value)} (hf : t.byNumber? f.number = some f)
    (hnumber : IsNumber f.number) (hnew : body.get? f = none) (hcard : f.cardinality = .map)
    (hfields : p.entryFields? f.type = some (key, value)) (hkey : key.IsPlain)
    (hne : entries ≠ []) (hnodup : (entries.map Prod.fst).Nodup)
    (hfits : ∀ e ∈ entries, e.1.toValue.Fits p depth key.type ∧ e.2.Fits p depth value.type)
    (hread : ∀ type v, v.Fits p depth type → ReadsBack p depth type v)
    (hlen : ∀ e ∈ entries, (entryWire p key value e).length < 2 ^ 64) :
    TakesBody p depth t body (fieldData p f (.map entries))
      (body.set t f ((Value.map entries).settled p f.type)) := by
  have hdefault : f.defaultValue p = .map [] := by rw [Field.defaultValue, hcard]
  have hentry : ∀ e ∈ entries, ∀ old fuel,
      (writeDelimited (entryWire p key value e)).length ≤ fuel →
        Reads (readField (readNested p fuel depth) p depth f .delimited old)
          (writeDelimited (entryWire p key value e))
          (.map (setKey e.1 (value.settle p e.2) old.entries)) := by
    intro e he old fuel hfuel rest
    obtain ⟨hk, hv⟩ := hfits e he
    have htakes := takes_entry hfields hk hv (hread _ _ hk) (hread _ _ hv)
      ((length_le_writeDelimited _).trans hfuel) (hlen e he)
    rw [readField_map hcard hfields, reads_delimited (hlen e he) rest, Option.bind_some,
      htakes.finish readEntry_nil le_rfl, Key.settle_toValue hkey hk, Option.map_some,
      Key.toKey_toValue]
  have h := takes_gathered body (fun old e => .map (setKey e.1 (value.settle p e.2) old.entries)) hf
    hnumber hne hentry
  rw [hnew, Option.getD_none, hdefault, foldl_entries (value.settle p) (by simpa using hnodup),
    List.nil_append, ← settledEntries_eq] at h
  rw [fieldData_map hfields]
  simpa only [Value.settled, hfields] using h

end Map

/-! ### Fields -/

section Field

variable {p : Pool} {depth : Nat} {t : MessageType} {body : Body} {f : Field} {v : Value}

/-- A repeated value that counts as set has something in it. -/
theorem Field.isDefault_of_shows (hvalid : f.WellFormed p) (hcard : f.cardinality ≠ .singular)
    (hshows : f.shows p v = true) : v.isDefault p f.type = false := by
  have hpresence : f.presence = false := by
    simpa using fun h => hcard (hvalid.presence h)
  simpa [Field.shows, hpresence] using hshows

/-- The wire form of a field that counts as set is taken into a message that does not have it. -/
theorem takes_field (hf : t.byNumber? f.number = some f) (hvalid : f.WellFormed p)
    (hnew : body.get? f = none) (hfits : f.Fits (Value.Fits p depth) p v)
    (hread : ∀ type w, w.Fits p depth type → ReadsBack p depth type w)
    (hshows : f.shows p v = true) (hlen : (fieldData p f v).length < 2 ^ 64) :
    TakesBody p depth t body (fieldData p f v) (body.set t f (v.settled p f.type)) := by
  cases hcard : f.cardinality with simp only [Field.Fits, hcard] at hfits
  | singular =>
    rw [hfits.fieldData, List.length_append] at hlen
    rw [hfits.fieldData]
    exact takes_singular hf hvalid.number hnew hcard (hread _ _ hfits) (by omega)
  | repeated =>
    obtain ⟨items, rfl, hitems⟩ := hfits
    have hset := Field.isDefault_of_shows hvalid (by simp [hcard]) hshows
    have hne : items ≠ [] := by
      rintro rfl
      cases hset
    have hreads := fun w hw => hread f.type w (hitems w hw)
    rw [Value.settled, settledItems_eq]
    by_cases hpacked : f.packed = true
    · simp only [fieldData, itemData_eq, if_pos hpacked, List.length_append] at hlen ⊢
      have hle := length_le_writeDelimited (items.map fun v => v.data p f.type).flatten
      exact takes_packed hf hvalid.number hnew hcard (hvalid.packed hpacked) hreads
        (fun w hw => (hitems w hw).length_data_pos) (by omega)
    · simp only [fieldData, itemData_eq, if_neg hpacked, List.flatMap_map] at hlen ⊢
      refine takes_repeated hf hvalid.number hnew hcard hne hreads fun w hw => ?_
      have hle := (length_le_flatMap hw).trans_lt hlen
      rw [List.length_append] at hle
      omega
  | map =>
    obtain ⟨entries, rfl, hnodup, hentries⟩ := hfits
    obtain ⟨⟨key, value⟩, hfields, hkey, -⟩ := hvalid.entry hcard
    have hset := Field.isDefault_of_shows hvalid (by simp [hcard]) hshows
    have hne : entries ≠ [] := by
      rintro rfl
      cases hset
    refine takes_map hf hvalid.number hnew hcard hfields hkey hne hnodup
      (hentries key value hfields) hread fun e he => ?_
    rw [fieldData_map hfields] at hlen
    have hle := (length_le_flatMap he).trans_lt hlen
    have hwire := length_le_writeDelimited (entryWire p key value e)
    rw [List.length_append] at hle
    omega

end Field

end Messaging.Proto
