import Messaging.Proofs.Proto.Pieces
import Messaging.Proofs.Table

/-! # Messages of a type

`Pool.WellFormed` holds what the language of descriptors asks of types, and `Message.Fits` what a
message is by its type: values are within the range of their fields, fields ascend and are one of
each oneof at most, unknown fields have numbers that the type does not have, and nothing is nested
deeper than a depth. `Message.settled` is a message without the fields that count as unset, at every
depth; doing it twice changes nothing more (`settled_settled`). -/

namespace Messaging.Proto

open Number

/-! ### Types -/

/-- Is the field like those of the entries of maps, which neither repeat nor declare a default? -/
structure Field.IsPlain (f : Field) : Prop where
  singular : f.cardinality = .singular
  default : f.default = none

/-- The rules for a field: packed items are numbers, a repeated field has no presence, and the
entries of a map have a key and a value. -/
structure Field.WellFormed (p : Pool) (f : Field) : Prop where
  number : IsNumber f.number
  packed : f.packed = true → f.type.packable = true
  presence : f.presence = true → f.cardinality = .singular
  entry : f.cardinality = .map → ∃ e ∈ p.entryFields? f.type, e.1.IsPlain ∧ e.2.IsPlain

/-- The rules for a message type. -/
structure MessageType.WellFormed (p : Pool) (t : MessageType) : Prop where
  ascending : t.fields.Pairwise fun f g => f.number < g.number
  fields : ∀ f ∈ t.fields, f.WellFormed p

/-- All message types keep the rules. -/
def Pool.WellFormed (p : Pool) : Prop := ∀ e ∈ p.messages, e.2.WellFormed p

instance (f : Field) : Decidable f.IsPlain :=
  decidable_of_iff (f.cardinality = .singular ∧ f.default = none)
    ⟨fun ⟨singular, default⟩ => ⟨singular, default⟩, fun h => ⟨h.singular, h.default⟩⟩

instance (p : Pool) (f : Field) : Decidable (f.WellFormed p) :=
  decidable_of_iff (IsNumber f.number ∧ (f.packed = true → f.type.packable = true) ∧
      (f.presence = true → f.cardinality = .singular) ∧
      (f.cardinality = .map → ∃ e ∈ p.entryFields? f.type, e.1.IsPlain ∧ e.2.IsPlain))
    ⟨fun ⟨number, packed, presence, entry⟩ => ⟨number, packed, presence, entry⟩,
      fun h => ⟨h.number, h.packed, h.presence, h.entry⟩⟩

instance (p : Pool) (t : MessageType) : Decidable (t.WellFormed p) :=
  decidable_of_iff (t.fields.Pairwise (fun f g => f.number < g.number) ∧
      ∀ f ∈ t.fields, f.WellFormed p)
    ⟨fun ⟨ascending, fields⟩ => ⟨ascending, fields⟩, fun h => ⟨h.ascending, h.fields⟩⟩

instance (p : Pool) : Decidable p.WellFormed :=
  inferInstanceAs (Decidable (∀ e ∈ p.messages, e.2.WellFormed p))

theorem MessageType.wellFormed_of_nil {p : Pool} {t : MessageType} (h : t.fields = []) :
    t.WellFormed p where
  ascending := by
    rw [h]
    exact .nil
  fields f hf := by
    rw [h] at hf
    cases hf

theorem Pool.WellFormed.message {p : Pool} (h : p.WellFormed) (name : String) :
    (p.message name).WellFormed p := by
  unfold Pool.message
  cases hfind : p.messages.find? name with
  | none => exact MessageType.wellFormed_of_nil rfl
  | some t => exact h (name, t) (Table.mem_of_find? hfind)

theorem Pool.WellFormed.messageOf {p : Pool} (h : p.WellFormed) (type : FieldType) :
    (p.messageOf type).WellFormed p := by
  cases type with
  | message name => exact h.message name
  | _ => exact MessageType.wellFormed_of_nil rfl

namespace MessageType

variable {p : Pool} {t : MessageType} {f : Field} {number : Nat}

theorem number_of_byNumber? (h : t.byNumber? number = some f) : f.number = number := by
  simpa using List.find?_some h

theorem mem_of_byNumber? (h : t.byNumber? number = some f) : f ∈ t.fields :=
  List.mem_of_find?_eq_some h

end MessageType

theorem Pool.number_of_entryFields? {p : Pool} {type : FieldType} {key value : Field}
    (h : p.entryFields? type = some (key, value)) : key.number = 1 ∧ value.number = 2 := by
  cases type with
  | message name =>
    simp only [entryFields?, Option.bind_eq_bind, Option.bind_eq_some_iff] at h
    obtain ⟨k, hk, v, hv, h⟩ := h
    cases h
    exact ⟨MessageType.number_of_byNumber? hk, MessageType.number_of_byNumber? hv⟩
  | _ => cases h

/-! ### Messages -/

/-- May the entries of a message follow one another? Their numbers ascend, and they are not members
of one oneof. -/
def Precedes (t : MessageType) (a b : Nat × Value) : Prop :=
  a.1 < b.1 ∧ ∀ f ∈ t.fields, ∀ g ∈ t.fields, f.number = a.1 → g.number = b.1 →
    f.oneof.isSome = true → f.oneof ≠ g.oneof

instance (t : MessageType) : DecidableRel (Precedes t) := fun a b =>
  inferInstanceAs (Decidable (a.1 < b.1 ∧ ∀ f ∈ t.fields, ∀ g ∈ t.fields, f.number = a.1 →
    g.number = b.1 → f.oneof.isSome = true → f.oneof ≠ g.oneof))

/-- Is the value one of the field, where `item` tells what a single one is? -/
def Field.Fits (item : FieldType → Value → Prop) (p : Pool) (f : Field) (v : Value) : Prop :=
  match f.cardinality with
  | .singular => item f.type v
  | .repeated => ∃ items, v = .list items ∧ ∀ w ∈ items, item f.type w
  | .map => ∃ entries, v = .map entries ∧ (entries.map Prod.fst).Nodup ∧
      ∀ key value, p.entryFields? f.type = some (key, value) →
        ∀ e ∈ entries, item key.type e.1.toValue ∧ item value.type e.2

/-- The unknown fields of a number, in which groups are nested `depth` deep at most. -/
structure UnreadAll (depth number : Nat) (raw : Bytes) : Prop where
  valid : IsNumber number
  fields : ∃ pieces : List Bytes, pieces ≠ [] ∧ raw = pieces.flatten ∧
    ∀ x ∈ pieces, Unread depth number x

/-- Is this what a message of the type may hold? -/
structure Body.Fits (item : FieldType → Value → Prop) (p : Pool) (depth : Nat) (t : MessageType)
    (b : Body) : Prop where
  fields : ∀ e ∈ b.fields, ∃ f, t.byNumber? e.1 = some f ∧ f.Fits item p e.2
  ordered : b.fields.Pairwise (Precedes t)
  unknown : ∀ u ∈ b.unknown, t.byNumber? u.1 = none ∧ UnreadAll depth u.1 u.2
  unknown_ordered : b.unknown.Pairwise fun u w => u.1 < w.1

/-- Is the value a single one of the type, with messages nested `depth` deep at most? -/
def Value.Fits (p : Pool) : Nat → FieldType → Value → Prop
  | _, .scalar s, v => s.Holds v
  | _, .enum _, v => ∃ i, v = .enum i ∧ -2 ^ 31 ≤ i ∧ i < 2 ^ 31
  | 0, .message _, _ => False
  | depth + 1, .message name, v => ∃ b : Body, v = .message b.fields b.unknown ∧
      b.Fits (Value.Fits p depth) p depth (p.message name)

/-- Is the message what its type says, with messages nested `depth` deep at most in it? -/
structure Message.Fits (depth : Nat) (m : Message) : Prop where
  pool : m.pool.WellFormed
  type : m.type.WellFormed m.pool
  body : m.body.Fits (Value.Fits m.pool depth) m.pool depth m.type

/-! ### What counts as set -/

mutual

/-- The value without what counts as unset in its messages. -/
def Value.settled (p : Pool) (type : FieldType) : Value → Value
  | .message fields unknown => .message (settledFields p (p.messageOf type) fields) unknown
  | .list items => .list (settledItems p type items)
  | .map entries =>
    match p.entryFields? type with
    | some (_, value) => .map (settledEntries p value entries)
    | none => .map entries
  | v => v

/-- The items without what counts as unset in their messages. -/
def settledItems (p : Pool) (type : FieldType) : List Value → List Value
  | [] => []
  | v :: rest => v.settled p type :: settledItems p type rest

/-- The entries of a map with the default for each value that counts as unset. -/
def settledEntries (p : Pool) (value : Field) : List (Key × Value) → List (Key × Value)
  | [] => []
  | (k, v) :: rest =>
    (k, if value.shows p v then v.settled p value.type else value.defaultValue p)
      :: settledEntries p value rest

/-- The fields that count as set. -/
def settledFields (p : Pool) (t : MessageType) : List (Nat × Value) → List (Nat × Value)
  | [] => []
  | (number, v) :: rest =>
    match t.byNumber? number with
    | some f =>
      if f.shows p v then (number, v.settled p f.type) :: settledFields p t rest
      else settledFields p t rest
    | none => settledFields p t rest

end

/-- The message without what counts as unset in it. -/
def Message.settled (m : Message) : Message :=
  { m with body := { m.body with fields := settledFields m.pool m.type m.body.fields } }

/-- Are the messages equal but for what counts as unset in them? -/
def Message.Same (m m' : Message) : Prop :=
  m.pool = m'.pool ∧ m.type = m'.type ∧ m.settled.body = m'.settled.body

/-- The fields that count as set, with their values. -/
def shownFields (p : Pool) (t : MessageType) (fields : List (Nat × Value)) : List (Field × Value) :=
  fields.filterMap fun (number, v) =>
    match t.byNumber? number with
    | some f => if f.shows p v then some (f, v) else none
    | none => none

section shownFields

variable {p : Pool} {t : MessageType} {f : Field} {number : Nat} {v : Value}

theorem shownFields_of_none (rest : List (Nat × Value)) (hf : t.byNumber? number = none) :
    shownFields p t ((number, v) :: rest) = shownFields p t rest := by
  simp only [shownFields, List.filterMap_cons, hf]

theorem shownFields_of_shows (rest : List (Nat × Value)) (hf : t.byNumber? number = some f)
    (h : f.shows p v = true) :
    shownFields p t ((number, v) :: rest) = (f, v) :: shownFields p t rest := by
  simp only [shownFields, List.filterMap_cons, hf, if_pos h]

theorem shownFields_of_unset (rest : List (Nat × Value)) (hf : t.byNumber? number = some f)
    (h : ¬f.shows p v = true) :
    shownFields p t ((number, v) :: rest) = shownFields p t rest := by
  simp only [shownFields, List.filterMap_cons, hf, if_neg h]

/-- What is done with the fields that count as set, one by one, is done with all of them. -/
theorem eq_map_shownFields {α : Type} {g : List (Nat × Value) → List α} {h : Field × Value → α}
    (nil : g [] = [])
    (none : ∀ {number : Nat} (v : Value) (rest : List (Nat × Value)),
      t.byNumber? number = none → g ((number, v) :: rest) = g rest)
    (shown : ∀ {number : Nat} {f : Field} {v : Value} (rest : List (Nat × Value)),
      t.byNumber? number = some f → f.shows p v = true →
        g ((number, v) :: rest) = h (f, v) :: g rest)
    (unset : ∀ {number : Nat} {f : Field} {v : Value} (rest : List (Nat × Value)),
      t.byNumber? number = some f → ¬f.shows p v = true → g ((number, v) :: rest) = g rest)
    (fields : List (Nat × Value)) :
    g fields = (shownFields p t fields).map h := by
  induction fields with
  | nil => rw [nil, shownFields, List.filterMap_nil, List.map_nil]
  | cons e rest ih =>
    obtain ⟨number, v⟩ := e
    cases hf : t.byNumber? number with
    | none => rw [none v rest hf, ih, shownFields_of_none rest hf]
    | some f =>
      by_cases hshows : f.shows p v = true
      · rw [shown rest hf hshows, ih, shownFields_of_shows rest hf hshows, List.map_cons]
      · rw [unset rest hf hshows, ih, shownFields_of_unset rest hf hshows]

/-- What counts as set is some of what there is, in the same order. -/
theorem shownFields_sublist (p : Pool) (t : MessageType) (fields : List (Nat × Value)) :
    ((shownFields p t fields).map fun s => (s.1.number, s.2)).Sublist fields := by
  induction fields with
  | nil => exact List.nil_sublist _
  | cons e rest ih =>
    obtain ⟨number, v⟩ := e
    cases hf : t.byNumber? number with
    | none =>
      rw [shownFields_of_none rest hf]
      exact ih.cons _
    | some f =>
      by_cases h : f.shows p v = true
      · rw [shownFields_of_shows rest hf h, List.map_cons, MessageType.number_of_byNumber? hf]
        exact ih.cons_cons _
      · rw [shownFields_of_unset rest hf h]
        exact ih.cons _

theorem shows_of_mem {fields : List (Nat × Value)} {s : Field × Value}
    (h : s ∈ shownFields p t fields) :
    t.byNumber? s.1.number = some s.1 ∧ s.1.shows p s.2 = true := by
  obtain ⟨⟨number, v⟩, -, he⟩ := List.mem_filterMap.mp h
  cases hf : t.byNumber? number with
  | none => simp only [hf, reduceCtorEq] at he
  | some f =>
    simp only [hf, Option.ite_none_right_eq_some, Option.some.injEq] at he
    obtain ⟨hshows, rfl⟩ := he
    exact ⟨MessageType.number_of_byNumber? hf ▸ hf, hshows⟩

end shownFields

/-- The value of a map with the default in its place if it counts as unset. -/
def Field.settle (p : Pool) (f : Field) (v : Value) : Value :=
  if f.shows p v then v.settled p f.type else f.defaultValue p

theorem settledItems_eq (p : Pool) (type : FieldType) (items : List Value) :
    settledItems p type items = items.map fun v => v.settled p type := by
  induction items with
  | nil => rw [settledItems, List.map_nil]
  | cons v rest ih => rw [settledItems, ih, List.map_cons]

theorem settledEntries_eq (p : Pool) (value : Field) (entries : List (Key × Value)) :
    settledEntries p value entries = entries.map fun e => (e.1, value.settle p e.2) := by
  induction entries with
  | nil => rw [settledEntries, List.map_nil]
  | cons e rest ih => rw [settledEntries, ih, List.map_cons, Field.settle]

theorem settledFields_eq (p : Pool) (t : MessageType) (fields : List (Nat × Value)) :
    settledFields p t fields =
      (shownFields p t fields).map fun s => (s.1.number, s.2.settled p s.1.type) := by
  refine eq_map_shownFields ?_ ?_ ?_ ?_ fields
  · rw [settledFields]
  · intro number v rest hf
    simp only [settledFields, hf]
  · intro number f v rest hf h
    simp only [settledFields, hf, if_pos h, MessageType.number_of_byNumber? hf]
  · intro number f v rest hf h
    simp only [settledFields, hf, if_neg h]

/-- What is not set in it does not make a value a default or not. -/
theorem Value.isDefault_settled (p : Pool) (type : FieldType) (v : Value) :
    (v.settled p type).isDefault p type = v.isDefault p type := by
  cases v <;> simp only [Value.settled]
  case message => rfl
  case list items => cases items <;> simp only [settledItems, Value.isDefault, List.isEmpty]
  case map entries =>
    split
    · cases entries <;> simp only [settledEntries, Value.isDefault, List.isEmpty]
    · rfl

theorem Field.shows_settled (p : Pool) (f : Field) (v : Value) :
    f.shows p (v.settled p f.type) = f.shows p v := by
  rw [Field.shows, Field.shows, Value.isDefault_settled]

theorem FieldType.settled_default (p : Pool) (t type : FieldType) :
    (t.default p).settled p type = t.default p := by
  cases t with
  | scalar s => cases s <;> simp only [FieldType.default, Scalar.default, Value.settled]
  | enum name => simp only [FieldType.default, Value.settled]
  | message name => simp only [FieldType.default, Value.settled, settledFields]

theorem Default.settled_toValue (p : Pool) (t type : FieldType) (d : Default) :
    (d.toValue p t).settled p type = d.toValue p t := by
  cases d <;> simp only [Default.toValue] <;> (try split) <;> simp only [Value.settled]

/-- The default of a field has nothing in it that is unset. -/
theorem Field.settled_defaultValue (p : Pool) (f : Field) (type : FieldType) :
    (f.defaultValue p).settled p type = f.defaultValue p := by
  unfold Field.defaultValue
  split
  · simp only [Value.settled, settledItems]
  · simp only [Value.settled, settledEntries]
    split <;> rfl
  · split
    · exact Default.settled_toValue p f.type type _
    · exact FieldType.settled_default p f.type type

mutual

theorem Value.settled_settled (p : Pool) (type : FieldType) :
    ∀ v : Value, (v.settled p type).settled p type = v.settled p type
  | .message fields unknown => by
    simp only [Value.settled, settledFields_settled p (p.messageOf type) fields]
  | .list items => by simp only [Value.settled, settledItems_settled p type items]
  | .map entries => by
    cases h : p.entryFields? type with
    | none => simp only [Value.settled, h]
    | some e => simp only [Value.settled, h, settledEntries_settled p e.2 entries]
  | .bool _ | .int _ | .float _ | .double _ | .string _ | .bytes _ | .enum _ => by
    simp only [Value.settled]

theorem settledItems_settled (p : Pool) (type : FieldType) :
    ∀ items : List Value,
      settledItems p type (settledItems p type items) = settledItems p type items
  | [] => by simp only [settledItems]
  | v :: rest => by
    simp only [settledItems, Value.settled_settled p type v, settledItems_settled p type rest]

theorem settledEntries_settled (p : Pool) (value : Field) :
    ∀ entries : List (Key × Value),
      settledEntries p value (settledEntries p value entries) = settledEntries p value entries
  | [] => by simp only [settledEntries]
  | (k, v) :: rest => by
    have hrest := settledEntries_settled p value rest
    have hv := Value.settled_settled p value.type v
    by_cases h : value.shows p v = true
    · have h' := h
      rw [← Field.shows_settled] at h'
      simp only [settledEntries, if_pos h, if_pos h', hrest, hv]
    · simp only [settledEntries, if_neg h, Field.settled_defaultValue, ite_self, hrest]

theorem settledFields_settled (p : Pool) (t : MessageType) :
    ∀ fields : List (Nat × Value),
      settledFields p t (settledFields p t fields) = settledFields p t fields
  | [] => by simp only [settledFields]
  | (number, v) :: rest => by
    have hrest := settledFields_settled p t rest
    cases hf : t.byNumber? number with
    | none => simp only [settledFields, hf, hrest]
    | some f =>
      have hv := Value.settled_settled p f.type v
      by_cases h : f.shows p v = true
      · have h' := h
        rw [← Field.shows_settled] at h'
        simp only [settledFields, hf, if_pos h, if_pos h', hrest, hv]
      · simp only [settledFields, hf, if_neg h, hrest]

end

theorem shownFields_settledFields (p : Pool) (t : MessageType) (fields : List (Nat × Value)) :
    shownFields p t (settledFields p t fields) =
      (shownFields p t fields).map fun s => (s.1, s.2.settled p s.1.type) := by
  refine eq_map_shownFields (g := fun fields => shownFields p t (settledFields p t fields))
    ?_ ?_ ?_ ?_ fields
  · simp only [settledFields, shownFields, List.filterMap_nil]
  · intro number v rest hf
    simp only [settledFields, hf]
  · intro number f v rest hf h
    have h' := h
    rw [← Field.shows_settled] at h'
    simp only [settledFields, hf, if_pos h, shownFields_of_shows _ hf h']
  · intro number f v rest hf h
    simp only [settledFields, hf, if_neg h]

namespace Message

theorem shown_eq (m : Message) : m.shown = shownFields m.pool m.type m.body.fields := rfl

/-- The fields that count as set stay, with values from which what is unset is gone. -/
theorem shown_settled (m : Message) :
    m.settled.shown = m.shown.map fun s => (s.1, s.2.settled m.pool s.1.type) := by
  rw [shown_eq, shown_eq]
  exact shownFields_settledFields m.pool m.type m.body.fields

theorem settled_settled (m : Message) : m.settled.settled = m.settled := by
  simp only [settled, settledFields_settled]

theorem settled_same (m : Message) : m.settled.Same m :=
  ⟨rfl, rfl, congrArg body m.settled_settled⟩

end Message

end Messaging.Proto
