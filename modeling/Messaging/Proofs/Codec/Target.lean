import Messaging.Codec
import Messaging.Proofs.Steps

/-! # Decoding into a target

An application hands a codec the payload to decode into, which may be one that it has used before.
`Codec.decodeInto` is decoding as steps on that target, where an error leaves whatever has been
assigned by then. A codec of protocol buffers reads the descriptor of the target, fills a message of
its own that starts empty, and assigns it at the end; the other codecs do not look at the target.

So nothing of the old content shows in the outcome, and nothing of a failed one in the target
(`decode_ignores_content`). A target that is used again and again is as good as a new one
(`Codec.decodeAll_eq`). Reading straight into the message that is there would not do: it keeps the
fields that the data does not have and appends to lists (`Proto.Message.merge?`). -/

namespace Messaging

/-- Payloads of the same kind; messages have the same descriptor. -/
inductive Payload.SameKind : Payload → Payload → Prop
  | bytes (data data' : Bytes) : SameKind (.bytes data) (.bytes data')
  | text (text text' : String) : SameKind (.text text) (.text text')
  | record (value value' : Json) : SameKind (.record value) (.record value')
  | proto (m : Proto.Message) (body : Proto.Body) : SameKind (.proto m) (.proto { m with body })

theorem Payload.SameKind.of_descriptor {m m' : Proto.Message}
    (h : m'.pool = m.pool ∧ m'.type = m.type) : SameKind (.proto m) (.proto m') := by
  obtain ⟨pool, type, body⟩ := m'
  obtain ⟨rfl, rfl⟩ := h
  exact .proto m body

namespace Proto.Message

/-- Reads data in the wire format into a message, which keeps what it has. -/
def merge? (b : Bytes) (m : Message) : Option Message :=
  (readBody m.pool b.length maxDepth m.type m.body b).map fun body => { m with body }

/-- The message without what it holds. -/
def emptied (m : Message) : Message := { m with body := {} }

theorem merge?_emptied (b : Bytes) (m : Message) : m.emptied.merge? b = decode? m.pool m.type b :=
  rfl

theorem decode?_descriptor {p : Pool} {t : MessageType} {b : Bytes} {m : Message}
    (h : decode? p t b = some m) : m.pool = p ∧ m.type = t := by
  obtain ⟨body, -, rfl⟩ := Option.map_eq_some_iff.mp h
  exact ⟨rfl, rfl⟩

theorem ofDocument?_descriptor {p : Pool} {t : MessageType} {d : Json.Document} {m : Message}
    (h : ofDocument? p t d = some m) : m.pool = p ∧ m.type = t := by
  unfold ofDocument? at h
  dsimp only at h
  split at h
  · cases h
    exact ⟨rfl, rfl⟩
  · cases h

end Proto.Message

namespace Codec

/-- The message that the target is. -/
def target : EStateM CodecError Payload Proto.Message := do
  MonadExcept.ofExcept (messageOf (← get))

/-- Decodes data into a target, in place. -/
def decodeInto (data : Bytes) : Codec → EStateM CodecError Payload Unit
  | raw => throw .noSchema
  | avroBinary schema names => do
    let value ← MonadExcept.ofExcept (decodeAvroBinary schema names data)
    set (Payload.record value)
  | avroJson schema names => do
    let value ← MonadExcept.ofExcept (decodeAvroJson schema names data)
    set (Payload.record value)
  | protoBinary => do
    let m ← target
    match m.emptied.merge? data with
    | some m => set (Payload.proto m)
    | none => throw (.wrapped "cannot decode proto binary" (.format .proto))
  | protoJson => do
    let m ← target
    let m ← MonadExcept.ofExcept (decodeProtoJson m data)
    set (Payload.proto m)

/-- Decodes data into a target, one after the other, and notes the outcomes. -/
def decodeAll (c : Codec) : List Bytes → Payload → List (Except CodecError Payload)
  | [], _ => []
  | data :: rest, t =>
    match (c.decodeInto data).run t with
    | .ok _ p => .ok p :: c.decodeAll rest p
    | .error e t => .error e :: c.decodeAll rest t

variable {α : Type} {c : Codec} {data : Bytes} {t t' p : Payload}

/-! ### Steps on a target -/

theorem run_ofExcept_bind (x : Except CodecError α) (f : α → EStateM CodecError Payload Unit)
    (t : Payload) : (MonadExcept.ofExcept x >>= f).run t =
      match x with
      | .ok a => (f a).run t
      | .error e => .error e t := by
  cases x <;> rfl

theorem run_target_bind (f : Proto.Message → EStateM CodecError Payload Unit) (t : Payload) :
    (target >>= f).run t =
      match messageOf t with
      | .ok m => (f m).run t
      | .error e => .error e t := by
  cases t <;> rfl

/-- An error leaves the target as it was, and a payload replaces it. -/
theorem run_decodeInto (c : Codec) (data : Bytes) (t : Payload) :
    (c.decodeInto data).run t =
      match c.decode t data with
      | .ok p => .ok () p
      | .error e => .error e t := by
  cases c with
  | raw => rfl
  | avroBinary schema names =>
    rw [decodeInto, run_ofExcept_bind, decode]
    cases decodeAvroBinary schema names data <;> rfl
  | avroJson schema names =>
    rw [decodeInto, run_ofExcept_bind, decode]
    cases decodeAvroJson schema names data <;> rfl
  | protoBinary =>
    rw [decodeInto, run_target_bind, decode]
    cases messageOf t with
    | error e => rfl
    | ok m =>
      dsimp only [Except.bind]
      rw [decodeProtoBinary, ← Proto.Message.merge?_emptied]
      cases m.emptied.merge? data <;> rfl
  | protoJson =>
    rw [decodeInto, run_target_bind, decode]
    cases messageOf t with
    | error e => rfl
    | ok m =>
      dsimp only [Except.bind]
      rw [run_ofExcept_bind]
      cases decodeProtoJson m data <;> rfl

/-! ### What the target matters for -/

/-- Only the kind of the target matters. -/
theorem decode_eq_of_sameKind (c : Codec) (data : Bytes) (h : t.SameKind t') :
    c.decode t data = c.decode t' data := by
  cases h <;> cases c <;> rfl

/-- **Decoding neither depends on what the target holds nor damages it.** Into two targets of the
same kind any codec decodes any data alike: with the same error, and both targets are as before, or
to the same payload, which both targets are then. -/
theorem decode_ignores_content (c : Codec) (data : Bytes) (h : t.SameKind t') :
    (∃ e, c.decode t data = .error e ∧ (c.decodeInto data).run t = .error e t ∧
      (c.decodeInto data).run t' = .error e t') ∨
    ∃ p, c.decode t data = .ok p ∧ (c.decodeInto data).run t = .ok () p ∧
      (c.decodeInto data).run t' = .ok () p := by
  have hsame := decode_eq_of_sameKind c data h
  rw [run_decodeInto, run_decodeInto, ← hsame]
  cases c.decode t data with
  | error e => exact .inl ⟨e, rfl, rfl, rfl⟩
  | ok p => exact .inr ⟨p, rfl, rfl, rfl⟩

/-- Notes have lines. -/
def notesType : Proto.MessageType where
  name := "Notes"
  fields := [{
    name := "lines", jsonName := "lines", number := 1, type := .scalar .string
    cardinality := .repeated, presence := false, packed := false }]

/-- Notes with these lines. -/
def notes (lines : List String) : Proto.Message where
  pool := { messages := [("Notes", notesType)] }
  type := notesType
  body := { fields := [(1, .list (lines.map .string))] }

/-- The line of the data is the only one afterwards, and data that ends too early leaves the lines
as they were. -/
theorem decode_ignores_content_notes :
    (Payload.proto (notes ["old"])).SameKind (.proto (notes [])) ∧
    (protoBinary.decodeInto [10, 1, 97]).run (.proto (notes ["old"])) =
      .ok () (.proto (notes ["a"])) ∧
    (protoBinary.decodeInto [10, 1, 97]).run (.proto (notes [])) = .ok () (.proto (notes ["a"])) ∧
    ∃ e, (protoBinary.decodeInto [10, 9, 97]).run (.proto (notes ["old"])) =
      .error e (.proto (notes ["old"])) := by
  have hkind : (Payload.proto (notes ["old"])).SameKind (.proto (notes [])) :=
    .proto (notes ["old"]) (notes []).body
  have hread : protoBinary.decode (.proto (notes ["old"])) [10, 1, 97] =
      .ok (.proto (notes ["a"])) := rfl
  have hshort : protoBinary.decode (.proto (notes ["old"])) [10, 9, 97] =
      .error (.wrapped "cannot decode proto binary" (.format .proto)) := rfl
  refine ⟨hkind, ?_⟩
  obtain ⟨e, he, -⟩ | ⟨p, hp, hold, hnew⟩ := decode_ignores_content protoBinary [10, 1, 97] hkind
  · rw [hread] at he
    cases he
  · obtain ⟨e, -, hsame, -⟩ | ⟨q, hq, -⟩ :=
      decode_ignores_content protoBinary [10, 9, 97] hkind
    · rw [hread] at hp
      cases hp
      exact ⟨hold, hnew, e, hsame⟩
    · rw [hshort] at hq
      cases hq

/-- Merging keeps the old lines. -/
example : (notes ["old"]).merge? [10, 1, 97] = some (notes ["old", "a"]) := rfl

/-! ### A target that is used again -/

theorem decodeProtoBinary_descriptor {m m' : Proto.Message}
    (h : decodeProtoBinary m data = .ok m') : m'.pool = m.pool ∧ m'.type = m.type := by
  unfold decodeProtoBinary at h
  split at h
  · next hread =>
    cases h
    exact Proto.Message.decode?_descriptor hread
  · cases h

theorem decodeProtoJson_descriptor {m m' : Proto.Message}
    (h : decodeProtoJson m data = .ok m') : m'.pool = m.pool ∧ m'.type = m.type := by
  unfold decodeProtoJson at h
  split at h
  · next hread =>
    cases h
    obtain ⟨d, -, hd⟩ := Option.bind_eq_some_iff.mp hread
    exact Proto.Message.ofDocument?_descriptor hd
  · cases h

theorem sameKind_of_read {read : Proto.Message → Except CodecError Proto.Message}
    (hread : ∀ {m m'}, read m = .ok m' → m'.pool = m.pool ∧ m'.type = m.type)
    (h : ((messageOf t).bind fun m => (read m).map .proto) = .ok p) : t.SameKind p := by
  obtain ⟨m, ht, hm⟩ := bind_eq_ok h
  obtain ⟨m', hm', rfl⟩ := map_eq_ok hm
  cases t with
  | proto _ =>
    cases ht
    exact .of_descriptor (hread hm')
  | _ => cases ht

/-- A target that has been decoded into is as good as before. -/
theorem decode_again (h : c.decode t data = .ok p) (data' : Bytes) :
    c.decode p data' = c.decode t data' := by
  cases c with
  | raw => rfl
  | avroBinary schema names => rfl
  | avroJson schema names => rfl
  | protoBinary =>
    have hkind : t.SameKind p := sameKind_of_read decodeProtoBinary_descriptor h
    exact (decode_eq_of_sameKind _ data' hkind).symm
  | protoJson =>
    have hkind : t.SameKind p := sameKind_of_read decodeProtoJson_descriptor h
    exact (decode_eq_of_sameKind _ data' hkind).symm

/-- Whatever is decoded into a target one after the other, each outcome is what it would be with the
target as it was at first. -/
theorem decodeAll_eq (c : Codec) (messages : List Bytes) (t : Payload) :
    c.decodeAll messages t = messages.map (c.decode t) := by
  induction messages generalizing t with
  | nil => rfl
  | cons data rest ih =>
    rw [decodeAll, run_decodeInto, List.map_cons]
    cases h : c.decode t data with
    | error e =>
      dsimp only
      rw [ih]
    | ok p =>
      dsimp only
      rw [ih, funext (decode_again h)]

end Codec

end Messaging
