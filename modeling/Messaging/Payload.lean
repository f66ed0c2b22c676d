import Messaging.Error
import Messaging.Proto.Json
import Messaging.Proto.Wire

/-!
# Payloads

What an application publishes: bytes, text, a record or a protocol buffer message. A record is any
JSON value. `Payload.ofRecord` makes one of what an application can write as JSON, `Payload.toJson`
gives the JSON value of a structured payload, `Payload.timestamp` the point in time that a message
stands for.
-/

namespace Messaging

open Number

/-- Data of an application. -/
inductive Payload where
  | bytes (data : Bytes)
  | text (text : String)
  | record (value : Json)
  | proto (message : Proto.Message)

/-- A record of three typed fields, for applications that know the shape of their data. -/
structure TypedRecord where
  stringField : String
  floatField : Single
  booleanField : Bool
  deriving DecidableEq, Repr

namespace TypedRecord

/-- The record as a JSON value. -/
def toJson (r : TypedRecord) : Json :=
  .ofEntries [("StringField", .string r.stringField), ("FloatField", .ofSingle r.floatField),
    ("BooleanField", .bool r.booleanField)]

/-- The number of 32 bits nearest to a JSON number. -/
def single (n : Json.Num) : Single :=
  match n with
  | .int i => Single.ofInt i
  | .float x => x.toSingle

/-- The record of three values. -/
def ofValues? : List Json → Option TypedRecord
  | [.string s, .number n, .bool b] => some ⟨s, single n, b⟩
  | _ => none

/-- The record of a JSON value: an object with the three fields, or an array of them. -/
def ofJson? : Json → Option TypedRecord
  | .object entries => do
    let s ← entries.lookup "StringField"
    let x ← entries.lookup "FloatField"
    let b ← entries.lookup "BooleanField"
    ofValues? [s, x, b]
  | .array values => ofValues? values
  | _ => none

end TypedRecord

namespace Payload

/-- The payload of a record, by a writer of JSON values, which may have none for it. -/
def ofRecord {α : Type} (write : α → Option Json) (a : α) : Except CodecError Payload :=
  match write a with
  | some value => .ok (.record value)
  | none => .error (.wrapped "cannot convert record into map" (.format .json))

/-- The JSON value of a structured payload; the error names a step. -/
def toJson (context : String) : Payload → Except CodecError Json
  | record value => .ok value
  | proto message =>
    match message.toMapped? with
    | some m => .ok m.toJson
    | none => .error (.wrapped context (.format .json))
  | _ => .error (.wrapped context (.text "payload is not structured"))

/-- The record that a payload is, by a reader of JSON values. -/
def intoRecord {α : Type} (read : Json → Option α) (p : Payload) : Except CodecError α :=
  let context := "cannot convert map into record"
  (p.toJson context).bind fun value =>
    match read value with
    | some a => .ok a
    | none => .error (.wrapped context (.format .json))

/-- The seconds and nanoseconds of a message, by its wire form. -/
def timestamp (p : Payload) : Except CodecError (Int × Int) :=
  match p with
  | proto message =>
    match Proto.Message.decode? Proto.Timestamp.pool Proto.Timestamp.type message.encode with
    | some m => .ok (Proto.Timestamp.intOf m.body Proto.Timestamp.secondsField,
        Proto.Timestamp.intOf m.body Proto.Timestamp.nanosField)
    | none => .error (.wrapped "cannot decode proto binary" (.format .proto))
  | _ => .error .invalidProtoMessage

end Payload

end Messaging
