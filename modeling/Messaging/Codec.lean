import Messaging.Avro.Binary
import Messaging.Avro.Definition
import Messaging.Payload
import Messaging.SchemaKind

/-!
# Codecs

A codec turns payloads into the data of messages and back. The kind of schema and the encoding
choose it (`Codec.create`); without a schema data goes out as it is and cannot be decoded. Decoding
takes a target, the payload to be replaced, which tells the codecs of protocol buffers the type of
the message; the other codecs do not look at it.
-/

namespace Messaging

/-- A codec. Those for Avro keep the schema and the types that it declares. -/
inductive Codec where
  | raw
  | avroBinary (schema : Avro.Schema) (names : Avro.Names)
  | avroJson (schema : Avro.Schema) (names : Avro.Names)
  | protoBinary
  | protoJson

namespace Codec

/-- The name of a codec. -/
def name : Codec → String
  | raw => "raw"
  | avroBinary _ _ => "avro-binary"
  | avroJson _ _ => "avro-json"
  | protoBinary => "proto-binary"
  | protoJson => "proto-json"

/-- A fault of Avro in a step. -/
def ofFault (context : String) : Avro.Fault → CodecError
  | .invalid => .wrapped context (.format .avro)
  | .aborted => .aborted

/-- A failed conversion in a step. -/
def ofConvertFault (context : String) : Avro.ConvertFault → CodecError
  | .mismatch m => .wrapped context (.mismatch m)
  | .unbounded => .aborted

/-- Reads an Avro schema. -/
def defineAvro (definition : String) : Except CodecError (Avro.Schema × Avro.Names) :=
  (Avro.Schema.define definition).mapError (ofFault "cannot parse avro schema")

/-- The codec for a kind of schema, an encoding and a definition. -/
def create (kind : SchemaKind) (encoding : Encoding) (definition : String) :
    Except CodecError Codec :=
  match kind, encoding with
  | .unspecified, _ => .ok raw
  | .avro, .binary => (defineAvro definition).map fun (s, names) => avroBinary s names
  | .avro, .json => (defineAvro definition).map fun (s, names) => avroJson s names
  | .avro, _ => .error .invalidAvroEncoding
  | .protocolBuffer, .binary => .ok protoBinary
  | .protocolBuffer, .json => .ok protoJson
  | .protocolBuffer, _ => .error .invalidProtoEncoding
  | .unrecognized _, _ => .error .invalidSchemaType

/-! ### Encoding -/

/-- The JSON text of a message as data, in a step. -/
def encodeProtoJson (context : String) (m : Proto.Message) : Except CodecError Bytes :=
  match m.toMapped? with
  | some mapped => .ok (Bytes.ofString mapped.print)
  | none => .error (.wrapped context (.format .json))

/-- A payload as data without a schema: bytes and text as they are, a record as its JSON text unless
it is a text itself. -/
def encodeRaw : Payload → Except CodecError Bytes
  | .bytes data => .ok data
  | .text text => .ok (Bytes.ofString text)
  | .record (.string text) => .ok (Bytes.ofString text)
  | .record value => .ok (Bytes.ofString value.print)
  | .proto message => encodeProtoJson "cannot stringify proto message" message

/-- A record in the binary encoding of Avro, with the entries of maps in an order. -/
def encodeAvroBinary (order : Avro.Arrangement) (schema : Avro.Schema) (names : Avro.Names) :
    Payload → Except CodecError Bytes
  | .record value =>
    ((Avro.Value.ofJson names .generic schema value).mapError
      (ofConvertFault "cannot encode avro binary")).bind fun v =>
        ((order.arrange v).encode names schema).mapError (ofFault "cannot encode avro binary")
  | _ => .error (.wrapped "cannot encode avro binary" (.text "payload is not a record"))

/-- A structured payload in the JSON encoding of Avro. -/
def encodeAvroJson (schema : Avro.Schema) (names : Avro.Names) (p : Payload) :
    Except CodecError Bytes :=
  (p.toJson "cannot convert record into map").bind fun value =>
    ((Avro.Value.ofJson names .generic schema value).mapError
      (ofConvertFault "cannot encode avro json")).map fun v =>
        Bytes.ofString (v.toAvroJson names schema).print

/-- The message that a payload is. -/
def messageOf : Payload → Except CodecError Proto.Message
  | .proto message => .ok message
  | _ => .error .invalidProtoMessage

/-- The data of a payload, where the encoding leaves the order of the entries of maps open in a
given one. -/
def encodeIn (order : Avro.Arrangement) : Codec → Payload → Except CodecError Bytes
  | raw, p => encodeRaw p
  | avroBinary schema names, p => encodeAvroBinary order schema names p
  | avroJson schema names, p => encodeAvroJson schema names p
  | protoBinary, p => (messageOf p).map Proto.Message.encode
  | protoJson, p => (messageOf p).bind (encodeProtoJson "cannot encode proto json")

/-- The data of a payload, with the entries of maps in the order of their keys. -/
def encode : Codec → Payload → Except CodecError Bytes := encodeIn .given

/-! ### Decoding -/

/-- The record of data in the binary encoding of Avro. -/
def decodeAvroBinary (schema : Avro.Schema) (names : Avro.Names) (data : Bytes) :
    Except CodecError Json :=
  ((Avro.Value.decode names schema data).map Avro.Value.toJson).mapError
    (ofFault "cannot decode avro binary")

/-- The record of data in the JSON encoding of Avro. -/
def decodeAvroJson (schema : Avro.Schema) (names : Avro.Names) (data : Bytes) :
    Except CodecError Json :=
  match Json.parseBytes? data with
  | none => .error (.wrapped "cannot decode avro json" (.format .json))
  | some json => ((Avro.Value.ofJson names .encoded schema json).map Avro.Value.toJson).mapError
      (ofConvertFault "cannot decode avro json")

/-- The message of data in the wire format, of the target's type. -/
def decodeProtoBinary (target : Proto.Message) (data : Bytes) : Except CodecError Proto.Message :=
  match Proto.Message.decode? target.pool target.type data with
  | some m => .ok m
  | none => .error (.wrapped "cannot decode proto binary" (.format .proto))

/-- The message of data in JSON, of the target's type. -/
def decodeProtoJson (target : Proto.Message) (data : Bytes) : Except CodecError Proto.Message :=
  match ((Bytes.toString? data).bind Json.Document.read?).bind
      (Proto.Message.ofDocument? target.pool target.type) with
  | some m => .ok m
  | none => .error (.wrapped "cannot decode proto json" (.format .json))

/-- The payload of data. After an error the target stays as it was. -/
def decode : Codec → Payload → Bytes → Except CodecError Payload
  | raw, _, _ => .error .noSchema
  | avroBinary schema names, _, data => (decodeAvroBinary schema names data).map .record
  | avroJson schema names, _, data => (decodeAvroJson schema names data).map .record
  | protoBinary, target, data =>
    (messageOf target).bind fun m => (decodeProtoBinary m data).map .proto
  | protoJson, target, data =>
    (messageOf target).bind fun m => (decodeProtoJson m data).map .proto

/-- The record of data by a reader of JSON values. -/
def decodeRecord {α : Type} (read : Json → Option α) (c : Codec) (data : Bytes) :
    Except CodecError α :=
  (c.decode (.record .null) data).bind fun p => p.intoRecord read

/-- The message of data, of the target's type. -/
def decodeMessage (target : Proto.Message) (c : Codec) (data : Bytes) :
    Except CodecError Proto.Message :=
  (c.decode (.proto target) data).bind messageOf

end Codec

end Messaging
