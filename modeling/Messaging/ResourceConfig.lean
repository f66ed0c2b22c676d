import Messaging.Json.Fields
import Messaging.Json.Printer
import Messaging.SchemaKind

/-!
# Configurations of resources

What a broker keeps of a schema, a topic and a subscription. Each configuration has a JSON form; a
kind of schema or an encoding that has no word cannot be written.
-/

namespace Messaging

open Json

/-- The configuration of a schema. -/
structure SchemaConfig where
  name : String := ""
  kind : SchemaKind
  definition : String
  deriving DecidableEq, Repr

/-- The schema of a topic and the encoding of its messages. -/
structure SchemaSettings where
  schema : String
  encoding : Encoding
  deriving DecidableEq, Repr

/-- The configuration of a topic. -/
structure TopicConfig where
  name : String := ""
  labels : Table String := []
  schemaSettings : Option SchemaSettings := none
  deriving DecidableEq, Repr

/-- The configuration of a subscription; the deadline is in seconds. -/
structure SubscriptionConfig where
  name : String := ""
  topic : String
  ackDeadline : Nat := 10
  ordering : Bool := false
  labels : Table String := []
  deriving DecidableEq, Repr

/-- The value of a field that may be missing. -/
def optionalField {α : Type} (read : Document → Option α) (default : α) :
    Option Document → Option α
  | none => some default
  | some d => read d

/-- The value of a field that has to be there. -/
def requiredField {α : Type} (read : Document → Option α) (d : Option Document) : Option α :=
  d.bind read

/-- Labels as a JSON value. -/
def labelsToJson (labels : Table String) : Json :=
  .ofEntries (labels.map fun e => (e.1, .string e.2))

namespace SchemaKind

/-- The JSON form. -/
def toJson? (kind : SchemaKind) : Option Json := kind.word?.map .string

/-- Reads the JSON form. -/
def ofDocument? (d : Document) : Option SchemaKind := d.word?.bind ofWord?

end SchemaKind

namespace Encoding

/-- The JSON form. -/
def toJson? (encoding : Encoding) : Option Json := encoding.word?.map .string

/-- Reads the JSON form. -/
def ofDocument? (d : Document) : Option Encoding := d.word?.bind ofWord?

end Encoding

namespace SchemaConfig

/-- The JSON form. -/
def toJson? (c : SchemaConfig) : Option Json := do
  let kind ← c.kind.toJson?
  some (.ofEntries [("name", .string c.name), ("type", kind), ("definition", .string c.definition)])

/-- Reads the JSON form. -/
def ofDocument? (d : Document) : Option SchemaConfig := do
  match ← d.fields? ["name", "type", "definition"] with
  | [name, kind, definition] =>
    let name ← optionalField Document.text? "" name
    let kind ← requiredField SchemaKind.ofDocument? kind
    let definition ← requiredField Document.text? definition
    some { name, kind, definition }
  | _ => none

end SchemaConfig

namespace SchemaSettings

/-- The JSON form. -/
def toJson? (s : SchemaSettings) : Option Json := do
  let encoding ← s.encoding.toJson?
  some (.ofEntries [("schema", .string s.schema), ("encoding", encoding)])

/-- Reads the JSON form. -/
def ofDocument? (d : Document) : Option SchemaSettings := do
  match ← d.fields? ["schema", "encoding"] with
  | [schema, encoding] =>
    let schema ← requiredField Document.text? schema
    let encoding ← requiredField Encoding.ofDocument? encoding
    some { schema, encoding }
  | _ => none

end SchemaSettings

/-- Settings that may be absent, which is written as `null`. -/
def optionalSettings? : Document → Option (Option SchemaSettings)
  | .null => some none
  | d => (SchemaSettings.ofDocument? d).map some

namespace TopicConfig

/-- The configuration of a topic with a schema. -/
def withSchema (schema : String) (encoding : Encoding) : TopicConfig :=
  { schemaSettings := some ⟨schema, encoding⟩ }

/-- The JSON form. -/
def toJson? (c : TopicConfig) : Option Json := do
  let settings ← match c.schemaSettings with
    | none => some Json.null
    | some s => s.toJson?
  some (.ofEntries [("name", .string c.name), ("labels", labelsToJson c.labels),
    ("schema_settings", settings)])

/-- Reads the JSON form. -/
def ofDocument? (d : Document) : Option TopicConfig := do
  match ← d.fields? ["name", "labels", "schema_settings"] with
  | [name, labels, settings] =>
    let name ← optionalField Document.text? "" name
    let labels ← optionalField Document.texts? [] labels
    let schemaSettings ← optionalField optionalSettings? none settings
    some { name, labels, schemaSettings }
  | _ => none

end TopicConfig

namespace SubscriptionConfig

/-- The JSON form. -/
def toJson (c : SubscriptionConfig) : Json :=
  .ofEntries [("name", .string c.name), ("topic", .string c.topic),
    ("ack_deadline", .int c.ackDeadline), ("enable_message_ordering", .bool c.ordering),
    ("labels", labelsToJson c.labels)]

/-- Reads the JSON form. -/
def ofDocument? (d : Document) : Option SubscriptionConfig := do
  let names := ["name", "topic", "ack_deadline", "enable_message_ordering", "labels"]
  match ← d.fields? names with
  | [name, topic, ackDeadline, ordering, labels] =>
    let name ← optionalField Document.text? "" name
    let topic ← requiredField Document.text? topic
    let ackDeadline ← optionalField Document.natural? 10 ackDeadline
    let ordering ← optionalField Document.truth? false ordering
    let labels ← optionalField Document.texts? [] labels
    some { name, topic, ackDeadline, ordering, labels }
  | _ => none

end SubscriptionConfig

end Messaging
