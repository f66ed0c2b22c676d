import Messaging.Number.Shortest

/-!
# Kinds of schema and encodings

A schema is an Avro or a protocol buffer schema, and the messages of a topic that has one are
encoded in binary or in JSON. A broker may also send a number that stands for neither.
-/

namespace Messaging

/-- The text of an integer. -/
def integerText (i : Int) : String :=
  String.ofList ((if i < 0 then ['-'] else []) ++ Number.digitsOf i.natAbs)

/-- The kind of a schema. -/
inductive SchemaKind where
  | unspecified
  | avro
  | protocolBuffer
  | unrecognized (code : Int)
  deriving DecidableEq, Repr, Inhabited

namespace SchemaKind

/-- The word for a kind that has one. -/
def word? : SchemaKind → Option String
  | unspecified => some "unspecified"
  | avro => some "avro"
  | protocolBuffer => some "protocol-buffer"
  | unrecognized _ => none

/-- The text of a kind. -/
def text : SchemaKind → String
  | unrecognized code => "unrecognized(" ++ integerText code ++ ")"
  | kind => kind.word?.getD ""

/-- The kind of a word. -/
def ofWord? (word : String) : Option SchemaKind :=
  [unspecified, avro, protocolBuffer].find? fun kind => kind.word? = some word

end SchemaKind

/-- The encoding of the messages of a topic. -/
inductive Encoding where
  | unspecified
  | binary
  | json
  | unrecognized (code : Int)
  deriving DecidableEq, Repr, Inhabited

namespace Encoding

/-- The word for an encoding that has one. -/
def word? : Encoding → Option String
  | unspecified => some "unspecified"
  | binary => some "binary"
  | json => some "json"
  | unrecognized _ => none

/-- The text of an encoding. -/
def text : Encoding → String
  | unrecognized code => "unrecognized(" ++ integerText code ++ ")"
  | encoding => encoding.word?.getD ""

/-- The encoding of a word. -/
def ofWord? (word : String) : Option Encoding :=
  [unspecified, binary, json].find? fun encoding => encoding.word? = some word

end Encoding

end Messaging
