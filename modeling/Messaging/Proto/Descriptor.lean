import Messaging.Number.Binary
import Messaging.Table

/-!
# Descriptors of protocol buffer messages

A pool holds message and enumeration types by their full names. A field has a number on the wire and
two names, one of them for JSON. A field without presence cannot tell its default from being unset;
a member of a oneof unsets the other members.
-/

namespace Messaging.Proto

/-- The types of a field that are neither messages nor enumerations. -/
inductive Scalar where
  | double
  | float
  | int32
  | int64
  | uint32
  | uint64
  | sint32
  | sint64
  | fixed32
  | fixed64
  | sfixed32
  | sfixed64
  | bool
  | string
  | bytes
  deriving DecidableEq, Repr

/-- The type of a field; messages and enumerations are referred to by their full names. -/
inductive FieldType where
  | scalar (s : Scalar)
  | enum (name : String)
  | message (name : String)
  deriving DecidableEq, Repr

/-- How often a field may occur. -/
inductive Cardinality where
  | singular
  | repeated
  | map
  deriving DecidableEq, Repr

/-- A declared default. -/
inductive Default where
  | int (value : Int)
  | double (value : Number.Double)
  | bool (value : Bool)
  | text (value : String)
  deriving DecidableEq, Repr

/-- A field of a message. -/
structure Field where
  name : String
  jsonName : String
  number : Nat
  type : FieldType
  cardinality : Cardinality
  /-- The place of the field's oneof in the message. -/
  oneof : Option Nat := none
  /-- Is the default of the field different from its being unset? -/
  presence : Bool
  /-- Are repeated numbers written in one piece? -/
  packed : Bool
  default : Option Default := none
  deriving DecidableEq, Repr

/-- A message type. Its fields are in ascending order of their numbers. -/
structure MessageType where
  name : String
  fields : List Field
  deriving DecidableEq, Repr

/-- An enumeration type. -/
structure EnumType where
  values : List (String × Int)
  deriving DecidableEq, Repr

/-- Types by their full names. -/
structure Pool where
  messages : Table MessageType := []
  enums : Table EnumType := []
  deriving DecidableEq, Repr

namespace MessageType

/-- The field with a number. -/
def byNumber? (t : MessageType) (number : Nat) : Option Field :=
  t.fields.find? (·.number = number)

/-- The field with a name, preferably its name in JSON. -/
def byName? (t : MessageType) (name : String) : Option Field :=
  t.fields.find? (·.jsonName = name) <|> t.fields.find? (·.name = name)

end MessageType

namespace EnumType

/-- The number of a name. -/
def number? (t : EnumType) (name : String) : Option Int := t.values.lookup name

/-- The first name of a number. -/
def name? (t : EnumType) (number : Int) : Option String :=
  (t.values.find? fun v => v.2 = number).map Prod.fst

/-- The number that stands for an unset field. -/
def default (t : EnumType) : Int := (t.values.head?.map Prod.snd).getD 0

end EnumType

namespace Pool

/-- The message type with a name; an unknown one has no fields. -/
def message (p : Pool) (name : String) : MessageType :=
  (p.messages.find? name).getD { name := name, fields := [] }

/-- The enumeration type with a name; an unknown one has no values. -/
def enum (p : Pool) (name : String) : EnumType := (p.enums.find? name).getD { values := [] }

/-- The type of the messages that a field holds. -/
def messageOf (p : Pool) : FieldType → MessageType
  | .message name => p.message name
  | _ => { name := "", fields := [] }

/-- The fields of the key and of the value of a map. -/
def entryFields? (p : Pool) : FieldType → Option (Field × Field)
  | .message name => do
    let t := p.message name
    let key ← t.byNumber? 1
    let value ← t.byNumber? 2
    some (key, value)
  | _ => none

end Pool

end Messaging.Proto
