import Messaging.Json.Basic

/-!
# Avro schemas

A schema describes the shape of a value. Records, enumerations and fixed-size bytes are named, and a
name may stand for its type elsewhere in the schema, so a recursive type is finite data:
`Schema.ref` holds the name and `Names` the types. Logical types are kinds of their own.
-/

namespace Messaging.Avro

/-- The name of a type: identifiers separated by dots, the space it is in (empty for none), and an
identifier. -/
structure Name where
  space : String
  base : String
  deriving DecidableEq, Repr, Inhabited

namespace Name

/-- The name with the space it is in. -/
def full (n : Name) : String := if n.space = "" then n.base else n.space ++ "." ++ n.base

/-- The name seen from a space, which a name without one of its own belongs to. -/
def within (n : Name) (space : String) : Name := if n.space = "" then ⟨space, n.base⟩ else n

end Name

/-- What an integer of 32 bits may count. -/
inductive IntMeaning where
  | date
  | timeMillis
  deriving DecidableEq, Repr

/-- What an integer of 64 bits may count. -/
inductive LongMeaning where
  | timeMicros
  | timestampMillis
  | timestampMicros
  | timestampNanos
  | localTimestampMillis
  | localTimestampMicros
  | localTimestampNanos
  deriving DecidableEq, Repr

/-- What the bytes of a decimal number are kept in. -/
inductive DecimalBase where
  | bytes
  | fixed (name : Name) (size : Nat)
  deriving DecidableEq, Repr

/-- What a field of a record has besides its schema. -/
structure Field where
  name : String
  aliases : List String := []
  /-- The value of the field in a record that lacks it. -/
  default : Option Json := none
  deriving Repr

/-- A schema. -/
inductive Schema where
  | null
  | boolean
  | int
  | long
  | float
  | double
  | bytes
  | string
  | array (items : Schema)
  | map (values : Schema)
  | union (branches : List Schema)
  | record (name : Name) (fields : List (Field × Schema))
  | enum (name : Name) (symbols : List String) (default : Option String)
  | fixed (name : Name) (size : Nat)
  | decimal (base : DecimalBase)
  | bigDecimal
  | uuid
  | intAs (meaning : IntMeaning)
  | longAs (meaning : LongMeaning)
  | duration
  | ref (name : Name)
  deriving Repr, Inhabited

/-- The types that a schema declares, by their full names. -/
abbrev Names := Table Schema

namespace Schema

/-- The name of a type that has one. -/
def name? : Schema → Option Name
  | record name _ => some name
  | enum name _ _ => some name
  | fixed name _ => some name
  | ref name => some name
  | _ => none

/-- The kind of a schema, as errors name it. -/
def kind : Schema → String
  | null => "Null"
  | boolean => "Boolean"
  | int => "Int"
  | long => "Long"
  | float => "Float"
  | double => "Double"
  | bytes => "Bytes"
  | string => "String"
  | array _ => "Array"
  | map _ => "Map"
  | union _ => "Union"
  | record _ _ => "Record"
  | enum _ _ _ => "Enum"
  | fixed _ _ => "Fixed"
  | decimal _ => "Decimal"
  | bigDecimal => "BigDecimal"
  | uuid => "Uuid"
  | intAs .date => "Date"
  | intAs .timeMillis => "TimeMillis"
  | longAs .timeMicros => "TimeMicros"
  | longAs .timestampMillis => "TimestampMillis"
  | longAs .timestampMicros => "TimestampMicros"
  | longAs .timestampNanos => "TimestampNanos"
  | longAs .localTimestampMillis => "LocalTimestampMillis"
  | longAs .localTimestampMicros => "LocalTimestampMicros"
  | longAs .localTimestampNanos => "LocalTimestampNanos"
  | duration => "Duration"
  | ref _ => "Ref"

/-- May a union have several branches of this kind? Named types are told apart by their names. -/
def isNamed (s : Schema) : Bool := s.name?.isSome

/-- The key of a branch in the JSON encoding of a union: the name of a named type, else the type the
value is kept in. -/
def branchName : Schema → String
  | null => "null"
  | boolean => "boolean"
  | int => "int"
  | long => "long"
  | float => "float"
  | double => "double"
  | bytes => "bytes"
  | string => "string"
  | array _ => "array"
  | map _ => "map"
  | union _ => "union"
  | record name _ => name.full
  | enum name _ _ => name.full
  | fixed name _ => name.full
  | decimal .bytes => "bytes"
  | decimal (.fixed name _) => name.full
  | bigDecimal => "bytes"
  | uuid => "string"
  | intAs _ => "int"
  | longAs _ => "long"
  | duration => "duration"
  | ref name => name.full

/-- The schema that a name stands for; any other schema is itself. -/
def resolve (names : Names) : Schema → Option Schema
  | ref name => names.find? name.full
  | s => some s

mutual

/-- The number of schemas in a schema, itself included. -/
def size : Schema → Nat
  | array items => items.size + 1
  | map values => values.size + 1
  | union branches => sizes branches + 1
  | record _ fields => fieldSizes fields + 1
  | _ => 1

/-- The number of schemas in a list of them. -/
def sizes : List Schema → Nat
  | [] => 0
  | s :: rest => s.size + sizes rest

/-- The number of schemas in a list of fields. -/
def fieldSizes : List (Field × Schema) → Nat
  | [] => 0
  | (_, s) :: rest => s.size + fieldSizes rest

end

mutual

/-- The defaults in a schema. -/
def defaults : Schema → List Json
  | array items => items.defaults
  | map values => values.defaults
  | union branches => branchDefaults branches
  | record _ fields => fieldDefaults fields
  | _ => []

/-- The defaults in a list of schemas. -/
def branchDefaults : List Schema → List Json
  | [] => []
  | s :: rest => s.defaults ++ branchDefaults rest

/-- The defaults in a list of fields. -/
def fieldDefaults : List (Field × Schema) → List Json
  | [] => []
  | (f, s) :: rest => f.default.toList ++ s.defaults ++ fieldDefaults rest

end

end Schema

/-- Why a schema cannot be used. -/
inductive Fault where
  /-- The definition or the data is not valid. -/
  | invalid
  /-- The call does not return. -/
  | aborted
  deriving DecidableEq, Repr

namespace Names

/-- Enters a type under its name, which has to be new. -/
def declare (names : Names) (name : Name) (s : Schema) : Except Fault Names :=
  if names.contains name.full then .error .invalid else .ok (names.insert name.full s)

mutual

/-- Collects the types that a schema declares, in a space. A name that is referred to has to be
declared before, and none may be declared twice. -/
def collect (space : String) (names : Names) : Schema → Except Fault Names
  | .array items => collect space names items
  | .map values => collect space names values
  | .union branches => collectAll space names branches
  | .record name fields =>
    (names.declare (name.within space) (.record name fields)).bind fun names =>
      collectFields (name.within space).space names fields
  | .enum name symbols default => names.declare (name.within space) (.enum name symbols default)
  | .fixed name size => names.declare (name.within space) (.fixed name size)
  | .ref name => if names.contains (name.within space).full then .ok names else .error .invalid
  | _ => .ok names

/-- Collects the types of a list of schemas. -/
def collectAll (space : String) (names : Names) : List Schema → Except Fault Names
  | [] => .ok names
  | s :: rest => (collect space names s).bind fun names => collectAll space names rest

/-- Collects the types of a list of fields. -/
def collectFields (space : String) (names : Names) : List (Field × Schema) → Except Fault Names
  | [] => .ok names
  | (_, s) :: rest => (collect space names s).bind fun names => collectFields space names rest

end

/-- The types that a whole schema declares. -/
def ofSchema (s : Schema) : Except Fault Names := collect "" [] s

end Names

end Messaging.Avro
