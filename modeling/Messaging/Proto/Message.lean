import Messaging.Bytes
import Messaging.Proto.Descriptor

/-!
# Protocol buffer messages

A message holds values by the numbers of its fields, and the wire form of fields that its type does
not have. A value without presence that equals its default counts as unset (`Field.shows`); for a
number this is the default of arithmetic, so that a negative zero is unset too.
-/

namespace Messaging.Proto

open Number

/-- A key of a map. -/
inductive Key where
  | bool (value : Bool)
  | int (value : Int)
  | string (value : String)
  deriving DecidableEq, Repr

/-- A value of a field. Integers are within the range of the field's type. -/
inductive Value where
  | bool (value : Bool)
  | int (value : Int)
  | float (value : Single)
  | double (value : Double)
  | string (value : String)
  | bytes (value : Bytes)
  | enum (value : Int)
  /-- Values by field number in ascending order, and what is unknown, by field number. -/
  | message (fields : List (Nat × Value)) (unknown : List (Nat × Bytes))
  | list (items : List Value)
  | map (entries : List (Key × Value))
  deriving Repr, Inhabited

/-- What a message holds. -/
structure Body where
  fields : List (Nat × Value) := []
  unknown : List (Nat × Bytes) := []
  deriving Repr, Inhabited

/-- A message with its type and the pool that the types of its fields are found in. -/
structure Message where
  pool : Pool
  type : MessageType
  body : Body := {}
  deriving Repr

/-- The entries in ascending order with the value of a number set. -/
def setNumber {α : Type} (number : Nat) (value : α) : List (Nat × α) → List (Nat × α)
  | [] => [(number, value)]
  | (n, v) :: rest =>
    if number < n then (number, value) :: (n, v) :: rest
    else if number = n then (number, value) :: rest
    else (n, v) :: setNumber number value rest

/-- The entries of a map with the value of a key set. -/
def setKey (key : Key) (value : Value) : List (Key × Value) → List (Key × Value)
  | [] => [(key, value)]
  | (k, v) :: rest => if k = key then (k, value) :: rest else (k, v) :: setKey key value rest

namespace Body

/-- The value of a field. -/
def get? (b : Body) (f : Field) : Option Value := b.fields.lookup f.number

/-- The body with the value of a field set, and other members of its oneof unset. -/
def set (t : MessageType) (b : Body) (f : Field) (value : Value) : Body :=
  let rivals := (t.fields.filter fun g =>
    f.oneof.isSome && g.oneof = f.oneof && g.number ≠ f.number).map (·.number)
  { b with fields := setNumber f.number value (b.fields.filter fun e => !rivals.contains e.1) }

/-- The body with the wire form of an unknown field added behind those of its number. -/
def addUnknown (b : Body) (number : Nat) (raw : Bytes) : Body :=
  { b with unknown := setNumber number ((b.unknown.lookup number).getD [] ++ raw) b.unknown }

end Body

/-- Is the number a zero of either sign? -/
def isZero (r : Reading) : Bool :=
  match r with
  | .finite _ 0 _ => true
  | _ => false

/-- The default of a scalar. -/
def Scalar.default : Scalar → Value
  | .double => .double (.zero false)
  | .float => .float (.zero false)
  | .bool => .bool false
  | .string => .string ""
  | .bytes => .bytes []
  | _ => .int 0

/-- The default of a type. -/
def FieldType.default (p : Pool) : FieldType → Value
  | .scalar s => s.default
  | .enum name => .enum (p.enum name).default
  | .message _ => .message [] []

/-- A declared default as a value of a type. -/
def Default.toValue (p : Pool) (type : FieldType) : Default → Value
  | .int i => match type with | .enum _ => .enum i | _ => .int i
  | .double x => match type with | .scalar .float => .float x.toSingle | _ => .double x
  | .bool b => .bool b
  | .text s =>
    match type with
    | .scalar .bytes => .bytes (Bytes.ofString s)
    | .enum name => .enum (((p.enum name).number? s).getD (p.enum name).default)
    | _ => .string s

/-- The value of a field that is unset. -/
def Field.defaultValue (p : Pool) (f : Field) : Value :=
  match f.cardinality with
  | .repeated => .list []
  | .map => .map []
  | .singular =>
    match f.default with
    | some d => d.toValue p f.type
    | none => f.type.default p

/-- Is the value the default of its type? -/
def Value.isDefault (p : Pool) (type : FieldType) : Value → Bool
  | .bool b => !b
  | .int i => i = 0
  | .float x => isZero x.reading
  | .double x => isZero x.reading
  | .string s => s = ""
  | .bytes b => b = []
  | .enum i => match type with | .enum name => i = (p.enum name).default | _ => i = 0
  | .message _ _ => false
  | .list items => items.isEmpty
  | .map entries => entries.isEmpty

/-- Does a field with the value count as set? -/
def Field.shows (p : Pool) (f : Field) (value : Value) : Bool :=
  f.presence || !value.isDefault p f.type

namespace Message

/-- The fields that count as set, with their values. -/
def shown (m : Message) : List (Field × Value) :=
  m.body.fields.filterMap fun (number, value) =>
    match m.type.byNumber? number with
    | some f => if f.shows m.pool value then some (f, value) else none
    | none => none

end Message

end Messaging.Proto
