import Messaging.Avro.Schema
import Messaging.Text.Uuid

/-!
# Defaults of fields

A default has to be a value of its field before the schema is accepted. The check is more lenient
than a conversion: an integer passes for any width, bytes of fixed size have any length, and a
field that a record lacks is filled in from its own default. Decimal numbers and durations have no
defaults.
-/

namespace Messaging.Avro

open Number

namespace Schema

/-- The kind of schema that a value has by itself. -/
def kindOfJson : Json → String
  | .null => "Null"
  | .bool _ => "Boolean"
  | .number (.int i) => if -0x80000000 ≤ i ∧ i < 0x80000000 then "Int" else "Long"
  | .number (.float _) => "Double"
  | .string _ => "String"
  | .array _ => "Array"
  | .object _ => "Map"

/-- Is the text a symbol, or is there a symbol to stand for unknown ones? -/
def acceptsSymbol (symbols : List String) (default : Option String) (s : String) : Bool :=
  symbols.contains s || default.any symbols.contains

/-- Is the value an integer? -/
def isInteger : Json → Bool
  | .number (.int _) => true
  | _ => false

/-- Is the value an integer of 32 bits? -/
def isSmallInteger (j : Json) : Bool := kindOfJson j = "Int"

/-- Is the value an integer of 32 bits, as an integer of 64 bits with a sign? -/
def wrapsToSmall : Json → Bool
  | .number (.int i) => isSmallInteger (.int (Int.bmod i 0x10000000000000000))
  | _ => false

/-- The schema and the value that stand for a field which a record lacks: a union is its first
branch there, and one that starts with `null` is `null`. -/
def standIn (schema : Schema) (default : Json) : Schema × Json :=
  match schema with
  | .union (.null :: _) => (.null, .null)
  | .union (first :: _) => (first, default)
  | s => (s, default)

/-- Is the value an integer that fits a byte? -/
def isByte : Json → Bool
  | .number n => n.toByte?.isSome
  | _ => false

/-- Can the value be read as a floating-point number? Those that JSON cannot spell have names. -/
def isFloating : Json → Bool
  | .number _ => true
  | .string s => ["NaN", "INF", "-INF", "Infinity", "-Infinity"].contains s
  | _ => false

/-- Is the value a default for the schema? `fuel` bounds the types, values and defaults passed
through. -/
def acceptsDefault (names : Names) : Nat → Schema → Json → Except Fault Bool
  | 0, _, _ => .error .aborted
  | fuel + 1, schema, json =>
    match schema, json with
    | .ref name, json =>
      match names.find? name.full with
      | some s => acceptsDefault names fuel s json
      | none => .ok false
    | .null, .null => .ok true
    | .boolean, .bool _ => .ok true
    | .int, json => .ok (wrapsToSmall json)
    | .long, json => .ok (isInteger json)
    | .float, json => .ok (isFloating json)
    | .double, json => .ok (isFloating json)
    | .bytes, .string _ => .ok true
    | .bytes, .array items => .ok (items.all isByte)
    | .string, .string _ => .ok true
    | .fixed _ _, .string _ => .ok true
    | .enum _ symbols default, .string s => .ok (acceptsSymbol symbols default s)
    | .uuid, .string s => .ok (Text.Uuid.ofString? s).isSome
    | .intAs _, json => .ok (isSmallInteger json)
    | .longAs _, json => .ok (isInteger json)
    | .array items, .array values => allM (acceptsDefault names fuel items) values
    | .map values, .object entries => allM (fun e => acceptsDefault names fuel values e.2) entries
    | .record _ fields, .object entries =>
      allM (fun (f, s) =>
        match entries.lookup f.name, f.default with
        | some value, _ => acceptsDefault names fuel s value
        | none, some default =>
          let (s, value) := standIn s default
          acceptsDefault names fuel s value
        | none, none => .ok false) fields
    | .union branches, json =>
      match branches.find? fun b => !b.isNamed && b.kind = kindOfJson json with
      | some branch => acceptsDefault names fuel branch json
      | none => anyM (fun b => acceptsDefault names fuel b json) branches
    | _, _ => .ok false
where
  /-- Do all items pass? -/
  allM {α : Type} (p : α → Except Fault Bool) : List α → Except Fault Bool
    | [] => .ok true
    | a :: rest => (p a).bind fun b => if b then allM p rest else .ok false
  /-- Does some item pass? -/
  anyM {α : Type} (p : α → Except Fault Bool) : List α → Except Fault Bool
    | [] => .ok false
    | a :: rest => (p a).bind fun b => if b then .ok true else anyM p rest

/-- Is the value a default for a field of the schema? For a union any branch may accept it. -/
def acceptsFieldDefault (names : Names) (fuel : Nat) (schema : Schema) (json : Json) :
    Except Fault Bool :=
  match schema with
  | .union branches => acceptsDefault.anyM (fun b => acceptsDefault names fuel b json) branches
  | s => acceptsDefault names fuel s json

end Schema

end Messaging.Avro
