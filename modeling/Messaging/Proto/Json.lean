import Messaging.Json.Document
import Messaging.Json.Printer
import Messaging.Number.Decimal
import Messaging.Proto.Timestamp
import Messaging.Text.Base64

/-!
# The JSON mapping of protocol buffers

`Message.toMapped?` is the JSON form of a message, with its fields in the order of their numbers and
numbers of 32 bits kept apart, so that it can be printed as it is (`Mapped.print`) or turned into a
value (`Mapped.toJson`). Integers of 64 bits are texts, bytes are base 64, enumerations go by name.
`Message.ofDocument?` reads the JSON form of a message of a type.
-/

namespace Messaging.Proto

open Number

/-- A JSON form with its entries in order. -/
inductive Mapped where
  | leaf (value : Json)
  | single (value : Single)
  | array (items : List Mapped)
  | object (entries : List (String × Mapped))
  deriving Repr, Inhabited

namespace Mapped

mutual

/-- The JSON value. -/
def toJson : Mapped → Json
  | leaf j => j
  | single x => .ofSingle x
  | array items => .array (itemsToJson items)
  | object entries => .ofEntries (entriesToJson entries)

/-- The JSON values of a list. -/
def itemsToJson : List Mapped → List Json
  | [] => []
  | a :: rest => a.toJson :: itemsToJson rest

/-- The JSON values of a list of entries. -/
def entriesToJson : List (String × Mapped) → List (String × Json)
  | [] => []
  | (k, a) :: rest => (k, a.toJson) :: entriesToJson rest

end

mutual

/-- The JSON text. -/
def print : Mapped → String
  | leaf j => j.print
  | single x => Json.printSingle x
  | array items => "[" ++ printItems items ++ "]"
  | object entries => "\x7b" ++ printEntries entries ++ "\x7d"

/-- The items of an array, separated by commas. -/
def printItems : List Mapped → String
  | [] => ""
  | [a] => a.print
  | a :: rest => a.print ++ "," ++ printItems rest

/-- The entries of an object, separated by commas. -/
def printEntries : List (String × Mapped) → String
  | [] => ""
  | [(k, a)] => Json.quote k ++ ":" ++ a.print
  | (k, a) :: rest => Json.quote k ++ ":" ++ a.print ++ "," ++ printEntries rest

end

end Mapped

/-! ### Writing -/

/-- The name of a number that is not finite. -/
def nonFiniteName? : Reading → Option String
  | .nan => some "NaN"
  | .infinite false => some "Infinity"
  | .infinite true => some "-Infinity"
  | .finite _ _ _ => none

/-- Are integers of the type written as text? -/
def Scalar.isWide : Scalar → Bool
  | .int64 | .uint64 | .sint64 | .fixed64 | .sfixed64 => true
  | _ => false

/-- The text of a key of a map. -/
def Key.text : Key → String
  | .bool b => if b then "true" else "false"
  | .int i => Json.printInt i
  | .string s => s

/-- The JSON form of a value without parts. -/
def Value.leafMapped (p : Pool) (type : FieldType) : Value → Mapped
  | .bool b => .leaf (.bool b)
  | .int i =>
    match type with
    | .scalar s => .leaf (if s.isWide then .string (Json.printInt i) else .int i)
    | _ => .leaf (.int i)
  | .float x =>
    match nonFiniteName? x.reading with
    | some name => .leaf (.string name)
    | none => .single x
  | .double x =>
    match nonFiniteName? x.reading with
    | some name => .leaf (.string name)
    | none => .leaf (.ofDouble x)
  | .string s => .leaf (.string s)
  | .bytes b => .leaf (.string (Text.Base64.encode b))
  | .enum i =>
    match type with
    | .enum name => .leaf (((p.enum name).name? i).elim (.int i) .string)
    | _ => .leaf (.int i)
  | _ => .leaf .null

mutual

/-- The JSON form of one item of a type; `none` for a point in time that has no text. -/
def Value.toMapped? (p : Pool) (type : FieldType) : Value → Option Mapped
  | .message fields unknown =>
    if (p.messageOf type).name = Timestamp.typeName then
      (Timestamp.text? ⟨fields, unknown⟩).map fun s => .leaf (.string s)
    else (fieldsToMapped? p (p.messageOf type) fields).map .object
  | v => some (v.leafMapped p type)

/-- The JSON forms of the items of a list. -/
def itemsToMapped? (p : Pool) (type : FieldType) : List Value → Option (List Mapped)
  | [] => some []
  | v :: rest => do
    let a ← v.toMapped? p type
    let as ← itemsToMapped? p type rest
    some (a :: as)

/-- The JSON forms of the entries of a map. -/
def entriesToMapped? (p : Pool) (type : FieldType) :
    List (Key × Value) → Option (List (String × Mapped))
  | [] => some []
  | (k, v) :: rest => do
    let a ← v.toMapped? p type
    let as ← entriesToMapped? p type rest
    some ((k.text, a) :: as)

/-- The JSON form of the value of a field. -/
def fieldToMapped? (p : Pool) (f : Field) : Value → Option Mapped
  | .list items => (itemsToMapped? p f.type items).map .array
  | .map entries =>
    match p.entryFields? f.type with
    | some (_, value) => (entriesToMapped? p value.type entries).map .object
    | none => none
  | .message fields unknown =>
    if (p.messageOf f.type).name = Timestamp.typeName then
      (Timestamp.text? ⟨fields, unknown⟩).map fun s => .leaf (.string s)
    else (fieldsToMapped? p (p.messageOf f.type) fields).map .object
  | v => some (v.leafMapped p f.type)

/-- The JSON forms of the fields that count as set. -/
def fieldsToMapped? (p : Pool) (t : MessageType) :
    List (Nat × Value) → Option (List (String × Mapped))
  | [] => some []
  | (number, v) :: rest =>
    match t.byNumber? number with
    | some f =>
      if f.shows p v then do
        let a ← fieldToMapped? p f v
        let as ← fieldsToMapped? p t rest
        some ((f.jsonName, a) :: as)
      else fieldsToMapped? p t rest
    | none => fieldsToMapped? p t rest

end

/-- The JSON form of a message; `none` for a point in time that has no text. -/
def Message.toMapped? (m : Message) : Option Mapped :=
  if m.type.name = Timestamp.typeName then
    (Timestamp.text? m.body).map fun s => .leaf (.string s)
  else (fieldsToMapped? m.pool m.type m.body.fields).map .object

/-! ### Reading -/

/-- An integer from a decimal text with an optional sign; a minus only where `negative` allows. -/
def integerOfText? (negative : Bool) (s : String) : Option Int :=
  let digits (cs : List Char) : Option Nat :=
    if cs ≠ [] ∧ cs.all Char.isDigit then some (Json.Document.digitsValue cs) else none
  match s.toList with
  | '+' :: cs => (digits cs).map fun n => (n : Int)
  | '-' :: cs => if negative then (digits cs).map fun n => -(n : Int) else none
  | cs => (digits cs).map fun n => (n : Int)

/-- The least and the greatest integer of a type. -/
def Scalar.range : Scalar → Int × Int
  | .int32 | .sint32 | .sfixed32 => (-0x80000000, 0x7fffffff)
  | .int64 | .sint64 | .sfixed64 => (-0x8000000000000000, 0x7fffffffffffffff)
  | .uint32 | .fixed32 => (0, 0xffffffff)
  | _ => (0, 0xffffffffffffffff)

/-- The integer of a range that a whole floating-point number is. One that the greatest integer is
rounded to counts as the greatest. -/
def integerOfDouble? (high : Int) (x : Double) : Option Int :=
  x.toInt?.map fun i => if (Double.ofInt high).toInt? = some i then high else i

/-- An integer of a type. -/
def Scalar.integer? (s : Scalar) (d : Json.Document) : Option Value := do
  let (low, high) := s.range
  let i ← match d with
    | .number (some (.int i)) => some i
    | .number (some (.float x)) => integerOfDouble? high x
    | .string (some text) => integerOfText? (low < 0) text
    | _ => none
  if low ≤ i ∧ i ≤ high then some (.int i) else none

/-- The largest finite number of 32 bits, with 64. -/
def maxSingle : Double := Double.round false (Format.valueOf 0xffffff 104)

/-- A number of 32 bits from one of 64 that lies in its range. -/
def singleInRange? (x : Double) : Option Single :=
  if x.bits % 0x8000000000000000 ≤ maxSingle.bits then some x.toSingle else none

/-- A value of a scalar type. -/
def Scalar.ofDocument? (s : Scalar) (d : Json.Document) : Option Value :=
  match s with
  | .double =>
    match d with
    | .number (some n) => some (.double n.toDouble)
    | .string (some text) => (parseDouble? text).map .double
    | _ => none
  | .float =>
    match d with
    | .number (some (.int i)) => some (.float (Single.ofInt i))
    | .number (some (.float x)) => (singleInRange? x).map .float
    | .string (some text) => (parseSingle? text).map .float
    | _ => none
  | .bool => match d with | .bool b => some (.bool b) | _ => none
  | .string => match d with | .string (some text) => some (.string text) | _ => none
  | .bytes =>
    match d with
    | .string (some text) => (Text.Base64.decode? text).map .bytes
    | _ => none
  | s => s.integer? d

/-- A number of an enumeration by its name or as a number of 32 bits. -/
def EnumType.ofDocument? (t : EnumType) : Json.Document → Option Value
  | .string (some name) => (t.number? name).map .enum
  | .number (some (.int i)) => if -0x80000000 ≤ i ∧ i < 0x80000000 then some (.enum i) else none
  | _ => none

/-- A key of a map from its text. -/
def Key.ofText? (type : FieldType) (text : String) : Option Key :=
  match type with
  | .scalar .string => some (.string text)
  | .scalar .bool =>
    if text = "true" then some (.bool true)
    else if text = "false" then some (.bool false)
    else none
  | .scalar s => do
    let (low, high) := s.range
    let i ← integerOfText? (low < 0) text
    if low ≤ i ∧ i ≤ high then some (.int i) else none
  | _ => none

/-- Is another member of the field's oneof, or the field itself in a oneof, set? -/
def oneofTaken (t : MessageType) (b : Body) (f : Field) : Bool :=
  f.oneof.isSome && t.fields.any fun g => g.oneof = f.oneof && (b.get? g).isSome

/-- The body after an entry of the JSON form. `null` leaves a message as it is and sets any other
field to its default. -/
def enterField (p : Pool) (t : MessageType) (read : Field → Json.Document → Option Value)
    (b : Body) (entry : Option String × Json.Document) : Option Body := do
  let name ← entry.1
  let f ← t.byName? name
  let value ← match entry.2, f.type with
    | .null, .message _ => some none
    | .null, _ => some (some (f.defaultValue p))
    | d, _ => (read f d).map some
  match value with
  | none => some b
  | some v => if oneofTaken t b f then none else some (b.set t f v)

/-- One item of a type in at most `fuel` steps in a row, with at most `depth` levels. -/
def itemOfDocument? (p : Pool) : Nat → Nat → FieldType → Json.Document → Option Value
  | 0, _, _, _ => none
  | fuel + 1, depth, type, d =>
    match type with
    | .scalar s => s.ofDocument? d
    | .enum name => (p.enum name).ofDocument? d
    | .message name =>
      if name = Timestamp.typeName then
        match d with
        | .string (some text) => (Timestamp.ofString? text).map fun (seconds, nanos) =>
            let b := Timestamp.body seconds nanos
            .message b.fields b.unknown
        | _ => none
      else
        match depth, d with
        | depth + 1, .object entries =>
          let read (f : Field) (d : Json.Document) : Option Value :=
            match f.cardinality, depth, d with
            | .singular, depth, d => itemOfDocument? p fuel depth f.type d
            | .repeated, depth + 1, .array items =>
              (items.mapM (itemOfDocument? p fuel depth f.type)).map .list
            | .map, depth + 1, .object entries => do
              let (key, value) ← p.entryFields? f.type
              let step (acc : List (Key × Value)) (e : Option String × Json.Document) :
                  Option (List (Key × Value)) := do
                let text ← e.1
                let k ← Key.ofText? key.type text
                let v ← itemOfDocument? p fuel depth value.type e.2
                some (setKey k v acc)
              (entries.foldlM step []).map .map
            | _, _, _ => none
          (entries.foldlM (enterField p (p.message name) read) {}).map fun b =>
            .message b.fields b.unknown
        | _, _ => none

/-- Reads the JSON form of a message of a type. -/
def Message.ofDocument? (p : Pool) (t : MessageType) (d : Json.Document) : Option Message :=
  let depth := Json.Document.maxDepth
  match itemOfDocument? p (depth + 2) depth (.message t.name) d with
  | some (.message fields unknown) => some ⟨p, t, ⟨fields, unknown⟩⟩
  | _ => none

end Messaging.Proto
