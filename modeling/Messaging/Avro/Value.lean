import Messaging.Avro.Schema
import Messaging.Number.BigDecimal
import Messaging.Text.Uuid

/-!
# Avro values

A value has the shape of its schema. `Value.toJson` is the generic JSON form of a value, with bytes
as arrays of numbers and unions unwrapped; `Value.toAvroJson` is its JSON encoding, with bytes as
text and the branch of a union named. `Value.fits` checks a value against a schema before it is
written. The entries of a map have no order of their own: an `Arrangement` is one in which a writer
may come to them.
-/

namespace Messaging.Avro

open Number

/-- A value. Integers are within 32 or 64 bits, a union holds the index of its branch, and the
bytes of a decimal number are those it was made from. -/
inductive Value where
  | null
  | boolean (value : Bool)
  | int (value : Int)
  | long (value : Int)
  | float (value : Single)
  | double (value : Double)
  | bytes (value : Bytes)
  | string (value : String)
  | fixed (value : Bytes)
  | enum (index : Nat) (symbol : String)
  | union (index : Nat) (value : Value)
  | array (items : List Value)
  | map (entries : List (String × Value))
  | record (fields : List (String × Value))
  | intAs (meaning : IntMeaning) (value : Int)
  | longAs (meaning : LongMeaning) (value : Int)
  | decimal (value : Bytes)
  | bigDecimal (value : BigDecimal)
  | uuid (value : Bytes)
  | duration (value : Bytes)
  deriving Repr, Inhabited

namespace Value

mutual

/-- The generic JSON form. -/
def toJson : Value → Json
  | null => .null
  | boolean b => .bool b
  | int i => .int i
  | long i => .int i
  | float x => .ofSingle x
  | double x => .ofDouble x
  | bytes b => .ofBytes b
  | string s => .string s
  | fixed b => .ofBytes b
  | enum _ symbol => .string symbol
  | union _ value => value.toJson
  | array items => .array (itemsToJson items)
  | map entries => .ofEntries (entriesToJson entries)
  | record fields => .ofEntries (entriesToJson fields)
  | intAs _ i => .int i
  | longAs _ i => .int i
  | decimal b => .ofBytes b
  | bigDecimal d => .string d.text
  | uuid b => .string (Text.Uuid.text b)
  | duration b => .ofBytes b

/-- The generic JSON forms of a list of values. -/
def itemsToJson : List Value → List Json
  | [] => []
  | v :: rest => v.toJson :: itemsToJson rest

/-- The generic JSON forms of a list of entries. -/
def entriesToJson : List (String × Value) → List (String × Json)
  | [] => []
  | (k, v) :: rest => (k, v.toJson) :: entriesToJson rest

end

/-- Bytes in the JSON encoding: one character each. -/
def textOfBytes (b : Bytes) : Json := .string b.toCharacters

/-- The bytes of a value that is kept in bytes. -/
def bytes? : Value → Option Bytes
  | bytes b => some b
  | fixed b => some b
  | decimal b => some b
  | duration b => some b
  | _ => none

mutual

/-- The JSON encoding of a value of a schema. -/
def toAvroJson (names : Names) (schema : Schema) : Value → Json
  | union index value =>
    match schema.resolve names with
    | some (.union branches) =>
      match branches[index]? with
      | none => .null
      | some .null => .null
      | some branch => .object [(branch.branchName, value.toAvroJson names branch)]
    | _ => value.toJson
  | array items =>
    match schema.resolve names with
    | some (.array s) => .array (itemsToAvroJson names s items)
    | _ => .array (itemsToJson items)
  | map entries =>
    match schema.resolve names with
    | some (.map s) => .ofEntries (entriesToAvroJson names s entries)
    | _ => .ofEntries (entriesToJson entries)
  | record fields =>
    match schema.resolve names with
    | some (.record _ schemas) => .ofEntries (fieldsToAvroJson names schemas fields)
    | _ => .ofEntries (entriesToJson fields)
  | bytes b => textOfBytes b
  | fixed b => textOfBytes b
  | decimal b => textOfBytes b
  | duration b => textOfBytes b
  | v => v.toJson

/-- The JSON encodings of the items of an array. -/
def itemsToAvroJson (names : Names) (schema : Schema) : List Value → List Json
  | [] => []
  | v :: rest => v.toAvroJson names schema :: itemsToAvroJson names schema rest

/-- The JSON encodings of the entries of a map. -/
def entriesToAvroJson (names : Names) (schema : Schema) :
    List (String × Value) → List (String × Json)
  | [] => []
  | (k, v) :: rest => (k, v.toAvroJson names schema) :: entriesToAvroJson names schema rest

/-- The JSON encodings of the fields of a record. -/
def fieldsToAvroJson (names : Names) :
    List (Field × Schema) → List (String × Value) → List (String × Json)
  | (_, s) :: schemas, (k, v) :: rest =>
    (k, v.toAvroJson names s) :: fieldsToAvroJson names schemas rest
  | _, _ => []

end

/-! ### Checking against a schema -/

/-- The schema under which the field of a name is checked. Where a later field has that name as an
alias, it is the later one. -/
def checkedField (fields : List (Field × Schema)) (name : String) : Option Schema :=
  (fields.reverse.find? fun f => f.1.name = name || f.1.aliases.contains name).map Prod.snd

mutual

/-- Does the value fit the schema? -/
def fits (names : Names) (schema : Schema) : Value → Bool
  | null => match schema.resolve names with | some .null => true | _ => false
  | boolean _ => match schema.resolve names with | some .boolean => true | _ => false
  | int _ => match schema.resolve names with
    | some .int | some .long | some (.intAs _) => true
    | _ => false
  | long _ => match schema.resolve names with
    | some .long | some (.longAs _) => true
    | _ => false
  | float _ => match schema.resolve names with | some .float | some .double => true | _ => false
  | double _ => match schema.resolve names with | some .double => true | _ => false
  | bytes b => match schema.resolve names with
    | some .bytes | some (.decimal _) => true
    | some (.fixed _ size) => b.length = size
    | _ => false
  | string _ => match schema.resolve names with | some .string | some .uuid => true | _ => false
  | fixed b => match schema.resolve names with
    | some (.fixed _ size) => b.length = size
    | some .duration => b.length = 12
    | some (.decimal _) => true
    | _ => false
  | enum index symbol => match schema.resolve names with
    | some (.enum _ symbols default) =>
      match symbols[index]? with
      | some s => s = symbol
      | none => default.isSome
    | _ => false
  | union index value => match schema.resolve names with
    | some (.union branches) =>
      match branches[index]? with
      | some branch => value.fits names branch
      | none => false
    | _ => false
  | array items => match schema.resolve names with
    | some (.array s) => itemsFit names s items
    | _ => false
  | map entries => match schema.resolve names with
    | some (.map s) => entriesFit names s entries
    | _ => false
  | record fields => match schema.resolve names with
    | some (.record _ schemas) => fields.length ≤ schemas.length && fieldsFit names schemas fields
    | _ => false
  | intAs meaning _ => match schema.resolve names with
    | some (.intAs m) => m = meaning
    | _ => false
  | longAs meaning _ => match schema.resolve names with
    | some (.longAs m) => m = meaning
    | _ => false
  | decimal _ => match schema.resolve names with | some (.decimal _) => true | _ => false
  | bigDecimal _ => match schema.resolve names with | some .bigDecimal => true | _ => false
  | uuid _ => match schema.resolve names with | some .uuid => true | _ => false
  | duration _ => match schema.resolve names with | some .duration => true | _ => false

/-- Do all items fit the schema? -/
def itemsFit (names : Names) (schema : Schema) : List Value → Bool
  | [] => true
  | v :: rest => v.fits names schema && itemsFit names schema rest

/-- Do the values of all entries fit the schema? -/
def entriesFit (names : Names) (schema : Schema) : List (String × Value) → Bool
  | [] => true
  | (_, v) :: rest => v.fits names schema && entriesFit names schema rest

/-- Does each field fit the schema of its name? -/
def fieldsFit (names : Names) (schemas : List (Field × Schema)) : List (String × Value) → Bool
  | [] => true
  | (k, v) :: rest =>
    (match checkedField schemas k with
      | some s => v.fits names s
      | none => false) && fieldsFit names schemas rest

end

/-! ### The order of the entries of maps -/

/-- Is the second value the first one but for the order of the entries of maps? -/
inductive Reordered : Value → Value → Prop
  | refl (v : Value) : Reordered v v
  | union {index : Nat} {v w : Value} (value : Reordered v w) :
      Reordered (union index v) (union index w)
  | array {vs ws : List Value} (length : vs.length = ws.length)
      (items : ∀ p ∈ vs.zip ws, Reordered p.1 p.2) : Reordered (array vs) (array ws)
  | record {es fs : List (String × Value)} (names : es.map Prod.fst = fs.map Prod.fst)
      (values : ∀ p ∈ es.zip fs, Reordered p.1.2 p.2.2) : Reordered (record es) (record fs)
  | map {es fs gs : List (String × Value)} (order : es.Perm fs)
      (names : fs.map Prod.fst = gs.map Prod.fst)
      (values : ∀ p ∈ fs.zip gs, Reordered p.1.2 p.2.2) : Reordered (map es) (map gs)

end Value

/-- An order in which the entries of all maps of a value are written. It is not the value that
decides it: each time that a value is written, another may be taken. -/
structure Arrangement where
  arrange : Value → Value
  reorders (v : Value) : v.Reordered (arrange v)

/-- The order in which a value has the entries of its maps. -/
def Arrangement.given : Arrangement := ⟨id, .refl⟩

end Messaging.Avro
