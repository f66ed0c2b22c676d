import Messaging.Avro.Value
import Messaging.Json.Printer

/-!
# From JSON to Avro values

`Value.ofJson` converts a JSON value under the guidance of a schema, in one of two dialects:
generic, with bytes as numbers and unions unwrapped, or the JSON encoding, with bytes as text and
union branches named. The conversion is strict: a value of another shape, a number out of range and
bytes of another length are mismatches. A field that is missing has its default, or else `null`.

References and defaults may send a conversion through the same schema and value again. Then it does
not end, which is an outcome of its own: `stepLimit` counts all pairs of a schema and a value that a
conversion can meet, so one with more steps in a row meets a pair twice.
-/

namespace Messaging.Avro

open Number

/-- How bytes and unions are spelled in JSON. -/
inductive Dialect where
  /-- Bytes are arrays of numbers or text in UTF-8, a union is the value of its branch. -/
  | generic
  /-- Bytes are text of one character each, a branch other than `null` is an object of one entry
  that is named for it. -/
  | encoded
  deriving DecidableEq, Repr

/-- A value that does not fit the schema of the kind. -/
structure Mismatch where
  value : Json
  expected : String

/-- The text of a mismatch. -/
def Mismatch.message (m : Mismatch) : String :=
  "value " ++ m.value.print ++ " does not match schema " ++ m.expected

/-- Why a conversion has no value. -/
inductive ConvertFault where
  | mismatch (m : Mismatch)
  /-- The conversion does not end. -/
  | unbounded

/-- The outcome of a conversion. -/
abbrev Converted (α : Type) := Except ConvertFault α

namespace Value

/-- The bytes that a JSON value spells in a dialect. -/
def bytesOfJson? (dialect : Dialect) : Json → Option Bytes
  | .string s =>
    match dialect with
    | .encoded => Bytes.ofCharacters? s
    | .generic => some (Bytes.ofString s)
  | .array items =>
    match dialect with
    | .encoded => none
    | .generic => items.mapM fun | .number n => n.toByte? | _ => none
  | _ => none

/-- The signed integer below a bound that a JSON value is. -/
def intOfJson? (bound : Int) : Json → Option Int
  | .number n => n.toInt? bound
  | _ => none

/-- The floating-point number that a JSON value is. -/
def doubleOfJson? : Json → Option Double
  | .number n => some n.toDouble
  | _ => none

/-- The text that a JSON value is. -/
def textOfJson? : Json → Option String
  | .string s => some s
  | _ => none

/-- The value of a schema without parts, if the JSON value fits. -/
def leafOfJson? (dialect : Dialect) (schema : Schema) (json : Json) : Option Value :=
  match schema with
  | .null => if json == .null then some .null else none
  | .boolean => match json with | .bool b => some (.boolean b) | _ => none
  | .int => (intOfJson? 0x80000000 json).map .int
  | .long => (intOfJson? 0x8000000000000000 json).map .long
  | .float => (doubleOfJson? json).map fun x => .float x.toSingle
  | .double => (doubleOfJson? json).map .double
  | .string => (textOfJson? json).map .string
  | .bytes => (bytesOfJson? dialect json).map .bytes
  | .fixed _ size => (bytesOfJson? dialect json).bind fun b =>
      if b.length = size then some (.fixed b) else none
  | .enum _ symbols _ => (textOfJson? json).bind fun s =>
      (symbols.idxOf? s).map fun index => .enum index s
  | .intAs meaning => (intOfJson? 0x80000000 json).map (.intAs meaning)
  | .longAs meaning => (intOfJson? 0x8000000000000000 json).map (.longAs meaning)
  | .uuid => ((textOfJson? json).bind Text.Uuid.ofString?).map .uuid
  | .bigDecimal => ((textOfJson? json).bind BigDecimal.ofString?).map .bigDecimal
  | .decimal _ => (bytesOfJson? dialect json).map .decimal
  | .duration => (bytesOfJson? dialect json).bind fun b =>
      if b.length = 12 then some (.duration b) else none
  | _ => none

/-- The JSON value of a field in a record: its entry, else its default, else `null`. -/
def fieldJson (entries : List (String × Json)) (f : Field) : Json :=
  (entries.lookup f.name <|> f.default).getD .null

/-- The branch that an object of one entry names, with the value of the entry. -/
def namedBranch? (branches : List Schema) : Json → Option (Nat × Schema × Json)
  | .object [(key, inner)] =>
    match branches.findIdx? fun b => b.branchName = key with
    | some index => branches[index]?.map fun branch => (index, branch, inner)
    | none => none
  | _ => none

/-- The first branch under which a conversion succeeds, with the value; `none` if there is none. -/
def firstBranch (convert : Schema → Converted Value) : Nat → List Schema →
    Converted (Option Value)
  | _, [] => .ok none
  | index, branch :: rest =>
    match convert branch with
    | .ok value => .ok (some (.union index value))
    | .error .unbounded => .error .unbounded
    | .error (.mismatch _) => firstBranch convert (index + 1) rest

/-- May the branch be chosen without being named? -/
def isUnnamedIn (dialect : Dialect) (branch : Schema) : Bool :=
  match dialect, branch with
  | .generic, _ => true
  | .encoded, .null => true
  | .encoded, _ => false

/-- Converts a value in at most `fuel` steps in a row. -/
def ofJsonWithin (names : Names) (dialect : Dialect) : Nat → Schema → Json → Converted Value
  | 0, _, _ => .error .unbounded
  | fuel + 1, schema, json =>
    let miss : Converted Value := .error (.mismatch ⟨json, schema.kind⟩)
    match schema with
    | .ref name =>
      match names.find? name.full with
      | some s => ofJsonWithin names dialect fuel s json
      | none => miss
    | .array items =>
      match json with
      | .array values => .array <$> values.mapM (ofJsonWithin names dialect fuel items)
      | _ => miss
    | .map values =>
      match json with
      | .object entries => .map <$> entries.mapM fun e =>
          (fun v => (e.1, v)) <$> ofJsonWithin names dialect fuel values e.2
      | _ => miss
    | .record _ fields =>
      match json with
      | .object entries => .record <$> fields.mapM fun f =>
          (fun v => (f.1.name, v)) <$> ofJsonWithin names dialect fuel f.2 (fieldJson entries f.1)
      | _ => miss
    | .union branches =>
      match if dialect = .encoded then namedBranch? branches json else none with
      | some (index, branch, inner) => .union index <$> ofJsonWithin names dialect fuel branch inner
      | none =>
        let convert (branch : Schema) : Converted Value :=
          if isUnnamedIn dialect branch then ofJsonWithin names dialect fuel branch json else miss
        (firstBranch convert 0 branches).bind fun
          | some value => .ok value
          | none => miss
    | leaf =>
      match leafOfJson? dialect leaf json with
      | some value => .ok value
      | none => miss

end Value

/-- The number of schemas in a schema and in the types it refers to. -/
def Schema.sizeWith (names : Names) (schema : Schema) : Nat :=
  schema.size + (names.map fun e => e.2.size).foldr (· + ·) 0

/-- The number of values in the defaults of a schema and of the types it refers to. -/
def Schema.defaultSizeWith (names : Names) (schema : Schema) : Nat :=
  ((schema.defaults ++ names.flatMap fun e => e.2.defaults).map Json.size).foldr (· + ·) 0

/-- More than the number of pairs of a schema and a value that a conversion can meet. -/
def stepLimit (names : Names) (schema : Schema) (json : Json) : Nat :=
  schema.sizeWith names * (json.size + schema.defaultSizeWith names + 1) + 1

/-- Converts a value of a schema. -/
def Value.ofJson (names : Names) (dialect : Dialect) (schema : Schema) (json : Json) :
    Converted Value :=
  Value.ofJsonWithin names dialect (stepLimit names schema json) schema json

end Messaging.Avro
