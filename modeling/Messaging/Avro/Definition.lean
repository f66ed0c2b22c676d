import Messaging.Avro.Default
import Messaging.Json.Document

/-!
# Reading schema definitions

A definition is JSON text: the name of a type, an object that describes one, or an array of
branches. `Schema.define?` reads a definition together with the types that it declares. A type can
be referred to by its name or an alias once its definition has begun. A logical type that does not
suit its base leaves the base as it is.
-/

namespace Messaging.Avro

namespace Definition

/-! ### Names -/

/-- May the character begin an identifier? -/
def isInitial (c : Char) : Bool := c.isAlpha || c = '_'

/-- Is the text an identifier: a letter or underscore, then letters, digits and underscores? -/
def isIdentifier : List Char → Bool
  | [] => false
  | c :: cs => isInitial c && cs.all fun c => isInitial c || c.isDigit

/-- The parts of a text between its dots. -/
def splitDots : List Char → List (List Char)
  | [] => [[]]
  | '.' :: cs => [] :: splitDots cs
  | c :: cs =>
    match splitDots cs with
    | part :: rest => (c :: part) :: rest
    | [] => [[c]]

/-- Is the text a space: identifiers between dots, or nothing? -/
def isSpace (s : String) : Bool := s = "" || (splitDots s.toList).all isIdentifier

/-- A name that is written in one text: a space if there is a dot, and an identifier. -/
def splitName? (s : String) : Option (Option String × String) :=
  match (splitDots s.toList).reverse with
  | [] => none
  | base :: spaces =>
    let space := String.ofList (List.intercalate ['.'] spaces.reverse)
    if isIdentifier base && isSpace space then
      some (if spaces = [] then none else some space, String.ofList base)
    else none

/-! ### State -/

/-- What is known while a definition is read. -/
structure State where
  /-- Types whose definitions are complete, also under their aliases. -/
  complete : Names := []
  /-- Types whose definitions have begun, also under their aliases. -/
  begun : Table Name := []
  /-- A bound for checking defaults. -/
  budget : Nat := 0

/-- A step of reading. -/
abbrev Read := StateT State (Except Fault)

/-- The definition is not valid. -/
def invalid {α : Type} : Read α := throw .invalid

/-- The value that has to be there. -/
def require {α : Type} : Option α → Read α
  | some a => pure a
  | none => invalid

/-- The entries of a definition. -/
abbrev Entries := List (String × Json)

/-- The text of an entry that is one. -/
def textOf (entries : Entries) (key : String) : Option String :=
  match entries.lookup key with
  | some (.string s) => some s
  | _ => none

/-- The texts of a list of values that are all texts. -/
def textsOf (items : List Json) : Option (List String) :=
  items.mapM fun | .string s => some s | _ => none

/-- The name of a type that is being defined in a space. -/
def readName (entries : Entries) (space : String) : Read Name := do
  let written ← require (textOf entries "name")
  match splitName? written with
  | none => throw .aborted
  | some (own, base) =>
    let space := ((own <|> textOf entries "namespace").getD space)
    if isSpace space then pure ⟨space, base⟩ else invalid

/-- The aliases of a type, in its space unless they have one of their own. -/
def readAliases (entries : Entries) (name : Name) : Read (List Name) :=
  match entries.lookup "aliases" with
  | some (.array items) =>
    ((textsOf items).getD []).mapM fun other =>
      match splitName? other with
      | some (own, base) => pure ⟨own.getD name.space, base⟩
      | none => throw .aborted
  | _ => pure []

/-- Enters a complete type under its name and aliases. -/
def complete (name : Name) (aliases : List Name) (schema : Schema) : Read Unit :=
  modify fun st =>
    let enter (table : Names) (n : Name) := table.insert n.full schema
    let forget (table : Table Name) (n : Name) := table.erase n.full
    { st with
      complete := (name :: aliases).foldl enter st.complete
      begun := (name :: aliases).foldl forget st.begun }

/-- Enters a type whose definition has begun under its name and aliases. -/
def begin (name : Name) (aliases : List Name) : Read Unit :=
  modify fun st =>
    let enter (table : Table Name) (n : Name) := table.insert n.full name
    { st with begun := (name :: aliases).foldl enter st.begun }

/-- The type that a name stands for in a space. -/
def reference (written space : String) : Read Schema := do
  let (own, base) ← require (splitName? written)
  let name := Name.within ⟨own.getD "", base⟩ space
  let st ← get
  if st.complete.contains name.full then pure (.ref name)
  else match st.begun.find? name.full with
    | some target => pure (.ref target)
    | none => invalid

/-- A type that was defined before, for a definition that only names its kind. -/
def seenBefore (kind space : String) : Read (Option Schema) := do
  let name := Name.within ⟨"", kind⟩ space
  let st ← get
  pure ((st.begun.find? name.full).map .ref <|> st.complete.find? name.full)

/-! ### Types -/

/-- The type of a plain name. -/
def primitive? : String → Option Schema
  | "null" => some .null
  | "boolean" => some .boolean
  | "int" => some .int
  | "long" => some .long
  | "float" => some .float
  | "double" => some .double
  | "bytes" => some .bytes
  | "string" => some .string
  | _ => none

/-- The type of a name in a space. -/
def named (written space : String) : Read Schema :=
  match primitive? written with
  | some s => pure s
  | none => reference written space

/-- A union: no branch is a union, and only named types may come more than once. -/
def unionOf (branches : List Schema) : Read Schema :=
  let isUnion : Schema → Bool | .union _ => true | _ => false
  let unnamed := (branches.filter fun b => !b.isNamed).map Schema.kind
  if branches.any isUnion || unnamed.eraseDups ≠ unnamed then invalid
  else pure (.union branches)

/-- A type of bytes of a fixed size. -/
def readFixed (entries : Entries) (space : String) : Read Schema := do
  match entries.lookup "size" with
  | none =>
    match ← seenBefore "fixed" space with
    | some s => pure s
    | none => invalid
  | some (.number (.int size)) =>
    if size < 0 then invalid
    else
      let size := size.toNat
      if (textOf entries "default").any (·.utf8ByteSize ≠ size) then invalid
      else
        let name ← readName entries space
        let aliases ← readAliases entries name
        complete name aliases (.fixed name size)
        pure (.fixed name size)
  | some _ => invalid

/-- The symbol that stands for unknown ones. -/
def readEnumDefault (entries : Entries) (symbols : List String) : Read (Option String) :=
  match entries.lookup "default" with
  | none => pure none
  | some (.string s) => if symbols.contains s then pure (some s) else invalid
  | some _ => invalid

/-- An enumeration. -/
def readEnum (entries : Entries) (space : String) : Read Schema := do
  let described := entries.lookup "symbols"
  match ← (if described.isNone then seenBefore "enum" space else pure none) with
  | some s => pure s
  | none =>
    let name ← readName entries space
    let aliases ← readAliases entries name
    match described with
    | some (.array items) =>
      let symbols ← require (textsOf items)
      if !symbols.all (isIdentifier ·.toList) || symbols.eraseDups ≠ symbols then invalid
      else
        let default ← readEnumDefault entries symbols
        complete name aliases (.enum name symbols default)
        pure (.enum name symbols default)
    | _ => invalid

/-- No field has a name that an earlier field has as its name or as an alias. -/
def distinctFields (fields : List (Field × Schema)) : Bool :=
  let step (acc : Option (List String)) (f : Field × Schema) : Option (List String) := do
    let taken ← acc
    if taken.contains f.1.name then none else some (f.1.name :: f.1.aliases ++ taken)
  (fields.foldl step (some [])).isSome

/-- The aliases of a field. -/
def fieldAliases (entries : Entries) : List String :=
  match entries.lookup "aliases" with
  | some (.array items) => items.filterMap fun | .string s => some s | _ => none
  | _ => []

/-- A field of a record in a space. Its own entries describe its type. -/
def readField (recur : Json → String → Read Schema) (space : String) (entries : Entries) :
    Read (Field × Schema) := do
  let name ← require (textOf entries "name")
  if !isIdentifier name.toList then invalid
  else
    let schema ← recur (.object entries) space
    let default := entries.lookup "default"
    let st ← get
    let ok ← match default with
      | none => pure true
      | some json => (Schema.acceptsFieldDefault st.complete st.budget schema json : Except _ _)
    if ok then pure (⟨name, fieldAliases entries, default⟩, schema) else invalid

/-- A record. Only the objects in its list of fields count. -/
def readRecord (recur : Json → String → Read Schema) (entries : Entries) (space : String) :
    Read Schema := do
  let described := entries.lookup "fields"
  match ← (if described.isNone then seenBefore "record" space else pure none) with
  | some s => pure s
  | none =>
    let name ← readName entries space
    let aliases ← readAliases entries name
    begin name aliases
    match described with
    | some (.array items) =>
      let objects := items.filterMap fun | .object es => some es | _ => none
      let fields ← objects.mapM (readField recur name.space)
      if !distinctFields fields then invalid
      else
        complete name aliases (.record name fields)
        pure (.record name fields)
    | _ => invalid

/-! ### Logical types -/

/-- An entry that counts digits. -/
def digitCount (entries : Entries) (key : String) : Option Nat :=
  match entries.lookup key with
  | some (.number (.int i)) => if 0 ≤ i then some i.toNat else none
  | _ => none

/-- Do the precision and the scale of a decimal number make sense? -/
def validDecimal (entries : Entries) : Bool :=
  let scale := if (entries.lookup "scale").isNone then some 0 else digitCount entries "scale"
  match digitCount entries "precision", scale with
  | some precision, some scale => 1 ≤ precision && scale ≤ precision
  | _, _ => false

/-- A logical type over a base; `none` for an unknown one. Counts of nanoseconds are schemas that no
definition gives: here their logical types are unknown, and the base stays a plain `long`. -/
def applyLogical (entries : Entries) (logical : String) (base : Schema) : Option Schema :=
  match logical, base with
  | "decimal", .bytes => some (if validDecimal entries then .decimal .bytes else base)
  | "decimal", .fixed name size =>
    some (if validDecimal entries then .decimal (.fixed name size) else base)
  | "big-decimal", .bytes => some .bigDecimal
  | "uuid", .string => some .uuid
  | "uuid", .fixed name size => some (if size = 16 then .uuid else .fixed name size)
  | "date", .int => some (.intAs .date)
  | "time-millis", .int => some (.intAs .timeMillis)
  | "time-micros", .long => some (.longAs .timeMicros)
  | "timestamp-millis", .long => some (.longAs .timestampMillis)
  | "timestamp-micros", .long => some (.longAs .timestampMicros)
  | "local-timestamp-millis", .long => some (.longAs .localTimestampMillis)
  | "local-timestamp-micros", .long => some (.longAs .localTimestampMicros)
  | "duration", .fixed _ _ => some .duration
  | _, _ => if known.contains logical then some base else none
where
  /-- The logical types that there are. -/
  known : List String :=
    ["decimal", "big-decimal", "uuid", "date", "time-millis", "time-micros", "timestamp-millis",
      "timestamp-micros", "local-timestamp-millis", "local-timestamp-micros", "duration"]

/-- The base of a logical type. -/
def readBase (recur : Json → String → Read Schema) (entries : Entries) (space : String) :
    Read Schema :=
  match entries.lookup "type" with
  | some (.string "fixed") => readFixed entries space
  | some value => recur value space
  | none => invalid

/-- A type without regard to a logical one. -/
def readPlain (recur : Json → String → Read Schema) (entries : Entries) (space : String) :
    Read Schema :=
  match entries.lookup "type" with
  | some (.string "record") => readRecord recur entries space
  | some (.string "enum") => readEnum entries space
  | some (.string "array") => do
    let items ← require (entries.lookup "items")
    .array <$> recur items space
  | some (.string "map") => do
    let values ← require (entries.lookup "values")
    .map <$> recur values space
  | some (.string "fixed") => readFixed entries space
  | some (.string other) => named other space
  | some (.object inner) => recur (.object inner) space
  | some (.array branches) => recur (.array branches) space
  | _ => invalid

/-- A type described by an object. -/
def readObject (recur : Json → String → Read Schema) (entries : Entries) (space : String) :
    Read Schema :=
  match entries.lookup "logicalType" with
  | none => readPlain recur entries space
  | some (.string logical) =>
    if applyLogical.known.contains logical then do
      let base ← readBase recur entries space
      pure ((applyLogical entries logical base).getD base)
    else readPlain recur entries space
  | some _ => invalid

/-- A definition of at most `depth` levels. -/
def read : Nat → Json → String → Read Schema
  | 0, _, _ => invalid
  | depth + 1, json, space =>
    match json with
    | .string name => named name space
    | .object entries => readObject (read depth) entries space
    | .array branches => do unionOf (← branches.mapM fun b => read depth b space)
    | _ => invalid

end Definition

/-- Reads the text of a definition, with the types that it declares. -/
def Schema.define (text : String) : Except Fault (Schema × Names) :=
  match Json.parse? text with
  | none => .error .invalid
  | some json =>
    let steps := json.size + 1
    ((Definition.read steps json "").run { budget := steps * steps }).bind fun (schema, _) =>
      (Names.ofSchema schema).map fun names => (schema, names)

end Messaging.Avro
