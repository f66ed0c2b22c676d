import Messaging.Json.Access
import Messaging.Number.Decimal
import Messaging.Proto.Wire

/-!
# Files of message types

A file declares messages and enumerations in a package, with messages inside messages. `File.pool`
gives the types by their full names and settles what a declaration leaves open: the name in JSON,
which fields have presence, which are packed, and which fields of messages are maps.
-/

namespace Messaging.Proto

/-- A declared enumeration. -/
structure EnumDecl where
  name : String
  values : List (String × Int)

/-- A declared field. -/
structure FieldDecl where
  name : String
  number : Nat
  /-- The word for the type. -/
  type : String
  repeated : Bool := false
  /-- The full name of a message or enumeration behind a dot. -/
  typeName : String := ""
  jsonName : Option String := none
  oneof : Option Nat := none
  default : Option String := none
  packed : Option Bool := none

/-- A declared message. -/
inductive MessageDecl where
  | mk (name : String) (isMapEntry : Bool) (fields : List FieldDecl) (enums : List EnumDecl)
    (messages : List MessageDecl)

/-- A file. -/
structure File where
  package : String
  proto2 : Bool
  enums : List EnumDecl
  messages : List MessageDecl

namespace FieldDecl

/-- The scalar type of a word. -/
def scalar : String → Scalar
  | "double" => .double
  | "float" => .float
  | "int64" => .int64
  | "uint32" => .uint32
  | "uint64" => .uint64
  | "sint32" => .sint32
  | "sint64" => .sint64
  | "fixed32" => .fixed32
  | "fixed64" => .fixed64
  | "sfixed32" => .sfixed32
  | "sfixed64" => .sfixed64
  | "bool" => .bool
  | "string" => .string
  | "bytes" => .bytes
  | _ => .int32

/-- The type of the field. -/
def fieldType (f : FieldDecl) : FieldType :=
  let name := String.ofList (f.typeName.toList.drop 1)
  match f.type with
  | "message" => .message name
  | "enum" => .enum name
  | word => .scalar (scalar word)

/-- A name without underscores, each letter behind one a capital; `capital` tells that there was one
before. -/
def camelCase (capital : Bool) : List Char → List Char
  | [] => []
  | c :: cs =>
    if c = '_' then camelCase true cs
    else (if capital then c.toUpper else c) :: camelCase false cs

/-- A default from its text. -/
def defaultOf (type : FieldType) (text : String) : Default :=
  match type with
  | .scalar .string | .scalar .bytes | .enum _ => .text text
  | .scalar .bool => .bool (text = "true")
  | .scalar .double | .scalar .float => .double ((Number.parseDouble? text).getD ⟨0⟩)
  | _ => .int (text.toInt?.getD 0)

/-- The field. `maps` holds the full names of the messages that are entries of maps. -/
def field (proto2 : Bool) (maps : List String) (f : FieldDecl) : Field :=
  let type := f.fieldType
  let isMessage := match type with
    | .message _ => true
    | _ => false
  let isMap := match type with
    | .message name => maps.contains name
    | _ => false
  { name := f.name
    jsonName := f.jsonName.getD (String.ofList (camelCase false f.name.toList))
    number := f.number
    type
    cardinality := if !f.repeated then .singular else if isMap then .map else .repeated
    oneof := f.oneof
    presence := !f.repeated && (proto2 || isMessage || f.oneof.isSome)
    packed := f.repeated && type.packable && f.packed.getD (!proto2)
    default := f.default.map (defaultOf type) }

end FieldDecl

/-- A name inside a scope. -/
def nameIn (scope name : String) : String := if scope = "" then name else scope ++ "." ++ name

/-- Fields in ascending order of their numbers, with one more. -/
def insertField (f : Field) : List Field → List Field
  | [] => [f]
  | g :: rest => if f.number < g.number then f :: g :: rest else g :: insertField f rest

/-- The pool with enumerations of a scope. -/
def Pool.addEnums (scope : String) (enums : List EnumDecl) (p : Pool) : Pool :=
  { p with enums := enums.foldl (fun t e => t.insert (nameIn scope e.name) ⟨e.values⟩) p.enums }

mutual

/-- The full names of the messages that are entries of maps, from a message on. -/
def MessageDecl.maps (scope : String) : MessageDecl → List String
  | .mk name isMapEntry _ _ messages =>
    (if isMapEntry then [nameIn scope name] else []) ++ mapsAmong (nameIn scope name) messages

/-- The full names of the messages that are entries of maps, from messages of a scope on. -/
def mapsAmong (scope : String) : List MessageDecl → List String
  | [] => []
  | m :: rest => m.maps scope ++ mapsAmong scope rest

end

mutual

/-- The pool with a message and what it declares. -/
def MessageDecl.addTo (proto2 : Bool) (maps : List String) (scope : String) (p : Pool) :
    MessageDecl → Pool
  | .mk name _ fields enums messages =>
    let full := nameIn scope name
    let sorted := fields.foldl (fun fs f => insertField (f.field proto2 maps) fs) []
    let p := { p with messages := p.messages.insert full { name := full, fields := sorted } }
    addMessages proto2 maps full (p.addEnums full enums) messages

/-- The pool with messages of a scope. -/
def addMessages (proto2 : Bool) (maps : List String) (scope : String) (p : Pool) :
    List MessageDecl → Pool
  | [] => p
  | m :: rest => addMessages proto2 maps scope (m.addTo proto2 maps scope p) rest

end

/-- The types of a file. -/
def File.pool (f : File) : Pool :=
  addMessages f.proto2 (mapsAmong f.package f.messages) f.package
    (Pool.addEnums f.package f.enums {}) f.messages

/-! ### Files as JSON -/

/-- Reads an enumeration, whose values are pairs of a name and a number. -/
def EnumDecl.ofJson (j : Json) : EnumDecl where
  name := j.textAt "name"
  values := (j.itemsAt "values").filterMap fun v => match v with
    | .array [.string name, .number (.int number)] => some (name, number)
    | _ => none

/-- Reads a field. -/
def FieldDecl.ofJson (j : Json) : FieldDecl where
  name := j.textAt "name"
  number := (j.naturalAt? "number").getD 0
  type := j.textAt "type"
  repeated := j.textAt "label" = "repeated"
  typeName := j.textAt "type_name"
  jsonName := (j.get "json_name").text?
  oneof := j.naturalAt? "oneof"
  default := (j.get "default").text?
  packed := (j.get "packed").truth?

/-- Reads a message with at most `depth` levels of messages inside. -/
def MessageDecl.ofJson : Nat → Json → MessageDecl
  | 0, j => .mk (j.textAt "name") false [] [] []
  | depth + 1, j =>
    .mk (j.textAt "name") ((j.get "map_entry").truth?.getD false)
      ((j.itemsAt "fields").map FieldDecl.ofJson) ((j.itemsAt "enums").map EnumDecl.ofJson)
      ((j.itemsAt "messages").map (MessageDecl.ofJson depth))

/-- Reads a file. -/
def File.ofJson (j : Json) : File where
  package := j.textAt "package"
  proto2 := j.textAt "syntax" = "proto2"
  enums := (j.itemsAt "enums").map EnumDecl.ofJson
  messages := (j.itemsAt "messages").map (MessageDecl.ofJson j.size)

end Messaging.Proto
