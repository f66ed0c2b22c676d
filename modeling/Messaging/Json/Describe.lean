import Messaging.Json.Printer
import Messaging.Text.Quoted

/-!
# Descriptions of JSON values

In a log line a value is described by its kinds: `Null`, `Bool(true)`, `Number(1.5)`,
`String("a")`, `Array [..]` and `Object {..}`, with quoted strings and keys.
-/

namespace Messaging.Json

/-- A description in parentheses behind its kind. -/
def ofKind (kind inner : String) : String := kind ++ "(" ++ inner ++ ")"

mutual

/-- The description of a value. -/
def describe : Json → String
  | null => "Null"
  | bool b => ofKind "Bool" (bool b).print
  | number n => ofKind "Number" n.print
  | string s => ofKind "String" (Text.quoted s)
  | array items => "Array " ++ Text.list (describeItems items)
  | object entries => "Object \x7b" ++ Text.separated ", " (describeEntries entries) ++ "\x7d"

/-- The descriptions of the items of an array. -/
def describeItems : List Json → List String
  | [] => []
  | a :: rest => describe a :: describeItems rest

/-- The descriptions of the entries of an object. -/
def describeEntries : List (String × Json) → List String
  | [] => []
  | (k, a) :: rest => (Text.quoted k ++ ": " ++ describe a) :: describeEntries rest

end

end Messaging.Json
