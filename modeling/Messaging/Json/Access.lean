import Messaging.Json.Basic

/-!
# Parts of JSON values

The parts of a value whose shape is known. What is not there, or has another shape, is `null`,
empty or `none`.
-/

namespace Messaging.Json

/-- The entries of an object. -/
def entries : Json → List (String × Json)
  | object es => es
  | _ => []

/-- The items of an array. -/
def items : Json → List Json
  | array vs => vs
  | _ => []

/-- The value of an entry. -/
def get (j : Json) (name : String) : Json := (j.entries.lookup name).getD null

/-- Is there an entry? -/
def has (j : Json) (name : String) : Bool := (j.entries.lookup name).isSome

/-- The text that a value is. -/
def text? : Json → Option String
  | string s => some s
  | _ => none

/-- The integer that a value is. -/
def integer? : Json → Option Int
  | number (.int i) => some i
  | _ => none

/-- The truth value that a value is. -/
def truth? : Json → Option Bool
  | bool b => some b
  | _ => none

/-- The text of an entry. -/
def textAt (j : Json) (name : String) : String := (j.get name).text?.getD ""

/-- The natural number of an entry. -/
def naturalAt? (j : Json) (name : String) : Option Nat := (j.get name).integer?.map Int.toNat

/-- The items of an entry. -/
def itemsAt (j : Json) (name : String) : List Json := (j.get name).items

/-- The texts among the items of an array. -/
def texts (j : Json) : List String := j.items.filterMap text?

/-- The texts among the entries of an object. -/
def table (j : Json) : Table String := j.entries.filterMap fun e => e.2.text?.map (e.1, ·)

end Messaging.Json
