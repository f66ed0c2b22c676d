import Messaging.Toml.Basic

/-!
# Records in TOML

A record of known fields is written as a table or as an array of its values in order. Entries with
other names are ignored, and so are values beyond the last field. A date is a record without fields.
-/

namespace Messaging.Toml.Item

/-- The items of an array, or the tables that share a heading. -/
def elements? : Item → Option (List Item)
  | value (.array vs) => some (vs.map value)
  | tables ts => some (ts.map (table .heading))
  | _ => none

/-- The values of the named fields of a record. -/
def fields? (names : List String) (item : Item) : Option (List (Option Item)) :=
  match item with
  | table _ entries => some (names.map fun name => entries.lookup name)
  | value (.inlineTable entries) => some (names.map fun name => (entries.lookup name).map value)
  | value (.datetime _) => some (names.map fun _ => none)
  | item => item.elements?.map fun items =>
      let given := items.take names.length
      given.map some ++ List.replicate (names.length - given.length) none

/-- The text that an item is. -/
def text? : Item → Option String
  | value (.string s) => some s
  | _ => none

/-- The natural number below a bound that an item is. -/
def natural? (bound : Nat) : Item → Option Nat
  | value (.integer i) => if 0 ≤ i ∧ i < bound then some i.toNat else none
  | _ => none

/-- Is there nothing in the item? -/
def isEmpty : Item → Bool
  | value (.array []) => true
  | value (.inlineTable []) => true
  | table _ [] => true
  | tables [] => true
  | _ => false

/-- The word of an enumeration: a text, or the key of something empty. -/
def word? : Item → Option String
  | value (.string s) => some s
  | value (.inlineTable [(name, v)]) => if (value v).isEmpty then some name else none
  | table _ ((name, item) :: _) => if item.isEmpty then some name else none
  | _ => none

/-- The list that an item is, by a reader of its elements. -/
def list? {α : Type} (read : Item → Option α) (item : Item) : Option (List α) :=
  item.elements?.bind fun items => items.mapM read

end Messaging.Toml.Item
