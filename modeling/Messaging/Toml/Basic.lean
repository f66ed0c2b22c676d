/-!
# TOML values

A TOML text is a table of values in the order they are written. Tables that come from a heading,
from dotted keys or as part of a longer heading follow different rules about what may be added to
them later, so an item keeps its origin; `Items.descend` walks to a table and makes those that are
missing. Floating-point numbers and dates are kept as they are written.
-/

namespace Messaging.Toml

/-- A value behind a key. -/
inductive Value where
  | string (text : String)
  | integer (value : Int)
  | float (text : String)
  | boolean (value : Bool)
  | datetime (text : String)
  | array (items : List Value)
  | inlineTable (entries : List (String × Value))
  deriving Repr, Inhabited

/-- What a table comes from. -/
inductive Origin where
  /-- A heading of its own. -/
  | heading
  /-- A longer heading, so that a heading of its own may follow. -/
  | implied
  /-- Dotted keys. -/
  | dotted
  deriving DecidableEq, Repr

/-- An item of a table. -/
inductive Item where
  | value (v : Value)
  | table (origin : Origin) (entries : List (String × Item))
  | tables (items : List (List (String × Item)))
  deriving Repr, Inhabited

/-- The items of a table, in the order they are written. -/
abbrev Items := List (String × Item)

namespace Items

/-- The items with one replaced, or added at the end. -/
def set (name : String) (item : Item) (items : Items) : Items :=
  if items.any (·.1 = name) then items.map fun e => if e.1 = name then (name, item) else e
  else items ++ [(name, item)]

/-- A change of a table: its origin and items before, and its items after; `none` is a fault. -/
abbrev Change := Origin → Items → Option Items

/-- Changes the table at the end of a path. Missing tables on the way get the origin given; of
several tables with one heading the last is meant. A path of dotted keys does not enter a table that
has a heading of its own. -/
def descend (made : Origin) (change : Change) : List String → Origin → Items → Option Items
  | [], origin, items => change origin items
  | name :: path, _, items =>
    match items.lookup name with
    | none => (descend made change path made []).map fun inner =>
        items.set name (.table made inner)
    | some (.value _) => none
    | some (.table origin inner) =>
      if made = .dotted ∧ origin = .heading then none
      else (descend made change path origin inner).map fun inner =>
        items.set name (.table origin inner)
    | some (.tables all) =>
      match all.getLast? with
      | none => none
      | some last => (descend made change path .heading last).map fun inner =>
          items.set name (.tables (all.dropLast ++ [inner]))

end Items

end Messaging.Toml
