/-!
# Log entries

An entry has a level, the part of the system that it comes from, a text and named fields. A state
that keeps entries is a `Journal`; operations on such a state note what they do. `Entry.line` is the
text of an entry on a line of its own.
-/

namespace Messaging.Log

/-- How much an entry matters, the most first. -/
inductive Level where
  | error
  | warn
  | info
  | debug
  deriving DecidableEq, Repr

namespace Level

/-- The word for a level. -/
def word : Level → String
  | error => "ERROR"
  | warn => "WARN"
  | info => "INFO"
  | debug => "DEBUG"

/-- How many levels matter at least as much. -/
def rank : Level → Nat
  | error => 1
  | warn => 2
  | info => 3
  | debug => 4

end Level

/-- An entry. The values of its fields are as they are printed. -/
structure Entry where
  level : Level
  source : String
  text : String
  fields : List (String × String) := []
  deriving DecidableEq, Repr

namespace Entry

/-- A field as it is printed: a field named `message` shows its value only. -/
def field (f : String × String) : String :=
  if f.1 = "message" then f.2 else f.1 ++ "=" ++ f.2

/-- The line of an entry. -/
def line (e : Entry) : String :=
  e.level.word ++ " " ++ e.source ++ ": "
    ++ (e.fields.map field).foldl (fun text f => text ++ " " ++ f) e.text

end Entry

/-- States that entries are noted in. -/
class Journal (σ : Type) where
  note : Entry → σ → σ

export Journal (note)

/-- A state without room for entries. -/
instance : Journal Unit := ⟨fun _ s => s⟩

/-- A list keeps its entries in the order in which they are noted. -/
instance : Journal (List Entry) := ⟨fun entry log => log ++ [entry]⟩

end Messaging.Log
