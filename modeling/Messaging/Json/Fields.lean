import Messaging.Json.Document

/-!
# Records in JSON text

A record of known fields is written as an object or as an array of its values in order. Entries with
other names are ignored whatever they hold, while a field given twice is a fault; an array may stop
early. `Document.fields?` takes either form apart, one place for each field.
-/

namespace Messaging.Json.Document

/-- The values of the named fields among the entries of an object. -/
def fieldsOfEntries? (names : List String) (entries : List (Option String × Document)) :
    Option (List (Option Document)) :=
  if entries.any fun e => e.1.isNone then none
  else names.mapM fun name =>
    match entries.filter fun e => e.1 = some name with
    | [] => some none
    | [e] => some (some e.2)
    | _ => none

/-- The values of the named fields of a record. -/
def fields? (names : List String) : Document → Option (List (Option Document))
  | object entries => fieldsOfEntries? names entries
  | array items =>
    if names.length < items.length then none
    else some (items.map some ++ List.replicate (names.length - items.length) none)
  | _ => none

/-- The text that a document is. -/
def text? : Document → Option String
  | string s => s
  | _ => none

/-- The truth value that a document is. -/
def truth? : Document → Option Bool
  | bool b => some b
  | _ => none

/-- The natural number of 64 bits that a document is. -/
def natural? : Document → Option Nat
  | number (some (.int i)) => if 0 ≤ i then some i.toNat else none
  | _ => none

/-- The table of texts that a document is. -/
def texts? : Document → Option (Table String)
  | object entries => (entries.mapM fun (e : Option String × Document) => do
      let key ← e.1
      let value ← e.2.text?
      some (key, value)).map Table.ofList
  | _ => none

/-- The word of an enumeration: a text, or an object whose one key is the word. -/
def word? : Document → Option String
  | string s => s
  | object [(key, null)] => key
  | _ => none

end Messaging.Json.Document
