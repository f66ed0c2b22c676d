import Messaging.Settings

/-!
# Command line arguments

Every option has a long name only. A value follows its option as the next argument or behind an
equals sign; as an argument of its own it does not start with a hyphen, unless it is a single one.
Only `--message` may be given several times. `Arguments.read` goes through the arguments from left
to right and ends at the first fault or at a request for help.
-/

namespace Messaging

/-- What the program is asked to do. -/
structure Arguments where
  /-- The path of the configuration. -/
  config : Option String := none
  /-- The topic to publish to. -/
  topic : Option String := none
  /-- The texts to publish. -/
  messages : List String := []
  /-- Are the texts JSON? -/
  json : Bool := false
  /-- The subscription to receive from. -/
  subscription : Option String := none
  /-- How many messages to receive. -/
  count : Option Nat := none
  deriving DecidableEq, Repr

namespace Arguments

/-- Why the arguments do not say what to do. -/
inductive Refusal where
  /-- Help is asked for. -/
  | help
  /-- An argument is at fault. -/
  | misuse
  deriving DecidableEq, Repr

/-- The names of the options with values. -/
inductive Name where
  | config
  | topic
  | message
  | subscription
  | count
  deriving DecidableEq, Repr

/-- The option of a name. -/
def Name.ofText? : String → Option Name
  | "config" => some config
  | "topic" => some topic
  | "message" => some message
  | "subscription" => some subscription
  | "count" => some count
  | _ => none

/-- The largest count. -/
def maxCount : Nat := 0xffffffffffffffff

/-- Reads a count: decimal digits, perhaps behind a plus sign. -/
def readCount? (text : String) : Option Nat :=
  let cs := text.toList
  let ds := if cs.head? = some '+' then cs.tail else cs
  let n := ds.foldl (fun n d => 10 * n + (d.toNat - '0'.toNat)) 0
  if ds ≠ [] ∧ ds.all Char.isDigit ∧ n ≤ maxCount then some n else none

/-- A value that is given for the first time. -/
def fresh {α : Type} (old : Option α) (value : α) : Option (Option α) :=
  if old.isSome then none else some (some value)

/-- The arguments with the value of an option; `none` if it has one already or cannot have this
one. -/
def set? (name : Name) (value : String) (a : Arguments) : Option Arguments := do
  match name with
  | .config => some { a with config := ← fresh a.config value }
  | .topic => some { a with topic := ← fresh a.topic value }
  | .message => some { a with messages := a.messages ++ [value] }
  | .subscription => some { a with subscription := ← fresh a.subscription value }
  | .count => some { a with count := ← fresh a.count (← readCount? value) }

/-- May an argument be the value of the option before it? -/
def isValue (text : String) : Bool := text = "-" || text.toList.head? ≠ some '-'

/-- What an argument is. -/
inductive Word where
  /-- Two hyphens, which end the options. -/
  | stop
  /-- An option, with the value behind its equals sign. -/
  | option (name : String) (value : Option String)
  /-- Hyphen and letters. -/
  | letters (cs : List Char)
  | plain
  deriving DecidableEq, Repr

/-- What an argument is. -/
def Word.ofText (text : String) : Word :=
  match text.toList with
  | ['-', '-'] => .stop
  | '-' :: '-' :: cs =>
    .option (String.ofList (cs.takeWhile (· ≠ '=')))
      (match cs.dropWhile (· ≠ '=') with
        | [] => none
        | _ :: value => some (String.ofList value))
  | '-' :: c :: cs => .letters (c :: cs)
  | _ => .plain

/-- Goes through arguments, with what was said before them. -/
def readFrom (a : Arguments) : List String → Except Refusal Arguments
  | [] => .ok a
  | text :: rest =>
    match Word.ofText text with
    | .stop => if rest = [] then .ok a else .error .misuse
    | .plain => .error .misuse
    | .letters cs => .error (if cs.head? = some 'h' then .help else .misuse)
    | .option "help" none => .error .help
    | .option "json" none =>
      if a.json then .error .misuse else readFrom { a with json := true } rest
    | .option name value =>
      match Name.ofText? name, value, rest with
      | none, _, _ => .error .misuse
      | some name, some value, rest =>
        match a.set? name value with
        | some a => readFrom a rest
        | none => .error .misuse
      | some _, none, [] => .error .misuse
      | some name, none, value :: rest =>
        if !isValue value then .error .misuse
        else
          match a.set? name value with
          | some a => readFrom a rest
          | none => .error .misuse

/-- Reads arguments. -/
def read (arguments : List String) : Except Refusal Arguments := readFrom {} arguments

end Arguments

end Messaging
