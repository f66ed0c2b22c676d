import Messaging.Text.Visible
import Messaging.Number.Shortest

/-!
# Quoted text

A text in a log line or a description is quoted so that it shows on one line: quotes, backslashes
and the common controls have short escapes, any other character without a glyph of its own is
written by its number in hexadecimal. `list` and `record` lay out descriptions of several parts.
-/

namespace Messaging.Text

/-- A number in lower-case hexadecimal. -/
def hexadecimal (n : Nat) : List Char := Nat.toDigits 16 n

/-- A natural number in decimal digits. -/
def natural (n : Nat) : String := String.ofList (Number.digitsOf n)

/-- A character inside quotes. -/
def escape (c : Char) : List Char :=
  match c with
  | '"' => ['\\', '"']
  | '\\' => ['\\', '\\']
  | '\n' => ['\\', 'n']
  | '\x0d' => ['\\', 'r']
  | '\t' => ['\\', 't']
  | '\x00' => ['\\', '0']
  | c => if isVisible c then [c] else ['\\', 'u', '\x7b'] ++ hexadecimal c.toNat ++ ['\x7d']

/-- The text with its quotes. -/
def quoted (s : String) : String := String.ofList ('"' :: s.toList.flatMap escape ++ ['"'])

/-- Texts with a separator between them. -/
def separated (separator : String) : List String → String
  | [] => ""
  | [s] => s
  | s :: rest => s ++ separator ++ separated separator rest

/-- The description of a list from the descriptions of its items. -/
def list (items : List String) : String := "[" ++ separated ", " items ++ "]"

/-- The description of a list of texts. -/
def quotedList (items : List String) : String := list (items.map quoted)

/-- The description of a record from its name and the descriptions of its fields. -/
def record (name : String) (fields : List (String × String)) : String :=
  name ++ " \x7b " ++ separated ", " (fields.map fun f => f.1 ++ ": " ++ f.2) ++ " \x7d"

end Messaging.Text
