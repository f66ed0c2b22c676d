import Messaging.Json.Basic
import Messaging.Number.Shortest

/-!
# Printing JSON

Values are printed without any blanks. In a string only the quote, the backslash and the control
characters are escaped. A number with a fraction or exponent keeps one when it is printed:
positional for leading exponents from -5 up to 15, scientific elsewhere.
-/

namespace Messaging.Json

open Number

/-- Floating-point numbers are positional from `0.00001` up to, but not including, `1e+16`, and a
whole number ends in `.0`. -/
def numberLayout : Layout :=
  { lowest := -5, highest := 16, wholeMark := ".0", plus := "e+", minus := "e-" }

/-- The text of a number of 64 bits; `null` where JSON has none. -/
def printDouble (x : Double) : String :=
  (Format.double.print numberLayout x.reading).getD "null"

/-- The text of a number of 32 bits; `null` where JSON has none. -/
def printSingle (x : Single) : String :=
  (Format.single.print numberLayout x.reading).getD "null"

/-- The text of an integer. -/
def printInt (i : Int) : String :=
  String.ofList ((if i < 0 then ['-'] else []) ++ digitsOf i.natAbs)

/-- The text of a number. -/
def Num.print : Num → String
  | int i => printInt i
  | float x => printDouble x

/-- A hexadecimal digit in lower case. -/
def hexDigit (n : Nat) : Char := Nat.digitChar (n % 16)

/-- A character inside a string. -/
def escape (c : Char) : List Char :=
  match c with
  | '"' => ['\\', '"']
  | '\\' => ['\\', '\\']
  | '\x08' => ['\\', 'b']
  | '\x0c' => ['\\', 'f']
  | '\n' => ['\\', 'n']
  | '\x0d' => ['\\', 'r']
  | '\t' => ['\\', 't']
  | c => if c.toNat < 0x20 then
      ['\\', 'u', '0', '0', hexDigit (c.toNat / 16), hexDigit c.toNat]
    else [c]

/-- A string with its quotes. -/
def quote (s : String) : String :=
  String.ofList ('"' :: s.toList.flatMap escape ++ ['"'])

mutual

/-- The text of a value. -/
def print : Json → String
  | null => "null"
  | bool true => "true"
  | bool false => "false"
  | number n => n.print
  | string s => quote s
  | array items => "[" ++ printItems items ++ "]"
  | object entries => "\x7b" ++ printEntries entries ++ "\x7d"

/-- The items of an array, separated by commas. -/
def printItems : List Json → String
  | [] => ""
  | [a] => print a
  | a :: rest => print a ++ "," ++ printItems rest

/-- The entries of an object, separated by commas. -/
def printEntries : List (String × Json) → String
  | [] => ""
  | [(k, a)] => quote k ++ ":" ++ print a
  | (k, a) :: rest => quote k ++ ":" ++ print a ++ "," ++ printEntries rest

end

instance : ToString Json := ⟨print⟩

end Messaging.Json
