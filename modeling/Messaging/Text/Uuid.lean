import Messaging.Bytes

/-!
# Universally unique identifiers

An identifier is sixteen bytes. It is written as 32 lower-case hexadecimal digits in five groups; it
is read in either case with all of its hyphens or none, and with hyphens also inside braces or
behind `urn:uuid:`.
-/

namespace Messaging.Text.Uuid

/-- The sizes, in digits, of the five groups. -/
def groups : List Nat := [8, 4, 4, 4, 12]

/-- The groups of a row of digits with hyphens between them. -/
def joinGroups : List Nat → List Char → List Char
  | [], ds => ds
  | [_], ds => ds
  | n :: rest, ds => ds.take n ++ '-' :: joinGroups rest (ds.drop n)

/-- The text of an identifier. -/
def text (bytes : Bytes) : String := String.ofList (joinGroups groups (Bytes.toHex bytes).toList)

/-- The digits of a text in groups; every hyphen has to stand in its place. -/
def splitGroups : List Nat → List Char → Option (List Char)
  | [], cs => if cs = [] then some [] else none
  | [n], cs => if cs.length = n then some cs else none
  | n :: rest, cs =>
    match cs.drop n with
    | '-' :: tail => (splitGroups rest tail).map (cs.take n ++ ·)
    | _ => none

/-- Reads a text with hyphens. -/
def ofHyphenated? (cs : List Char) : Option Bytes :=
  (splitGroups groups cs).bind Bytes.ofHexDigits?

/-- Reads a text of characters of one byte each. -/
def ofCharacters? (cs : List Char) : Option Bytes :=
  match cs.length with
  | 32 => Bytes.ofHexDigits? cs
  | 36 => ofHyphenated? cs
  | 38 => if cs.head? = some '\x7b' ∧ cs.getLast? = some '\x7d' then
      ofHyphenated? ((cs.drop 1).take 36) else none
  | 45 => if cs.take 9 = "urn:uuid:".toList then ofHyphenated? (cs.drop 9) else none
  | _ => none

/-- Reads a text. -/
def ofString? (s : String) : Option Bytes := ofCharacters? s.toList

end Messaging.Text.Uuid
