import Messaging.Text.Digit

/-!
# Bytes

Data is a list of bytes. Text becomes data as UTF-8; a text whose characters are all below 256 can
also stand for data one byte a character.
-/

namespace Messaging

/-- Data. -/
abbrev Bytes := List UInt8

namespace Bytes

/-- The UTF-8 bytes of a text. -/
def ofString (s : String) : Bytes := s.toUTF8.toList

/-- The text that the bytes are in UTF-8, if they are. -/
def toString? (bytes : Bytes) : Option String := String.fromUTF8? ⟨bytes.toArray⟩

/-- One character for each byte. -/
def toCharacters (bytes : Bytes) : String := String.ofList (bytes.map fun b => Char.ofNat b.toNat)

/-- The byte a character stands for, if it is below 256. -/
def ofCharacter? (c : Char) : Option UInt8 := if c.toNat < 256 then some c.toNat.toUInt8 else none

/-- One byte for each character, if all are below 256. -/
def ofCharacters? (s : String) : Option Bytes := s.toList.mapM ofCharacter?

/-- The number whose base-256 digits are the bytes, the last byte counting most. -/
def littleEndian : Bytes → Nat
  | [] => 0
  | b :: rest => b.toNat + 256 * littleEndian rest

/-- The lowest `count` base-256 digits of a number, the lowest first. -/
def ofLittleEndian : Nat → Nat → Bytes
  | 0, _ => []
  | count + 1, n => n.toUInt8 :: ofLittleEndian count (n / 256)

/-- Two hexadecimal digits for each byte. -/
def toHex (bytes : Bytes) : String :=
  String.ofList (bytes.flatMap fun b =>
    [Nat.digitChar (b.toNat / 16), Nat.digitChar (b.toNat % 16)])

/-- Bytes from pairs of hexadecimal digits. -/
def ofHexDigits? : List Char → Option Bytes
  | [] => some []
  | a :: b :: rest => do
    let high ← Text.hexDigit? a
    let low ← Text.hexDigit? b
    let bytes ← ofHexDigits? rest
    some ((16 * high + low).toUInt8 :: bytes)
  | [_] => none

/-- Bytes from a text of pairs of hexadecimal digits. -/
def ofHex? (s : String) : Option Bytes := ofHexDigits? s.toList

end Bytes

end Messaging
