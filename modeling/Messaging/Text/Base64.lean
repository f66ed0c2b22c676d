import Messaging.Bytes

/-!
# Base 64

Three bytes are four characters of six bits each. Writing uses the standard alphabet and pads the
last group; reading takes the standard alphabet or the one for addresses, not both in one text, and
the padding may be left out in part or whole.
-/

namespace Messaging.Text.Base64

/-- The characters of the standard alphabet. -/
def alphabet : List Char :=
  "ABCDEFGHIJKLMNOPQRSTUVWXYZabcdefghijklmnopqrstuvwxyz0123456789+/".toList

/-- The character of six bits. -/
def character (n : Nat) : Char := alphabet.getD (n % 64) 'A'

/-- The characters of bytes. -/
def encodeChars : Bytes → List Char
  | [] => []
  | [a] => [character (a.toNat / 4), character (a.toNat * 16), '=', '=']
  | [a, b] =>
    [character (a.toNat / 4), character (a.toNat * 16 + b.toNat / 16), character (b.toNat * 4), '=']
  | a :: b :: c :: rest =>
    character (a.toNat / 4) :: character (a.toNat % 4 * 16 + b.toNat / 16)
      :: character (b.toNat % 16 * 4 + c.toNat / 64) :: character c.toNat :: encodeChars rest

/-- The text of bytes. -/
def encode (b : Bytes) : String := String.ofList (encodeChars b)

/-- The six bits of a character, given the two last characters of the alphabet. -/
def sixBits? (c62 c63 : Char) (c : Char) : Option Nat :=
  if c = c62 then some 62
  else if c = c63 then some 63
  else (alphabet.take 62).idxOf? c

/-- The bytes of groups of six bits; bits that are left over are dropped. -/
def joinBits : List Nat → Option Bytes
  | [] => some []
  | [_] => none
  | [a, b] => some [(a * 4 + b / 16).toUInt8]
  | [a, b, c] => some [(a * 4 + b / 16).toUInt8, (b % 16 * 16 + c / 4).toUInt8]
  | a :: b :: c :: d :: rest => (joinBits rest).map fun bytes =>
    (a * 4 + b / 16).toUInt8 :: (b % 16 * 16 + c / 4).toUInt8 :: (c % 4 * 64 + d).toUInt8 :: bytes

/-- Does the padding fit behind a number of characters? -/
def validPadding (count padding : Nat) : Bool :=
  match count % 4 with
  | 2 => padding ≤ 2
  | 3 => padding ≤ 1
  | _ => padding = 0

/-- The bytes of a text in one of the alphabets. -/
def decodeWith? (c62 c63 : Char) (cs : List Char) : Option Bytes :=
  let digits := cs.takeWhile (· ≠ '=')
  let padding := cs.dropWhile (· ≠ '=')
  if padding.all (· = '=') && validPadding digits.length padding.length then
    (digits.mapM (sixBits? c62 c63)).bind joinBits
  else none

/-- The bytes of a text. -/
def decode? (s : String) : Option Bytes :=
  decodeWith? '+' '/' s.toList <|> decodeWith? '-' '_' s.toList

end Messaging.Text.Base64
