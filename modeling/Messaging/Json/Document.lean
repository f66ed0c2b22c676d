import Messaging.Json.Basic
import Messaging.Text.Digit

/-!
# JSON text as it is written

`Document.read?` reads a whole JSON text into a tree that keeps what a value forgets: the order of
the entries of an object and entries that repeat a key. A reader of a particular shape walks the
tree; `Document.toJson?` is the reader of arbitrary values.

Two faults are left for the reader to refuse, because a part that nobody asks for may have them: a
number too large to be finite, and a text with half a surrogate pair. Both are leaves without value
here. Nesting is likewise bounded by the reader, `maxDepth` levels of arrays and objects.
-/

namespace Messaging.Json

open Number Text

/-- A JSON text as written. -/
inductive Document where
  | null
  | bool (value : Bool)
  /-- A number, without value if it is too large. -/
  | number (value : Option Num)
  /-- A text, without value if it holds half a surrogate pair. -/
  | string (value : Option String)
  | array (items : List Document)
  | object (entries : List (Option String × Document))
  deriving Repr, Inhabited

namespace Document

/-! ### Numbers -/

/-- Is the character a decimal digit? -/
def isDigit (c : Char) : Bool := (digit? c).isSome

/-- The value of a list of decimal digits. -/
def digitsValue (ds : List Char) : Nat :=
  ds.foldl (fun n c => 10 * n + (digit? c).getD 0) 0

/-- A number as its digits: of the whole part, after the point and of the exponent. -/
structure Numeral where
  negative : Bool
  whole : List Char
  places : Option (List Char)
  exponent : Option (Bool × List Char)

/-- Takes digits into a significand of 64 bits for as long as they fit. The digits that are left
over are returned. -/
def accumulate : Nat → List Char → Nat × List Char
  | n, [] => (n, [])
  | n, c :: rest =>
    let next := 10 * n + (digit? c).getD 0
    if next < 0x10000000000000000 then accumulate next rest else (n, c :: rest)

/-- The floating-point number `significand * 10 ^ exponent`, by one multiplication or division by a
rounded power of ten after as many divisions by `10 ^ 308` as a small exponent needs; `none` if it
is too large. -/
def scale : Nat → Double → Int → Option Double
  | 0, x, _ => some x
  | tries + 1, x, exponent =>
    if exponent.natAbs ≤ 308 then
      let scaled := x.scaleTen (decide (0 ≤ exponent)) exponent.natAbs
      if scaled.isFinite then some scaled else none
    else if x.toInt? = some 0 then some x
    else if 0 ≤ exponent then none
    else scale tries (x.scaleTen false 308) (exponent + 308)

/-- A floating-point number from its decimal parts; `none` if it is too large. -/
def floatOf (negative : Bool) (significand : Nat) (exponent : Int) : Option Double :=
  (scale 4 (Double.ofInt significand) exponent).map fun x =>
    if negative then ⟨x.bits + 0x8000000000000000⟩ else x

namespace Numeral

/-- The exponent that is written, `none` if it exceeds 31 bits. -/
def writtenExponent (n : Numeral) : Option Int :=
  match n.exponent with
  | none => some 0
  | some (negative, ds) =>
    let e := digitsValue ds
    if e < 0x80000000 then some (if negative then -(e : Int) else e) else none

/-- The value of a number with a point, an exponent or too many digits. Digits beyond the
significand only count as places. -/
def toDouble? (n : Numeral) : Option Double :=
  let (high, dropped) := accumulate 0 n.whole
  let places := n.places.getD []
  let (significand, ignored) := accumulate high places
  let shift : Int := dropped.length - (places.length - ignored.length : Nat)
  match n.writtenExponent with
  | some e => floatOf n.negative significand (shift + e)
  | none =>
    if significand ≠ 0 ∧ (n.exponent.map Prod.fst) = some false then none
    else some (.zero n.negative)

/-- The value of a number. Whole numbers are integers where 64 bits hold them; a negative zero is a
floating-point number. -/
def toNum? (n : Numeral) : Option Num :=
  let (value, dropped) := accumulate 0 n.whole
  if n.places.isNone ∧ n.exponent.isNone ∧ dropped = [] then
    if !n.negative then some (.int value)
    else if value = 0 ∨ 0x8000000000000000 < value then some (.float (.round true ⟨value, 1⟩))
    else some (.int (-value))
  else n.toDouble?.map .float

end Numeral

/-- Splits off a run of digits. -/
def takeDigits (cs : List Char) : List Char × List Char :=
  (cs.takeWhile isDigit, cs.dropWhile isDigit)

/-- The digits after a point, if there is one. At least one has to follow. -/
def readPlaces : List Char → Option (Option (List Char) × List Char)
  | '.' :: cs =>
    match takeDigits cs with
    | ([], _) => none
    | (ds, rest) => some (some ds, rest)
  | cs => some (none, cs)

/-- The sign of an exponent. -/
def readExponentSign : List Char → Bool × List Char
  | '+' :: cs => (false, cs)
  | '-' :: cs => (true, cs)
  | cs => (false, cs)

/-- The exponent, if there is one. -/
def readExponent : List Char → Option (Option (Bool × List Char) × List Char)
  | c :: cs =>
    if c = 'e' ∨ c = 'E' then
      let (negative, cs) := readExponentSign cs
      match takeDigits cs with
      | ([], _) => none
      | (ds, rest) => some (some (negative, ds), rest)
    else some (none, c :: cs)
  | [] => some (none, [])

/-- The digits of a whole part, which starts with a zero only if it is zero. -/
def readWhole (cs : List Char) : Option (List Char × List Char) :=
  match takeDigits cs with
  | ([], _) => none
  | ('0' :: _ :: _, _) => none
  | (ds, rest) => some (ds, rest)

/-- A number after its sign. -/
def readMagnitude (negative : Bool) (cs : List Char) : Option (Numeral × List Char) := do
  let (whole, cs) ← readWhole cs
  let (places, cs) ← readPlaces cs
  let (exponent, cs) ← readExponent cs
  some (⟨negative, whole, places, exponent⟩, cs)

/-- A number. -/
def readNumeral : List Char → Option (Numeral × List Char)
  | '-' :: cs => readMagnitude true cs
  | cs => readMagnitude false cs

/-! ### Strings -/

/-- Four hexadecimal digits. -/
def readUnit : List Char → Option (Nat × List Char)
  | a :: b :: c :: d :: rest => do
    let a ← hexDigit? a
    let b ← hexDigit? b
    let c ← hexDigit? c
    let d ← hexDigit? d
    some (((a * 16 + b) * 16 + c) * 16 + d, rest)
  | _ => none

/-- The character of a single-letter escape. -/
def simpleEscape? : Char → Option Char
  | '"' => some '"'
  | '\\' => some '\\'
  | '/' => some '/'
  | 'b' => some '\x08'
  | 'f' => some '\x0c'
  | 'n' => some '\n'
  | 'r' => some '\x0d'
  | 't' => some '\t'
  | _ => none

/-- A piece of a text: a character, or a surrogate on its own as a 16-bit unit. -/
inductive Piece where
  | char (c : Char)
  | surrogate (unit : Nat)
  deriving DecidableEq, Repr

/-- The text of a list of pieces: a high surrogate and the low one right behind it are one
character, any other surrogate leaves the text without value. -/
def joinPieces : List Piece → Option (List Char)
  | [] => some []
  | .char c :: rest => (joinPieces rest).map (c :: ·)
  | .surrogate high :: .surrogate low :: rest =>
    if high < 0xDC00 ∧ 0xDC00 ≤ low then
      (joinPieces rest).map (Char.ofNat (0x10000 + (high - 0xD800) * 0x400 + (low - 0xDC00)) :: ·)
    else none
  | .surrogate _ :: _ => none

/-- The pieces of a text up to its closing quote. -/
def readPieces : List Char → Option (List Piece × List Char)
  | [] => none
  | '"' :: rest => some ([], rest)
  | '\\' :: 'u' :: a :: b :: c :: d :: rest => do
    let (unit, _) ← readUnit [a, b, c, d]
    let (pieces, rest) ← readPieces rest
    if 0xD800 ≤ unit ∧ unit < 0xE000 then some (.surrogate unit :: pieces, rest)
    else some (.char (Char.ofNat unit) :: pieces, rest)
  | '\\' :: e :: rest => do
    let c ← simpleEscape? e
    let (pieces, rest) ← readPieces rest
    some (.char c :: pieces, rest)
  | c :: rest =>
    if c.toNat < 0x20 ∨ c = '\\' then none
    else do
      let (pieces, rest) ← readPieces rest
      some (.char c :: pieces, rest)

/-- A text after its opening quote. -/
def readText (cs : List Char) : Option (Option String × List Char) := do
  let (pieces, rest) ← readPieces cs
  some ((joinPieces pieces).map String.ofList, rest)

/-! ### Values -/

/-- Is the character one of the four blanks of JSON? -/
def isBlank (c : Char) : Bool := c = ' ' || c = '\n' || c = '\t' || c = '\x0d'

/-- The text without its leading blanks. -/
def skipBlanks (cs : List Char) : List Char := cs.dropWhile isBlank

mutual

/-- A value; `fuel` bounds the number of values and separators still to come. -/
def readValue (fuel : Nat) (cs : List Char) : Option (Document × List Char) :=
  match fuel with
  | 0 => none
  | fuel + 1 =>
    match skipBlanks cs with
    | 'n' :: 'u' :: 'l' :: 'l' :: rest => some (.null, rest)
    | 't' :: 'r' :: 'u' :: 'e' :: rest => some (.bool true, rest)
    | 'f' :: 'a' :: 'l' :: 's' :: 'e' :: rest => some (.bool false, rest)
    | '"' :: rest => do
      let (text, rest) ← readText rest
      some (.string text, rest)
    | '[' :: rest =>
      match skipBlanks rest with
      | ']' :: rest => some (.array [], rest)
      | rest => do
        let (items, rest) ← readItems fuel rest
        some (.array items, rest)
    | '\x7b' :: rest =>
      match skipBlanks rest with
      | '\x7d' :: rest => some (.object [], rest)
      | rest => do
        let (entries, rest) ← readEntries fuel rest
        some (.object entries, rest)
    | rest => do
      let (n, rest) ← readNumeral rest
      some (.number n.toNum?, rest)

/-- The items of an array up to its closing bracket. -/
def readItems (fuel : Nat) (cs : List Char) : Option (List Document × List Char) :=
  match fuel with
  | 0 => none
  | fuel + 1 => do
    let (item, rest) ← readValue fuel cs
    match skipBlanks rest with
    | ',' :: rest => do
      let (items, rest) ← readItems fuel rest
      some (item :: items, rest)
    | ']' :: rest => some ([item], rest)
    | _ => none

/-- The entries of an object up to its closing brace. -/
def readEntries (fuel : Nat) (cs : List Char) :
    Option (List (Option String × Document) × List Char) :=
  match fuel with
  | 0 => none
  | fuel + 1 =>
    match skipBlanks cs with
    | '"' :: rest => do
      let (key, rest) ← readText rest
      match skipBlanks rest with
      | ':' :: rest => do
        let (value, rest) ← readValue fuel rest
        match skipBlanks rest with
        | ',' :: rest => do
          let (entries, rest) ← readEntries fuel rest
          some ((key, value) :: entries, rest)
        | '\x7d' :: rest => some ([(key, value)], rest)
        | _ => none
      | _ => none
    | _ => none

end

/-- Reads a whole text. Every step takes a character, so the text's length bounds the steps. -/
def read? (text : String) : Option Document :=
  let cs := text.toList
  match readValue (2 * cs.length + 1) cs with
  | some (document, rest) => if skipBlanks rest = [] then some document else none
  | none => none

/-! ### Arbitrary values -/

/-- Arrays and objects may be nested this deep. -/
def maxDepth : Nat := 127

mutual

/-- The value of a document with at most `depth` levels. -/
def toJson? (depth : Nat) : Document → Option Json
  | .null => some .null
  | .bool b => some (.bool b)
  | .number n => n.map .number
  | .string s => s.map .string
  | .array items =>
    match depth with
    | 0 => none
    | depth + 1 => (itemsToJson? depth items).map .array
  | .object entries =>
    match depth with
    | 0 => none
    | depth + 1 => (entriesToJson? depth entries).map .ofEntries

/-- The values of the items of an array. -/
def itemsToJson? (depth : Nat) : List Document → Option (List Json)
  | [] => some []
  | d :: rest => do
    let v ← toJson? depth d
    let vs ← itemsToJson? depth rest
    some (v :: vs)

/-- The values of the entries of an object. -/
def entriesToJson? (depth : Nat) : List (Option String × Document) → Option (List (String × Json))
  | [] => some []
  | (key, d) :: rest => do
    let key ← key
    let v ← toJson? depth d
    let vs ← entriesToJson? depth rest
    some ((key, v) :: vs)

end

end Document

/-- The value of a whole JSON text. -/
def parse? (text : String) : Option Json :=
  (Document.read? text).bind (Document.toJson? Document.maxDepth)

/-- The value of a JSON text given as bytes, which have to be UTF-8. -/
def parseBytes? (bytes : List UInt8) : Option Json :=
  (String.fromUTF8? ⟨bytes.toArray⟩).bind parse?

end Messaging.Json
