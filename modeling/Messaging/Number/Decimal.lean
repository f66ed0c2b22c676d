import Messaging.Number.Shortest

/-!
# Reading decimal numbers

A decimal text is an optional sign and either digits with an optional point and exponent or the name
of an infinity or of no number, in any case of its letters. It is read as the nearest floating-point
number, with an infinity for what is too large.
-/

namespace Messaging.Number

/-- A decimal text taken apart. -/
inductive DecimalText where
  | nan
  | infinite
  | number (coefficient : Nat) (exponent : Int)
  deriving DecidableEq, Repr

/-- The value of a list of decimal digits. -/
def valueOfDigits (ds : List Char) : Nat := ds.foldl (fun n c => 10 * n + (c.toNat - '0'.toNat)) 0

/-- An exponent behind its mark, to the end of the text. -/
def exponentOfText? : List Char → Option Int
  | [] => some 0
  | c :: cs =>
    if c = 'e' ∨ c = 'E' then
      let (negative, ds) := match cs with
        | '-' :: ds => (true, ds)
        | '+' :: ds => (false, ds)
        | ds => (false, ds)
      if ds ≠ [] ∧ ds.all Char.isDigit then
        some (if negative then -(valueOfDigits ds : Int) else valueOfDigits ds)
      else none
    else none

/-- A number without its sign. -/
def numberOfText? (cs : List Char) : Option DecimalText :=
  let whole := cs.takeWhile Char.isDigit
  let rest := cs.dropWhile Char.isDigit
  let (places, rest) := match rest with
    | '.' :: more => (more.takeWhile Char.isDigit, more.dropWhile Char.isDigit)
    | rest => ([], rest)
  if whole = [] ∧ places = [] then none
  else (exponentOfText? rest).map fun e =>
    .number (valueOfDigits (whole ++ places)) (e - places.length)

/-- A text without its sign. -/
def magnitudeOfText? (cs : List Char) : Option DecimalText :=
  let word := String.ofList (cs.map Char.toLower)
  if word = "inf" ∨ word = "infinity" then some .infinite
  else if word = "nan" then some .nan
  else numberOfText? cs

/-- A text with its sign. -/
def decimalText? (s : String) : Option (Bool × DecimalText) :=
  match s.toList with
  | '-' :: cs => (magnitudeOfText? cs).map (true, ·)
  | '+' :: cs => (magnitudeOfText? cs).map (false, ·)
  | cs => (magnitudeOfText? cs).map (false, ·)

/-- The fraction of a decimal number that is neither beyond all formats nor below all of them;
`none` if it is beyond. -/
def boundedFraction (coefficient : Nat) (exponent : Int) : Option Fraction :=
  let lead := (digitsOf coefficient).length + exponent
  if coefficient = 0 ∨ lead < -400 then some ⟨0, 1⟩
  else if 400 < lead then none
  else some (.scaled coefficient 10 exponent)

/-- The number of 64 bits nearest to a decimal text. -/
def parseDouble? (s : String) : Option Double :=
  (decimalText? s).map fun (negative, text) =>
    match text with
    | .nan => ⟨Double.nan.bits + (if negative then 0x8000000000000000 else 0)⟩
    | .infinite => .infinite negative
    | .number c e => (boundedFraction c e).elim (.infinite negative) (.round negative)

/-- The number of 32 bits nearest to a decimal text. -/
def parseSingle? (s : String) : Option Single :=
  (decimalText? s).map fun (negative, text) =>
    match text with
    | .nan => ⟨Single.nan.bits + (if negative then 0x80000000 else 0)⟩
    | .infinite => .infinite negative
    | .number c e => (boundedFraction c e).elim (.infinite negative) (.round negative)

end Messaging.Number
