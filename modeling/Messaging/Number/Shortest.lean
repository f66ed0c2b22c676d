import Messaging.Number.Binary

/-!
# Shortest decimal text of a floating-point number

The digits printed for a finite number are the fewest that still lie among the reals which round to
it, and of those the nearest to it. `Format.shortest` tries one digit, two digits and so on: on
each decimal grid only the two neighbours of the number can qualify first. `Layout` says how a
format lays the digits out.
-/

namespace Messaging.Number

/-- The decimal digits of a natural number, the leading one first. -/
def digitsOf (n : Nat) : List Char := Nat.toDigits 10 n

/-- A decimal number `coefficient * 10 ^ exponent`. -/
structure Decimal where
  coefficient : Nat
  exponent : Int
  deriving DecidableEq, Repr

/-- Is `coefficient * 10 ^ exponent` at most the fraction? -/
def Decimal.le (d : Decimal) (a : Fraction) : Bool :=
  let b := Fraction.scaled d.coefficient 10 d.exponent
  b.numerator * a.denominator ≤ a.numerator * b.denominator

/-- The reals that round to a number: its half-way points, which belong to it when the mantissa is
even. -/
structure Rounding where
  lower : Fraction
  upper : Fraction
  closed : Bool

/-- The decimal exponent of the leading digit of a positive fraction. -/
def leadingExponent (a : Fraction) : Int :=
  let guess : Int := (digitsOf a.numerator).length - (digitsOf a.denominator).length
  if Decimal.le ⟨1, guess⟩ a then guess else guess - 1

namespace Rounding

/-- Does the decimal number round to the number? -/
def contains (r : Rounding) (d : Decimal) : Bool :=
  let b := Fraction.scaled d.coefficient 10 d.exponent
  let low := r.lower.numerator * b.denominator
  let fromLow := b.numerator * r.lower.denominator
  let toHigh := b.numerator * r.upper.denominator
  let high := r.upper.numerator * b.denominator
  if r.closed then low ≤ fromLow && toHigh ≤ high else low < fromLow && toHigh < high

/-- The neighbour on the grid of `10 ^ exponent` that rounds to the number and is nearest to its
value, an exact tie going to the even one. -/
def onGrid (r : Rounding) (value : Fraction) (exponent : Int) : Option Decimal :=
  let cell := value.mul (.scaled 1 10 (-exponent))
  let below : Decimal := ⟨cell.floor, exponent⟩
  let above : Decimal := ⟨cell.floor + 1, exponent⟩
  match r.contains below, r.contains above with
  | true, true => some ⟨cell.nearest, exponent⟩
  | true, false => some below
  | false, true => some above
  | false, false => none

/-- The first grid with a hit, from the exponent given downwards. -/
def search (r : Rounding) (value : Fraction) : Nat → Int → Decimal
  | 0, exponent => ⟨value.mul (.scaled 1 10 (-exponent)) |>.nearest, exponent⟩
  | tries + 1, exponent =>
    match r.onGrid value exponent with
    | some d => d
    | none => search r value tries (exponent - 1)

end Rounding

namespace Format

/-- The reals that round to a positive finite number. Below a power of two the neighbour is only
half as far away. -/
def roundingOf (f : Format) (mantissa : Nat) (exponent : Int) : Rounding :=
  let narrow := mantissa = Nat.pow 2 f.fractionBits ∧ f.minExponent < exponent
  { lower := .scaled (4 * mantissa - (if narrow then 1 else 2)) 2 (exponent - 2)
    upper := .scaled (4 * mantissa + 2) 2 (exponent - 2)
    closed := mantissa % 2 = 0 }

/-- The shortest decimal number that rounds to a positive finite number. -/
def shortest (f : Format) (mantissa : Nat) (exponent : Int) : Decimal :=
  let value := valueOf mantissa exponent
  (f.roundingOf mantissa exponent).search value 17 (leadingExponent value)

end Format

/-- How digits are laid out: positional from `lowest` up to, but not including, `highest` as the
exponent of the leading digit, scientific elsewhere. -/
structure Layout where
  lowest : Int
  highest : Int
  /-- Written after a whole number in positional notation. -/
  wholeMark : String
  /-- Between the digits and a non-negative exponent. -/
  plus : String
  /-- Between the digits and the absolute value of a negative exponent. -/
  minus : String

namespace Layout

/-- Writes the digits `ds`, the first of which has exponent `e`. -/
def place (n : Layout) (ds : List Char) (e : Int) : String :=
  if n.lowest ≤ e ∧ e < n.highest then
    if e < 0 then
      String.ofList ('0' :: '.' :: List.replicate ((-e).toNat - 1) '0' ++ ds)
    else
      let whole := e.toNat + 1
      if ds.length ≤ whole then
        String.ofList (ds ++ List.replicate (whole - ds.length) '0') ++ n.wholeMark
      else String.ofList (ds.take whole ++ '.' :: ds.drop whole)
  else
    let point := if ds.length ≤ 1 then ds else ds.take 1 ++ '.' :: ds.drop 1
    String.ofList point ++ (if e < 0 then n.minus else n.plus) ++ String.ofList (digitsOf e.natAbs)

/-- Writes a decimal number without trailing zeros in its digits. -/
def write (n : Layout) (d : Decimal) : String :=
  let ds := digitsOf d.coefficient
  let kept := (ds.reverse.dropWhile (· == '0')).reverse
  n.place kept (d.exponent + ds.length - 1)

end Layout

/-- The text of a finite number, with a sign where it has one; `none` for the others. -/
def Format.print (f : Format) (n : Layout) : Reading → Option String
  | .finite negative mantissa exponent =>
    let sign := if negative then "-" else ""
    let text := if mantissa = 0 then n.place ['0'] 0 else n.write (f.shortest mantissa exponent)
    some (sign ++ text)
  | _ => none

end Messaging.Number
