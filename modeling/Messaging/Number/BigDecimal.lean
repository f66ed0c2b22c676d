import Messaging.Number.Shortest
import Messaging.Text.Digit

/-!
# Decimal numbers of any size

A big decimal is `coefficient * 10 ^ -scale`; numbers of one value but different scales are
different. Its text is positional except for numbers far from one, which have an exponent: an `E`
behind more than five zeros after the point, an `e` where more than fifteen zeros would be needed
before it.
-/

namespace Messaging.Number

open Text

/-- A decimal number with its scale, a signed integer of 64 bits. -/
structure BigDecimal where
  coefficient : Int
  scale : Int
  deriving DecidableEq, Repr

namespace BigDecimal

/-! ### Printing -/

/-- The text of an exponent, with its sign. -/
def signedExponent (e : Int) : List Char := (if e < 0 then '-' else '+') :: digitsOf e.natAbs

/-- The text of a magnitude in positional notation. -/
def positional (ds : List Char) (scale : Int) : List Char :=
  if scale ≤ 0 then ds ++ List.replicate (-scale).toNat '0'
  else
    let places := scale.toNat
    if places < ds.length then
      ds.take (ds.length - places) ++ '.' :: ds.drop (ds.length - places)
    else '0' :: '.' :: List.replicate (places - ds.length) '0' ++ ds

/-- The text of a magnitude. -/
def magnitudeText (ds : List Char) (scale : Int) : List Char :=
  if 5 < scale - ds.length then
    let point := if 1 < ds.length then ds.take 1 ++ '.' :: ds.drop 1 else ds
    point ++ 'E' :: signedExponent (ds.length - scale - 1)
  else if 15 < -scale ∧ -scale < 0x8000000000000000 then ds ++ 'e' :: signedExponent (-scale)
  else positional ds scale

/-- The text of the number. Zero is `0` at every scale. -/
def text (d : BigDecimal) : String :=
  if d.coefficient = 0 then "0"
  else
    let sign := if d.coefficient < 0 then ['-'] else []
    String.ofList (sign ++ magnitudeText (digitsOf d.coefficient.natAbs) d.scale)

/-! ### Reading -/

/-- Digits with underscores between or behind them. -/
def digits? (cs : List Char) : Option Nat :=
  match cs with
  | [] => none
  | '_' :: _ => none
  | cs => cs.foldlM (fun n c => if c = '_' then some n else (digit? c).map (10 * n + ·)) 0

/-- Digits without underscores; at least one. -/
def plainDigits? (cs : List Char) : Option Nat :=
  match cs with
  | [] => none
  | cs => cs.foldlM (fun n c => (digit? c).map (10 * n + ·)) 0

/-- Digits behind an optional plus. -/
def unsigned? : List Char → Option Nat
  | '+' :: '+' :: _ => none
  | '+' :: cs => digits? cs
  | cs => digits? cs

/-- Digits behind an optional sign. -/
def coefficient? : List Char → Option Int
  | '-' :: '+' :: _ => none
  | '-' :: cs => (unsigned? cs).map fun n => -(n : Int)
  | cs => (unsigned? cs).map fun n => (n : Int)

/-- An exponent: digits behind an optional sign, within 128 bits. -/
def exponent? (cs : List Char) : Option Int := do
  let value ← match cs with
    | '-' :: cs => (plainDigits? cs).map fun n => -(n : Int)
    | '+' :: cs => (plainDigits? cs).map fun n => (n : Int)
    | cs => (plainDigits? cs).map fun n => (n : Int)
  let limit : Int := 0x80000000000000000000000000000000
  if -limit ≤ value ∧ value < limit then some value else none

/-- Splits a text at the first character with a property; what follows it is `none` if there is no
such character. -/
def splitAt (p : Char → Bool) : List Char → List Char × Option (List Char)
  | [] => ([], none)
  | c :: cs => if p c then ([], some cs) else
    let (before, after) := splitAt p cs
    (c :: before, after)

/-- Reads a text: digits with an optional sign, point and exponent, in plain ASCII. -/
def ofString? (s : String) : Option BigDecimal := do
  let (base, exponent) := splitAt (fun c => c = 'e' || c = 'E') s.toList
  let exponent ← match exponent with
    | none => some 0
    | some cs => exponent? cs
  if base = [] then none
  else
    let (lead, trail) := splitAt (· = '.') base
    let trail := trail.getD []
    let places : Int := (trail.filter (· ≠ '_')).length
    let coefficient ← coefficient? (lead ++ trail)
    let scale := places - exponent
    if -0x8000000000000000 ≤ scale ∧ scale < 0x8000000000000000 then some ⟨coefficient, scale⟩
    else none

end BigDecimal

end Messaging.Number
