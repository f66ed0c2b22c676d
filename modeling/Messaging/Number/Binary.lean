/-!
# Binary floating-point numbers

A number of 32 or 64 bits is kept as its bit pattern, and every operation on it is exact integer
arithmetic followed by one rounding. `Format.reading` says what a pattern stands for, `mantissa *
2 ^ exponent` for the finite ones; `Format.round` takes a fraction to the nearest pattern, a tie to
the even one. The patterns of the non-negative numbers are ordered as the numbers are, so a
rounding that carries into the next power of two, or beyond the largest finite number into the
infinity, needs no case of its own.
-/

namespace Messaging.Number

/-- How the bits of a pattern are shared out: the sign bit, the exponent, then the fraction. -/
structure Format where
  /-- Bits of the stored fraction. -/
  fractionBits : Nat
  /-- Bits of the stored exponent. -/
  exponentBits : Nat
  deriving DecidableEq, Repr

namespace Format

/-- The format of 32 bits. -/
def single : Format := ⟨23, 8⟩

/-- The format of 64 bits. -/
def double : Format := ⟨52, 11⟩

/-- The exponent of the last place of the smallest numbers. -/
def minExponent (f : Format) : Int := 2 - (Nat.pow 2 (f.exponentBits - 1) : Nat) - f.fractionBits

/-- The pattern of the positive infinity, one above the largest finite number. -/
def infinity (f : Format) : Nat := (Nat.pow 2 f.exponentBits - 1) * Nat.pow 2 f.fractionBits

/-- The weight of the sign bit. -/
def signWeight (f : Format) : Nat := Nat.pow 2 (f.fractionBits + f.exponentBits)

end Format

/-- What a bit pattern stands for. A finite number is `± mantissa * 2 ^ exponent`. -/
inductive Reading where
  | nan
  | infinite (negative : Bool)
  | finite (negative : Bool) (mantissa : Nat) (exponent : Int)
  deriving DecidableEq, Repr

/-- A non-negative fraction; the denominator is never zero. -/
structure Fraction where
  numerator : Nat
  denominator : Nat
  deriving DecidableEq, Repr

namespace Fraction

/-- `n * base ^ e` for an exponent of either sign. -/
def scaled (n base : Nat) (e : Int) : Fraction :=
  if 0 ≤ e then ⟨n * Nat.pow base e.toNat, 1⟩ else ⟨n, Nat.pow base (-e).toNat⟩

/-- The product. -/
def mul (a b : Fraction) : Fraction :=
  ⟨a.numerator * b.numerator, a.denominator * b.denominator⟩

/-- The quotient by a fraction that is not zero. -/
def div (a b : Fraction) : Fraction :=
  ⟨a.numerator * b.denominator, a.denominator * b.numerator⟩

/-- The nearest whole number, a half going to the even neighbour. -/
def nearest (a : Fraction) : Nat :=
  let whole := a.numerator / a.denominator
  let twice := 2 * (a.numerator % a.denominator)
  if twice < a.denominator then whole
  else if a.denominator < twice then whole + 1
  else whole + whole % 2

/-- The whole part. -/
def floor (a : Fraction) : Nat := a.numerator / a.denominator

end Fraction

namespace Format

variable (f : Format)

/-- What the pattern `bits` stands for. -/
def reading (bits : Nat) : Reading :=
  let negative := f.signWeight ≤ bits
  let magnitude := bits % f.signWeight
  let stored := magnitude / Nat.pow 2 f.fractionBits
  let fraction := magnitude % Nat.pow 2 f.fractionBits
  if f.infinity < magnitude then .nan
  else if magnitude = f.infinity then .infinite negative
  else if stored = 0 then .finite negative fraction f.minExponent
  else .finite negative (Nat.pow 2 f.fractionBits + fraction) (f.minExponent + (stored - 1 : Nat))

/-- The exponent of the last place that a non-zero fraction keeps when it is rounded. -/
def placeOf (a : Fraction) : Int :=
  let guess : Int := (a.numerator.log2 : Int) - a.denominator.log2 - f.fractionBits
  let scaled := a.mul (.scaled 1 2 (-guess))
  let exact := if scaled.floor < Nat.pow 2 f.fractionBits then guess - 1 else guess
  max exact f.minExponent

/-- The magnitude pattern nearest to a fraction; from half a place above the largest finite number
on it is the infinity. -/
def round (a : Fraction) : Nat :=
  if a.numerator = 0 then 0
  else
    let place := f.placeOf a
    let steps := (a.mul (.scaled 1 2 (-place))).nearest
    min ((place - f.minExponent).toNat * Nat.pow 2 f.fractionBits + steps) f.infinity

/-- A magnitude with its sign. -/
def withSign (negative : Bool) (magnitude : Nat) : Nat :=
  if negative then f.signWeight + magnitude else magnitude

/-- The value of a finite number without its sign. -/
def valueOf (mantissa : Nat) (exponent : Int) : Fraction := .scaled mantissa 2 exponent

end Format

/-- A number of 64 bits. -/
structure Double where
  bits : UInt64
  deriving DecidableEq, Repr, Inhabited

/-- A number of 32 bits. -/
structure Single where
  bits : UInt32
  deriving DecidableEq, Repr, Inhabited

namespace Double

/-- What the number is. -/
def reading (x : Double) : Reading := Format.double.reading x.bits.toNat

/-- The number nearest to a signed fraction. -/
def round (negative : Bool) (a : Fraction) : Double :=
  ⟨(Format.double.withSign negative (Format.double.round a)).toUInt64⟩

/-- Zero with a sign. -/
def zero (negative : Bool) : Double := round negative ⟨0, 1⟩

/-- An infinity. -/
def infinite (negative : Bool) : Double :=
  ⟨(Format.double.withSign negative Format.double.infinity).toUInt64⟩

/-- The quiet pattern that stands for no number. -/
def nan : Double := ⟨(Format.double.infinity + 0x8000000000000).toUInt64⟩

/-- The number nearest to an integer. -/
def ofInt (i : Int) : Double := round (decide (i < 0)) ⟨i.natAbs, 1⟩

/-- Neither an infinity nor without value. -/
def isFinite (x : Double) : Bool :=
  match x.reading with
  | .finite .. => true
  | _ => false

/-- The integer that the number is, if it is one. -/
def toInt? (x : Double) : Option Int :=
  match x.reading with
  | .finite negative mantissa exponent =>
    let a := Format.valueOf mantissa exponent
    if a.numerator % a.denominator = 0 then
      some (if negative then -(a.floor : Int) else a.floor)
    else none
  | _ => none

end Double

namespace Single

/-- What the number is. -/
def reading (x : Single) : Reading := Format.single.reading x.bits.toNat

/-- The number nearest to a signed fraction. -/
def round (negative : Bool) (a : Fraction) : Single :=
  ⟨(Format.single.withSign negative (Format.single.round a)).toUInt32⟩

/-- Zero with a sign. -/
def zero (negative : Bool) : Single := round negative ⟨0, 1⟩

/-- An infinity. -/
def infinite (negative : Bool) : Single :=
  ⟨(Format.single.withSign negative Format.single.infinity).toUInt32⟩

/-- The quiet pattern that stands for no number. -/
def nan : Single := ⟨(Format.single.infinity + 0x400000).toUInt32⟩

/-- The number nearest to an integer. -/
def ofInt (i : Int) : Single := round (decide (i < 0)) ⟨i.natAbs, 1⟩

/-- Neither an infinity nor without value. -/
def isFinite (x : Single) : Bool :=
  match x.reading with
  | .finite .. => true
  | _ => false

/-- The same number with 64 bits. -/
def toDouble (x : Single) : Double :=
  match x.reading with
  | .nan => .nan
  | .infinite negative => .infinite negative
  | .finite negative mantissa exponent => .round negative (Format.valueOf mantissa exponent)

end Single

/-- The nearest number with 32 bits; what is too large becomes an infinity. -/
def Double.toSingle (x : Double) : Single :=
  match x.reading with
  | .nan => .nan
  | .infinite negative => .infinite negative
  | .finite negative mantissa exponent => .round negative (Format.valueOf mantissa exponent)

namespace Double

/-- A finite number times, or divided by, a power of ten that is itself first rounded. Decimal
texts are read with these two. -/
def scaleTen (x : Double) (up : Bool) (power : Nat) : Double :=
  match x.reading, (round false ⟨Nat.pow 10 power, 1⟩).reading with
  | .finite negative m e, .finite _ m' e' =>
    let a := Format.valueOf m e
    let b := Format.valueOf m' e'
    round negative (if up then a.mul b else a.div b)
  | _, _ => x

end Double

end Messaging.Number
