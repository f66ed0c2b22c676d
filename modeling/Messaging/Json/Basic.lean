import Messaging.Number.Binary
import Messaging.Table

/-!
# JSON values

A number is either an integer that fits 64 bits, signed or unsigned, or a binary number of 64 bits;
`1` and `1.0` are different values. An object is a table, so equal objects have equal entries in
equal order.
-/

namespace Messaging

open Number

namespace Json

/-- A JSON number. Integers lie between `-2 ^ 63` and `2 ^ 64 - 1`. -/
inductive Num where
  | int (value : Int)
  | float (value : Double)
  deriving DecidableEq, Repr

namespace Num

/-- The number as a signed integer below a bound, if it is written as one. -/
def toInt? (bound : Int) : Num → Option Int
  | int i => if -bound ≤ i ∧ i < bound then some i else none
  | float _ => none

/-- The number as a byte, if it is written as one. -/
def toByte? : Num → Option UInt8
  | int i => if 0 ≤ i ∧ i < 256 then some i.toNat.toUInt8 else none
  | float _ => none

/-- The nearest floating-point number. -/
def toDouble : Num → Double
  | int i => Double.ofInt i
  | float x => x

end Num

end Json

/-- A JSON value. -/
inductive Json where
  | null
  | bool (value : Bool)
  | number (value : Json.Num)
  | string (value : String)
  | array (items : List Json)
  | object (entries : List (String × Json))
  deriving Repr, Inhabited

namespace Json

/-- The integer as a value. -/
def int (i : Int) : Json := number (.int i)

/-- The value of a floating-point number; JSON has no spelling for the ones that are not finite. -/
def ofDouble (x : Double) : Json := if x.isFinite then number (.float x) else null

/-- The value of a floating-point number of 32 bits, by way of 64. -/
def ofSingle (x : Single) : Json := ofDouble x.toDouble

/-- An object from entries in any order. -/
def ofEntries (entries : List (String × Json)) : Json := object (Table.ofList entries)

/-- Bytes as an array of numbers. -/
def ofBytes (bytes : List UInt8) : Json := array (bytes.map fun b => int b.toNat)

mutual

/-- Equality of values, decided. -/
def beq : Json → Json → Bool
  | null, null => true
  | bool a, bool b => a == b
  | number a, number b => a == b
  | string a, string b => a == b
  | array as, array bs => beqItems as bs
  | object as, object bs => beqEntries as bs
  | _, _ => false

/-- Equality of lists of values, decided. -/
def beqItems : List Json → List Json → Bool
  | [], [] => true
  | a :: as, b :: bs => beq a b && beqItems as bs
  | _, _ => false

/-- Equality of lists of entries, decided. -/
def beqEntries : List (String × Json) → List (String × Json) → Bool
  | [], [] => true
  | (k, a) :: as, (l, b) :: bs => k == l && beq a b && beqEntries as bs
  | _, _ => false

end

instance : BEq Json := ⟨beq⟩

mutual

/-- The number of values in a value, itself included. -/
def size : Json → Nat
  | array items => sizes items + 1
  | object entries => entrySizes entries + 1
  | _ => 1

/-- The number of values in a list of them. -/
def sizes : List Json → Nat
  | [] => 0
  | a :: rest => a.size + sizes rest

/-- The number of values in a list of entries. -/
def entrySizes : List (String × Json) → Nat
  | [] => 0
  | (_, a) :: rest => a.size + entrySizes rest

end

end Json

end Messaging
