import Messaging.Bytes

/-!
# Integers of variable length

A natural number is written seven bits to a byte, the lowest first, and every byte but the last has
its highest bit set. Signed integers are first interleaved: 0, -1, 1, -2, 2 and so on.
-/

namespace Messaging.Number.Varint

/-- The bytes of a natural number in at most `fuel` groups before the last. -/
def encodeWithin : Nat → Nat → Bytes
  | 0, n => [n.toUInt8]
  | fuel + 1, n =>
    if n < 128 then [n.toUInt8] else (128 + n % 128).toUInt8 :: encodeWithin fuel (n / 128)

/-- The bytes of a natural number of 64 bits. -/
def encode (n : Nat) : Bytes := encodeWithin 9 n

/-- Why no number can be read. -/
inductive Fault where
  /-- The data ends before the number does. -/
  | truncated
  /-- The number has more than ten bytes. -/
  | overlong
  deriving DecidableEq, Repr

/-- Reads a number that may have `count` bytes more, the next one counting `weight`. -/
def decodeWithin : Nat → Nat → Bytes → Except Fault (Nat × Bytes)
  | 0, _, _ => .error .overlong
  | _ + 1, _, [] => .error .truncated
  | count + 1, weight, b :: rest =>
    if b.toNat < 128 then .ok (b.toNat * weight, rest)
    else (decodeWithin count (128 * weight) rest).map fun (n, rest) =>
      ((b.toNat - 128) * weight + n, rest)

/-- Reads a number of at most ten bytes; bits beyond 64 are dropped. -/
def decode (bytes : Bytes) : Except Fault (Nat × Bytes) :=
  (decodeWithin 10 1 bytes).map fun (n, rest) => (n % 0x10000000000000000, rest)

/-- The place of an integer in the row 0, -1, 1, -2, 2 and so on. -/
def zigzag (i : Int) : Nat := if i < 0 then 2 * i.natAbs - 1 else 2 * i.natAbs

/-- The integer at a place of the row. -/
def unzigzag (n : Nat) : Int := if n % 2 = 0 then (n / 2 : Nat) else -((n / 2 : Nat) : Int) - 1

end Messaging.Number.Varint
