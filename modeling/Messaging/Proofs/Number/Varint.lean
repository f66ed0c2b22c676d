import Messaging.Number.Varint
import Mathlib.Data.List.Basic

/-! # Integers of variable length are read back

`decode_encode`: a natural number of 64 bits is read back from its bytes, whatever follows them.
`unzigzag_zigzag`: interleaving the signed integers loses nothing. -/

namespace Messaging.Number.Varint

theorem decodeWithin_encodeWithin (fuel weight n : Nat) (rest : Bytes)
    (h : n < Nat.pow 128 (fuel + 1)) :
    decodeWithin (fuel + 1) weight (encodeWithin fuel n ++ rest) = .ok (n * weight, rest) := by
  induction fuel generalizing weight n with
  | zero =>
    have hn : n < 128 := by simpa using h
    have hb : n.toUInt8.toNat = n := by
      rw [UInt8.toNat_ofNat']
      omega
    simp [encodeWithin, decodeWithin, hb, hn]
  | succ fuel ih =>
    by_cases hn : n < 128
    · have hb : n.toUInt8.toNat = n := by
        rw [UInt8.toNat_ofNat']
        omega
      simp [encodeWithin, decodeWithin, hb, hn]
    · have hb : (128 + n % 128).toUInt8.toNat = 128 + n % 128 := by
        rw [UInt8.toNat_ofNat']
        omega
      have hdiv : n / 128 < Nat.pow 128 (fuel + 1) := by
        rw [Nat.div_lt_iff_lt_mul (by decide)]
        exact h
      have hsum : n % 128 * weight + n / 128 * (128 * weight) = n * weight := by
        rw [← Nat.mul_assoc, ← Nat.add_mul, Nat.mul_comm (n / 128), Nat.mod_add_div]
      rw [encodeWithin, if_neg hn, List.cons_append, decodeWithin, hb, if_neg (by omega),
        ih (128 * weight) (n / 128) hdiv]
      simp [Except.map, hsum]

/-- A number of 64 bits is read back from its bytes. -/
theorem decode_encode {n : Nat} (h : n < 0x10000000000000000) (rest : Bytes) :
    decode (encode n ++ rest) = .ok (n, rest) := by
  have hn : n < Nat.pow 128 (9 + 1) := Nat.lt_trans h (by decide)
  rw [decode, encode, decodeWithin_encodeWithin 9 1 n rest hn]
  simp only [Except.map, Nat.mul_one]
  exact congrArg (fun n => Except.ok (n, rest)) (Nat.mod_eq_of_lt h)

theorem unzigzag_zigzag (i : Int) : unzigzag (zigzag i) = i := by
  unfold unzigzag zigzag
  split <;> split <;> omega

theorem zigzag_lt {i : Int} (h : -0x8000000000000000 ≤ i ∧ i < 0x8000000000000000) :
    zigzag i < 0x10000000000000000 := by
  unfold zigzag
  split <;> omega

end Messaging.Number.Varint
