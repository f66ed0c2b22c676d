import Messaging.Proofs.Avro.Binary
import Messaging.Proofs.Number.BigDecimal
import Mathlib.Tactic.Ring

/-! # Big decimals in the binary encoding

`ofTwosComplement_twosComplement`: an integer is read back from its bytes in two's complement.
`readBigDecimal_bytes`: so is a big decimal from its bytes, whatever its scale. With that all values
are read back but floating-point numbers, within the limits of the reader (`legible_limited`). -/

namespace Messaging.Avro

open Number Binary

namespace Binary

/-! ### Two's complement -/

/-- The number whose bytes, the highest first, are given. -/
def unsigned (b : Bytes) : Int := b.foldl (fun n b => 256 * n + b.toNat) 0

theorem foldl_bytes (b : Bytes) (n : Int) :
    b.foldl (fun n b => 256 * n + (b.toNat : Int)) n = n * 256 ^ b.length + unsigned b := by
  induction b generalizing n with
  | nil => simp [unsigned]
  | cons a rest ih =>
    rw [unsigned, List.foldl_cons, List.foldl_cons, ih, ih (256 * 0 + a.toNat), List.length_cons]
    ring

theorem unsigned_cons (a : UInt8) (b : Bytes) :
    unsigned (a :: b) = a.toNat * 256 ^ b.length + unsigned b := by
  rw [unsigned, List.foldl_cons, foldl_bytes, Int.mul_zero, Int.zero_add]

/-- The first byte has the sign. -/
theorem ofTwosComplement_cons (a : UInt8) (b : Bytes) : ofTwosComplement (a :: b) =
    (if 128 ≤ a then (a.toNat : Int) - 256 else a.toNat) * 256 ^ b.length + unsigned b := by
  have hvalue : ofTwosComplement (a :: b) =
      if 128 ≤ a then unsigned (a :: b) - ((256 ^ (a :: b).length : Nat) : Int)
      else unsigned (a :: b) := by
    simp only [ofTwosComplement, isNegative, decide_eq_true_eq]
    rfl
  rw [hvalue, unsigned_cons]
  split
  · rw [List.length_cons]
    push_cast
    ring
  · rfl

theorem toNat_toUInt8_emod (i : Int) : ((i.emod 256).toNat.toUInt8.toNat : Int) = i.emod 256 := by
  have hlow := Int.emod_nonneg i (b := 256) (by decide)
  have hhigh := Int.emod_lt_of_pos i (b := 256) (by decide)
  change (((i % 256).toNat.toUInt8.toNat : Nat) : Int) = i % 256
  rw [UInt8.toNat_ofNat']
  omega

/-- The last byte of a small integer has its sign. -/
theorem ofTwosComplement_last {i : Int} (h : -128 ≤ i ∧ i < 128) (tail : Bytes) :
    ofTwosComplement ((i.emod 256).toNat.toUInt8 :: tail) =
      i * 256 ^ tail.length + unsigned tail := by
  have hbyte := toNat_toUInt8_emod i
  have hsign : 128 ≤ (i.emod 256).toNat.toUInt8 ↔ i < 0 := by
    rw [UInt8.le_iff_toNat_le]
    change 128 ≤ _ ↔ _
    change _ = i % 256 at hbyte
    omega
  rw [ofTwosComplement_cons, hbyte]
  congr 2
  change _ = i % 256 at hbyte
  split
  · next hneg =>
    have := hsign.mp hneg
    change i % 256 - 256 = i
    omega
  · next hneg =>
    have := mt hsign.mpr hneg
    change i % 256 = i
    omega

/-- The bytes of an integer that takes at most one byte more than there are steps, in front of
others. -/
theorem ofTwosComplement_within (fuel : Nat) (i : Int) (tail : Bytes)
    (h : -(128 * 256 ^ fuel) ≤ i ∧ i < 128 * 256 ^ fuel) :
    ofTwosComplement (twosComplementWithin fuel i tail) =
      i * 256 ^ tail.length + unsigned tail := by
  induction fuel generalizing i tail with
  | zero => exact ofTwosComplement_last (by simpa using h) tail
  | succ fuel ih =>
    rw [twosComplementWithin]
    split
    · next hi => exact ofTwosComplement_last hi tail
    · have hdiv : i.fdiv 256 = i / 256 := Int.fdiv_eq_ediv_of_nonneg i (by decide)
      have hbyte := toNat_toUInt8_emod i
      change _ = i % 256 at hbyte
      have hi := Int.mul_ediv_add_emod i 256
      rw [Int.pow_succ] at h
      rw [hdiv, ih _ _ (by omega), unsigned_cons, hbyte, List.length_cons, Int.pow_succ]
      calc i / 256 * (256 ^ tail.length * 256) + (i % 256 * 256 ^ tail.length + unsigned tail)
          = (256 * (i / 256) + i % 256) * 256 ^ tail.length + unsigned tail := by ring
        _ = i * 256 ^ tail.length + unsigned tail := by rw [hi]

/-- An integer is read back from its bytes in two's complement. -/
theorem ofTwosComplement_twosComplement (i : Int) : ofTwosComplement (twosComplement i) = i := by
  -- Its magnitude has `log2 + 1` bits, and the bytes have room for seven more.
  have hbits : i.natAbs < 128 * 256 ^ (i.natAbs.log2 / 8 + 1) := by
    have hpow : 128 * 256 ^ (i.natAbs.log2 / 8 + 1) = 2 ^ (7 + 8 * (i.natAbs.log2 / 8 + 1)) := by
      rw [Nat.pow_add 2 7, Nat.pow_mul 2 8]
    rw [hpow]
    exact Nat.lt_of_lt_of_le Nat.lt_log2_self (Nat.pow_le_pow_right (by decide) (by omega))
  have hrange : (i.natAbs : Int) < 128 * 256 ^ (i.natAbs.log2 / 8 + 1) := by exact_mod_cast hbits
  rw [twosComplement, ofTwosComplement_within _ _ _ (by omega)]
  simp [unsigned]

/-! ### Big decimals -/

/-- The bytes of a big decimal, without their length. -/
def bigDecimalBytes (d : BigDecimal) : Bytes :=
  writeBytes (twosComplement d.coefficient) ++ writeInt d.scale

/-- A big decimal is read back from its bytes. -/
theorem readBigDecimal_bytes {d : BigDecimal}
    (hscale : -0x8000000000000000 ≤ d.scale ∧ d.scale < 0x8000000000000000)
    (hlength : (bigDecimalBytes d).length ≤ maxLength) :
    readBigDecimal (bigDecimalBytes d) = .ok d := by
  have hcoefficient : (twosComplement d.coefficient).length ≤ maxLength := by
    simp only [bigDecimalBytes, writeBytes, List.length_append] at hlength
    omega
  have hlast := readLong_writeInt hscale []
  rw [List.append_nil] at hlast
  rw [bigDecimalBytes, readBigDecimal, readBytes_writeBytes hcoefficient]
  simp only [Except.bind, hlast, Except.map, ofTwosComplement_twosComplement]

end Binary

namespace Value

/-- Are the lengths and the index of the value, by itself, within the limits of the reader? Those of
a big decimal are too. -/
def Limited : Schema → Value → Prop
  | _, bigDecimal d => (bigDecimalBytes d).length ≤ maxLength
  | _, union index _ => index < 0x8000000000000000
  | s, v => Short s v

/-- Within these limits all values are read back but floating-point numbers. -/
theorem legible_limited {names : Names} {P : List Schema} (hfloat : ∀ s ∈ P, s.FloatFree) :
    Legible names P Limited where
  short s v h := by
    cases v <;> first | exact h | trivial
  index _ h _ := h
  leaf s hs leaf v h hdecimal := by
    by_cases hbig : s = .bigDecimal
    · subst hbig
      cases v <;> first | exact absurd leaf h | skip
      case bigDecimal d =>
        refine ⟨_, rfl, fun hlimit => .of_step fun m rest => ?_⟩
        have hlength : (bigDecimalBytes d).length ≤ maxLength := hlimit
        have hwrite : writeBigDecimal d = writeBytes (bigDecimalBytes d) := rfl
        rw [decodeWithin, hwrite, readBytes_writeBytes hlength]
        simp only [Except.bind, readBigDecimal_bytes h hlength]
        rfl
    · obtain ⟨b, hb, hdecodes⟩ : ∃ b, v.encodeAs names s = .ok b ∧
          (Short s v → Decodes names s b v) :=
        leaf_decodes leaf ((hfloat s hs).exact hbig) h hdecimal
      refine ⟨b, hb, fun hlimit => hdecodes ?_⟩
      cases v <;> first | exact hlimit | trivial

end Value

end Messaging.Avro
