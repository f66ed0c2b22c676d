import Messaging.Number.Binary
import Mathlib.Algebra.Order.Field.Power
import Mathlib.Algebra.Order.Field.Rat
import Mathlib.Tactic.FieldSimp
import Mathlib.Tactic.NormNum
import Mathlib.Tactic.Positivity
import Mathlib.Tactic.Ring

/-! # Rounding what needs no rounding

A number that a format has a pattern for is rounded to that pattern (`Format.round_valueOf`). So a
number of 32 bits that is made one of 64 bits and rounded to 32 bits again is the same number, its
sign included (`Single.toSingle_toDouble`).

A finite pattern is `k * 2 ^ p` for a mantissa `k` and a place `p` that go together
(`Format.Places`), and each such pair has one pattern (`Format.patternOf`); `reading_patternOf` and
`exists_patternOf` say that readings are those pairs. Fractions are compared as rational numbers. -/

namespace Messaging.Number

/-! ### Fractions -/

namespace Fraction

variable {a b : Fraction}

/-- The number that a fraction is. -/
def value (a : Fraction) : ℚ := a.numerator / a.denominator

theorem value_mul (a b : Fraction) : (a.mul b).value = a.value * b.value := by
  simp only [value, mul, Nat.cast_mul]
  rw [div_mul_div_comm]

theorem denominator_scaled_pos (n : Nat) (e : Int) : 0 < (scaled n 2 e).denominator := by
  unfold scaled
  split
  · exact Nat.one_pos
  · exact Nat.two_pow_pos _

theorem value_scaled (n : Nat) (e : Int) : (scaled n 2 e).value = n * (2 : ℚ) ^ e := by
  unfold scaled value
  split
  · next h =>
    obtain ⟨k, rfl⟩ := Int.eq_ofNat_of_zero_le h
    simp
  · next h =>
    obtain ⟨k, hk⟩ := Int.eq_ofNat_of_zero_le (show 0 ≤ -e by omega)
    obtain rfl : e = -(k : Int) := by omega
    simp [div_eq_mul_inv]

theorem floor_lt_iff (hd : 0 < a.denominator) (n : Nat) : a.floor < n ↔ a.value < n := by
  have hd' : (0 : ℚ) < a.denominator := by exact_mod_cast hd
  rw [floor, Nat.div_lt_iff_lt_mul hd, value, div_lt_iff₀ hd']
  exact_mod_cast Iff.rfl

/-- A fraction that is whole is nearest to itself. -/
theorem nearest_of_value (hd : 0 < a.denominator) {n : Nat} (h : a.value = n) : a.nearest = n := by
  have hd' : (a.denominator : ℚ) ≠ 0 := by exact_mod_cast hd.ne'
  have hnumerator : a.numerator = n * a.denominator := by
    rw [value, div_eq_iff hd'] at h
    exact_mod_cast h
  unfold nearest
  simp only [hnumerator, Nat.mul_mod_left, Nat.mul_div_cancel _ hd, Nat.mul_zero, if_pos hd]

end Fraction

/-! ### Patterns -/

namespace Format

open Fraction

variable {f : Format}

/-- A mantissa has the bits of the format at a place; it has fewer only at the last place of all. -/
structure Places (f : Format) (k : Nat) (p : Int) : Prop where
  below : k < 2 ^ (f.fractionBits + 1)
  least : f.minExponent ≤ p
  full : p = f.minExponent ∨ 2 ^ f.fractionBits ≤ k

/-- The pattern of a mantissa at a place, without a sign. -/
def patternOf (f : Format) (k : Nat) (p : Int) : Nat :=
  (p - f.minExponent).toNat * Nat.pow 2 f.fractionBits + k

theorem denominator_valueOf_pos (m : Nat) (e : Int) : 0 < (valueOf m e).denominator :=
  denominator_scaled_pos m e

theorem value_valueOf (m : Nat) (e : Int) : (valueOf m e).value = m * (2 : ℚ) ^ e :=
  value_scaled m e

theorem numerator_valueOf_ne_zero {m : Nat} (hm : m ≠ 0) (e : Int) :
    (valueOf m e).numerator ≠ 0 := by
  unfold valueOf scaled
  split
  · exact Nat.mul_ne_zero hm (Nat.two_pow_pos _).ne'
  · exact hm

/-- How many bits the whole part of a number has. -/
theorem log2_valueOf {m : Nat} (hm : m ≠ 0) (e : Int) :
    ((valueOf m e).numerator.log2 : Int) - (valueOf m e).denominator.log2 = m.log2 + e := by
  unfold valueOf scaled
  split
  · next h =>
    obtain ⟨k, rfl⟩ := Int.eq_ofNat_of_zero_le h
    have hlog : (m * 2 ^ k).log2 = m.log2 + k := by
      rw [Nat.log2_eq_iff (Nat.mul_ne_zero hm (Nat.two_pow_pos k).ne')]
      have hlow := Nat.log2_self_le hm
      have hhigh := @Nat.lt_log2_self m
      constructor
      · rw [pow_add]
        exact Nat.mul_le_mul_right _ hlow
      · rw [show m.log2 + k + 1 = (m.log2 + 1) + k by omega, pow_add _ (m.log2 + 1)]
        exact Nat.mul_lt_mul_of_pos_right hhigh (Nat.two_pow_pos k)
    simp only [Int.toNat_natCast, Nat.pow_eq, hlog]
    have : Nat.log2 1 = 0 := by decide
    omega
  · next h =>
    simp only [Nat.pow_eq, Nat.log2_two_pow]
    omega

/-- The last place that a number keeps, if the format has it, is that of its highest bit. -/
theorem placeOf_valueOf (f : Format) {m : Nat} (hm : m ≠ 0) (e : Int) :
    f.placeOf (valueOf m e) = max (m.log2 + e - f.fractionBits) f.minExponent := by
  unfold placeOf
  simp only [log2_valueOf hm e]
  congr 1
  rw [if_neg]
  rw [floor_lt_iff (Nat.mul_pos (denominator_valueOf_pos m e) (denominator_scaled_pos _ _)),
    value_mul, value_valueOf, value_scaled, not_lt]
  have hbits : ((2 : ℚ) ^ m.log2) ≤ m := by exact_mod_cast Nat.log2_self_le hm
  calc ((Nat.pow 2 f.fractionBits : Nat) : ℚ)
      = 2 ^ m.log2 * (2 ^ e * 2 ^ (-(m.log2 + e - f.fractionBits) : Int)) := by
        rw [← zpow_add₀ two_ne_zero, ← zpow_natCast, ← zpow_add₀ two_ne_zero,
          show (m.log2 : Int) + (e + -(m.log2 + e - f.fractionBits)) = f.fractionBits by ring]
        simp
    _ ≤ m * (2 ^ e * 2 ^ (-(m.log2 + e - f.fractionBits) : Int)) :=
        mul_le_mul_of_nonneg_right hbits (by positivity)
    _ = _ := by push_cast; ring

/-- Two spellings of one number have the highest bit at one place. -/
theorem log2_add_eq {m k : Nat} {e p : Int} (hm : m ≠ 0) (hk : k ≠ 0)
    (h : (m : ℚ) * 2 ^ e = k * 2 ^ p) : (m.log2 : Int) + e = k.log2 + p := by
  have hle : ∀ {m k : Nat} {e p : Int}, m ≠ 0 → (m : ℚ) * 2 ^ e = k * 2 ^ p →
      (m.log2 : Int) + e ≤ k.log2 + p := by
    intro m k e p hm h
    have hlow : (2 : ℚ) ^ (m.log2 : Int) ≤ m := by exact_mod_cast Nat.log2_self_le hm
    have hhigh : (k : ℚ) < 2 ^ ((k.log2 : Int) + 1) := by exact_mod_cast @Nat.lt_log2_self k
    have hlt : (2 : ℚ) ^ ((m.log2 : Int) + e) < 2 ^ ((k.log2 : Int) + 1 + p) :=
      calc (2 : ℚ) ^ ((m.log2 : Int) + e) = 2 ^ (m.log2 : Int) * 2 ^ e := zpow_add₀ two_ne_zero _ _
        _ ≤ m * 2 ^ e := mul_le_mul_of_nonneg_right hlow (by positivity)
        _ = k * 2 ^ p := h
        _ < 2 ^ ((k.log2 : Int) + 1) * 2 ^ p := mul_lt_mul_of_pos_right hhigh (by positivity)
        _ = _ := (zpow_add₀ two_ne_zero _ _).symm
    have := (zpow_lt_zpow_iff_right₀ (by norm_num)).mp hlt
    omega
  exact le_antisymm (hle hm h) (hle hk h.symm)

/-- **A number that a format has is rounded to its pattern.** -/
theorem round_valueOf {m k : Nat} {e p : Int} (h : (m : ℚ) * 2 ^ e = k * 2 ^ p)
    (hplaces : f.Places k p) (hfinite : f.patternOf k p ≤ f.infinity) :
    f.round (valueOf m e) = f.patternOf k p := by
  by_cases hk : k = 0
  · have hm : m = 0 := by
      subst hk
      have hzero : (m : ℚ) * 2 ^ e = 0 := by rw [h, Nat.cast_zero, zero_mul]
      exact_mod_cast (mul_eq_zero.mp hzero).resolve_right (zpow_ne_zero _ two_ne_zero)
    have hp : p = f.minExponent := hplaces.full.resolve_right fun hfull =>
      absurd (hk ▸ hfull) (Nat.not_le.mpr (Nat.two_pow_pos _))
    have hnumerator : (valueOf m e).numerator = 0 := by
      unfold valueOf scaled
      rw [hm]
      split <;> simp
    rw [round, if_pos hnumerator, patternOf, hk, hp, Int.sub_self, Int.toNat_zero, Nat.zero_mul]
  have hm : m ≠ 0 := by
    rintro rfl
    rw [Nat.cast_zero, zero_mul, eq_comm] at h
    exact hk (by exact_mod_cast (mul_eq_zero.mp h).resolve_right (zpow_ne_zero _ two_ne_zero))
  have hplace : f.placeOf (valueOf m e) = p := by
    rw [placeOf_valueOf f hm, log2_add_eq hm hk h]
    have hbelow := (Nat.log2_lt hk).mpr hplaces.below
    rcases hplaces.full with hp | hfull
    · omega
    · have hlog : k.log2 = f.fractionBits := (Nat.log2_eq_iff hk).mpr ⟨hfull, hplaces.below⟩
      have := hplaces.least
      omega
  -- At its place the number is whole, so there is nothing to round.
  have hsteps : ((valueOf m e).mul (scaled 1 2 (-p))).nearest = k := by
    refine nearest_of_value
      (Nat.mul_pos (denominator_valueOf_pos m e) (denominator_scaled_pos _ _)) ?_
    rw [value_mul, value_valueOf, value_scaled, h, Nat.cast_one, one_mul, mul_assoc,
      ← zpow_add₀ two_ne_zero, add_neg_cancel, zpow_zero, mul_one]
  rw [round, if_neg (numerator_valueOf_ne_zero hm e)]
  simp only [hplace, hsteps]
  exact min_eq_left hfinite

/-! ### Readings -/

/-- A pattern with a sign is taken apart into these. -/
theorem withSign_mod {n : Nat} (h : n < f.signWeight) (negative : Bool) :
    f.withSign negative n % f.signWeight = n ∧
      (f.signWeight ≤ f.withSign negative n ↔ negative = true) := by
  cases negative with
  | false => exact ⟨Nat.mod_eq_of_lt h, iff_of_false (Nat.not_le.mpr h) Bool.false_ne_true⟩
  | true =>
    refine ⟨?_, iff_of_true (Nat.le_add_right _ _) rfl⟩
    rw [withSign, if_pos rfl, Nat.add_mod_left, Nat.mod_eq_of_lt h]

theorem withSign_lt {n : Nat} (h : n < f.signWeight) (negative : Bool) :
    f.withSign negative n < 2 * f.signWeight := by
  unfold withSign
  split <;> omega

theorem withSign_of_lt {bits : Nat} (h : bits < 2 * f.signWeight) :
    f.withSign (decide (f.signWeight ≤ bits)) (bits % f.signWeight) = bits := by
  unfold withSign
  by_cases hsign : f.signWeight ≤ bits
  · rw [if_pos (decide_eq_true hsign)]
    obtain ⟨r, rfl⟩ := Nat.exists_eq_add_of_le hsign
    rw [Nat.add_mod_left, Nat.mod_eq_of_lt (by omega)]
  · rw [if_neg (by simpa using hsign), Nat.mod_eq_of_lt (Nat.not_le.mp hsign)]

theorem infinity_lt_signWeight (f : Format) : f.infinity < f.signWeight := by
  unfold infinity signWeight
  rw [Nat.pow_eq, Nat.pow_eq, Nat.pow_eq, Nat.add_comm, pow_add]
  have := Nat.two_pow_pos f.exponentBits
  exact Nat.mul_lt_mul_of_pos_right (by omega) (Nat.two_pow_pos _)

/-- The pattern of a mantissa at a place is read as these. -/
theorem reading_patternOf {k : Nat} {p : Int} (hplaces : f.Places k p)
    (hfinite : f.patternOf k p < f.infinity) (negative : Bool) :
    f.reading (f.withSign negative (f.patternOf k p)) = .finite negative k p := by
  obtain ⟨hmod, hsign⟩ :=
    f.withSign_mod (hfinite.trans f.infinity_lt_signWeight) negative
  have hnegative : decide (f.signWeight ≤ f.withSign negative (f.patternOf k p)) = negative :=
    Bool.eq_iff_iff.mpr (decide_eq_true_iff.trans hsign)
  have hbase := Nat.two_pow_pos f.fractionBits
  have hbelow := hplaces.below
  rw [pow_succ] at hbelow
  unfold reading
  simp only [hmod, hnegative]
  rw [if_neg (Nat.not_lt.mpr hfinite.le), if_neg hfinite.ne]
  unfold patternOf
  simp only [Nat.pow_eq]
  by_cases hsmall : k < 2 ^ f.fractionBits
  · have hp : p = f.minExponent := hplaces.full.resolve_right (Nat.not_le.mpr hsmall)
    rw [hp, Int.sub_self, Int.toNat_zero, Nat.zero_mul, Nat.zero_add, Nat.div_eq_of_lt hsmall,
      if_pos rfl, Nat.mod_eq_of_lt hsmall]
  · -- The first bit of the mantissa counts among the stored exponent.
    obtain ⟨r, rfl⟩ := Nat.exists_eq_add_of_le (Nat.not_lt.mp hsmall)
    have hr : r < 2 ^ f.fractionBits := by omega
    have hsplit : (p - f.minExponent).toNat * 2 ^ f.fractionBits + (2 ^ f.fractionBits + r) =
        2 ^ f.fractionBits * ((p - f.minExponent).toNat + 1) + r := by ring
    have hstored : (2 ^ f.fractionBits * ((p - f.minExponent).toNat + 1) + r) /
        2 ^ f.fractionBits = (p - f.minExponent).toNat + 1 := by
      rw [Nat.mul_add_div hbase, Nat.div_eq_of_lt hr, Nat.add_zero]
    have hplace : f.minExponent + ((p - f.minExponent).toNat + 1 - 1 : Nat) = p := by
      have := hplaces.least
      omega
    rw [hsplit, hstored, if_neg (Nat.succ_ne_zero _), Nat.mul_add_mod, Nat.mod_eq_of_lt hr, hplace]

/-- A finite number has a mantissa and a place, and their pattern. -/
theorem exists_patternOf {bits k : Nat} {p : Int} {negative : Bool}
    (h : f.reading bits = .finite negative k p) :
    f.Places k p ∧ f.patternOf k p < f.infinity ∧ bits % f.signWeight = f.patternOf k p ∧
      negative = decide (f.signWeight ≤ bits) := by
  unfold reading at h
  have hbase := Nat.two_pow_pos f.fractionBits
  generalize hmagnitude : bits % f.signWeight = magnitude at h
  simp only [Nat.pow_eq] at h
  have hfraction := Nat.mod_lt magnitude hbase
  have hsplit := Nat.div_add_mod magnitude (2 ^ f.fractionBits)
  have hsucc := pow_succ 2 f.fractionBits
  split at h
  · cases h
  next hnan =>
  split at h
  · cases h
  next hinfinite =>
  have hlt : magnitude < f.infinity := by omega
  split at h
  · next hzero =>
    obtain ⟨rfl, rfl, rfl⟩ := Reading.finite.inj h
    rw [hzero, Nat.mul_zero, Nat.zero_add] at hsplit
    have hpattern : f.patternOf (magnitude % 2 ^ f.fractionBits) f.minExponent = magnitude := by
      rw [patternOf, Int.sub_self, Int.toNat_zero, Nat.zero_mul, Nat.zero_add, hsplit]
    exact ⟨⟨by omega, Int.le_refl _, .inl rfl⟩, by rwa [hpattern], hpattern.symm, rfl⟩
  · next hstored =>
    obtain ⟨rfl, rfl, rfl⟩ := Reading.finite.inj h
    obtain ⟨stored, hs⟩ := Nat.exists_eq_succ_of_ne_zero hstored
    rw [hs] at hsplit ⊢
    have hpattern : f.patternOf (2 ^ f.fractionBits + magnitude % 2 ^ f.fractionBits)
        (f.minExponent + (stored.succ - 1 : Nat)) = magnitude := by
      rw [patternOf, Nat.succ_sub_one, add_sub_cancel_left, Int.toNat_natCast, Nat.pow_eq,
        Nat.mul_comm, ← Nat.add_assoc, ← Nat.mul_succ, hsplit]
    exact ⟨⟨by omega, by omega, .inr (Nat.le_add_right _ _)⟩, by rwa [hpattern], hpattern.symm,
      rfl⟩

end Format

/-! ### Numbers of 32 and of 64 bits -/

namespace Single

/-- A finite number of 32 bits has a mantissa and a place in 64 bits. -/
theorem exists_places {k : Nat} {p : Int} (h : Format.single.Places k p)
    (hfinite : Format.single.patternOf k p < Format.single.infinity) :
    ∃ (k' : Nat) (p' : Int), (k : ℚ) * 2 ^ p = k' * 2 ^ p' ∧ Format.double.Places k' p' ∧
      Format.double.patternOf k' p' < Format.double.infinity := by
  have hmin : Format.single.minExponent = -149 := by decide
  have hmin' : Format.double.minExponent = -1074 := by decide
  have hinfinity : Format.double.infinity = 2047 * 2 ^ 52 := by decide
  by_cases hk : k = 0
  · refine ⟨0, -1074, by rw [hk]; simp, ⟨by decide, by rw [hmin'], .inl hmin'.symm⟩, ?_⟩
    rw [Format.patternOf, hmin', hinfinity]
    decide
  have hleast := h.least
  rw [hmin] at hleast
  have hlog : k.log2 < 24 := (Nat.log2_lt hk).mpr h.below
  have htop : p < 106 := by
    have hinfinity' : Format.single.infinity = 255 * 2 ^ 23 := by decide
    rw [Format.patternOf, hmin, hinfinity'] at hfinite
    have hbits : Nat.pow 2 Format.single.fractionBits = 2 ^ 23 := rfl
    rw [hbits] at hfinite
    omega
  -- The mantissa is shifted until it fills its 53 bits.
  have hlow : 2 ^ 52 ≤ k * 2 ^ (52 - k.log2) := by
    calc 2 ^ 52 = 2 ^ k.log2 * 2 ^ (52 - k.log2) := by rw [← pow_add]; congr 1; omega
      _ ≤ _ := Nat.mul_le_mul_right _ (Nat.log2_self_le hk)
  have hhigh : k * 2 ^ (52 - k.log2) < 2 ^ 53 := by
    calc k * 2 ^ (52 - k.log2) < 2 ^ (k.log2 + 1) * 2 ^ (52 - k.log2) :=
          Nat.mul_lt_mul_of_pos_right Nat.lt_log2_self (Nat.two_pow_pos _)
      _ = 2 ^ 53 := by rw [← pow_add]; congr 1; omega
  refine ⟨k * 2 ^ (52 - k.log2), p - (52 - k.log2 : Nat), ?_,
    ⟨hhigh, by rw [hmin']; omega, .inr hlow⟩, ?_⟩
  · rw [Nat.cast_mul, Nat.cast_pow, Nat.cast_ofNat, mul_assoc, ← zpow_natCast,
      ← zpow_add₀ two_ne_zero, add_sub_cancel]
  · have hbits : Nat.pow 2 Format.double.fractionBits = 2 ^ 52 := rfl
    rw [Format.patternOf, hmin', hinfinity, hbits]
    omega

/-- **A finite number of 32 bits is the same after it has had 64 bits.** -/
theorem toSingle_toDouble {x : Single} (h : x.isFinite = true) :
    x.toDouble.isFinite = true ∧ x.toDouble.toSingle = x := by
  obtain ⟨negative, k, p, hx⟩ : ∃ negative k p, x.reading = .finite negative k p := by
    unfold isFinite at h
    split at h
    · next negative k p hx => exact ⟨negative, k, p, hx⟩
    · cases h
  obtain ⟨hplaces, hfinite, hpattern, hnegative⟩ := Format.exists_patternOf hx
  obtain ⟨k', p', hvalue, hplaces', hfinite'⟩ := exists_places hplaces hfinite
  have hdouble : x.toDouble =
      ⟨(Format.double.withSign negative (Format.double.patternOf k' p')).toUInt64⟩ := by
    unfold toDouble
    rw [hx]
    simp only [Double.round, Format.round_valueOf hvalue hplaces' hfinite'.le]
  have hbits : x.toDouble.bits.toNat =
      Format.double.withSign negative (Format.double.patternOf k' p') := by
    rw [hdouble]
    refine UInt64.toNat_ofNat_of_lt ?_
    exact Format.withSign_lt (hfinite'.trans Format.double.infinity_lt_signWeight) negative
  have hreading : x.toDouble.reading = .finite negative k' p' := by
    rw [Double.reading, hbits]
    exact Format.reading_patternOf hplaces' hfinite' negative
  refine ⟨by rw [Double.isFinite, hreading], ?_⟩
  have hround := Format.round_valueOf hvalue.symm hplaces hfinite.le
  unfold Double.toSingle
  rw [hreading]
  simp only [round, hround]
  rw [← hpattern, hnegative, Format.withSign_of_lt]
  · exact congrArg Single.mk (UInt32.ofNat_toNat)
  · exact x.bits.toNat_lt

end Single

end Messaging.Number
