import Messaging.Proofs.Number.Binary
import Mathlib.Tactic.Linarith

/-! # Where rounding overflows

Rounding gives the infinity from half a place above the largest finite number on
(`Format.round_lt_infinity_iff`). So every integer of 64 bits is a finite number of 64 bits
(`Double.isFinite_ofInt`), and a finite number of 64 bits is finite with 32 bits as well just if it
is below `2 ^ 128 - 2 ^ 103` (`Double.isFinite_toSingle_iff`). -/

namespace Messaging.Number

/-! ### Fractions -/

namespace Fraction

variable {a : Fraction}

/-- A fraction goes below an even number if it is more than half below it: a half goes up to it. -/
theorem nearest_lt_iff (hd : 0 < a.denominator) {n : Nat} (hn : n % 2 = 0) :
    a.nearest < n ↔ 2 * a.numerator + a.denominator < 2 * n * a.denominator := by
  obtain ⟨num, den⟩ := a
  dsimp only [nearest] at hd ⊢
  have hsplit : num = den * (num / den) + num % den := (Nat.div_add_mod num den).symm
  have hrest : num % den < den := Nat.mod_lt num hd
  generalize num / den = whole at hsplit ⊢
  generalize num % den = rest at hsplit hrest ⊢
  subst hsplit
  rcases Nat.lt_trichotomy n (whole + 1) with hlt | rfl | hgt
  · -- The number is reached by the whole part alone.
    have hle : 2 * n * den ≤ 2 * whole * den := Nat.mul_le_mul_right _ (by omega)
    have hmul : 2 * (den * whole) = 2 * whole * den := by ring
    constructor
    · intro h
      split_ifs at h <;> omega
    · omega
  · -- It is the next one, so it depends on the rest, and the whole part is odd.
    have hmul : 2 * (whole + 1) * den = 2 * (den * whole) + 2 * den := by ring
    constructor
    · intro h
      split_ifs at h <;> omega
    · intro h
      rw [if_pos (by omega)]
      omega
  · have hle : 2 * (whole + 2) * den ≤ 2 * n * den := Nat.mul_le_mul_right _ (by omega)
    have hmul : 2 * (whole + 2) * den = 2 * (den * whole) + 4 * den := by ring
    constructor
    · omega
    · intro _
      split_ifs <;> omega

theorem nearest_lt_iff_value (hd : 0 < a.denominator) {n : Nat} (hn : n % 2 = 0) :
    a.nearest < n ↔ a.value < n - 1 / 2 := by
  have hd' : (0 : ℚ) < a.denominator := by exact_mod_cast hd
  rw [nearest_lt_iff hd hn, value, div_lt_iff₀ hd']
  have hcast : 2 * a.numerator + a.denominator < 2 * n * a.denominator ↔
      2 * (a.numerator : ℚ) + a.denominator < 2 * n * a.denominator := by exact_mod_cast Iff.rfl
  rw [hcast]
  constructor <;> intro h <;> linarith

/-- A whole number that is below the fraction is below what the fraction is nearest to. -/
theorem le_nearest (hd : 0 < a.denominator) {n : Nat} (h : (n : ℚ) ≤ a.value) : n ≤ a.nearest := by
  have hfloor : n ≤ a.floor := by
    by_contra hlt
    exact absurd ((floor_lt_iff hd n).mp (Nat.lt_of_not_le hlt)) (not_lt.mpr h)
  have hle : a.floor ≤ a.nearest := by
    unfold floor nearest
    dsimp only
    split_ifs <;> omega
  exact hfloor.trans hle

/-- A fraction below a whole number is nearest to that or to one below it. -/
theorem nearest_le (hd : 0 < a.denominator) {n : Nat} (h : a.value < n) : a.nearest ≤ n := by
  have hfloor : a.floor < n := (floor_lt_iff hd n).mpr h
  unfold floor at hfloor
  unfold nearest
  dsimp only
  split_ifs <;> omega

end Fraction

/-! ### Formats -/

namespace Format

open Fraction

variable {f : Format}

/-- The last place of the largest finite numbers. -/
def maxPlace (f : Format) : Int := f.minExponent + ((2 ^ f.exponentBits : Nat) - 3 : Int)

/-- The least number that is rounded to the infinity. -/
def overflow (f : Format) : ℚ := (2 ^ (f.fractionBits + 1) - 1 / 2) * 2 ^ f.maxPlace

/-- The pattern of a place and a number of steps is finite below the largest place, is not above it,
and at it if the steps fill no more than the bits of the format. -/
theorem patternOf_lt_infinity_iff (hf : 2 ≤ f.exponentBits) {k : Nat} {p : Int}
    (hp : f.minExponent ≤ p) (hk : k ≤ 2 ^ (f.fractionBits + 1))
    (hfull : p = f.minExponent ∨ 2 ^ f.fractionBits ≤ k) :
    f.patternOf k p < f.infinity ↔
      p < f.maxPlace ∨ p = f.maxPlace ∧ k < 2 ^ (f.fractionBits + 1) := by
  have hexponents : 4 ≤ 2 ^ f.exponentBits :=
    calc 4 = 2 ^ 2 := rfl
      _ ≤ 2 ^ f.exponentBits := Nat.pow_le_pow_right (by decide) hf
  have hpow : 2 ^ (f.fractionBits + 1) = 2 * 2 ^ f.fractionBits := by rw [pow_succ]; ring
  have hpos : 0 < 2 ^ f.fractionBits := Nat.two_pow_pos _
  obtain ⟨d, rfl⟩ := Int.exists_add_of_le hp
  have hplace : (f.minExponent + (d : Int) - f.minExponent).toNat = d := by omega
  unfold patternOf infinity maxPlace
  simp only [Nat.pow_eq, hplace]
  rw [hpow] at hk ⊢
  generalize 2 ^ f.exponentBits = E at hexponents ⊢
  generalize 2 ^ f.fractionBits = B at hk hfull hpos ⊢
  rcases Nat.lt_trichotomy (d + 3) E with hlt | heq | hgt
  · have hle : (d + 3) * B ≤ (E - 1) * B := Nat.mul_le_mul_right _ (by omega)
    have hmul : (d + 3) * B = d * B + 3 * B := by ring
    constructor
    · omega
    · omega
  · have hE : (E - 1) * B = d * B + 2 * B := by
      rw [show E - 1 = d + 2 by omega]
      ring
    rw [hE]
    constructor
    · intro h
      exact .inr ⟨by omega, by omega⟩
    · intro h
      omega
  · -- Beyond the largest place the first bit alone is too much.
    have hle : (E - 1) * B ≤ (d + 1) * B := Nat.mul_le_mul_right _ (by omega)
    have hmul : (d + 1) * B = d * B + B := by ring
    constructor
    · omega
    · omega

/-- Below a whole number of units of its last place, a number is below the overflow if that place is
below the largest one, or is the largest one and the units are more than half a unit below. -/
theorem mul_lt_overflow_iff (hf : 2 ≤ f.exponentBits) {y : ℚ} {p : Int}
    (hbelow : y < 2 ^ (f.fractionBits + 1))
    (hfull : p = f.minExponent ∨ (2 : ℚ) ^ f.fractionBits ≤ y) :
    y * 2 ^ p < f.overflow ↔
      p < f.maxPlace ∨ p = f.maxPlace ∧ y < 2 ^ (f.fractionBits + 1) - 1 / 2 := by
  have hexponents : 4 ≤ 2 ^ f.exponentBits :=
    calc 4 = 2 ^ 2 := rfl
      _ ≤ 2 ^ f.exponentBits := Nat.pow_le_pow_right (by decide) hf
  have hleast : f.minExponent < f.maxPlace := by
    unfold maxPlace
    omega
  have hone : (1 : ℚ) ≤ 2 ^ f.fractionBits := one_le_pow₀ (by norm_num)
  have hpow : (2 : ℚ) ^ (f.fractionBits + 1) = 2 * 2 ^ f.fractionBits := pow_succ' _ _
  have hp : (0 : ℚ) < 2 ^ p := by positivity
  have htop : (0 : ℚ) < 2 ^ f.maxPlace := by positivity
  rcases lt_trichotomy p f.maxPlace with hlt | heq | hgt
  · refine iff_of_true ?_ (.inl hlt)
    have hstep : (2 : ℚ) ^ (p + 1) ≤ 2 ^ f.maxPlace :=
      zpow_le_zpow_right₀ (by norm_num) (by omega)
    rw [zpow_add_one₀ two_ne_zero] at hstep
    calc y * 2 ^ p < 2 ^ (f.fractionBits + 1) * 2 ^ p := mul_lt_mul_of_pos_right hbelow hp
      _ = 2 ^ f.fractionBits * (2 ^ p * 2) := by rw [hpow]; ring
      _ ≤ 2 ^ f.fractionBits * 2 ^ f.maxPlace := mul_le_mul_of_nonneg_left hstep (by positivity)
      _ ≤ f.overflow := mul_le_mul_of_nonneg_right (by rw [hpow]; linarith) htop.le
  · subst heq
    rw [overflow, mul_lt_mul_iff_left₀ hp]
    simp
  · have hy : (2 : ℚ) ^ f.fractionBits ≤ y := hfull.resolve_left (by omega)
    have hstep : (2 : ℚ) ^ (f.maxPlace + 1) ≤ 2 ^ p :=
      zpow_le_zpow_right₀ (by norm_num) (by omega)
    rw [zpow_add_one₀ two_ne_zero] at hstep
    have hle : f.overflow ≤ y * 2 ^ p :=
      calc f.overflow ≤ 2 ^ (f.fractionBits + 1) * 2 ^ f.maxPlace :=
            mul_le_mul_of_nonneg_right (by linarith) htop.le
        _ = 2 ^ f.fractionBits * (2 ^ f.maxPlace * 2) := by rw [hpow]; ring
        _ ≤ y * 2 ^ p := mul_le_mul hy hstep (by positivity) (by linarith)
    constructor
    · intro h
      linarith
    · omega

/-- A number that is not zero, in units of the last place that it keeps: it is rounded to the
nearest whole number of them. -/
theorem exists_units (f : Format) {m : Nat} (hm : m ≠ 0) (e : Int) :
    ∃ (y : Fraction) (p : Int), 0 < y.denominator ∧ f.minExponent ≤ p ∧
      (m : ℚ) * 2 ^ e = y.value * 2 ^ p ∧ y.value < (2 ^ (f.fractionBits + 1) : Nat) ∧
      (p = f.minExponent ∨ ((2 ^ f.fractionBits : Nat) : ℚ) ≤ y.value) ∧
      f.round (valueOf m e) = min (f.patternOf y.nearest p) f.infinity := by
  generalize hplace : f.placeOf (valueOf m e) = p
  have hmax : p = max (m.log2 + e - f.fractionBits) f.minExponent := by
    rw [← hplace, placeOf_valueOf f hm]
  have hpow : (0 : ℚ) < 2 ^ p := by positivity
  have hvalue : (m : ℚ) * 2 ^ e = ((valueOf m e).mul (scaled 1 2 (-p))).value * 2 ^ p := by
    rw [value_mul, value_valueOf, value_scaled, Nat.cast_one, one_mul, mul_assoc,
      ← zpow_add₀ two_ne_zero, neg_add_cancel, zpow_zero, mul_one]
  refine ⟨(valueOf m e).mul (scaled 1 2 (-p)), p, ?_, by omega, hvalue, ?_, ?_, ?_⟩
  · exact Nat.mul_pos (denominator_valueOf_pos m e) (denominator_scaled_pos _ _)
  · have hbits : (m : ℚ) < 2 ^ ((m.log2 : Int) + 1) := by exact_mod_cast @Nat.lt_log2_self m
    refine lt_of_mul_lt_mul_right ?_ hpow.le
    rw [← hvalue, Nat.cast_pow, Nat.cast_ofNat]
    calc (m : ℚ) * 2 ^ e < 2 ^ ((m.log2 : Int) + 1) * 2 ^ e :=
          mul_lt_mul_of_pos_right hbits (by positivity)
      _ = 2 ^ ((m.log2 : Int) + 1 + e) := (zpow_add₀ two_ne_zero _ _).symm
      _ ≤ 2 ^ (((f.fractionBits + 1 : Nat) : Int) + p) :=
        zpow_le_zpow_right₀ (by norm_num) (by omega)
      _ = _ := by rw [zpow_add₀ two_ne_zero, zpow_natCast]
  · rcases le_or_gt ((m.log2 : Int) + e - f.fractionBits) f.minExponent with hle | hlt
    · exact .inl (by omega)
    · right
      have hbits : (2 : ℚ) ^ (m.log2 : Int) ≤ m := by exact_mod_cast Nat.log2_self_le hm
      refine le_of_mul_le_mul_right ?_ hpow
      rw [← hvalue, Nat.cast_pow, Nat.cast_ofNat]
      calc (2 : ℚ) ^ f.fractionBits * 2 ^ p = 2 ^ ((f.fractionBits : Int) + p) := by
            rw [zpow_add₀ two_ne_zero, zpow_natCast]
        _ = 2 ^ ((m.log2 : Int) + e) := by congr 1; omega
        _ = 2 ^ (m.log2 : Int) * 2 ^ e := zpow_add₀ two_ne_zero _ _
        _ ≤ m * 2 ^ e := mul_le_mul_of_nonneg_right hbits (by positivity)
  · rw [round, if_neg (numerator_valueOf_ne_zero hm e)]
    simp only [hplace, patternOf]

/-- **Rounding overflows half a place above the largest finite number.** -/
theorem round_lt_infinity_iff (hf : 2 ≤ f.exponentBits) (m : Nat) (e : Int) :
    f.round (valueOf m e) < f.infinity ↔ (m : ℚ) * 2 ^ e < f.overflow := by
  by_cases hm : m = 0
  · subst hm
    have hnumerator : (valueOf 0 e).numerator = 0 := by
      unfold valueOf scaled
      split <;> simp
    have hinfinity : 0 < f.infinity :=
      Nat.mul_pos (Nat.sub_pos_of_lt (Nat.one_lt_two_pow (by omega))) (Nat.two_pow_pos _)
    have hone : (1 : ℚ) ≤ 2 ^ (f.fractionBits + 1) := one_le_pow₀ (by norm_num)
    have hoverflow : 0 < f.overflow := mul_pos (by linarith) (by positivity)
    rw [round, if_pos hnumerator, Nat.cast_zero, zero_mul]
    exact iff_of_true hinfinity hoverflow
  · obtain ⟨y, p, hd, hp, hvalue, hbelow, hfull, hround⟩ := f.exists_units hm e
    have hpattern := patternOf_lt_infinity_iff hf hp (nearest_le hd hbelow)
      (hfull.imp_right (le_nearest hd))
    have heven : 2 ^ (f.fractionBits + 1) % 2 = 0 := by
      rw [pow_succ]
      omega
    have hmin : min (f.patternOf y.nearest p) f.infinity < f.infinity ↔
        f.patternOf y.nearest p < f.infinity := by omega
    rw [Nat.cast_pow, Nat.cast_ofNat] at hbelow hfull
    rw [hround, hmin, hpattern, nearest_lt_iff_value hd heven, hvalue,
      mul_lt_overflow_iff hf hbelow hfull, Nat.cast_pow, Nat.cast_ofNat]

theorem round_le_infinity (f : Format) (a : Fraction) : f.round a ≤ f.infinity := by
  unfold round
  split
  · exact Nat.zero_le _
  · exact Nat.min_le_right _ _

theorem withSign_round_lt (f : Format) (negative : Bool) (a : Fraction) :
    f.withSign negative (f.round a) < 2 * f.signWeight :=
  withSign_lt ((f.round_le_infinity a).trans_lt f.infinity_lt_signWeight) negative

/-- A pattern up to the infinity is finite if it is below it. -/
theorem reading_withSign {n : Nat} (h : n ≤ f.infinity) (negative : Bool) :
    (∃ negative' k p, f.reading (f.withSign negative n) = .finite negative' k p) ↔
      n < f.infinity := by
  obtain ⟨hmod, -⟩ := f.withSign_mod (h.trans_lt f.infinity_lt_signWeight) negative
  unfold reading
  simp only [hmod]
  rw [if_neg (Nat.not_lt.mpr h)]
  by_cases hn : n = f.infinity
  · rw [if_pos hn]
    constructor
    · rintro ⟨negative', k, p, hfinite⟩
      cases hfinite
    · omega
  · rw [if_neg hn]
    refine iff_of_true ?_ (by omega)
    split
    · exact ⟨_, _, _, rfl⟩
    · exact ⟨_, _, _, rfl⟩

/-- A number that is rounded is finite below the overflow. -/
theorem reading_round (hf : 2 ≤ f.exponentBits) (negative : Bool) (m : Nat) (e : Int) :
    (∃ negative' k p,
      f.reading (f.withSign negative (f.round (valueOf m e))) = .finite negative' k p) ↔
        (m : ℚ) * 2 ^ e < f.overflow := by
  rw [reading_withSign (f.round_le_infinity _) negative, round_lt_infinity_iff hf]

end Format

/-! ### Numbers of 32 and of 64 bits -/

namespace Single

theorem isFinite_iff {x : Single} :
    x.isFinite = true ↔ ∃ negative k p, x.reading = .finite negative k p := by
  unfold isFinite
  cases x.reading <;> simp

/-- The least number that is too large for 32 bits. -/
theorem overflow_eq : Format.single.overflow = 2 ^ 128 - 2 ^ 103 := by
  have hplace : Format.single.maxPlace = 104 := by decide
  rw [Format.overflow, hplace]
  norm_num [Format.single]

theorem isFinite_round (negative : Bool) (m : Nat) (e : Int) :
    (round negative (Format.valueOf m e)).isFinite = true ↔
      (m : ℚ) * 2 ^ e < 2 ^ 128 - 2 ^ 103 := by
  have hbits : (round negative (Format.valueOf m e)).bits.toNat =
      Format.single.withSign negative (Format.single.round (Format.valueOf m e)) :=
    UInt32.toNat_ofNat_of_lt (Format.single.withSign_round_lt negative _)
  rw [← overflow_eq, ← Format.reading_round (by decide) negative, isFinite_iff, reading, hbits]

/-- A number of 32 bits is finite with 64 bits just if it is finite. -/
theorem isFinite_toDouble (x : Single) : x.toDouble.isFinite = x.isFinite := by
  by_cases h : x.isFinite = true
  · rw [h, (toSingle_toDouble h).1]
  · rw [Bool.eq_false_of_not_eq_true h]
    unfold isFinite at h
    unfold toDouble
    cases hreading : x.reading with
    | nan => decide
    | infinite negative =>
      cases negative with
      | false => decide
      | true => decide
    | finite => simp [hreading] at h

end Single

namespace Double

theorem isFinite_iff {x : Double} :
    x.isFinite = true ↔ ∃ negative k p, x.reading = .finite negative k p := by
  unfold isFinite
  cases x.reading <;> simp

theorem isFinite_round (negative : Bool) (m : Nat) (e : Int) :
    (round negative (Format.valueOf m e)).isFinite = true ↔
      (m : ℚ) * 2 ^ e < Format.double.overflow := by
  have hbits : (round negative (Format.valueOf m e)).bits.toNat =
      Format.double.withSign negative (Format.double.round (Format.valueOf m e)) :=
    UInt64.toNat_ofNat_of_lt (Format.double.withSign_round_lt negative _)
  rw [← Format.reading_round (by decide) negative, isFinite_iff, reading, hbits]

/-- An integer of 64 bits, signed or not, is a finite number. -/
theorem isFinite_ofInt {i : Int} (h : i.natAbs < 2 ^ 64) : (ofInt i).isFinite = true := by
  have hfraction : (⟨i.natAbs, 1⟩ : Fraction) = Format.valueOf i.natAbs 0 := by
    simp [Format.valueOf, Fraction.scaled]
  have hplace : Format.double.maxPlace = 971 := by decide
  have hoverflow : (2 : ℚ) ^ 64 < Format.double.overflow := by
    have htop : (2 : ℚ) ^ (64 : Int) ≤ 2 ^ (971 : Int) :=
      zpow_le_zpow_right₀ (by norm_num) (by norm_num)
    rw [zpow_ofNat] at htop
    have hbits : (1 : ℚ) < 2 ^ (Format.double.fractionBits + 1) - 1 / 2 := by
      norm_num [Format.double]
    rw [Format.overflow, hplace]
    exact htop.trans_lt (lt_mul_of_one_lt_left (by positivity) hbits)
  have hlt : (i.natAbs : ℚ) < 2 ^ 64 := by exact_mod_cast h
  rw [ofInt, hfraction, isFinite_round, zpow_zero, mul_one]
  exact hlt.trans hoverflow

/-- How far a finite number is from zero. -/
def magnitude (x : Double) : ℚ :=
  match x.reading with
  | .finite _ mantissa exponent => mantissa * 2 ^ exponent
  | _ => 0

/-- **A finite number stays finite with 32 bits below half a place above the largest of them.** -/
theorem isFinite_toSingle_iff {x : Double} (h : x.isFinite = true) :
    x.toSingle.isFinite = true ↔ x.magnitude < 2 ^ 128 - 2 ^ 103 := by
  obtain ⟨negative, m, e, hx⟩ := isFinite_iff.mp h
  unfold toSingle magnitude
  rw [hx]
  exact Single.isFinite_round negative m e

end Double

end Messaging.Number
