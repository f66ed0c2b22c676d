import Messaging.Number.BigDecimal
import Messaging.Proofs.Text.Natural
import Mathlib.Algebra.Order.Field.Power
import Mathlib.Algebra.Order.Field.Rat

/-! # Big decimals are read back

`ofString?_text`: what is read from the text of a number has the same text and the same value. It is
the number itself but for zeros at the end, which are digits of the text at scale zero, and but for
the scale of zero.
The text is a sign, digits on both sides of a point and an exponent, and `ofString?_pieces` says
what is read from such pieces. -/

namespace Messaging.Number.BigDecimal

open Text

/-! ### The steps of reading -/

/-- Does the character begin an exponent? -/
def isMark (c : Char) : Bool := c = 'e' || c = 'E'

/-- The exponent behind the mark; there need not be one. -/
def exponentOf? : Option (List Char) → Option Int
  | none => some 0
  | some cs => exponent? cs

/-- The number of digits behind the point, less the exponent. -/
def scaleOf (trail : List Char) (e : Int) : Int := (trail.filter (· ≠ '_')).length - e

/-- A number is read in steps. -/
theorem ofString?_eq (s : String) : ofString? s =
    (exponentOf? (splitAt isMark s.toList).2).bind fun e =>
      if (splitAt isMark s.toList).1 = [] then none
      else
        let parts := splitAt (· = '.') (splitAt isMark s.toList).1
        let trail := parts.2.getD []
        (coefficient? (parts.1 ++ trail)).bind fun c =>
          if -0x8000000000000000 ≤ scaleOf trail e ∧ scaleOf trail e < 0x8000000000000000 then
            some ⟨c, scaleOf trail e⟩
          else none := by
  unfold ofString?
  change (match (splitAt isMark s.toList).2 with
    | none => _
    | some cs => _) = _
  cases (splitAt isMark s.toList).2 <;> rfl

/-- The scale of a number that is read is within 64 bits. -/
theorem scale_of_ofString? {s : String} {d : BigDecimal} (h : ofString? s = some d) :
    -0x8000000000000000 ≤ d.scale ∧ d.scale < 0x8000000000000000 := by
  rw [ofString?_eq] at h
  obtain ⟨e, -, h⟩ := Option.bind_eq_some_iff.mp h
  split at h
  · cases h
  · obtain ⟨c, -, h⟩ := Option.bind_eq_some_iff.mp h
    split at h
    · next hrange =>
      cases h
      exact hrange
    · cases h

theorem splitAt_append {p : Char → Bool} {cs rest : List Char} (hcs : ∀ c ∈ cs, p c = false)
    {c : Char} (hc : p c = true) : splitAt p (cs ++ c :: rest) = (cs, some rest) := by
  induction cs with
  | nil => rw [List.nil_append, splitAt, if_pos hc]
  | cons a cs ih =>
    obtain ⟨ha, hcs⟩ := List.forall_mem_cons.mp hcs
    rw [List.cons_append, splitAt, if_neg (by simp [ha]), ih hcs]

theorem splitAt_eq_self {p : Char → Bool} {cs : List Char} (hcs : ∀ c ∈ cs, p c = false) :
    splitAt p cs = (cs, none) := by
  induction cs with
  | nil => rfl
  | cons a cs ih =>
    obtain ⟨ha, hcs⟩ := List.forall_mem_cons.mp hcs
    rw [splitAt, if_neg (by simp [ha]), ih hcs]

/-! ### Digits -/

theorem ne_of_isDigit {c d : Char} (h : c.isDigit) (hd : d.isDigit = false) : c ≠ d := by
  rintro rfl
  rw [hd] at h
  cases h

/-- A fold that takes each digit as the next one reads the number. -/
theorem foldlM_digits {step : Nat → Char → Option Nat}
    (hstep : ∀ n c, c.isDigit → step n c = some (10 * n + (c.toNat - '0'.toNat)))
    {ds : List Char} (hds : ∀ c ∈ ds, c.isDigit) (n : Nat) :
    ds.foldlM step n = some (Nat.ofDigitChars 10 ds n) := by
  induction ds generalizing n with
  | nil => rfl
  | cons c ds ih =>
    obtain ⟨hc, hds⟩ := List.forall_mem_cons.mp hds
    rw [List.foldlM_cons, hstep n c hc, Nat.ofDigitChars_cons]
    exact ih hds _

theorem digits?_eq {ds : List Char} (hne : ds ≠ []) (hds : ∀ c ∈ ds, c.isDigit) :
    digits? ds = some (Nat.ofDigitChars 10 ds 0) := by
  unfold digits?
  split
  · exact absurd rfl hne
  · exact absurd (hds '_' List.mem_cons_self) (by decide)
  · refine foldlM_digits (fun n c hc => ?_) hds 0
    rw [if_neg (ne_of_isDigit hc (by decide)), digit?_of_isDigit hc, Option.map_some]

theorem plainDigits?_eq {ds : List Char} (hne : ds ≠ []) (hds : ∀ c ∈ ds, c.isDigit) :
    plainDigits? ds = some (Nat.ofDigitChars 10 ds 0) := by
  unfold plainDigits?
  split
  · exact absurd rfl hne
  · refine foldlM_digits (fun n c hc => ?_) hds 0
    rw [digit?_of_isDigit hc, Option.map_some]

theorem ofDigitChars_digitsOf (n : Nat) : Nat.ofDigitChars 10 (digitsOf n) 0 = n :=
  Nat.ofDigitChars_ten_toDigits

/-- The sign of a number in its text. -/
def sign (negative : Bool) : List Char := if negative then ['-'] else []

/-- A magnitude with its sign. -/
def signed (negative : Bool) (n : Nat) : Int := if negative then -(n : Int) else n

theorem coefficient?_eq (negative : Bool) {ds : List Char} (hne : ds ≠ [])
    (hds : ∀ c ∈ ds, c.isDigit) :
    coefficient? (sign negative ++ ds) = some (signed negative (Nat.ofDigitChars 10 ds 0)) := by
  have hunsigned : unsigned? ds = some (Nat.ofDigitChars 10 ds 0) := by
    unfold unsigned?
    split
    · exact absurd (hds '+' List.mem_cons_self) (by decide)
    · exact absurd (hds '+' List.mem_cons_self) (by decide)
    · exact digits?_eq hne hds
  cases negative with
  | true =>
    change coefficient? ('-' :: ds) = _
    unfold coefficient?
    split
    · next h =>
      obtain rfl := (List.cons.inj h).2
      exact absurd (hds '+' List.mem_cons_self) (by decide)
    · next h =>
      obtain rfl := (List.cons.inj h).2
      rw [hunsigned]
      rfl
    · next h => exact absurd rfl (h ds)
  | false =>
    change coefficient? ds = _
    unfold coefficient?
    split
    · exact absurd (hds '-' List.mem_cons_self) (by decide)
    · exact absurd (hds '-' List.mem_cons_self) (by decide)
    · rw [hunsigned]
      rfl

/-- An exponent within 128 bits is read back. -/
theorem exponent?_signedExponent {e : Int} (h : -0x80000000000000000000000000000000 ≤ e)
    (h' : e < 0x80000000000000000000000000000000) : exponent? (signedExponent e) = some e := by
  have hdigits : plainDigits? (digitsOf e.natAbs) = some e.natAbs :=
    (plainDigits?_eq Nat.toDigits_ne_nil fun c hc => isDigit_of_mem_digitsOf hc).trans
      (congrArg some (ofDigitChars_digitsOf e.natAbs))
  by_cases he : e < 0
  · have hval : -(e.natAbs : Int) = e := by omega
    rw [signedExponent, if_pos he, exponent?, hdigits]
    simp only [Option.bind_eq_bind, Option.bind_some, Option.pure_def, Option.map_some, hval]
    exact if_pos (And.intro h h')
  · have hval : (e.natAbs : Int) = e := by omega
    rw [signedExponent, if_neg he, exponent?, hdigits]
    simp only [Option.bind_eq_bind, Option.bind_some, Option.pure_def, Option.map_some, hval]
    exact if_pos (And.intro h h')

/-! ### The pieces of a text -/

/-- The point with the digits behind it; there need not be one. -/
def pointed : Option (List Char) → List Char
  | none => []
  | some trail => '.' :: trail

/-- Is the text that of an exponent behind its mark, or empty for zero? -/
def IsExponent (cs : List Char) (e : Int) : Prop :=
  cs = [] ∧ e = 0 ∨ ∃ c rest, cs = c :: rest ∧ isMark c = true ∧ exponent? rest = some e

theorem eq_of_mem_sign {negative : Bool} {c : Char} (h : c ∈ sign negative) : c = '-' := by
  cases negative with
  | true => exact List.mem_singleton.mp h
  | false => cases h

/-- Neither the sign nor a digit nor the point begins an exponent. -/
theorem splitAt_mark (negative : Bool) {lead : List Char} {trail : Option (List Char)}
    {exponent : List Char} {e : Int} (hds : ∀ c ∈ lead ++ trail.getD [], c.isDigit)
    (he : IsExponent exponent e) :
    ∃ o, splitAt isMark (sign negative ++ lead ++ pointed trail ++ exponent) =
      (sign negative ++ lead ++ pointed trail, o) ∧ exponentOf? o = some e := by
  have hdigit : ∀ c ∈ lead ++ trail.getD [], isMark c = false := fun c hc => by
    simp [isMark, ne_of_isDigit (d := 'e') (hds c hc) (by decide),
      ne_of_isDigit (d := 'E') (hds c hc) (by decide)]
  have hmark : ∀ c ∈ sign negative ++ lead ++ pointed trail, isMark c = false := by
    intro c hc
    rcases List.mem_append.mp hc with hc | hc
    · rcases List.mem_append.mp hc with hc | hc
      · rw [eq_of_mem_sign hc]
        decide
      · exact hdigit c (List.mem_append_left _ hc)
    · cases trail with
      | none => cases hc
      | some t =>
        rcases List.mem_cons.mp hc with rfl | hc
        · decide
        · exact hdigit c (List.mem_append_right _ hc)
  rcases he with ⟨rfl, rfl⟩ | ⟨c, rest, rfl, hc, hrest⟩
  · exact ⟨none, by rw [List.append_nil, splitAt_eq_self hmark], rfl⟩
  · exact ⟨some rest, splitAt_append hmark hc, hrest⟩

theorem splitAt_point (negative : Bool) {lead : List Char} (trail : Option (List Char))
    (hds : ∀ c ∈ lead, c.isDigit) :
    splitAt (· = '.') (sign negative ++ lead ++ pointed trail) = (sign negative ++ lead, trail) := by
  have hbefore : ∀ c ∈ sign negative ++ lead, decide (c = '.') = false := fun c hc => by
    rcases List.mem_append.mp hc with hc | hc
    · rw [eq_of_mem_sign hc]
      decide
    · simp [ne_of_isDigit (d := '.') (hds c hc) (by decide)]
  cases trail with
  | none => rw [pointed, List.append_nil, splitAt_eq_self hbefore]
  | some t => exact splitAt_append hbefore (decide_eq_true rfl)

/-- What is read from a sign, digits on both sides of a point and an exponent. -/
theorem ofString?_pieces (negative : Bool) {lead : List Char} {trail : Option (List Char)}
    {exponent : List Char} {e : Int} (hne : lead ≠ [])
    (hds : ∀ c ∈ lead ++ trail.getD [], c.isDigit) (he : IsExponent exponent e)
    (hlow : -0x8000000000000000 ≤ ((trail.getD []).length : Int) - e)
    (hhigh : ((trail.getD []).length : Int) - e < 0x8000000000000000) :
    ofString? (String.ofList (sign negative ++ lead ++ pointed trail ++ exponent)) =
      some ⟨signed negative (Nat.ofDigitChars 10 (lead ++ trail.getD []) 0),
        (trail.getD []).length - e⟩ := by
  have hlead : ∀ c ∈ lead, c.isDigit := fun c hc => hds c (List.mem_append_left _ hc)
  have htrail : ∀ c ∈ trail.getD [], c.isDigit := fun c hc => hds c (List.mem_append_right _ hc)
  have hscale : scaleOf (trail.getD []) e = (trail.getD []).length - e := by
    rw [scaleOf, List.filter_eq_self.mpr fun c hc => by simp [ne_of_isDigit (htrail c hc)]]
  have hbase : sign negative ++ lead ++ pointed trail ≠ [] := by simp [hne]
  have hcoefficient := coefficient?_eq negative (by simp [hne]) hds
  rw [← List.append_assoc] at hcoefficient
  obtain ⟨o, hsplit, ho⟩ := splitAt_mark negative hds he
  rw [ofString?_eq, String.toList_ofList, hsplit]
  simp only [ho, Option.bind_some, if_neg hbase, splitAt_point negative trail hlead, hscale,
    hcoefficient, if_pos (And.intro hlow hhigh)]

/-- Is the text, without its sign, that of a magnitude and a scale, and taken apart so? -/
inductive Spells (text : List Char) (n : Nat) (scale : Int) : Prop
  | intro (lead : List Char) (trail : Option (List Char)) {exponent : List Char} {e : Int}
      (pieces : text = lead ++ pointed trail ++ exponent) (lead_ne : lead ≠ [])
      (digits : ∀ c ∈ lead ++ trail.getD [], c.isDigit) (isExponent : IsExponent exponent e)
      (value : Nat.ofDigitChars 10 (lead ++ trail.getD []) 0 = n)
      (scale_eq : ((trail.getD []).length : Int) - e = scale)

/-- A text is read as what it spells. -/
theorem Spells.ofString? {text : List Char} {n : Nat} {scale : Int} (h : Spells text n scale)
    (negative : Bool) (hlow : -0x8000000000000000 ≤ scale) (hhigh : scale < 0x8000000000000000) :
    ofString? (String.ofList (sign negative ++ text)) = some ⟨signed negative n, scale⟩ := by
  obtain ⟨lead, trail, rfl, hne, hds, he, rfl, rfl⟩ := h
  rw [← List.append_assoc, ← List.append_assoc]
  exact ofString?_pieces negative hne hds he hlow hhigh

/-! ### Texts of magnitudes -/

theorem digitsOf_mul_pow (n k : Nat) (h : 0 < n) :
    digitsOf (n * 10 ^ k) = digitsOf n ++ List.replicate k '0' := by
  induction k with
  | zero => simp
  | succ k ih =>
    have hpos : 0 < n * 10 ^ k := Nat.mul_pos h (Nat.pow_pos (by decide))
    have hstep := Nat.toDigits_append_toDigits (b := 10) (d := 0) (by decide) hpos (by decide)
    have hnext : n * 10 ^ (k + 1) = 10 * (n * 10 ^ k) + 0 := by
      rw [Nat.pow_succ, ← Nat.mul_assoc, Nat.mul_comm, Nat.add_zero]
    unfold digitsOf at ih ⊢
    rw [hnext, ← hstep, ih, List.append_assoc, List.replicate_succ']
    rfl

theorem isDigit_of_mem_zeros {c : Char} {k : Nat} (h : c ∈ List.replicate k '0') : c.isDigit := by
  rw [List.eq_of_mem_replicate h]
  decide

theorem isExponent_cons {c : Char} (hc : isMark c = true) {e : Int}
    (h : -0x80000000000000000000000000000000 ≤ e)
    (h' : e < 0x80000000000000000000000000000000) : IsExponent (c :: signedExponent e) e :=
  .inr ⟨c, _, rfl, hc, exponent?_signedExponent h h'⟩

/-- A text in positional notation, unless there are zeros to add before the point. -/
theorem spells_positional (n : Nat) {scale : Int} (h : 0 ≤ scale) :
    Spells (positional (digitsOf n) scale) n scale := by
  have hdigits : ∀ c ∈ digitsOf n, c.isDigit := fun c hc => isDigit_of_mem_digitsOf hc
  have hvalue := ofDigitChars_digitsOf n
  have hne : digitsOf n ≠ [] := Nat.toDigits_ne_nil
  have hexponent : IsExponent [] 0 := .inl ⟨rfl, rfl⟩
  obtain ⟨places, rfl⟩ := Int.eq_ofNat_of_zero_le h
  unfold positional
  by_cases hzero : (places : Int) ≤ 0
  · obtain rfl : places = 0 := by omega
    rw [if_pos hzero]
    exact .intro (digitsOf n) none (by simp [pointed]) hne
      (by simpa using hdigits) hexponent (by simpa using hvalue) rfl
  rw [if_neg hzero, Int.toNat_natCast]
  by_cases hlt : places < (digitsOf n).length
  · -- The point is among the digits.
    have hsplit := List.take_append_drop ((digitsOf n).length - places) (digitsOf n)
    rw [if_pos hlt]
    refine .intro ((digitsOf n).take ((digitsOf n).length - places))
      (some ((digitsOf n).drop ((digitsOf n).length - places))) (by simp [pointed]) ?_ ?_
      hexponent ?_ ?_
    · rw [← List.length_pos_iff, List.length_take]
      omega
    · rwa [Option.getD_some, hsplit]
    · rw [Option.getD_some, hsplit, hvalue]
    · rw [Option.getD_some, List.length_drop]
      omega
  · -- The point is in front of them.
    rw [if_neg hlt]
    refine .intro ['0']
      (some (List.replicate (places - (digitsOf n).length) '0' ++ digitsOf n))
      (by simp [pointed]) (List.cons_ne_nil _ _) ?_ hexponent ?_ ?_
    · rw [Option.getD_some, List.singleton_append]
      refine List.forall_mem_cons.mpr ⟨rfl, List.forall_mem_append.mpr ⟨?_, hdigits⟩⟩
      exact fun c hc => isDigit_of_mem_zeros hc
    · rw [Option.getD_some, List.cons_append, Nat.ofDigitChars_cons, List.nil_append,
        Nat.ofDigitChars_append, Nat.ofDigitChars_replicate_zero]
      simpa using hvalue
    · rw [Option.getD_some, List.length_append, List.length_replicate]
      omega

/-- Is a magnitude of so many digits written with an exponent? -/
def IsExponential (length : Nat) (scale : Int) : Prop :=
  5 < scale - length ∨ 15 < -scale ∧ -scale < 0x8000000000000000

/-- A text with an exponent. -/
theorem spells_exponential (n : Nat) {scale : Int} (hhigh : scale < 0x8000000000000000)
    (h : IsExponential (digitsOf n).length scale) :
    Spells (magnitudeText (digitsOf n) scale) n scale := by
  have hdigits : ∀ c ∈ digitsOf n, c.isDigit := fun c hc => isDigit_of_mem_digitsOf hc
  have hvalue := ofDigitChars_digitsOf n
  have hne : digitsOf n ≠ [] := Nat.toDigits_ne_nil
  have hpos : 0 < (digitsOf n).length := List.length_pos_iff.mpr hne
  unfold magnitudeText
  by_cases hsmall : 5 < scale - (digitsOf n).length
  · -- One digit is in front of the point, if there are several.
    have hexponent : IsExponent ('E' :: signedExponent ((digitsOf n).length - scale - 1))
        ((digitsOf n).length - scale - 1) := isExponent_cons rfl (by omega) (by omega)
    rw [if_pos hsmall]
    by_cases hmany : 1 < (digitsOf n).length
    · have hsplit := List.take_append_drop 1 (digitsOf n)
      refine .intro ((digitsOf n).take 1) (some ((digitsOf n).drop 1))
        (by simp [pointed, hmany]) ?_ ?_ hexponent ?_ ?_
      · rw [← List.length_pos_iff, List.length_take]
        omega
      · rwa [Option.getD_some, hsplit]
      · rw [Option.getD_some, hsplit, hvalue]
      · rw [Option.getD_some, List.length_drop]
        omega
    · refine .intro (digitsOf n) none (by simp [pointed, hmany]) hne
        (by simpa using hdigits) hexponent (by simpa using hvalue) ?_
      rw [Option.getD_none, List.length_nil]
      omega
  · have hlarge := h.resolve_left hsmall
    have hexponent : IsExponent ('e' :: signedExponent (-scale)) (-scale) :=
      isExponent_cons rfl (by omega) (by omega)
    rw [if_neg hsmall, if_pos hlarge]
    refine .intro (digitsOf n) none (by simp [pointed]) hne
      (by simpa using hdigits) hexponent (by simpa using hvalue) ?_
    rw [Option.getD_none, List.length_nil]
    omega

/-- Without an exponent the text of a magnitude is positional. -/
theorem magnitudeText_eq_positional {ds : List Char} {scale : Int}
    (h : ¬IsExponential ds.length scale) : magnitudeText ds scale = positional ds scale := by
  unfold IsExponential at h
  unfold magnitudeText
  rw [if_neg fun hsmall => h (.inl hsmall), if_neg fun hlarge => h (.inr hlarge)]

/-- Zeros before the point are digits of a magnitude of scale zero. -/
theorem magnitudeText_eq_whole {n : Nat} (hn : 0 < n) {scale : Int} (hscale : scale ≤ 0)
    (h : ¬IsExponential (digitsOf n).length scale) :
    magnitudeText (digitsOf n) scale = magnitudeText (digitsOf (n * 10 ^ (-scale).toNat)) 0 := by
  have hwhole : ¬IsExponential (digitsOf (n * 10 ^ (-scale).toNat)).length 0 := by
    unfold IsExponential
    omega
  rw [magnitudeText_eq_positional h, magnitudeText_eq_positional hwhole, positional, if_pos hscale,
    positional, if_pos (Int.le_refl 0), digitsOf_mul_pow n _ hn]
  simp

/-! ### Texts of numbers -/

/-- The number itself; numbers of different scales may have one value. -/
def value (d : BigDecimal) : ℚ := d.coefficient * (10 : ℚ) ^ (-d.scale)

/-- Zeros before the point may be digits of the magnitude. -/
theorem value_signed_mul (negative : Bool) (n : Nat) {scale : Int} (h : scale ≤ 0) :
    value ⟨signed negative (n * 10 ^ (-scale).toNat), 0⟩ = value ⟨signed negative n, scale⟩ := by
  obtain ⟨k, hk⟩ := Int.eq_ofNat_of_zero_le (show 0 ≤ -scale by omega)
  simp only [value, hk, Int.toNat_natCast, neg_zero, zpow_zero, mul_one, zpow_natCast]
  cases negative <;> simp [signed]

theorem text_signed {negative : Bool} {n : Nat} (hn : 0 < n) (scale : Int) :
    text ⟨signed negative n, scale⟩ =
      String.ofList (sign negative ++ magnitudeText (digitsOf n) scale) := by
  have hzero : ¬signed negative n = 0 := by
    cases negative <;> simp only [signed, if_true, Bool.false_eq_true, if_false] <;> omega
  have habs : (signed negative n).natAbs = n := by
    cases negative <;> simp [signed]
  have hsign : (if signed negative n < 0 then ['-'] else []) = sign negative := by
    cases negative
    · exact if_neg (by simp [signed])
    · exact if_pos (by simp only [signed, if_true]; omega)
  rw [text, if_neg hzero]
  simp only [habs, hsign]

/-- What is read from the text of a number has the same text and the same value. -/
theorem ofString?_text (d : BigDecimal)
    (h : -0x8000000000000000 ≤ d.scale ∧ d.scale < 0x8000000000000000) :
    ∃ d', ofString? d.text = some d' ∧ d'.text = d.text ∧ d'.value = d.value := by
  obtain ⟨c, scale⟩ := d
  obtain ⟨hlow, hhigh⟩ : -0x8000000000000000 ≤ scale ∧ scale < 0x8000000000000000 := h
  by_cases hzero : c = 0
  · subst hzero
    have hspells := spells_positional 0 (Int.le_refl 0)
    exact ⟨⟨0, 0⟩, hspells.ofString? false (by decide) (by decide), rfl, by simp [value]⟩
  obtain ⟨negative, n, hn, rfl⟩ : ∃ (negative : Bool) (n : Nat), 0 < n ∧ signed negative n = c := by
    refine ⟨decide (c < 0), c.natAbs, by omega, ?_⟩
    unfold signed
    split
    · next hneg =>
      have := of_decide_eq_true hneg
      omega
    · next hneg =>
      have := of_decide_eq_false (Bool.not_eq_true _ ▸ hneg)
      omega
  by_cases hexact : IsExponential (digitsOf n).length scale ∨ 0 < scale
  · have hspells : Spells (magnitudeText (digitsOf n) scale) n scale := by
      by_cases hexponential : IsExponential (digitsOf n).length scale
      · exact spells_exponential n hhigh hexponential
      · rw [magnitudeText_eq_positional hexponential]
        exact spells_positional n (Int.le_of_lt (hexact.resolve_left hexponential))
    refine ⟨_, ?_, rfl, rfl⟩
    rw [text_signed hn]
    exact hspells.ofString? negative hlow hhigh
  · rw [not_or, Int.not_lt] at hexact
    have hpos : 0 < n * 10 ^ (-scale).toNat := Nat.mul_pos hn (Nat.pow_pos (by decide))
    have hspells := spells_positional (n * 10 ^ (-scale).toNat) (Int.le_refl 0)
    have hwhole := magnitudeText_eq_whole hn hexact.2 hexact.1
    have hpositional : magnitudeText (digitsOf (n * 10 ^ (-scale).toNat)) 0 =
        positional (digitsOf (n * 10 ^ (-scale).toNat)) 0 :=
      magnitudeText_eq_positional fun h => by
        unfold IsExponential at h
        omega
    refine ⟨⟨signed negative (n * 10 ^ (-scale).toNat), 0⟩, ?_, ?_,
      value_signed_mul negative n hexact.2⟩
    · rw [text_signed hn, hwhole, hpositional]
      exact hspells.ofString? negative (by decide) (by decide)
    · rw [text_signed hpos, text_signed hn, hwhole]

end Messaging.Number.BigDecimal
