import Messaging.Json.Document
import Messaging.Json.Printer
import Messaging.Proofs.Text.Natural

/-! # Integers in JSON text are read back

`readNumeral_print`: the text of an integer is read as one numeral, wherever a value may end.
`toNum?_ofInt`: the value of that numeral is the integer, if it fits 64 bits. -/

namespace Messaging.Json

open Number Text Document

/-- What can follow a value: the end of the text or of what the value is in, or a separator. -/
def Ends (cs : List Char) : Prop := ∀ c ∈ cs.head?, c = ',' ∨ c = ']' ∨ c = '\x7d'

theorem Ends.of_comma (cs : List Char) : Ends (',' :: cs) := by
  simp [Ends]

theorem Ends.of_bracket (cs : List Char) : Ends (']' :: cs) := by
  simp [Ends]

theorem Ends.of_brace (cs : List Char) : Ends ('\x7d' :: cs) := by
  simp [Ends]

namespace Document

/-! ### Digits -/

theorem isDigit_of_isDigit {c : Char} (h : c.isDigit) : isDigit c = true := by
  rw [isDigit, digit?_of_isDigit h]
  rfl

theorem isDigit_digitsOf {c : Char} {n : Nat} (h : c ∈ digitsOf n) : isDigit c = true :=
  isDigit_of_isDigit (isDigit_of_mem_digitsOf h)

/-- The digits of a number other than zero do not start with a zero. -/
theorem head?_digitsOf (n : Nat) (h : 0 < n) : (digitsOf n).head? ≠ some '0' := by
  induction n using Nat.strongRecOn with
  | ind n ih =>
    unfold digitsOf
    by_cases hn : n < 10
    · rw [Nat.toDigits_of_lt_base hn, List.head?_cons]
      simp only [ne_eq, Option.some.injEq, Nat.digitChar_eq_zero]
      omega
    · rw [Nat.toDigits_of_base_le (by decide) (by omega), List.head?_append]
      have ih' := ih (n / 10) (by omega) (by omega)
      unfold digitsOf at ih'
      cases hd : Nat.toDigits 10 (n / 10) with
      | nil => exact absurd hd Nat.toDigits_ne_nil
      | cons c rest =>
        rw [hd] at ih'
        exact ih'

theorem takeDigits_append {ds rest : List Char} (hds : ∀ c ∈ ds, isDigit c = true)
    (hrest : Ends rest) : takeDigits (ds ++ rest) = (ds, rest) := by
  have hstop : rest.takeWhile isDigit = [] ∧ rest.dropWhile isDigit = rest := by
    cases rest with
    | nil => exact ⟨rfl, rfl⟩
    | cons c cs =>
      have hc : isDigit c = false := by
        rcases hrest c (by simp) with rfl | rfl | rfl <;> decide
      simp [hc]
  rw [takeDigits, List.takeWhile_append_of_pos hds, List.dropWhile_append_of_pos hds, hstop.1,
    hstop.2, List.append_nil]

theorem le_foldl_digits (ds : List Char) (n : Nat) :
    n ≤ ds.foldl (fun n c => 10 * n + (digit? c).getD 0) n := by
  induction ds generalizing n with
  | nil => exact Nat.le_refl n
  | cons c rest ih =>
    have := ih (10 * n + (digit? c).getD 0)
    rw [List.foldl_cons]
    omega

theorem accumulate_eq {ds : List Char} {n : Nat}
    (h : ds.foldl (fun n c => 10 * n + (digit? c).getD 0) n < 0x10000000000000000) :
    accumulate n ds = (ds.foldl (fun n c => 10 * n + (digit? c).getD 0) n, []) := by
  induction ds generalizing n with
  | nil => rfl
  | cons c rest ih =>
    rw [List.foldl_cons] at h ⊢
    have := le_foldl_digits rest (10 * n + (digit? c).getD 0)
    rw [accumulate, if_pos (by omega), ih h]

theorem foldl_digitsOf (n : Nat) :
    (digitsOf n).foldl (fun n c => 10 * n + (digit? c).getD 0) 0 = n := by
  have hdigits : ∀ c ∈ digitsOf n, (digit? c).getD 0 = c.toNat - '0'.toNat := fun c hc => by
    rw [digit?_of_isDigit (isDigit_of_mem_digitsOf hc)]
    rfl
  have hfold : (digitsOf n).foldl (fun n c => 10 * n + (digit? c).getD 0) 0 =
      (digitsOf n).foldl (fun n c => 10 * n + (c.toNat - '0'.toNat)) 0 :=
    List.foldl_ext _ _ _ fun m c hc => by rw [hdigits c hc]
  rw [hfold, ← Nat.ofDigitChars_eq_foldl, digitsOf, Nat.ofDigitChars_ten_toDigits]

theorem accumulate_digitsOf {n : Nat} (h : n < 0x10000000000000000) :
    accumulate 0 (digitsOf n) = (n, []) := by
  rw [accumulate_eq (by rwa [foldl_digitsOf]), foldl_digitsOf]

/-! ### Numerals -/

/-- The numeral of an integer. -/
def Numeral.ofInt (i : Int) : Numeral := ⟨decide (i < 0), digitsOf i.natAbs, none, none⟩

/-- The value of the numeral of an integer of 64 bits, with or without a sign. -/
theorem toNum?_ofInt {i : Int} (h : -0x8000000000000000 ≤ i ∧ i < 0x10000000000000000) :
    (Numeral.ofInt i).toNum? = some (.int i) := by
  have hn : i.natAbs < 0x10000000000000000 := by omega
  unfold Numeral.toNum? Numeral.ofInt
  rw [accumulate_digitsOf hn]
  by_cases hi : i < 0
  · have hsmall : ¬(i.natAbs = 0 ∨ 0x8000000000000000 < i.natAbs) := by omega
    have hval : -(i.natAbs : Int) = i := by omega
    simp only [hi, decide_true, Option.isNone_none, and_self, if_true, Bool.not_true,
      Bool.false_eq_true, if_false, if_neg hsmall, hval]
  · have hval : (i.natAbs : Int) = i := by omega
    simp [hi, hval]

theorem readWhole_digitsOf (n : Nat) {rest : List Char} (h : Ends rest) :
    readWhole (digitsOf n ++ rest) = some (digitsOf n, rest) := by
  unfold readWhole
  rw [takeDigits_append (fun c => isDigit_digitsOf) h]
  have hhead := head?_digitsOf n
  cases hd : digitsOf n with
  | nil => exact absurd hd Nat.toDigits_ne_nil
  | cons c ds =>
    rw [hd] at hhead
    by_cases hn : 0 < n
    · have hc : c ≠ '0' := fun hc => hhead hn (by rw [hc]; rfl)
      simp [hc]
    · have hz : digitsOf n = ['0'] := by
        rw [Nat.eq_zero_of_not_pos hn]
        rfl
      obtain ⟨rfl, rfl⟩ := List.cons.inj (hd.symm.trans hz)
      rfl

theorem readMagnitude_digitsOf (negative : Bool) (n : Nat) {rest : List Char} (h : Ends rest) :
    readMagnitude negative (digitsOf n ++ rest) =
      some (⟨negative, digitsOf n, none, none⟩, rest) := by
  have hplaces : readPlaces rest = some (none, rest) := by
    unfold readPlaces
    split
    · rcases h '.' (by simp) with h | h | h <;> exact absurd h (by decide)
    · rfl
  have hexponent : readExponent rest = some (none, rest) := by
    cases rest with
    | nil => rfl
    | cons c cs =>
      have hc : ¬(c = 'e' ∨ c = 'E') := by
        rcases h c (by simp) with rfl | rfl | rfl <;> decide
      rw [readExponent, if_neg hc]
  rw [readMagnitude, readWhole_digitsOf n h]
  simp [hplaces, hexponent]

/-- The text of an integer is read as its numeral. -/
theorem readNumeral_print (i : Int) {rest : List Char} (h : Ends rest) :
    readNumeral ((printInt i).toList ++ rest) = some (.ofInt i, rest) := by
  rw [printInt, String.toList_ofList, Numeral.ofInt]
  by_cases hi : i < 0
  · rw [if_pos hi, List.cons_append, List.nil_append, List.cons_append, readNumeral,
      readMagnitude_digitsOf true _ h, decide_eq_true hi]
  · rw [if_neg hi, List.nil_append, decide_eq_false hi, ← readMagnitude_digitsOf false _ h]
    unfold readNumeral
    split
    · next cs hcs =>
      -- The first digit is not a sign.
      have hmem : '-' ∈ digitsOf i.natAbs := by
        cases hd : digitsOf i.natAbs with
        | nil => exact absurd hd Nat.toDigits_ne_nil
        | cons c ds =>
          rw [hd, List.cons_append] at hcs
          rw [(List.cons.inj hcs).1]
          exact List.mem_cons_self
      exact absurd hmem (hyphen_notMem_digitsOf _)
    · rfl

end Document

end Messaging.Json
