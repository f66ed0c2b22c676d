import Messaging.Json.Document
import Messaging.Json.Printer

/-! # Strings in JSON text are read back

`readPieces_escape`: a character is read back from what it is printed as. `readText_quote`: a string
is read back from its text behind the opening quote. -/

namespace Messaging.Json.Document

open Text

/-- A character that is printed as it is. -/
theorem readPieces_plain {c : Char} (hquote : c ≠ '"') (hslash : c ≠ '\\') (hc : ¬c.toNat < 0x20)
    (cs : List Char) :
    readPieces (c :: cs) = (readPieces cs).map fun (ps, rest) => (.char c :: ps, rest) := by
  rw [readPieces.eq_def]
  split
  · next h => cases h
  · next h => exact absurd (List.cons.inj h).1 hquote
  · next h => exact absurd (List.cons.inj h).1 hslash
  · next h => exact absurd (List.cons.inj h).1 hslash
  · next c' rest _ _ h =>
    obtain ⟨rfl, rfl⟩ := List.cons.inj h
    rw [if_neg (by simp [hc, hslash])]
    cases readPieces cs <;> rfl

/-- A control character is printed by its number. -/
theorem readPieces_control {c : Char} (hc : c.toNat < 0x20) (cs : List Char) :
    readPieces ('\\' :: 'u' :: '0' :: '0' :: hexDigit (c.toNat / 16) :: hexDigit c.toNat :: cs) =
      (readPieces cs).map fun (ps, rest) => (.char c :: ps, rest) := by
  have hunit : readUnit ['0', '0', hexDigit (c.toNat / 16), hexDigit c.toNat] =
      some (c.toNat, []) := by
    have hzero : hexDigit? '0' = some 0 := by decide
    simp only [readUnit, hexDigit, hzero, hexDigit?_digitChar _ (Nat.mod_lt _ (by decide : 0 < 16)),
      Option.bind_eq_bind, Option.bind_some, Option.some.injEq, Prod.mk.injEq, and_true]
    omega
  have hplain : ¬(0xD800 ≤ c.toNat ∧ c.toNat < 0xE000) := by omega
  rw [readPieces, hunit]
  simp only [Option.bind_eq_bind, Option.bind_some, if_neg hplain, Char.ofNat_toNat]
  cases readPieces cs <;> rfl

/-- A character is read back from what it is printed as. -/
theorem readPieces_escape (c : Char) (cs : List Char) :
    readPieces (escape c ++ cs) = (readPieces cs).map fun (ps, rest) => (.char c :: ps, rest) := by
  have hsimple : ∀ e c : Char, e ≠ 'u' → simpleEscape? e = some c →
      readPieces ('\\' :: e :: cs) =
        (readPieces cs).map fun (ps, rest) => (.char c :: ps, rest) := by
    intro e c hu he
    rw [readPieces.eq_def]
    split
    · next h => cases h
    · next h => exact absurd (List.cons.inj h).1 (by decide)
    · next h => exact absurd (List.cons.inj (List.cons.inj h).2).1 hu
    · next e' rest _ h =>
      obtain ⟨rfl, rfl⟩ := List.cons.inj (List.cons.inj h).2
      rw [he]
      cases readPieces cs <;> rfl
    · next c' rest _ _ hslash h =>
      obtain ⟨rfl, rfl⟩ := List.cons.inj h
      exact absurd rfl (hslash e cs rfl)
  unfold escape
  split
  · exact hsimple '"' '"' (by decide) rfl
  · exact hsimple '\\' '\\' (by decide) rfl
  · exact hsimple 'b' '\x08' (by decide) rfl
  · exact hsimple 'f' '\x0c' (by decide) rfl
  · exact hsimple 'n' '\n' (by decide) rfl
  · exact hsimple 'r' '\x0d' (by decide) rfl
  · exact hsimple 't' '\t' (by decide) rfl
  · next hquote hslash _ _ _ _ _ =>
    split
    · next hc => exact readPieces_control hc cs
    · next hc => exact readPieces_plain hquote hslash hc cs

theorem readPieces_flatMap (cs rest : List Char) :
    readPieces (cs.flatMap escape ++ '"' :: rest) = some (cs.map .char, rest) := by
  induction cs with
  | nil => rfl
  | cons c cs ih =>
    rw [List.flatMap_cons, List.append_assoc, readPieces_escape, ih]
    rfl

theorem joinPieces_map_char (cs : List Char) : joinPieces (cs.map .char) = some cs := by
  induction cs with
  | nil => rfl
  | cons c cs ih => rw [List.map_cons, joinPieces, ih, Option.map_some]

/-- The text of a string is its quote and what the string is read back from. -/
theorem toList_quote (s : String) (rest : List Char) :
    (quote s).toList ++ rest = '"' :: (s.toList.flatMap escape ++ '"' :: rest) := by
  rw [quote, String.toList_ofList]
  simp

theorem readText_quote (s : String) (rest : List Char) :
    readText (s.toList.flatMap escape ++ '"' :: rest) = some (some s, rest) := by
  rw [readText, readPieces_flatMap]
  simp [joinPieces_map_char]

end Messaging.Json.Document
