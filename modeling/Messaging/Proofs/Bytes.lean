import Messaging.Bytes
import Mathlib.Data.List.Basic

/-! # Bytes and text

What is written in bytes is read back: text in UTF-8 (`toString?_ofString`), text of one byte a
character (`ofCharacters?_toCharacters`), hexadecimal digits (`ofHexDigits?_toHex`) and numbers of a
fixed width (`littleEndian_ofLittleEndian`). -/

namespace Messaging.Bytes

/-! ### UTF-8 -/

theorem toList_loop (b : ByteArray) (i : Nat) (r : List UInt8) :
    ByteArray.toList.loop b i r = r.reverse ++ b.data.toList.drop i := by
  induction h : b.size - i generalizing i r with
  | zero =>
    unfold ByteArray.toList.loop
    have hi : b.data.toList.length ≤ i := by
      have : b.data.toList.length = b.size := rfl
      omega
    rw [if_neg (by omega), List.drop_of_length_le hi, List.append_nil]
  | succ n ih =>
    unfold ByteArray.toList.loop
    have hi : i < b.data.toList.length := by
      have : b.data.toList.length = b.size := rfl
      omega
    have hget : b.get! i = b.data.toList[i] := by
      have hs : i < b.data.size := by simpa using hi
      rw [ByteArray.get!, Array.getElem_toList]
      exact getElem!_pos b.data i hs
    rw [if_pos (by omega), ih (i + 1) _ (by omega), List.drop_eq_getElem_cons hi, hget]
    simp

theorem toList_eq (b : ByteArray) : b.toList = b.data.toList := by
  rw [ByteArray.toList, toList_loop, List.reverse_nil, List.nil_append, List.drop_zero]

theorem toString?_ofString (s : String) : toString? (ofString s) = some s := by
  have hb : (⟨(ofString s).toArray⟩ : ByteArray) = s.toByteArray := by
    rw [ofString, String.toUTF8_eq_toByteArray, toList_eq]
  rw [toString?, hb, String.fromUTF8?, dif_pos s.isValidUTF8]
  rfl

theorem length_ofString (s : String) : (ofString s).length = s.toByteArray.size := by
  rw [ofString, String.toUTF8_eq_toByteArray, toList_eq]
  rfl

/-- A character takes from one up to four bytes. -/
theorem length_ofString_ofList (cs : List Char) : cs.length ≤ (ofString (String.ofList cs)).length ∧
    (ofString (String.ofList cs)).length ≤ 4 * cs.length := by
  rw [length_ofString, String.toByteArray_ofList]
  induction cs with
  | nil => simp
  | cons c rest ih =>
    have hpos := c.utf8Size_pos
    have hfour := c.utf8Size_le_four
    rw [List.utf8Encode_cons, List.utf8Encode_singleton, ByteArray.size_append,
      List.size_toByteArray, String.length_utf8EncodeChar, List.length_cons]
    omega

/-! ### One byte a character -/

theorem toNat_ofNat : ∀ n < 256, (Char.ofNat n).toNat = n := by decide +kernel

theorem ofCharacter?_ofNat (b : UInt8) : ofCharacter? (Char.ofNat b.toNat) = some b := by
  have hb : b.toNat < 256 := b.toNat_lt
  rw [ofCharacter?, toNat_ofNat _ hb, if_pos hb]
  simp

theorem ofCharacters?_toCharacters (b : Bytes) : ofCharacters? b.toCharacters = some b := by
  rw [ofCharacters?, toCharacters, String.toList_ofList]
  induction b with
  | nil => rfl
  | cons a rest ih =>
    rw [List.map_cons, List.mapM_cons, ofCharacter?_ofNat, ih]
    rfl

/-- The bytes of a text are those of its characters. -/
theorem ofString_eq (s : String) : ofString s = s.toList.flatMap String.utf8EncodeChar := by
  rw [ofString, String.toUTF8_eq_toByteArray, toList_eq]
  conv_lhs => rw [← String.ofList_toList (s := s)]
  exact List.toList_data_toByteArray

/-- Text in ASCII has the same bytes in UTF-8. -/
theorem ofCharacters?_of_ascii {s : String} (h : ∀ c ∈ s.toList, c.toNat < 128) :
    ofCharacters? s = some (ofString s) := by
  rw [ofCharacters?, ofString_eq]
  generalize s.toList = cs at h
  induction cs with
  | nil => rfl
  | cons c rest ih =>
    have hc : c.toNat < 128 := h c List.mem_cons_self
    have hsize : c.utf8Size = 1 :=
      Char.utf8Size_eq_one_iff.mpr (UInt32.le_iff_toNat_le.mpr (Nat.lt_succ_iff.mp hc))
    rw [List.mapM_cons, ofCharacter?, if_pos (by omega),
      ih fun c hc => h c (List.mem_cons_of_mem _ hc), List.flatMap_cons,
      String.utf8EncodeChar_eq_singleton hsize]
    rfl

/-! ### Hexadecimal digits -/

/-- The digits of bytes. -/
theorem toList_toHex (b : Bytes) : (toHex b).toList =
    b.flatMap fun b => [Nat.digitChar (b.toNat / 16), Nat.digitChar (b.toNat % 16)] := by
  rw [toHex, String.toList_ofList]

theorem ofHexDigits?_toHex (b : Bytes) : ofHexDigits? (toHex b).toList = some b := by
  rw [toList_toHex]
  induction b with
  | nil => rfl
  | cons a rest ih =>
    have ha : a.toNat < 256 := a.toNat_lt
    have hbyte : (16 * (a.toNat / 16) + a.toNat % 16).toUInt8 = a := by
      rw [Nat.div_add_mod]
      simp
    rw [List.flatMap_cons, List.cons_append, List.cons_append, List.nil_append, ofHexDigits?,
      Text.hexDigit?_digitChar _ (by omega), Text.hexDigit?_digitChar _ (by omega), ih]
    exact congrArg (fun b => some (b :: rest)) hbyte

theorem length_toHex (b : Bytes) : (toHex b).toList.length = 2 * b.length := by
  rw [toList_toHex]
  induction b with
  | nil => rfl
  | cons a rest ih =>
    rw [List.flatMap_cons, List.length_append, ih, List.length_cons]
    simp only [List.length_cons, List.length_nil]
    omega

/-- Two digits make a byte. -/
theorem length_of_ofHexDigits? : ∀ {cs : List Char} {b : Bytes}, ofHexDigits? cs = some b →
    cs.length = 2 * b.length
  | [], _, h => by
    cases h
    rfl
  | [_], _, h => by cases h
  | c :: d :: rest, b, h => by
    rw [ofHexDigits?] at h
    obtain ⟨high, -, h⟩ := Option.bind_eq_some_iff.mp h
    obtain ⟨low, -, h⟩ := Option.bind_eq_some_iff.mp h
    obtain ⟨bytes, hbytes, h⟩ := Option.bind_eq_some_iff.mp h
    cases h
    rw [List.length_cons, List.length_cons, List.length_cons, length_of_ofHexDigits? hbytes]
    omega

/-! ### Numbers of a fixed width -/

@[simp] theorem length_ofLittleEndian (count n : Nat) : (ofLittleEndian count n).length = count := by
  induction count generalizing n with
  | zero => rfl
  | succ count ih => rw [ofLittleEndian, List.length_cons, ih]

theorem littleEndian_ofLittleEndian {count n : Nat} (h : n < Nat.pow 256 count) :
    littleEndian (ofLittleEndian count n) = n := by
  induction count generalizing n with
  | zero => exact (Nat.lt_one_iff.mp h).symm
  | succ count ih =>
    have hdiv : n / 256 < Nat.pow 256 count := by
      rw [Nat.div_lt_iff_lt_mul (by decide)]
      exact h
    have hbyte : n.toUInt8.toNat = n % 256 := UInt8.toNat_ofNat'
    rw [ofLittleEndian, littleEndian, ih hdiv, hbyte, Nat.mod_add_div]

end Messaging.Bytes
