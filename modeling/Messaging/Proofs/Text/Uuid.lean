import Messaging.Proofs.Bytes
import Messaging.Text.Uuid

/-! # Universally unique identifiers are read back

An identifier is read back from its text (`ofString?_text`), which has 36 characters and so is
never taken for one of the other forms. What is read has sixteen bytes (`length_of_ofString?`). -/

namespace Messaging.Text.Uuid

/-- Groups that are joined with hyphens are split at the hyphens again. -/
theorem splitGroups_joinGroups {sizes : List Nat} {ds : List Char} (h : sizes ≠ [])
    (hlen : ds.length = sizes.foldr (· + ·) 0) :
    splitGroups sizes (joinGroups sizes ds) = some ds := by
  induction sizes generalizing ds with
  | nil => exact absurd rfl h
  | cons n rest ih =>
    cases rest with
    | nil =>
      rw [List.foldr_cons, List.foldr_nil, Nat.add_zero] at hlen
      rw [joinGroups, splitGroups, if_pos hlen]
    | cons m rest =>
      rw [List.foldr_cons] at hlen
      have htake : (ds.take n).length = n := by
        rw [List.length_take]
        omega
      have hrest : (ds.drop n).length = (m :: rest).foldr (· + ·) 0 := by
        rw [List.length_drop]
        omega
      have ih' := ih (List.cons_ne_nil _ _) hrest
      have hdrop : (joinGroups (n :: m :: rest) ds).drop n =
          '-' :: joinGroups (m :: rest) (ds.drop n) := List.drop_left' htake
      have hfront : (joinGroups (n :: m :: rest) ds).take n = ds.take n := List.take_left' htake
      rw [splitGroups]
      simp only [hdrop, hfront]
      rw [ih', Option.map_some, List.take_append_drop]
      exact fun h => absurd h (List.cons_ne_nil _ _)

theorem length_joinGroups {sizes : List Nat} {ds : List Char}
    (hlen : ds.length = sizes.foldr (· + ·) 0) :
    (joinGroups sizes ds).length = ds.length + (sizes.length - 1) := by
  induction sizes generalizing ds with
  | nil => simp [joinGroups]
  | cons n rest ih =>
    cases rest with
    | nil => simp [joinGroups]
    | cons m rest =>
      rw [List.foldr_cons] at hlen
      have hrest : (ds.drop n).length = (m :: rest).foldr (· + ·) 0 := by
        rw [List.length_drop]
        omega
      have ih' := ih hrest
      rw [joinGroups, List.length_append, List.length_cons, ih', List.length_take, List.length_drop]
      · simp only [List.length_cons]
        omega
      · exact fun h => absurd h (List.cons_ne_nil _ _)

theorem length_text {b : Bytes} (h : b.length = 16) :
    (joinGroups groups (Bytes.toHex b).toList).length = 36 := by
  have hlen : (Bytes.toHex b).toList.length = groups.foldr (· + ·) 0 := by
    rw [Bytes.length_toHex, h]
    rfl
  rw [length_joinGroups hlen, hlen]
  rfl

/-- An identifier is read back from its text. -/
theorem ofString?_text {b : Bytes} (h : b.length = 16) : ofString? (text b) = some b := by
  have hlen : (Bytes.toHex b).toList.length = groups.foldr (· + ·) 0 := by
    rw [Bytes.length_toHex, h]
    rfl
  rw [ofString?, text, String.toList_ofList, ofCharacters?]
  simp only [length_text h]
  rw [ofHyphenated?, splitGroups_joinGroups (by decide) hlen]
  exact Bytes.ofHexDigits?_toHex b

/-- The text of an identifier has more bytes than an identifier. -/
theorem length_ofString_text {b : Bytes} (h : b.length = 16) :
    36 ≤ (Bytes.ofString (text b)).length ∧ (Bytes.ofString (text b)).length ≤ 144 := by
  have hlength := Bytes.length_ofString_ofList (joinGroups groups (Bytes.toHex b).toList)
  rwa [length_text h] at hlength

theorem length_of_splitGroups {sizes : List Nat} {cs ds : List Char}
    (h : splitGroups sizes cs = some ds) : ds.length = sizes.foldr (· + ·) 0 := by
  induction sizes generalizing cs ds with
  | nil =>
    rw [splitGroups] at h
    split at h <;> cases h
    rfl
  | cons n rest ih =>
    cases rest with
    | nil =>
      rw [splitGroups] at h
      split at h
      · next hlen =>
        cases h
        exact hlen
      · cases h
    | cons m rest =>
      rw [splitGroups] at h
      · split at h
        · next tail hdrop =>
          obtain ⟨ds', hds, rfl⟩ := Option.map_eq_some_iff.mp h
          have hlength := congrArg List.length hdrop
          rw [List.length_drop, List.length_cons] at hlength
          rw [List.length_append, ih hds, List.length_take]
          simp only [List.foldr_cons]
          omega
        · cases h
      · exact fun h => absurd h (List.cons_ne_nil _ _)

theorem length_of_ofHyphenated? {cs : List Char} {b : Bytes} (h : ofHyphenated? cs = some b) :
    b.length = 16 := by
  obtain ⟨ds, hds, hb⟩ := Option.bind_eq_some_iff.mp h
  have hgroups : ds.length = 32 := length_of_splitGroups hds
  have := Bytes.length_of_ofHexDigits? hb
  omega

/-- An identifier that is read has sixteen bytes. -/
theorem length_of_ofString? {s : String} {b : Bytes} (h : ofString? s = some b) :
    b.length = 16 := by
  unfold ofString? ofCharacters? at h
  split at h
  · next hlength =>
    have := Bytes.length_of_ofHexDigits? h
    omega
  · exact length_of_ofHyphenated? h
  · split at h
    · exact length_of_ofHyphenated? h
    · cases h
  · split at h
    · exact length_of_ofHyphenated? h
    · cases h
  · cases h

end Messaging.Text.Uuid
