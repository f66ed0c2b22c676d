import Messaging.Proofs.Bytes
import Messaging.Proofs.Json.Numeral
import Messaging.Proofs.Json.Text
import Messaging.Proofs.Table.Sorted

/-! # JSON text is read back

`parse?_print`: a value is read back from its text if its numbers are integers of 64 bits, its
objects are tables and it has no more levels than the reader allows; with more levels it is refused
(`parse?_print_of_deep`). The reader goes by way of a document, `Json.toDocument`; `ReadsBack.all`
says that it reads one value, in the steps that it is given, wherever the value may end, and
`toJson?_toDocument` that the document has the value. -/

namespace Messaging.Json

open Number

mutual

/-- The document that the text of a value is. -/
def toDocument : Json → Document
  | null => .null
  | bool b => .bool b
  | number n => .number (some n)
  | string s => .string (some s)
  | array items => .array (documents items)
  | object entries => .object (entryDocuments entries)

/-- The documents of a list of values. -/
def documents : List Json → List Document
  | [] => []
  | j :: rest => j.toDocument :: documents rest

/-- The documents of a list of entries. -/
def entryDocuments : List (String × Json) → List (Option String × Document)
  | [] => []
  | (k, j) :: rest => (some k, j.toDocument) :: entryDocuments rest

end

mutual

/-- The number of levels of arrays and objects. -/
def depth : Json → Nat
  | array items => itemsDepth items + 1
  | object entries => entriesDepth entries + 1
  | _ => 0

/-- The most levels in a list of values. -/
def itemsDepth : List Json → Nat
  | [] => 0
  | j :: rest => max j.depth (itemsDepth rest)

/-- The most levels in a list of entries. -/
def entriesDepth : List (String × Json) → Nat
  | [] => 0
  | (_, j) :: rest => max j.depth (entriesDepth rest)

end

mutual

/-- Are the numbers integers of 64 bits, with or without a sign, and the objects tables? -/
def IsPlain : Json → Prop
  | number (.int i) => -0x8000000000000000 ≤ i ∧ i < 0x10000000000000000
  | number (.float _) => False
  | array items => ArePlain items
  | object entries => Table.Sorted entries ∧ EntriesPlain entries
  | _ => True

/-- Are all values of a list plain? -/
def ArePlain : List Json → Prop
  | [] => True
  | j :: rest => j.IsPlain ∧ ArePlain rest

/-- Are the values of all entries plain? -/
def EntriesPlain : List (String × Json) → Prop
  | [] => True
  | (_, j) :: rest => j.IsPlain ∧ EntriesPlain rest

end

theorem arePlain_iff {items : List Json} : ArePlain items ↔ ∀ j ∈ items, j.IsPlain := by
  induction items with
  | nil => simp [ArePlain]
  | cons j rest ih => simp [ArePlain, ih]

theorem entriesPlain_iff {entries : List (String × Json)} :
    EntriesPlain entries ↔ ∀ e ∈ entries, e.2.IsPlain := by
  induction entries with
  | nil => simp [EntriesPlain]
  | cons e rest ih => simp [EntriesPlain, ih]

/-- An object from plain values is plain. -/
theorem isPlain_ofEntries {entries : List (String × Json)} (h : ∀ e ∈ entries, e.2.IsPlain) :
    (ofEntries entries).IsPlain :=
  ⟨Table.ofList_sorted entries, entriesPlain_iff.mpr fun e he => h e (Table.mem_of_mem_ofList he)⟩

namespace Document

/-! ### The value of a document -/

mutual

theorem toJson?_toDocument (d : Nat) (j : Json) (hj : j.IsPlain) (hd : j.depth ≤ d) :
    toJson? d j.toDocument = some j := by
  match j with
  | .null | .bool _ | .number _ | .string _ => rfl
  | .array items =>
    rw [Json.depth] at hd
    obtain ⟨d, rfl⟩ : ∃ n, d = n + 1 := ⟨d - 1, by omega⟩
    rw [toDocument, toJson?, itemsToJson?_documents d items hj (by omega), Option.map_some]
  | .object entries =>
    obtain ⟨hsorted, hentries⟩ := hj
    rw [Json.depth] at hd
    obtain ⟨d, rfl⟩ : ∃ n, d = n + 1 := ⟨d - 1, by omega⟩
    rw [toDocument, toJson?, entriesToJson?_documents d entries hentries (by omega),
      Option.map_some, Json.ofEntries, Table.ofList_of_sorted hsorted]

theorem itemsToJson?_documents (d : Nat) (items : List Json) (h : Json.ArePlain items)
    (hd : itemsDepth items ≤ d) : itemsToJson? d (documents items) = some items := by
  match items with
  | [] => rfl
  | j :: rest =>
    obtain ⟨hj, hrest⟩ := h
    rw [itemsDepth] at hd
    rw [documents, itemsToJson?, toJson?_toDocument d j hj (by omega),
      itemsToJson?_documents d rest hrest (by omega)]
    rfl

theorem entriesToJson?_documents (d : Nat) (entries : List (String × Json))
    (h : EntriesPlain entries) (hd : entriesDepth entries ≤ d) :
    entriesToJson? d (entryDocuments entries) = some entries := by
  match entries with
  | [] => rfl
  | (k, j) :: rest =>
    obtain ⟨hj, hrest⟩ := h
    rw [entriesDepth] at hd
    rw [entryDocuments, entriesToJson?, toJson?_toDocument d j hj (by omega),
      entriesToJson?_documents d rest hrest (by omega)]
    rfl

end

mutual

/-- A document with more levels than are allowed has no value. -/
theorem toJson?_of_deep (d : Nat) (j : Json) (hd : d < j.depth) : toJson? d j.toDocument = none := by
  match j with
  | .null | .bool _ | .number _ | .string _ => exact absurd hd (Nat.not_lt_zero d)
  | .array items =>
    cases d with
    | zero => rfl
    | succ d => rw [toDocument, toJson?, itemsToJson?_of_deep d items (Nat.lt_of_succ_lt_succ hd),
        Option.map_none]
  | .object entries =>
    cases d with
    | zero => rfl
    | succ d => rw [toDocument, toJson?,
        entriesToJson?_of_deep d entries (Nat.lt_of_succ_lt_succ hd), Option.map_none]

theorem itemsToJson?_of_deep (d : Nat) (items : List Json) (hd : d < itemsDepth items) :
    itemsToJson? d (documents items) = none := by
  match items with
  | [] => exact absurd hd (Nat.not_lt_zero d)
  | j :: rest =>
    rw [documents, itemsToJson?]
    rcases lt_max_iff.mp hd with hj | hrest
    · rw [toJson?_of_deep d j hj]
      rfl
    · rw [itemsToJson?_of_deep d rest hrest]
      cases toJson? d j.toDocument <;> rfl

theorem entriesToJson?_of_deep (d : Nat) (entries : List (String × Json))
    (hd : d < entriesDepth entries) : entriesToJson? d (entryDocuments entries) = none := by
  match entries with
  | [] => exact absurd hd (Nat.not_lt_zero d)
  | (k, j) :: rest =>
    rw [entryDocuments, entriesToJson?]
    rcases lt_max_iff.mp hd with hj | hrest
    · rw [toJson?_of_deep d j hj]
      rfl
    · rw [entriesToJson?_of_deep d rest hrest]
      cases toJson? d j.toDocument <;> rfl

end

/-! ### The document of a text -/

theorem skipBlanks_cons {c : Char} (h : isBlank c = false) (cs : List Char) :
    skipBlanks (c :: cs) = c :: cs := by
  simp [skipBlanks, h]

/-- The text of an integer starts with a sign or a digit. -/
theorem printInt_cons (i : Int) :
    ∃ c cs, (printInt i).toList = c :: cs ∧ (c = '-' ∨ c.isDigit) := by
  rw [printInt, String.toList_ofList]
  by_cases hi : i < 0
  · exact ⟨'-', _, by rw [if_pos hi]; rfl, .inl rfl⟩
  · rw [if_neg hi, List.nil_append]
    cases hd : digitsOf i.natAbs with
    | nil => exact absurd hd Nat.toDigits_ne_nil
    | cons c ds =>
      exact ⟨c, ds, rfl, .inr (Text.isDigit_of_mem_digitsOf (hd ▸ List.mem_cons_self))⟩

theorem ne_of_sign_or_digit {c d : Char} (h : c = '-' ∨ c.isDigit) (hd : d ≠ '-')
    (hdigit : d.isDigit = false) : c ≠ d := by
  rintro rfl
  rcases h with h | h
  · exact hd h
  · rw [hdigit] at h
    cases h

theorem isBlank_of_sign_or_digit {c : Char} (h : c = '-' ∨ c.isDigit) : isBlank c = false := by
  simp [isBlank, ne_of_sign_or_digit (d := ' ') h (by decide) (by decide),
    ne_of_sign_or_digit (d := '\n') h (by decide) (by decide),
    ne_of_sign_or_digit (d := '\t') h (by decide) (by decide),
    ne_of_sign_or_digit (d := '\x0d') h (by decide) (by decide)]

theorem readValue_int (fuel : Nat) (i : Int) {rest : List Char} (h : Ends rest)
    (hi : -0x8000000000000000 ≤ i ∧ i < 0x10000000000000000) :
    readValue (fuel + 1) ((printInt i).toList ++ rest) = some (.number (some (.int i)), rest) := by
  have hread := readNumeral_print i h
  obtain ⟨c, cs, hc, hfirst⟩ := printInt_cons i
  rw [hc, List.cons_append] at hread ⊢
  have hnot : ∀ d : Char, d ≠ '-' → d.isDigit = false → c ≠ d := fun _ =>
    ne_of_sign_or_digit hfirst
  rw [readValue, skipBlanks_cons (isBlank_of_sign_or_digit hfirst)]
  split
  · next h => exact absurd (List.cons.inj h).1 (hnot 'n' (by decide) (by decide))
  · next h => exact absurd (List.cons.inj h).1 (hnot 't' (by decide) (by decide))
  · next h => exact absurd (List.cons.inj h).1 (hnot 'f' (by decide) (by decide))
  · next h => exact absurd (List.cons.inj h).1 (hnot '"' (by decide) (by decide))
  · next h => exact absurd (List.cons.inj h).1 (hnot '[' (by decide) (by decide))
  · next h => exact absurd (List.cons.inj h).1 (hnot '\x7b' (by decide) (by decide))
  · rw [hread]
    simp [toNum?_ofInt hi]

/-- A value starts with a character that is neither a blank nor closes a list. -/
theorem print_cons (j : Json) (hj : j.IsPlain) :
    ∃ c cs, j.print.toList = c :: cs ∧ isBlank c = false ∧ c ≠ ']' ∧ c ≠ '\x7d' := by
  match j with
  | .null => exact ⟨'n', _, rfl, by decide, by decide, by decide⟩
  | .bool true => exact ⟨'t', _, rfl, by decide, by decide, by decide⟩
  | .bool false => exact ⟨'f', _, rfl, by decide, by decide, by decide⟩
  | .number (.int i) =>
    obtain ⟨c, cs, hc, hfirst⟩ := printInt_cons i
    exact ⟨c, cs, hc, isBlank_of_sign_or_digit hfirst,
      ne_of_sign_or_digit hfirst (by decide) (by decide),
      ne_of_sign_or_digit hfirst (by decide) (by decide)⟩
  | .number (.float _) => exact hj.elim
  | .string s =>
    refine ⟨'"', s.toList.flatMap escape ++ ['"'], ?_, by decide, by decide, by decide⟩
    have h := toList_quote s []
    rwa [List.append_nil] at h
  | .array items =>
    exact ⟨'[', (printItems items).toList ++ [']'], by simp [print], by decide, by decide,
      by decide⟩
  | .object entries =>
    exact ⟨'\x7b', (printEntries entries).toList ++ ['\x7d'], by simp [print], by decide,
      by decide, by decide⟩

theorem printItems_cons (j : Json) (items : List Json) (hj : j.IsPlain) :
    ∃ c cs, (printItems (j :: items)).toList = c :: cs ∧ isBlank c = false ∧ c ≠ ']' ∧
      c ≠ '\x7d' := by
  obtain ⟨c, cs, hc, hfirst⟩ := print_cons j hj
  cases items with
  | nil => exact ⟨c, cs, hc, hfirst⟩
  | cons a rest => exact ⟨c, cs ++ ',' :: (printItems (a :: rest)).toList,
      by simp [printItems, hc], hfirst⟩

/-- The text of entries starts with a quote. -/
theorem printEntries_cons (k : String) (j : Json) (entries : List (String × Json)) :
    ∃ cs, (printEntries ((k, j) :: entries)).toList = '"' :: cs := by
  have hquote := toList_quote k
  cases entries with
  | nil =>
    rw [printEntries, String.append_assoc, String.toList_append, hquote]
    exact ⟨_, rfl⟩
  | cons e rest =>
    rw [printEntries, String.append_assoc, String.append_assoc, String.append_assoc,
      String.toList_append, hquote]
    · exact ⟨_, rfl⟩
    · exact List.cons_ne_nil _ _

/-! ### One step of the reader -/

variable {fuel : Nat} {text more rest : List Char} {d : Document}

theorem readValue_string (fuel : Nat) (s : String) (rest : List Char) :
    readValue (fuel + 1) ((quote s).toList ++ rest) = some (.string (some s), rest) := by
  rw [toList_quote, readValue, skipBlanks_cons (by decide)]
  simp only [readText_quote]
  rfl

theorem readValue_array {c : Char} {items : List Document} (hblank : isBlank c = false)
    (hc : c ≠ ']') (h : readItems fuel (c :: text) = some (items, rest)) :
    readValue (fuel + 1) ('[' :: c :: text) = some (.array items, rest) := by
  rw [readValue, skipBlanks_cons (by decide)]
  simp only [skipBlanks_cons hblank]
  split
  · next h => exact absurd (List.cons.inj h).1 hc
  · rw [h]
    rfl

theorem readValue_object {c : Char} {entries : List (Option String × Document)}
    (hblank : isBlank c = false) (hc : c ≠ '\x7d')
    (h : readEntries fuel (c :: text) = some (entries, rest)) :
    readValue (fuel + 1) ('\x7b' :: c :: text) = some (.object entries, rest) := by
  rw [readValue, skipBlanks_cons (by decide)]
  simp only [skipBlanks_cons hblank]
  split
  · next h => exact absurd (List.cons.inj h).1 hc
  · rw [h]
    rfl

theorem readItems_last (h : readValue fuel text = some (d, ']' :: rest)) :
    readItems (fuel + 1) text = some ([d], rest) := by
  rw [readItems, h]
  simp only [Option.bind_eq_bind, Option.bind_some, skipBlanks_cons (by decide : isBlank ']' = _)]

theorem readItems_cons {items : List Document} (h : readValue fuel text = some (d, ',' :: more))
    (hmore : readItems fuel more = some (items, rest)) :
    readItems (fuel + 1) text = some (d :: items, rest) := by
  rw [readItems, h]
  simp only [Option.bind_eq_bind, Option.bind_some, skipBlanks_cons (by decide : isBlank ',' = _),
    hmore]

theorem readEntries_last (k : String) (h : readValue fuel text = some (d, '\x7d' :: rest)) :
    readEntries (fuel + 1) ((quote k).toList ++ ':' :: text) = some ([(some k, d)], rest) := by
  rw [toList_quote, readEntries, skipBlanks_cons (by decide)]
  simp only [readText_quote, Option.bind_eq_bind, Option.bind_some,
    skipBlanks_cons (by decide : isBlank ':' = _), h,
    skipBlanks_cons (by decide : isBlank '\x7d' = _)]

theorem readEntries_cons (k : String) {entries : List (Option String × Document)}
    (h : readValue fuel text = some (d, ',' :: more))
    (hmore : readEntries fuel more = some (entries, rest)) :
    readEntries (fuel + 1) ((quote k).toList ++ ':' :: text) =
      some ((some k, d) :: entries, rest) := by
  rw [toList_quote, readEntries, skipBlanks_cons (by decide)]
  simp only [readText_quote, Option.bind_eq_bind, Option.bind_some,
    skipBlanks_cons (by decide : isBlank ':' = _), h,
    skipBlanks_cons (by decide : isBlank ',' = _), hmore]

/-! ### Whole values -/

/-- What is read in so many steps: a text takes two steps for a character at most. -/
structure ReadsBack (fuel : Nat) : Prop where
  value : ∀ (j : Json) (rest : List Char), j.IsPlain → Ends rest →
    2 * j.print.toList.length ≤ fuel + 1 →
    readValue fuel (j.print.toList ++ rest) = some (j.toDocument, rest)
  items : ∀ (j : Json) (items : List Json) (rest : List Char), j.IsPlain → Json.ArePlain items →
    2 * (printItems (j :: items)).toList.length ≤ fuel →
    readItems fuel ((printItems (j :: items)).toList ++ ']' :: rest) =
      some (documents (j :: items), rest)
  entries : ∀ (k : String) (j : Json) (entries : List (String × Json)) (rest : List Char),
    j.IsPlain → EntriesPlain entries →
    2 * (printEntries ((k, j) :: entries)).toList.length ≤ fuel →
    readEntries fuel ((printEntries ((k, j) :: entries)).toList ++ '\x7d' :: rest) =
      some (entryDocuments ((k, j) :: entries), rest)

namespace ReadsBack

theorem zero : ReadsBack 0 where
  value j rest hj _ hfuel := by
    obtain ⟨c, cs, hc, -⟩ := print_cons j hj
    rw [hc, List.length_cons] at hfuel
    omega
  items j items rest hj _ hfuel := by
    obtain ⟨c, cs, hc, -⟩ := printItems_cons j items hj
    rw [hc, List.length_cons] at hfuel
    omega
  entries k j entries rest _ _ hfuel := by
    obtain ⟨cs, hc⟩ := printEntries_cons k j entries
    rw [hc, List.length_cons] at hfuel
    omega

theorem succ_value {fuel : Nat} (ih : ReadsBack fuel) (j : Json) (rest : List Char) (hj : j.IsPlain)
    (hrest : Ends rest) (hfuel : 2 * j.print.toList.length ≤ fuel + 2) :
    readValue (fuel + 1) (j.print.toList ++ rest) = some (j.toDocument, rest) := by
  match j with
  | .null | .bool true | .bool false => rfl
  | .number (.int i) => exact readValue_int fuel i hrest hj
  | .number (.float _) => exact hj.elim
  | .string s => exact readValue_string fuel s rest
  | .array [] => rfl
  | .array (j :: items) =>
    have htext : (Json.array (j :: items)).print.toList ++ rest =
        '[' :: ((printItems (j :: items)).toList ++ ']' :: rest) := by
      simp [print]
    have hlen : (Json.array (j :: items)).print.toList.length =
        (printItems (j :: items)).toList.length + 2 := by
      simp [print]
    have hread := ih.items j items rest hj.1 hj.2 (by omega)
    obtain ⟨c, cs, hc, hblank, hbracket, -⟩ := printItems_cons j items hj.1
    rw [hc, List.cons_append] at hread
    rw [htext, hc, List.cons_append]
    exact readValue_array hblank hbracket hread
  | .object [] => rfl
  | .object ((k, j) :: entries) =>
    have htext : (Json.object ((k, j) :: entries)).print.toList ++ rest =
        '\x7b' :: ((printEntries ((k, j) :: entries)).toList ++ '\x7d' :: rest) := by
      simp [print]
    have hlen : (Json.object ((k, j) :: entries)).print.toList.length =
        (printEntries ((k, j) :: entries)).toList.length + 2 := by
      simp [print]
    have hread := ih.entries k j entries rest hj.2.1 hj.2.2 (by omega)
    obtain ⟨cs, hc⟩ := printEntries_cons k j entries
    rw [hc, List.cons_append] at hread
    rw [htext, hc, List.cons_append]
    exact readValue_object (by decide) (by decide) hread

theorem succ_items {fuel : Nat} (ih : ReadsBack fuel) (j : Json) (items : List Json)
    (rest : List Char) (hj : j.IsPlain) (h : Json.ArePlain items)
    (hfuel : 2 * (printItems (j :: items)).toList.length ≤ fuel + 1) :
    readItems (fuel + 1) ((printItems (j :: items)).toList ++ ']' :: rest) =
      some (documents (j :: items), rest) := by
  cases items with
  | nil =>
    rw [printItems] at hfuel ⊢
    exact readItems_last (ih.value j _ hj (.of_bracket rest) (by omega))
  | cons j' items =>
    have htext : (printItems (j :: j' :: items)).toList ++ ']' :: rest =
        j.print.toList ++ ',' :: ((printItems (j' :: items)).toList ++ ']' :: rest) := by
      simp [printItems]
    have hlen : (printItems (j :: j' :: items)).toList.length =
        j.print.toList.length + (printItems (j' :: items)).toList.length + 1 := by
      simp [printItems]
      omega
    rw [htext]
    exact readItems_cons (ih.value j _ hj (.of_comma _) (by omega))
      (ih.items j' items rest h.1 h.2 (by omega))

theorem succ_entries {fuel : Nat} (ih : ReadsBack fuel) (k : String) (j : Json)
    (entries : List (String × Json)) (rest : List Char) (hj : j.IsPlain)
    (h : EntriesPlain entries)
    (hfuel : 2 * (printEntries ((k, j) :: entries)).toList.length ≤ fuel + 1) :
    readEntries (fuel + 1) ((printEntries ((k, j) :: entries)).toList ++ '\x7d' :: rest) =
      some (entryDocuments ((k, j) :: entries), rest) := by
  cases entries with
  | nil =>
    have htext : (printEntries [(k, j)]).toList ++ '\x7d' :: rest =
        (quote k).toList ++ ':' :: (j.print.toList ++ '\x7d' :: rest) := by
      simp [printEntries]
    have hlen : j.print.toList.length + 1 ≤ (printEntries [(k, j)]).toList.length := by
      simp only [printEntries, String.toList_append, List.length_append]
      have : ":".toList.length = 1 := rfl
      omega
    rw [htext]
    exact readEntries_last k (ih.value j _ hj (.of_brace rest) (by omega))
  | cons e entries =>
    obtain ⟨k', j'⟩ := e
    have htext : (printEntries ((k, j) :: (k', j') :: entries)).toList ++ '\x7d' :: rest =
        (quote k).toList ++ ':' :: (j.print.toList ++
          ',' :: ((printEntries ((k', j') :: entries)).toList ++ '\x7d' :: rest)) := by
      simp [printEntries]
    have hlen : j.print.toList.length + (printEntries ((k', j') :: entries)).toList.length + 1 ≤
        (printEntries ((k, j) :: (k', j') :: entries)).toList.length := by
      simp only [printEntries, String.toList_append, List.length_append]
      have : ",".toList.length = 1 := rfl
      omega
    rw [htext]
    exact readEntries_cons k (ih.value j _ hj (.of_comma _) (by omega))
      (ih.entries k' j' entries rest h.1 h.2 (by omega))

theorem all (fuel : Nat) : ReadsBack fuel := by
  induction fuel with
  | zero => exact .zero
  | succ fuel ih => exact ⟨ih.succ_value, ih.succ_items, ih.succ_entries⟩

end ReadsBack

theorem read?_print {j : Json} (hj : j.IsPlain) : read? j.print = some j.toDocument := by
  have hread := (ReadsBack.all (2 * j.print.toList.length + 1)).value j [] hj
    (fun _ h => by cases h) (by omega)
  rw [List.append_nil] at hread
  simp only [read?, hread]
  rfl

end Document

/-- A value is read back from its text. -/
theorem parse?_print {j : Json} (hj : j.IsPlain) (hd : j.depth ≤ Document.maxDepth) :
    parse? j.print = some j := by
  rw [parse?, Document.read?_print hj, Option.bind_some, Document.toJson?_toDocument _ j hj hd]

/-- A value with more levels than the reader allows is not read back. -/
theorem parse?_print_of_deep {j : Json} (hj : j.IsPlain) (hd : Document.maxDepth < j.depth) :
    parse? j.print = none := by
  rw [parse?, Document.read?_print hj, Option.bind_some, Document.toJson?_of_deep _ j hd]

theorem parseBytes?_ofString (s : String) : parseBytes? (Bytes.ofString s) = parse? s := by
  have h := Bytes.toString?_ofString s
  rw [Bytes.toString?] at h
  rw [parseBytes?, h, Option.bind_some]

/-- A value is read back from its text in bytes. -/
theorem parseBytes?_print {j : Json} (hj : j.IsPlain) (hd : j.depth ≤ Document.maxDepth) :
    parseBytes? (Bytes.ofString j.print) = some j := by
  rw [parseBytes?_ofString, parse?_print hj hd]

end Messaging.Json
