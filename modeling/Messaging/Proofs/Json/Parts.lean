import Messaging.Json.Document
import Messaging.Proofs.Table.Sorted

/-! # The parts of a JSON value

`Json.parts` lists the values in a value; its length is the size of the value. A value is tabled if
all objects in it are tables (`Json.IsTabled`), as those are that the program reads or builds
(`isTabled_of_parse?`). -/

namespace Messaging.Json

mutual

/-- The values in a value, itself first. -/
def parts : Json → List Json
  | array items => array items :: itemParts items
  | object entries => object entries :: entryParts entries
  | j => [j]

/-- The values in a list of values. -/
def itemParts : List Json → List Json
  | [] => []
  | j :: rest => j.parts ++ itemParts rest

/-- The values in a list of entries. -/
def entryParts : List (String × Json) → List Json
  | [] => []
  | (_, j) :: rest => j.parts ++ entryParts rest

end

theorem self_mem_parts (j : Json) : j ∈ j.parts := by
  cases j <;> simp [parts]

theorem mem_itemParts {j : Json} {items : List Json} :
    j ∈ itemParts items ↔ ∃ i ∈ items, j ∈ i.parts := by
  induction items with
  | nil => simp [itemParts]
  | cons i rest ih => simp [itemParts, ih]

theorem mem_entryParts {j : Json} {entries : List (String × Json)} :
    j ∈ entryParts entries ↔ ∃ e ∈ entries, j ∈ e.2.parts := by
  induction entries with
  | nil => simp [entryParts]
  | cons e rest ih => simp [entryParts, ih]

mutual

theorem parts_trans {a b c : Json} (h : b ∈ a.parts) (hc : c ∈ b.parts) : c ∈ a.parts := by
  match a with
  | .array items =>
    rcases List.mem_cons.mp h with rfl | h
    · exact hc
    · exact List.mem_cons_of_mem _ (itemParts_trans h hc)
  | .object entries =>
    rcases List.mem_cons.mp h with rfl | h
    · exact hc
    · exact List.mem_cons_of_mem _ (entryParts_trans h hc)
  | .null | .bool _ | .number _ | .string _ =>
    rw [List.mem_singleton.mp h] at hc
    exact hc

theorem itemParts_trans {items : List Json} {b c : Json} (h : b ∈ itemParts items)
    (hc : c ∈ b.parts) : c ∈ itemParts items := by
  match items with
  | [] => cases h
  | i :: rest =>
    rcases List.mem_append.mp h with h | h
    · exact List.mem_append_left _ (parts_trans h hc)
    · exact List.mem_append_right _ (itemParts_trans h hc)

theorem entryParts_trans {entries : List (String × Json)} {b c : Json} (h : b ∈ entryParts entries)
    (hc : c ∈ b.parts) : c ∈ entryParts entries := by
  match entries with
  | [] => cases h
  | (_, i) :: rest =>
    rcases List.mem_append.mp h with h | h
    · exact List.mem_append_left _ (parts_trans h hc)
    · exact List.mem_append_right _ (entryParts_trans h hc)

end

mutual

theorem length_parts (j : Json) : j.parts.length = j.size := by
  match j with
  | .array items => rw [parts, List.length_cons, length_itemParts items, size]
  | .object entries => rw [parts, List.length_cons, length_entryParts entries, size]
  | .null | .bool _ | .number _ | .string _ => rfl

theorem length_itemParts (items : List Json) : (itemParts items).length = sizes items := by
  match items with
  | [] => rfl
  | j :: rest => rw [itemParts, List.length_append, length_parts j, length_itemParts rest, sizes]

theorem length_entryParts (entries : List (String × Json)) :
    (entryParts entries).length = entrySizes entries := by
  match entries with
  | [] => rfl
  | (_, j) :: rest =>
    rw [entryParts, List.length_append, length_parts j, length_entryParts rest, entrySizes]

end

theorem length_flatMap_parts (values : List Json) :
    (values.flatMap parts).length = (values.map size).foldr (· + ·) 0 := by
  induction values with
  | nil => rfl
  | cons j rest ih =>
    rw [List.flatMap_cons, List.length_append, length_parts, ih, List.map_cons, List.foldr_cons]

theorem size_le_sizes {j : Json} {items : List Json} (h : j ∈ items) : j.size ≤ sizes items := by
  induction items with
  | nil => cases h
  | cons i rest ih =>
    rw [sizes]
    rcases List.mem_cons.mp h with rfl | h
    · exact Nat.le_add_right _ _
    · exact (ih h).trans (Nat.le_add_left _ _)

theorem size_le_entrySizes {e : String × Json} {entries : List (String × Json)}
    (h : e ∈ entries) : e.2.size ≤ entrySizes entries := by
  induction entries with
  | nil => cases h
  | cons i rest ih =>
    rw [entrySizes]
    rcases List.mem_cons.mp h with rfl | h
    · exact Nat.le_add_right _ _
    · exact (ih h).trans (Nat.le_add_left _ _)

/-! ### Values without objects -/

/-- Is there no object in the value? -/
def ObjectFree (j : Json) : Prop := ∀ entries, object entries ∉ j.parts

theorem ObjectFree.null : ObjectFree null := fun _ h => by cases List.mem_singleton.mp h

theorem ObjectFree.of_mem {i j : Json} (h : j.ObjectFree) (hi : i ∈ j.parts) : i.ObjectFree :=
  fun entries he => h entries (parts_trans hi he)

/-! ### Values whose objects are tables -/

/-- Are all objects in the value tables? -/
def IsTabled (j : Json) : Prop := ∀ entries, object entries ∈ j.parts → Table.Sorted entries

namespace IsTabled

theorem of_mem {i j : Json} (h : j.IsTabled) (hi : i ∈ j.parts) : i.IsTabled :=
  fun entries he => h entries (parts_trans hi he)

theorem item {items : List Json} (h : (Json.array items).IsTabled) : ∀ j ∈ items, j.IsTabled :=
  fun j hj => h.of_mem (List.mem_cons_of_mem _ (mem_itemParts.mpr ⟨j, hj, j.self_mem_parts⟩))

theorem sorted {entries : List (String × Json)} (h : (Json.object entries).IsTabled) :
    Table.Sorted entries :=
  h entries (self_mem_parts _)

theorem entry {entries : List (String × Json)} (h : (Json.object entries).IsTabled) :
    ∀ e ∈ entries, e.2.IsTabled :=
  fun e he => h.of_mem (List.mem_cons_of_mem _ (mem_entryParts.mpr ⟨e, he, e.2.self_mem_parts⟩))

theorem lookup {entries : List (String × Json)} (h : (Json.object entries).IsTabled)
    {key : String} {j : Json} (hj : entries.lookup key = some j) : j.IsTabled :=
  h.entry (key, j) (Table.mem_of_find? hj)

/-- A value without parts has no objects. -/
theorem single {j : Json} (hj : j.parts = [j]) (hobject : ∀ entries, j ≠ object entries) :
    j.IsTabled := by
  intro entries he
  rw [hj, List.mem_singleton] at he
  exact absurd he.symm (hobject entries)

theorem array {items : List Json} (h : ∀ j ∈ items, j.IsTabled) : (Json.array items).IsTabled := by
  intro entries he
  rcases List.mem_cons.mp he with he | he
  · cases he
  · obtain ⟨j, hj, he⟩ := mem_itemParts.mp he
    exact h j hj entries he

theorem object {entries : List (String × Json)} (hsorted : Table.Sorted entries)
    (h : ∀ e ∈ entries, e.2.IsTabled) : (Json.object entries).IsTabled := by
  intro entries' he
  rcases List.mem_cons.mp he with he | he
  · cases he
    exact hsorted
  · obtain ⟨e, hmem, he⟩ := mem_entryParts.mp he
    exact h e hmem entries' he

theorem ofEntries {entries : List (String × Json)} (h : ∀ e ∈ entries, e.2.IsTabled) :
    (Json.ofEntries entries).IsTabled :=
  object (Table.ofList_sorted entries) fun e he => h e (Table.mem_of_mem_ofList he)

end IsTabled

namespace Document

mutual

theorem isTabled_of_toJson? {depth : Nat} {j : Json} (d : Document)
    (h : toJson? depth d = some j) : j.IsTabled := by
  match d with
  | .null | .bool _ =>
    cases h
    exact .single rfl fun _ he => Json.noConfusion he
  | .number n =>
    obtain ⟨n, -, rfl⟩ := Option.map_eq_some_iff.mp h
    exact .single rfl fun _ he => Json.noConfusion he
  | .string s =>
    obtain ⟨s, -, rfl⟩ := Option.map_eq_some_iff.mp h
    exact .single rfl fun _ he => Json.noConfusion he
  | .array items =>
    cases depth with
    | zero => cases h
    | succ depth =>
      obtain ⟨js, hjs, rfl⟩ := Option.map_eq_some_iff.mp h
      exact .array (isTabled_of_itemsToJson? items hjs)
  | .object entries =>
    cases depth with
    | zero => cases h
    | succ depth =>
      obtain ⟨es, hes, rfl⟩ := Option.map_eq_some_iff.mp h
      exact .ofEntries (isTabled_of_entriesToJson? entries hes)

theorem isTabled_of_itemsToJson? {depth : Nat} {js : List Json} (items : List Document)
    (h : itemsToJson? depth items = some js) : ∀ j ∈ js, j.IsTabled := by
  match items with
  | [] =>
    cases h
    exact fun _ hj => absurd hj List.not_mem_nil
  | d :: rest =>
    rw [itemsToJson?] at h
    obtain ⟨j, hj, h⟩ := Option.bind_eq_some_iff.mp h
    obtain ⟨js', hjs, h⟩ := Option.bind_eq_some_iff.mp h
    cases h
    exact List.forall_mem_cons.mpr
      ⟨isTabled_of_toJson? d hj, isTabled_of_itemsToJson? rest hjs⟩

theorem isTabled_of_entriesToJson? {depth : Nat} {es : List (String × Json)}
    (entries : List (Option String × Document)) (h : entriesToJson? depth entries = some es) :
    ∀ e ∈ es, e.2.IsTabled := by
  match entries with
  | [] =>
    cases h
    exact fun _ he => absurd he List.not_mem_nil
  | (key, d) :: rest =>
    rw [entriesToJson?] at h
    obtain ⟨k, -, h⟩ := Option.bind_eq_some_iff.mp h
    obtain ⟨j, hj, h⟩ := Option.bind_eq_some_iff.mp h
    obtain ⟨es', hes, h⟩ := Option.bind_eq_some_iff.mp h
    cases h
    exact List.forall_mem_cons.mpr
      ⟨isTabled_of_toJson? d hj, isTabled_of_entriesToJson? rest hes⟩

end

end Document

/-- The objects of a value that is read are tables. -/
theorem isTabled_of_parse? {text : String} {j : Json} (h : parse? text = some j) : j.IsTabled := by
  obtain ⟨d, -, hd⟩ := Option.bind_eq_some_iff.mp h
  exact Document.isTabled_of_toJson? d hd

end Messaging.Json
