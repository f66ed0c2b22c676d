import Messaging.Table
import Mathlib.Data.List.Nodup

/-! # The names in a table

A table that has been filled by `Table.insert` under new names has every name once, and what has
been put under a name stays there (`Table.Added`). Entries of which one has a name that is taken
cannot all be added (`Table.Clashes`). A table extends another if it has all its entries
(`Table.Extends`). -/

namespace Messaging

namespace Table

variable {α : Type}

theorem notMem_names {name : String} {table : Table α} (h : table.find? name = none) :
    name ∉ table.names := by
  induction table with
  | nil => simp [names]
  | cons e rest ih =>
    obtain ⟨n, v⟩ := e
    rw [find?_cons] at h
    split at h
    · cases h
    · next hn => simpa [names, hn] using ih h

/-- What is found is the value of an entry. -/
theorem mem_of_find? {name : String} {value : α} {table : Table α}
    (h : table.find? name = some value) : (name, value) ∈ table := by
  induction table with
  | nil => simp [find?_nil] at h
  | cons e rest ih =>
    obtain ⟨n, v⟩ := e
    rw [find?_cons] at h
    split at h
    · next hn =>
      cases h
      rw [hn]
      exact List.mem_cons_self
    · exact List.mem_cons_of_mem _ (ih h)

/-- Where every name is there once, the value of an entry is what is found. -/
theorem find?_of_mem {name : String} {value : α} {table : Table α} (hnodup : table.names.Nodup)
    (h : (name, value) ∈ table) : table.find? name = some value := by
  induction table with
  | nil => cases h
  | cons e rest ih =>
    obtain ⟨hfirst, hrest⟩ := List.nodup_cons.mp hnodup
    rw [find?_cons]
    rcases List.mem_cons.mp h with rfl | h
    · exact if_pos rfl
    · rw [if_neg, ih hrest h]
      rintro rfl
      exact hfirst (List.mem_map.mpr ⟨_, h, rfl⟩)

theorem mem_names {name : String} {value : α} {table : Table α}
    (h : table.find? name = some value) : name ∈ table.names :=
  List.mem_map.mpr ⟨_, mem_of_find? h, rfl⟩

/-- An entry of a new name comes among the others. -/
theorem insert_perm {name : String} {table : Table α} (h : name ∉ table.names) (value : α) :
    (insert name value table).Perm ((name, value) :: table) := by
  induction table with
  | nil => exact .refl _
  | cons e rest ih =>
    obtain ⟨n, v⟩ := e
    obtain ⟨hn, hrest⟩ := not_or.mp (mt List.mem_cons.mpr h)
    unfold insert
    rw [if_neg hn]
    split
    · exact .refl _
    · exact ((ih hrest).cons (n, v)).trans (.swap _ _ _)

/-- A new name comes among the others. -/
theorem names_insert {name : String} {value : α} {table : Table α}
    (h : table.find? name = none) : (insert name value table).names.Perm (name :: table.names) :=
  (insert_perm (notMem_names h) value).map Prod.fst

/-- Changing the value of a name to what it is changes nothing. -/
theorem modify_eq_self {name : String} {change : α → α} {table : Table α}
    (hnodup : table.names.Nodup) (h : ∀ v, table.find? name = some v → change v = v) :
    modify table name change = table := by
  induction table with
  | nil => rfl
  | cons e rest ih =>
    obtain ⟨n, v⟩ := e
    simp only [names, List.map_cons, List.nodup_cons] at hnodup
    have step : modify ((n, v) :: rest) name change =
      (if n = name then (n, change v) else (n, v)) :: modify rest name change := rfl
    rw [step]
    by_cases hn : n = name
    · rw [if_pos hn, h v (by rw [find?_cons, if_pos hn.symm]), ih hnodup.2 fun w hw => ?_]
      exact absurd (hn ▸ mem_names hw) hnodup.1
    · rw [if_neg hn, ih hnodup.2 fun w hw => h w ?_]
      rw [find?_cons, if_neg (Ne.symm hn), hw]

/-- Every entry of the one table is an entry of the other. -/
def Extends (table table' : Table α) : Prop :=
  ∀ name value, table.find? name = some value → table'.find? name = some value

namespace Extends

variable {table table' table'' : Table α}

theorem refl (table : Table α) : Extends table table := fun _ _ h => h

theorem of_eq (h : table' = table) : Extends table table' := h ▸ refl table

theorem trans (h : Extends table table') (h' : Extends table' table'') : Extends table table'' :=
  fun name value hv => h' name value (h name value hv)

theorem insert {name : String} (h : table.find? name = none) (value : α) :
    Extends table (insert name value table) := by
  intro n v hv
  rw [find?_insert, if_neg fun hn => ?_, hv]
  rw [hn, h] at hv
  cases hv

end Extends

/-- Entries are added to a table one after the other, each under a new name. -/
inductive Added : List (String × α) → Table α → Table α → Prop
  | nil (table : Table α) : Added [] table table
  | cons {name : String} {value : α} {rest : List (String × α)} {table table' : Table α}
      (new : table.find? name = none) (added : Added rest (insert name value table) table') :
      Added ((name, value) :: rest) table table'

namespace Added

variable {entries : List (String × α)} {table table' : Table α} {name : String} {value : α}

theorem find?_eq_none (h : Added entries table table') (hmem : (name, value) ∈ entries) :
    table.find? name = none := by
  induction h with
  | nil => simp at hmem
  | @cons n v rest table table' new _ ih =>
    rcases List.mem_cons.mp hmem with he | hrest
    · rwa [(Prod.mk.inj he).1]
    · have hn := ih hrest
      rw [find?_insert] at hn
      split at hn
      · cases hn
      · exact hn

theorem find?_of_forall_ne (h : Added entries table table') (hname : ∀ e ∈ entries, e.1 ≠ name) :
    table'.find? name = table.find? name := by
  induction h with
  | nil => rfl
  | cons _ _ ih =>
    rw [ih fun e he => hname e (List.mem_cons_of_mem _ he), find?_insert,
      if_neg (hname _ List.mem_cons_self).symm]

theorem find?_of_mem (h : Added entries table table') (hmem : (name, value) ∈ entries) :
    table'.find? name = some value := by
  induction h with
  | nil => simp at hmem
  | @cons n v rest table table' new added ih =>
    rcases List.mem_cons.mp hmem with he | hrest
    · obtain ⟨rfl, rfl⟩ := Prod.mk.inj he
      -- A later entry of the same name would not find it new.
      rw [added.find?_of_forall_ne fun e he' hname => ?_, find?_insert, if_pos rfl]
      have hn := added.find?_eq_none he'
      rw [find?_insert, if_pos hname] at hn
      cases hn
    · exact ih hrest

theorem nodup (h : Added entries table table') : (entries.map Prod.fst).Nodup := by
  induction h with
  | nil => exact .nil
  | cons _ added ih =>
    refine List.nodup_cons.mpr ⟨fun hmem => ?_, ih⟩
    obtain ⟨e, he, rfl⟩ := List.mem_map.mp hmem
    have hnew := added.find?_eq_none he
    rw [find?_insert, if_pos rfl] at hnew
    cases hnew

/-- What is found in a table that was empty is what has been added. -/
theorem find?_eq_some_iff (h : Added entries [] table') :
    table'.find? name = some value ↔ (name, value) ∈ entries := by
  refine ⟨fun hfound => ?_, h.find?_of_mem⟩
  by_cases hname : ∃ e ∈ entries, e.1 = name
  · obtain ⟨⟨n, v⟩, he, rfl⟩ := hname
    rw [h.find?_of_mem he] at hfound
    cases hfound
    exact he
  · rw [h.find?_of_forall_ne fun e he hn => hname ⟨e, he, hn⟩, find?_nil] at hfound
    cases hfound

end Added

/-- Entries are added to a table one after the other until one has a name that is taken. -/
inductive Clashes : List (String × α) → Table α → String → Prop
  | here {name : String} {value : α} {rest : List (String × α)} {table : Table α}
      (taken : table.find? name ≠ none) : Clashes ((name, value) :: rest) table name
  | later {name n : String} {value : α} {rest : List (String × α)} {table : Table α}
      (new : table.find? name = none) (clashes : Clashes rest (insert name value table) n) :
      Clashes ((name, value) :: rest) table n

/-- The names in front of one that is taken are new and different from each other. -/
theorem Clashes.split {entries : List (String × α)} {table : Table α} {name : String}
    (h : Clashes entries table name) :
    ∃ front back, entries.map Prod.fst = front ++ name :: back ∧ front.Nodup ∧
      (∀ n ∈ front, table.find? n = none) ∧ (name ∈ front ∨ table.find? name ≠ none) := by
  induction h with
  | here taken => exact ⟨[], _, rfl, .nil, fun _ h => absurd h List.not_mem_nil, .inr taken⟩
  | @later name n value rest table new _ ih =>
    obtain ⟨front, back, hrest, hnodup, hfront, htaken⟩ := ih
    have hother : ∀ m ∈ front, m ≠ name ∧ table.find? m = none := fun m hm => by
      have hnone := hfront m hm
      rw [find?_insert] at hnone
      split at hnone
      · cases hnone
      · next hne => exact ⟨hne, hnone⟩
    refine ⟨name :: front, back, by rw [List.map_cons, hrest, List.cons_append],
      List.nodup_cons.mpr ⟨fun hm => (hother _ hm).1 rfl, hnodup⟩, fun m hm => ?_, ?_⟩
    · rcases List.mem_cons.mp hm with rfl | hm
      · exact new
      · exact (hother m hm).2
    · rcases htaken with hm | hm
      · exact .inl (List.mem_cons_of_mem _ hm)
      · rw [find?_insert] at hm
        split at hm
        · next heq => exact .inl (heq ▸ List.mem_cons_self)
        · exact .inr hm

end Table

end Messaging
