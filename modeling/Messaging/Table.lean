/-!
# Tables sorted by name

A table maps names to values and is kept as the list of its entries in ascending bytewise order of
the names, so that two tables with the same entries are equal and every listing of a table comes in
one order. `Table.insert` replaces the value of a name that is already there. What `find?` gives
after a change is said by `find?_insert`, `find?_modify` and `find?_erase`, sorted or not.
-/

namespace Messaging

/-- The entries of a table in ascending order of their names. -/
abbrev Table (α : Type) := List (String × α)

namespace Table

variable {α β : Type}

/-- The table with one entry more, or with the value of an entry replaced. -/
def insert (name : String) (value : α) : Table α → Table α
  | [] => [(name, value)]
  | (n, v) :: rest =>
    if name < n then (name, value) :: (n, v) :: rest
    else if name = n then (name, value) :: rest
    else (n, v) :: insert name value rest

/-- The table of a list of entries, the last of several with one name counting. -/
def ofList (entries : List (String × α)) : Table α :=
  entries.foldl (fun table entry => insert entry.1 entry.2 table) []

/-- The value of a name. -/
def find? (table : Table α) (name : String) : Option α := List.lookup name table

/-- Is there an entry of that name? -/
def contains (table : Table α) (name : String) : Bool := (find? table name).isSome

/-- The table without the entry of a name. -/
def erase (table : Table α) (name : String) : Table α := table.filter (fun e => e.1 ≠ name)

/-- The table with the value of a name changed, where it has one. -/
def modify (table : Table α) (name : String) (change : α → α) : Table α :=
  table.map fun e => if e.1 = name then (e.1, change e.2) else e

/-- The names, in order. -/
def names (table : Table α) : List String := table.map Prod.fst

/-! ### What is found after a change -/

theorem find?_nil (name : String) : find? ([] : Table α) name = none := rfl

theorem find?_cons (n name : String) (v : α) (rest : Table α) :
    find? ((n, v) :: rest) name = if name = n then some v else find? rest name := by
  simp only [find?, List.lookup_cons]
  split <;> simp_all

theorem find?_insert (name key : String) (value : α) (table : Table α) :
    find? (insert name value table) key = if key = name then some value else find? table key := by
  induction table with
  | nil => simp [insert, find?_cons, find?_nil]
  | cons e rest ih =>
    obtain ⟨n, v⟩ := e
    unfold insert
    split
    · simp [find?_cons]
    · split
      · subst n
        simp only [find?_cons]
        split <;> rfl
      · simp only [find?_cons, ih]
        split <;> split <;> simp_all

theorem find?_modify (name key : String) (change : α → α) (table : Table α) :
    find? (modify table name change) key =
      if key = name then (find? table key).map change else find? table key := by
  induction table with
  | nil => simp [modify, find?_nil]
  | cons e rest ih =>
    obtain ⟨n, v⟩ := e
    have step : modify ((n, v) :: rest) name change =
      (if n = name then (n, change v) else (n, v)) :: modify rest name change := rfl
    rw [step]
    by_cases h : n = name
    · rw [if_pos h, find?_cons, find?_cons, ih, h]
      by_cases hk : key = name <;> simp [hk]
    · rw [if_neg h, find?_cons, find?_cons, ih]
      by_cases hk : key = n
      · simp [hk, h]
      · simp [hk]

theorem find?_erase (name key : String) (table : Table α) :
    find? (erase table name) key = if key = name then none else find? table key := by
  induction table with
  | nil => simp [erase, find?_nil]
  | cons e rest ih =>
    obtain ⟨n, v⟩ := e
    have step : erase ((n, v) :: rest) name =
      if n = name then erase rest name else (n, v) :: erase rest name := by
      simp [erase, List.filter_cons]
    rw [step]
    by_cases h : n = name
    · rw [if_pos h, find?_cons, ih, h]
      by_cases hk : key = name <;> simp [hk]
    · rw [if_neg h, find?_cons, find?_cons, ih]
      by_cases hk : key = n
      · simp [hk, h]
      · simp [hk]

theorem contains_insert (name key : String) (value : α) (table : Table α) :
    contains (insert name value table) key = (key = name || contains table key) := by
  simp only [contains, find?_insert]
  split <;> simp_all

theorem names_modify (name : String) (change : α → α) (table : Table α) :
    names (modify table name change) = names table := by
  simp only [names, modify, List.map_map]
  congr 1
  funext e
  simp only [Function.comp_apply]
  split <;> rfl

end Table

end Messaging
