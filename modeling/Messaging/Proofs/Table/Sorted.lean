import Messaging.Proofs.Table
import Mathlib.Data.String.Basic

/-! # Tables made from lists

`Table.ofList` gives a sorted table, and leaves one as it is that is sorted already
(`ofList_of_sorted`). A list that has every name once is only put in order (`ofList_perm`), so
nothing is lost (`find?_ofList`) and a sorted table is made from its entries in any order
(`ofList_of_perm`). -/

namespace Messaging

namespace Table

variable {α : Type}

/-- The names are in ascending order. -/
def Sorted (table : Table α) : Prop := table.Pairwise fun a b => a.1 < b.1

theorem mem_insert {name : String} {value : α} {table : Table α} {e : String × α}
    (h : e ∈ insert name value table) : e = (name, value) ∨ e ∈ table := by
  induction table with
  | nil => simpa [insert] using h
  | cons a rest ih =>
    obtain ⟨n, v⟩ := a
    unfold insert at h
    split at h
    · exact (List.mem_cons.mp h)
    · split at h
      · exact (List.mem_cons.mp h).imp id (List.mem_cons_of_mem _)
      · rcases List.mem_cons.mp h with rfl | h
        · exact .inr List.mem_cons_self
        · exact (ih h).imp id (List.mem_cons_of_mem _)

theorem Sorted.insert {table : Table α} (h : table.Sorted) (name : String) (value : α) :
    (insert name value table).Sorted := by
  induction table with
  | nil => exact List.pairwise_singleton _ _
  | cons a rest ih =>
    obtain ⟨n, v⟩ := a
    obtain ⟨hfirst, hrest⟩ := List.pairwise_cons.mp h
    unfold Table.insert
    split
    · next hlt =>
      refine List.pairwise_cons.mpr ⟨fun e he => ?_, h⟩
      rcases List.mem_cons.mp he with rfl | he
      · exact hlt
      · exact lt_trans hlt (hfirst e he)
    · next hlt =>
      split
      · next heq =>
        subst heq
        exact List.pairwise_cons.mpr ⟨hfirst, hrest⟩
      · next hne =>
        refine List.pairwise_cons.mpr ⟨fun e he => ?_, ih hrest⟩
        rcases mem_insert he with rfl | he
        · exact lt_of_le_of_ne (not_lt.mp hlt) (Ne.symm hne)
        · exact hfirst e he

/-- A name behind all others is put at the end. -/
theorem insert_of_forall_lt {name : String} {value : α} {table : Table α}
    (h : ∀ e ∈ table, e.1 < name) : insert name value table = table ++ [(name, value)] := by
  induction table with
  | nil => rfl
  | cons a rest ih =>
    obtain ⟨n, v⟩ := a
    have hn : n < name := h _ List.mem_cons_self
    unfold insert
    rw [if_neg (lt_asymm hn), if_neg (ne_of_gt hn),
      ih fun e he => h e (List.mem_cons_of_mem _ he), List.cons_append]

theorem foldl_insert_sorted (entries : List (String × α)) {table : Table α} (h : table.Sorted) :
    (entries.foldl (fun t e => insert e.1 e.2 t) table).Sorted := by
  induction entries generalizing table with
  | nil => exact h
  | cons e rest ih => exact ih (h.insert e.1 e.2)

theorem ofList_sorted (entries : List (String × α)) : (ofList entries).Sorted :=
  foldl_insert_sorted entries .nil

theorem mem_of_mem_foldl_insert {entries : List (String × α)} {table : Table α} {e : String × α}
    (h : e ∈ entries.foldl (fun t e => insert e.1 e.2 t) table) : e ∈ entries ∨ e ∈ table := by
  induction entries generalizing table with
  | nil => exact .inr h
  | cons a rest ih =>
    rcases ih h with h | h
    · exact .inl (List.mem_cons_of_mem _ h)
    · rcases mem_insert h with rfl | h
      · exact .inl List.mem_cons_self
      · exact .inr h

/-- The entries of a table that is made from a list are in the list. -/
theorem mem_of_mem_ofList {entries : List (String × α)} {e : String × α} (h : e ∈ ofList entries) :
    e ∈ entries :=
  (mem_of_mem_foldl_insert h).resolve_right List.not_mem_nil

theorem foldl_insert_of_sorted (entries : List (String × α)) {table : Table α}
    (h : Sorted (table ++ entries)) :
    entries.foldl (fun t e => insert e.1 e.2 t) table = table ++ entries := by
  induction entries generalizing table with
  | nil => rw [List.foldl_nil, List.append_nil]
  | cons e rest ih =>
    have hlt : ∀ a ∈ table, a.1 < e.1 := fun a ha =>
      (List.pairwise_append.mp h).2.2 a ha e List.mem_cons_self
    rw [List.append_cons] at h
    rw [List.foldl_cons, insert_of_forall_lt hlt, ih h, ← List.append_cons]

/-- A table that is sorted is made from its own entries. -/
theorem ofList_of_sorted {table : Table α} (h : table.Sorted) : ofList table = table :=
  foldl_insert_of_sorted table h

theorem foldl_insert_perm {entries : List (String × α)} {table : Table α}
    (hnodup : ((entries ++ table).map Prod.fst).Nodup) :
    (entries.foldl (fun t e => insert e.1 e.2 t) table).Perm (entries ++ table) := by
  induction entries generalizing table with
  | nil => exact .refl _
  | cons e rest ih =>
    have hmiddle : (rest ++ e :: table).Perm (e :: rest ++ table) := List.perm_middle
    have hrest := (hmiddle.map Prod.fst).nodup_iff.mpr hnodup
    have hnew : e.1 ∉ table.names := by
      rw [List.map_append, List.nodup_append] at hrest
      exact (List.nodup_cons.mp hrest.2.1).1
    have hinsert : (rest ++ insert e.1 e.2 table).Perm (rest ++ e :: table) :=
      (insert_perm hnew e.2).append_left rest
    exact (ih ((hinsert.map Prod.fst).nodup_iff.mpr hrest)).trans (hinsert.trans hmiddle)

/-- A list that has every name once is only put in order. -/
theorem ofList_perm {entries : List (String × α)} (hnodup : (entries.map Prod.fst).Nodup) :
    (ofList entries).Perm entries := by
  have h : (ofList entries).Perm (entries ++ []) :=
    foldl_insert_perm (by rwa [List.append_nil])
  rwa [List.append_nil] at h

theorem Sorted.nodup {table : Table α} (h : table.Sorted) : (table.map Prod.fst).Nodup :=
  List.pairwise_map.mpr (h.imp fun hlt => ne_of_lt hlt)

/-- A table that is sorted is made from its entries in any order. -/
theorem ofList_of_perm {entries : List (String × α)} {table : Table α} (h : table.Sorted)
    (hperm : entries.Perm table) : ofList entries = table := by
  have hnodup := (hperm.map Prod.fst).nodup_iff.mpr h.nodup
  have hasymm : ∀ a b : String × α, a ∈ ofList entries → b ∈ table → a.1 < b.1 → b.1 < a.1 →
      a = b :=
    fun a b _ _ hab hba => absurd hba (lt_asymm hab)
  exact List.Perm.eq_of_pairwise hasymm (ofList_sorted entries) h ((ofList_perm hnodup).trans hperm)

/-- A list that has every name once loses nothing. -/
theorem find?_ofList {entries : List (String × α)} {name : String} {value : α}
    (hnodup : (entries.map Prod.fst).Nodup) (h : (name, value) ∈ entries) :
    find? (ofList entries) name = some value :=
  have hperm := ofList_perm hnodup
  find?_of_mem ((hperm.map Prod.fst).nodup_iff.mpr hnodup) (hperm.mem_iff.mpr h)

end Table

end Messaging
