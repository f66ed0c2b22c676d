import Messaging.Proofs.Proto.Shape

/-! # The parts of a message in order

The wire form of a message is one of parts (`exists_parts`): those whose numbers its type has are
the fields that count as set (`fieldParts_eq`), the others are what is unknown, and both are in
order. -/

namespace Messaging.Proto

/-! ### Entries by number -/

section setNumber

variable {α : Type} {number : Nat} {v : α} {entries : List (Nat × α)}

/-- The numbers of the entries ascend. -/
def Ascending (entries : List (Nat × α)) : Prop := entries.Pairwise fun a b => a.1 < b.1

theorem mem_setNumber {e : Nat × α} (h : e ∈ setNumber number v entries) :
    e = (number, v) ∨ e ∈ entries := by
  induction entries with
  | nil => exact .inl (List.mem_singleton.mp h)
  | cons a rest ih =>
    unfold setNumber at h
    split at h
    · exact List.mem_cons.mp h
    · split at h
      · exact (List.mem_cons.mp h).imp_right (List.mem_cons_of_mem a)
      · rcases List.mem_cons.mp h with rfl | h
        · exact .inr List.mem_cons_self
        · exact (ih h).imp_right (List.mem_cons_of_mem a)

theorem lookup_setNumber (number : Nat) (v : α) (entries : List (Nat × α)) :
    (setNumber number v entries).lookup number = some v := by
  induction entries with
  | nil => simp [setNumber]
  | cons a rest ih =>
    unfold setNumber
    split
    · exact List.lookup_cons_self
    · split
      · exact List.lookup_cons_self
      · next hne =>
        rw [List.lookup_cons, beq_false_of_ne hne, ih]

/-- Of two values for a number the later one stays. -/
theorem setNumber_setNumber (number : Nat) (v w : α) (entries : List (Nat × α)) :
    setNumber number w (setNumber number v entries) = setNumber number w entries := by
  induction entries with
  | nil => simp [setNumber]
  | cons a rest ih =>
    obtain ⟨n, x⟩ := a
    by_cases hlt : number < n
    · simp [setNumber, hlt]
    · by_cases heq : number = n
      · simp [setNumber, heq]
      · simp [setNumber, hlt, heq, ih]

theorem setNumber_of_forall_gt (h : ∀ e ∈ entries, number < e.1) :
    setNumber number v entries = (number, v) :: entries := by
  cases entries with
  | nil => rfl
  | cons a rest => exact if_pos (h a List.mem_cons_self)

theorem setNumber_of_forall_lt (h : ∀ e ∈ entries, e.1 < number) :
    setNumber number v entries = entries ++ [(number, v)] := by
  induction entries with
  | nil => rfl
  | cons a rest ih =>
    have ha := h a List.mem_cons_self
    rw [setNumber, if_neg (by omega), if_neg (by omega),
      ih fun e he => h e (List.mem_cons_of_mem a he), List.cons_append]

theorem Ascending.setNumber (h : Ascending entries) (number : Nat) (v : α) :
    Ascending (setNumber number v entries) := by
  induction entries with
  | nil => exact List.pairwise_singleton _ _
  | cons a rest ih =>
    obtain ⟨hfirst, hrest⟩ := List.pairwise_cons.mp h
    unfold Proto.setNumber
    split
    · next hlt =>
      refine List.pairwise_cons.mpr ⟨fun e he => ?_, h⟩
      rcases List.mem_cons.mp he with rfl | he
      · exact hlt
      · exact hlt.trans (hfirst e he)
    · split
      · next heq =>
        subst heq
        exact List.pairwise_cons.mpr ⟨hfirst, hrest⟩
      · refine List.pairwise_cons.mpr ⟨fun e he => ?_, ih hrest⟩
        rcases mem_setNumber he with rfl | he
        · omega
        · exact hfirst e he

theorem filter_setNumber_of_neg {q : Nat → Bool} (hq : q number = false)
    (entries : List (Nat × α)) :
    (setNumber number v entries).filter (fun e => q e.1) = entries.filter fun e => q e.1 := by
  induction entries with
  | nil => simp [setNumber, hq]
  | cons a rest ih =>
    unfold setNumber
    split
    · exact List.filter_cons_of_neg (by simp [hq])
    · split
      · next heq =>
        rw [List.filter_cons_of_neg (by simp [hq]), List.filter_cons_of_neg (by simp [← heq, hq])]
      · rw [List.filter_cons, List.filter_cons, ih]

theorem filter_setNumber_of_pos {q : Nat → Bool} (hq : q number = true) (h : Ascending entries) :
    (setNumber number v entries).filter (fun e => q e.1) =
      setNumber number v (entries.filter fun e => q e.1) := by
  induction entries with
  | nil => simp [setNumber, hq]
  | cons a rest ih =>
    obtain ⟨n, x⟩ := a
    obtain ⟨hfirst, hrest⟩ := List.pairwise_cons.mp h
    by_cases hlt : number < n
    · have hgt : ∀ e ∈ ((n, x) :: rest).filter (fun e => q e.1), number < e.1 := by
        intro e he
        rcases List.mem_cons.mp (List.mem_of_mem_filter he) with rfl | he
        · exact hlt
        · exact hlt.trans (hfirst e he)
      rw [setNumber_of_forall_gt hgt, setNumber, if_pos hlt]
      exact List.filter_cons_of_pos hq
    · by_cases heq : number = n
      · subst heq
        simp [setNumber, hq]
      · by_cases hn : q n = true <;> simp [setNumber, hlt, heq, hn, ih hrest]

end setNumber

/-! ### Known and unknown parts -/

/-- The parts with those of a second list, each put at its place. -/
def mergeParts (known unknown : List (Nat × Bytes)) : List (Nat × Bytes) :=
  unknown.foldl (fun parts u => setNumber u.1 u.2 parts) known

section mergeParts

variable {known unknown : List (Nat × Bytes)} {q : Nat → Bool}

theorem mergeParts_of_ascending (h : Ascending (known ++ unknown)) :
    mergeParts known unknown = known ++ unknown := by
  induction unknown generalizing known with
  | nil => exact (List.append_nil known).symm
  | cons u rest ih =>
    have hlast : ∀ e ∈ known, e.1 < u.1 := fun e he =>
      (List.pairwise_append.mp h).2.2 e he u List.mem_cons_self
    rw [List.append_cons] at h ⊢
    rw [← ih h, mergeParts, List.foldl_cons, setNumber_of_forall_lt hlast]
    rfl

theorem filter_mergeParts_of_neg (h : ∀ u ∈ unknown, q u.1 = false) :
    (mergeParts known unknown).filter (fun e => q e.1) = known.filter fun e => q e.1 := by
  induction unknown generalizing known with
  | nil => rfl
  | cons u rest ih =>
    calc (mergeParts (setNumber u.1 u.2 known) rest).filter (fun e => q e.1)
      _ = (setNumber u.1 u.2 known).filter fun e => q e.1 :=
        ih fun e he => h e (List.mem_cons_of_mem u he)
      _ = known.filter fun e => q e.1 := filter_setNumber_of_neg (h u List.mem_cons_self) known

theorem filter_mergeParts_of_pos (h : ∀ u ∈ unknown, q u.1 = true) (hknown : Ascending known) :
    (mergeParts known unknown).filter (fun e => q e.1) =
      mergeParts (known.filter fun e => q e.1) unknown := by
  induction unknown generalizing known with
  | nil => rfl
  | cons u rest ih =>
    rw [mergeParts, List.foldl_cons, mergeParts, List.foldl_cons,
      ← filter_setNumber_of_pos (h u List.mem_cons_self) hknown]
    exact ih (fun e he => h e (List.mem_cons_of_mem u he)) (hknown.setNumber u.1 u.2)

end mergeParts

/-- The wire form is one of parts of which those whose numbers `q` holds of are the known ones, in
their order, and the others the unknown ones. -/
theorem exists_parts {known unknown : List (Nat × Bytes)} {q : Nat → Bool}
    (hknown : ∀ e ∈ known, q e.1 = true) (hunknown : ∀ u ∈ unknown, q u.1 = false)
    (hka : Ascending known) (hua : Ascending unknown) :
    ∃ parts : List (Nat × Bytes), writeParts known unknown = parts.flatMap Prod.snd ∧
      (parts.filter fun e => q e.1) = known ∧ (parts.filter fun e => !q e.1) = unknown := by
  refine ⟨mergeParts known unknown, rfl, ?_, ?_⟩
  · rw [filter_mergeParts_of_neg hunknown]
    exact List.filter_eq_self.mpr hknown
  · have hnone : (known.filter fun e => !q e.1) = [] :=
      List.filter_eq_nil_iff.mpr fun e he => by simp [hknown e he]
    rw [filter_mergeParts_of_pos (q := fun n => !q n) (by simpa using hunknown) hka, hnone]
    exact mergeParts_of_ascending hua

/-! ### The parts of values -/

theorem itemData_eq (p : Pool) (type : FieldType) (items : List Value) :
    itemData p type items = items.map fun v => v.data p type := by
  induction items with
  | nil => rw [itemData, List.map_nil]
  | cons v rest ih => rw [itemData, ih, List.map_cons]

/-- The wire form of an entry of a map. -/
def entryWire (p : Pool) (key value : Field) (e : Key × Value) : Bytes :=
  e.1.data p key ++ if value.shows p e.2 then fieldData p value e.2 else []

theorem entryData_eq (p : Pool) (key value : Field) (entries : List (Key × Value)) :
    entryData p key value entries = entries.map (entryWire p key value) := by
  induction entries with
  | nil => rw [entryData, List.map_nil]
  | cons e rest ih => rw [entryData, ih, List.map_cons, entryWire]

theorem fieldParts_eq (p : Pool) (t : MessageType) (fields : List (Nat × Value)) :
    fieldParts p t fields =
      (shownFields p t fields).map fun s => (s.1.number, fieldData p s.1 s.2) := by
  refine eq_map_shownFields ?_ ?_ ?_ ?_ fields
  · rw [fieldParts]
  · intro number v rest hf
    simp only [fieldParts, hf]
  · intro number f v rest hf h
    simp only [fieldParts, hf, if_pos h, MessageType.number_of_byNumber? hf]
  · intro number f v rest hf h
    simp only [fieldParts, hf, if_neg h]

end Messaging.Proto
