import Messaging.Avro.Convert
import Messaging.Proofs.Table

/-! # The parts of a schema

`Schema.parts` lists the schemas in a schema, `Schema.partsWith` also those in the types that its
names stand for. That list is closed (`closed_partsWith`): an item, a branch or a field of what is
in it and the type of any name are in it as well. Its length is the number of schemas that bounds
the steps of a conversion. -/

namespace Messaging.Avro

namespace Schema

mutual

/-- The schemas in a schema, itself first. -/
def parts : Schema → List Schema
  | array items => array items :: items.parts
  | map values => map values :: values.parts
  | union branches => union branches :: branchParts branches
  | record name fields => record name fields :: fieldParts fields
  | s => [s]

/-- The schemas in a list of schemas. -/
def branchParts : List Schema → List Schema
  | [] => []
  | s :: rest => s.parts ++ branchParts rest

/-- The schemas in a list of fields. -/
def fieldParts : List (Field × Schema) → List Schema
  | [] => []
  | (_, s) :: rest => s.parts ++ fieldParts rest

end

/-- The schemas in a schema and in the types of a table. -/
def partsWith (names : Names) (s : Schema) : List Schema :=
  s.parts ++ names.flatMap fun e => e.2.parts

/-! ### What is in the list -/

theorem self_mem_parts (s : Schema) : s ∈ s.parts := by
  cases s <;> simp [parts]

theorem mem_branchParts {t : Schema} {branches : List Schema} :
    t ∈ branchParts branches ↔ ∃ b ∈ branches, t ∈ b.parts := by
  induction branches with
  | nil => simp [branchParts]
  | cons b rest ih => simp [branchParts, ih]

theorem mem_fieldParts {t : Schema} {fields : List (Field × Schema)} :
    t ∈ fieldParts fields ↔ ∃ f ∈ fields, t ∈ f.2.parts := by
  induction fields with
  | nil => simp [fieldParts]
  | cons f rest ih => simp [fieldParts, ih]

theorem mem_partsWith {names : Names} {s t : Schema} :
    t ∈ s.partsWith names ↔ t ∈ s.parts ∨ ∃ e ∈ names, t ∈ e.2.parts := by
  simp [partsWith]

end Schema

open Schema

/-- Is the list closed under items, branches, fields and names? -/
structure Closed (names : Names) (P : List Schema) : Prop where
  items : ∀ {s}, .array s ∈ P → s ∈ P
  values : ∀ {s}, .map s ∈ P → s ∈ P
  branches : ∀ {bs}, .union bs ∈ P → ∀ b ∈ bs, b ∈ P
  fields : ∀ {n fs}, .record n fs ∈ P → ∀ f ∈ fs, f.2 ∈ P
  target : ∀ {name : Name} {s}, names.find? name.full = some s → s ∈ P

namespace Schema

mutual

theorem parts_trans {s t u : Schema} (h : t ∈ s.parts) (hu : u ∈ t.parts) : u ∈ s.parts := by
  match s with
  | .array i =>
    rcases List.mem_cons.mp h with rfl | h
    · exact hu
    · exact List.mem_cons_of_mem _ (parts_trans h hu)
  | .map v =>
    rcases List.mem_cons.mp h with rfl | h
    · exact hu
    · exact List.mem_cons_of_mem _ (parts_trans h hu)
  | .union bs =>
    rcases List.mem_cons.mp h with rfl | h
    · exact hu
    · exact List.mem_cons_of_mem _ (branchParts_trans h hu)
  | .record n fs =>
    rcases List.mem_cons.mp h with rfl | h
    · exact hu
    · exact List.mem_cons_of_mem _ (fieldParts_trans h hu)
  | .null | .boolean | .int | .long | .float | .double | .bytes | .string | .enum _ _ _
  | .fixed _ _ | .decimal _ | .bigDecimal | .uuid | .intAs _ | .longAs _ | .duration | .ref _ =>
    rw [List.mem_singleton.mp h] at hu
    exact hu

theorem branchParts_trans {branches : List Schema} {t u : Schema} (h : t ∈ branchParts branches)
    (hu : u ∈ t.parts) : u ∈ branchParts branches := by
  match branches with
  | [] => cases h
  | s :: rest =>
    rcases List.mem_append.mp h with h | h
    · exact List.mem_append_left _ (parts_trans h hu)
    · exact List.mem_append_right _ (branchParts_trans h hu)

theorem fieldParts_trans {fields : List (Field × Schema)} {t u : Schema} (h : t ∈ fieldParts fields)
    (hu : u ∈ t.parts) : u ∈ fieldParts fields := by
  match fields with
  | [] => cases h
  | (_, s) :: rest =>
    rcases List.mem_append.mp h with h | h
    · exact List.mem_append_left _ (parts_trans h hu)
    · exact List.mem_append_right _ (fieldParts_trans h hu)

end

theorem self_mem_partsWith (names : Names) (s : Schema) : s ∈ s.partsWith names :=
  mem_partsWith.mpr (.inl s.self_mem_parts)

theorem partsWith_trans {names : Names} {s t u : Schema} (h : t ∈ s.partsWith names)
    (hu : u ∈ t.parts) : u ∈ s.partsWith names := by
  rw [mem_partsWith] at h ⊢
  rcases h with h | ⟨e, he, h⟩
  · exact .inl (parts_trans h hu)
  · exact .inr ⟨e, he, parts_trans h hu⟩

theorem closed_partsWith (names : Names) (s : Schema) : Closed names (s.partsWith names) where
  items h := partsWith_trans h (List.mem_cons_of_mem _ (self_mem_parts _))
  values h := partsWith_trans h (List.mem_cons_of_mem _ (self_mem_parts _))
  branches h b hb := partsWith_trans h
    (List.mem_cons_of_mem _ (mem_branchParts.mpr ⟨b, hb, b.self_mem_parts⟩))
  fields h f hf := partsWith_trans h
    (List.mem_cons_of_mem _ (mem_fieldParts.mpr ⟨f, hf, f.2.self_mem_parts⟩))
  target h := mem_partsWith.mpr (.inr ⟨_, Table.mem_of_find? h, self_mem_parts _⟩)

/-! ### How long the list is -/

mutual

theorem length_parts (s : Schema) : s.parts.length = s.size := by
  match s with
  | .array i => rw [parts, List.length_cons, length_parts i, size]
  | .map v => rw [parts, List.length_cons, length_parts v, size]
  | .union bs => rw [parts, List.length_cons, length_branchParts bs, size]
  | .record n fs => rw [parts, List.length_cons, length_fieldParts fs, size]
  | .null | .boolean | .int | .long | .float | .double | .bytes | .string | .enum _ _ _
  | .fixed _ _ | .decimal _ | .bigDecimal | .uuid | .intAs _ | .longAs _ | .duration | .ref _ => rfl

theorem length_branchParts (branches : List Schema) :
    (branchParts branches).length = sizes branches := by
  match branches with
  | [] => rfl
  | s :: rest =>
    rw [branchParts, List.length_append, length_parts s, length_branchParts rest, sizes]

theorem length_fieldParts (fields : List (Field × Schema)) :
    (fieldParts fields).length = fieldSizes fields := by
  match fields with
  | [] => rfl
  | (_, s) :: rest =>
    rw [fieldParts, List.length_append, length_parts s, length_fieldParts rest, fieldSizes]

end

theorem length_partsWith (names : Names) (s : Schema) :
    (s.partsWith names).length = s.sizeWith names := by
  rw [partsWith, List.length_append, length_parts, sizeWith]
  induction names with
  | nil => rfl
  | cons e rest ih =>
    rw [List.flatMap_cons, List.length_append, length_parts, List.map_cons, List.foldr_cons]
    omega

end Schema

end Messaging.Avro
