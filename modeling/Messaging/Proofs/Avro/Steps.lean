import Messaging.Proofs.Avro.Parts
import Messaging.Proofs.Json.Parts
import Messaging.Proofs.Steps
import Mathlib.Data.List.ProdSigma

/-! # The steps of a conversion

A conversion only comes to schemas among the parts of its schema and to values among the parts of
its value, the defaults and `null`. So `stepLimit` is as good as any larger number of steps
(`ofJsonWithin_eq_ofJson`), and a conversion that ends in some number of steps ends in these
(`ofJson_eq_of_eventually`). -/

namespace Messaging

namespace Avro

namespace Schema

/-! ### Defaults -/

theorem mem_fieldDefaults {d : Json} {fields : List (Field × Schema)} :
    d ∈ fieldDefaults fields ↔ ∃ f ∈ fields, f.1.default = some d ∨ d ∈ f.2.defaults := by
  induction fields with
  | nil => simp [fieldDefaults]
  | cons f rest ih => simp [fieldDefaults, ih, or_assoc]

mutual

theorem mem_defaults_of_mem_parts {s t : Schema} {d : Json} (h : t ∈ s.parts)
    (hd : d ∈ t.defaults) : d ∈ s.defaults := by
  match s with
  | .array i =>
    rcases List.mem_cons.mp h with rfl | h
    · exact hd
    · exact mem_defaults_of_mem_parts (s := i) h hd
  | .map v =>
    rcases List.mem_cons.mp h with rfl | h
    · exact hd
    · exact mem_defaults_of_mem_parts (s := v) h hd
  | .union bs =>
    rcases List.mem_cons.mp h with rfl | h
    · exact hd
    · exact mem_branchDefaults_of_mem_parts h hd
  | .record n fs =>
    rcases List.mem_cons.mp h with rfl | h
    · exact hd
    · exact mem_fieldDefaults_of_mem_parts h hd
  | .null | .boolean | .int | .long | .float | .double | .bytes | .string | .enum _ _ _
  | .fixed _ _ | .decimal _ | .bigDecimal | .uuid | .intAs _ | .longAs _ | .duration | .ref _ =>
    rw [List.mem_singleton.mp h] at hd
    exact hd

theorem mem_branchDefaults_of_mem_parts {branches : List Schema} {t : Schema} {d : Json}
    (h : t ∈ branchParts branches) (hd : d ∈ t.defaults) : d ∈ branchDefaults branches := by
  match branches with
  | [] => cases h
  | s :: rest =>
    rcases List.mem_append.mp h with h | h
    · exact List.mem_append_left _ (mem_defaults_of_mem_parts h hd)
    · exact List.mem_append_right _ (mem_branchDefaults_of_mem_parts h hd)

theorem mem_fieldDefaults_of_mem_parts {fields : List (Field × Schema)} {t : Schema} {d : Json}
    (h : t ∈ fieldParts fields) (hd : d ∈ t.defaults) : d ∈ fieldDefaults fields := by
  match fields with
  | [] => cases h
  | (f, s) :: rest =>
    rcases List.mem_append.mp h with h | h
    · exact List.mem_append_left _ (List.mem_append_right _ (mem_defaults_of_mem_parts h hd))
    · exact List.mem_append_right _ (mem_fieldDefaults_of_mem_parts h hd)

end

/-- The defaults in a schema and in the types of a table. -/
def defaultsWith (names : Names) (s : Schema) : List Json :=
  s.defaults ++ names.flatMap fun e => e.2.defaults

theorem mem_defaultsWith {names : Names} {s t : Schema} {d : Json} (h : t ∈ s.partsWith names)
    (hd : d ∈ t.defaults) : d ∈ s.defaultsWith names := by
  rcases mem_partsWith.mp h with h | ⟨e, he, h⟩
  · exact List.mem_append_left _ (mem_defaults_of_mem_parts h hd)
  · exact List.mem_append_right _
      (List.mem_flatMap.mpr ⟨e, he, mem_defaults_of_mem_parts h hd⟩)

end Schema

/-- The values that a conversion can come to. -/
def valuesWith (names : Names) (schema : Schema) (json : Json) : List Json :=
  json.parts ++ (schema.defaultsWith names).flatMap Json.parts ++ [.null]

theorem mem_valuesWith {names : Names} {schema : Schema} {json v : Json} :
    v ∈ valuesWith names schema json ↔
      v ∈ json.parts ∨ (∃ d ∈ schema.defaultsWith names, v ∈ d.parts) ∨ v = .null := by
  simp [valuesWith]

theorem length_valuesWith (names : Names) (schema : Schema) (json : Json) :
    (valuesWith names schema json).length = json.size + schema.defaultSizeWith names + 1 := by
  rw [valuesWith, List.length_append, List.length_append, Json.length_parts,
    Json.length_flatMap_parts, Schema.defaultsWith, Schema.defaultSizeWith, List.length_singleton]

theorem valuesWith_trans {names : Names} {schema : Schema} {json v w : Json}
    (h : v ∈ valuesWith names schema json) (hw : w ∈ v.parts) :
    w ∈ valuesWith names schema json := by
  rw [mem_valuesWith] at h ⊢
  rcases h with h | ⟨d, hd, h⟩ | rfl
  · exact .inl (Json.parts_trans h hw)
  · exact .inr (.inl ⟨d, hd, Json.parts_trans h hw⟩)
  · exact .inr (.inr (List.mem_singleton.mp hw))

/-- The value of a field is an entry, a default or `null`. -/
theorem fieldJson_mem_valuesWith {names : Names} {schema : Schema} {json : Json} {n : Name}
    {fields : List (Field × Schema)} {entries : List (String × Json)} {f : Field × Schema}
    (hs : .record n fields ∈ schema.partsWith names)
    (hj : .object entries ∈ valuesWith names schema json) (hf : f ∈ fields) :
    Value.fieldJson entries f.1 ∈ valuesWith names schema json := by
  unfold Value.fieldJson
  cases hlookup : entries.lookup f.1.name with
  | some v =>
    have hmem : (f.1.name, v) ∈ entries := Table.mem_of_find? hlookup
    exact valuesWith_trans hj
      (List.mem_cons_of_mem _ (Json.mem_entryParts.mpr ⟨_, hmem, v.self_mem_parts⟩))
  | none =>
    cases hdefault : f.1.default with
    | none => exact mem_valuesWith.mpr (.inr (.inr rfl))
    | some d =>
      have hd : d ∈ (Schema.record n fields).defaults :=
        Schema.mem_fieldDefaults.mpr ⟨f, hf, .inl hdefault⟩
      exact mem_valuesWith.mpr
        (.inr (.inl ⟨d, Schema.mem_defaultsWith hs hd, d.self_mem_parts⟩))

namespace Value

/-! ### More steps do better -/

theorem firstBranch_extends {f g : Schema → Converted Value} {branches : List Schema}
    (h : ∀ b ∈ branches, Extends .unbounded (f b) (g b)) (index : Nat) :
    Extends .unbounded (firstBranch f index branches) (firstBranch g index branches) := by
  induction branches generalizing index with
  | nil => exact .refl _
  | cons b rest ih =>
    unfold firstBranch
    rcases h b List.mem_cons_self with hb | hb
    · rw [hb]
      exact .inl rfl
    · rw [hb]
      cases g b with
      | ok v => exact .refl _
      | error e =>
        cases e with
        | unbounded => exact .refl _
        | mismatch m => exact ih (fun b hb => h b (List.mem_cons_of_mem _ hb)) (index + 1)

/-- A branch that is named is one of the union, with a part of the value. -/
theorem mem_of_namedBranch? {branches : List Schema} {json : Json} {index : Nat} {branch : Schema}
    {inner : Json} (h : namedBranch? branches json = some (index, branch, inner)) :
    branches[index]? = some branch ∧ ∃ key, json = .object [(key, inner)] := by
  unfold namedBranch? at h
  split at h
  · next key v =>
    split at h
    · next i _ =>
      cases hb : branches[i]? with
      | none => simp [hb] at h
      | some b =>
        simp only [hb, Option.map_some, Option.some.injEq, Prod.mk.injEq] at h
        obtain ⟨rfl, rfl, rfl⟩ := h
        exact ⟨hb, key, rfl⟩
    · cases h
  · cases h

theorem ofJsonWithin_extends {names : Names} {dialect : Dialect} {P : List Schema}
    {V : List Json} (hP : Closed names P)
    (hparts : ∀ {v w : Json}, v ∈ V → w ∈ v.parts → w ∈ V)
    (hfields : ∀ {n fields entries}, Schema.record n fields ∈ P → Json.object entries ∈ V →
      ∀ f ∈ fields, fieldJson entries f.1 ∈ V) {m n : Nat}
    (ih : ∀ s ∈ P, ∀ j ∈ V, Extends .unbounded (ofJsonWithin names dialect m s j)
      (ofJsonWithin names dialect n s j)) {s : Schema} {j : Json} (hs : s ∈ P) (hj : j ∈ V) :
    Extends .unbounded (ofJsonWithin names dialect (m + 1) s j)
      (ofJsonWithin names dialect (n + 1) s j) := by
  unfold ofJsonWithin
  cases s with
  | ref name =>
    cases hfind : names.find? name.full with
    | none =>
      simp only [hfind]
      exact .refl _
    | some t => simpa only [hfind] using ih t (hP.target hfind) j hj
  | array items =>
    cases j with
    | array values =>
      exact .map _ (.mapM fun v hv => ih _ (hP.items hs) v
        (hparts hj (List.mem_cons_of_mem _ (Json.mem_itemParts.mpr ⟨v, hv, v.self_mem_parts⟩))))
    | _ => exact .refl _
  | map values =>
    cases j with
    | object entries =>
      exact .map _ (.mapM fun e he => .map _ (ih _ (hP.values hs) e.2
        (hparts hj (List.mem_cons_of_mem _
          (Json.mem_entryParts.mpr ⟨e, he, e.2.self_mem_parts⟩)))))
    | _ => exact .refl _
  | record name fields =>
    cases j with
    | object entries =>
      exact .map _ (.mapM fun f hf => .map _ (ih _ (hP.fields hs f hf) _ (hfields hs hj f hf)))
    | _ => exact .refl _
  | union branches =>
    simp only
    split
    · next index branch inner hnamed =>
      split at hnamed
      · obtain ⟨hbranch, key, rfl⟩ := mem_of_namedBranch? hnamed
        refine .map _ (ih _ (hP.branches hs _ (List.mem_of_getElem? hbranch)) _ (hparts hj ?_))
        exact List.mem_cons_of_mem _
          (Json.mem_entryParts.mpr ⟨(key, inner), List.mem_singleton_self _, inner.self_mem_parts⟩)
      · cases hnamed
    · refine .bind (firstBranch_extends (fun b hb => ?_) 0) fun _ _ => .refl _
      split
      · exact ih b (hP.branches hs b hb) j hj
      · exact .refl _
  | _ => exact .refl _

/-- As many steps as `stepLimit` are as good as any larger number. -/
theorem ofJsonWithin_eq_ofJson (names : Names) (dialect : Dialect) (schema : Schema) (json : Json)
    {n : Nat} (hn : stepLimit names schema json ≤ n) :
    ofJsonWithin names dialect n schema json = ofJson names dialect schema json := by
  have hlength : (schema.partsWith names ×ˢ valuesWith names schema json).length + 1 =
      stepLimit names schema json := by
    rw [List.length_product, Schema.length_partsWith, length_valuesWith, stepLimit]
  have hzero : ∀ p : Schema × Json,
      ofJsonWithin names dialect 0 p.1 p.2 = .error .unbounded := fun _ => rfl
  have hsuffice := steps_suffice
    (F := fun n (p : Schema × Json) => ofJsonWithin names dialect n p.1 p.2)
    (P := schema.partsWith names ×ˢ valuesWith names schema json) hzero fun m n ih p hp => by
      obtain ⟨hs, hj⟩ := List.mem_product.mp hp
      exact ofJsonWithin_extends (Schema.closed_partsWith names schema) valuesWith_trans
        (fun hs hj f hf => fieldJson_mem_valuesWith hs hj hf)
        (fun s hs j hj => ih (s, j) (List.mem_product.mpr ⟨hs, hj⟩)) hs hj
  have hmem : (schema, json) ∈ schema.partsWith names ×ˢ valuesWith names schema json :=
    List.mem_product.mpr ⟨schema.self_mem_partsWith names,
      mem_valuesWith.mpr (.inl json.self_mem_parts)⟩
  exact (hsuffice n (by omega) _ hmem).trans (hsuffice _ (by omega) _ hmem).symm

/-- A conversion that has an outcome in any number of steps from some on has it. -/
theorem ofJson_eq_of_eventually {names : Names} {dialect : Dialect} {schema : Schema} {json : Json}
    {outcome : Converted Value}
    (h : ∃ n, ∀ m ≥ n, ofJsonWithin names dialect m schema json = outcome) :
    ofJson names dialect schema json = outcome := by
  obtain ⟨n, hn⟩ := h
  rw [← hn _ (Nat.le_max_left n (stepLimit names schema json)),
    ofJsonWithin_eq_ofJson names dialect schema json (Nat.le_max_right n _)]

end Value

end Avro

end Messaging
