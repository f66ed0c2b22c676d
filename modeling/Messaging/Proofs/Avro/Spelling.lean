import Messaging.Proofs.Avro.Conversion
import Messaging.Proofs.Json.Printing

/-! # Values that are read back from their JSON encoding

`converts_toAvroJson`: the JSON encoding of a value is read back as a value in relation to it, if
each branch that is chosen, other than `null`, is the first with its name, and the values without
parts are read back in relation (`Value.Spellable`). The relation may be equality where there are no
big decimals; where there are it is that both have one generic form (`Congruent`).
`isPlain_toAvroJson`: without floating-point numbers the encoding is plain, so it is read back from
its text. -/

namespace Messaging.Avro

namespace Value

/-! ### The encoding in terms of lists -/

theorem itemsToAvroJson_eq (names : Names) (s : Schema) (vs : List Value) :
    itemsToAvroJson names s vs = vs.map fun v => v.toAvroJson names s := by
  induction vs with
  | nil => rfl
  | cons v rest ih => rw [itemsToAvroJson, ih, List.map_cons]

theorem entriesToAvroJson_eq (names : Names) (s : Schema) (es : List (String × Value)) :
    entriesToAvroJson names s es = es.map fun e => (e.1, e.2.toAvroJson names s) := by
  induction es with
  | nil => rfl
  | cons e rest ih => rw [entriesToAvroJson, ih, List.map_cons]

theorem fieldsToAvroJson_eq (names : Names) (fields : List (Field × Schema))
    (es : List (String × Value)) : fieldsToAvroJson names fields es =
      (fields.zip es).map fun p => (p.2.1, p.2.2.toAvroJson names p.1.2) := by
  induction fields generalizing es with
  | nil => cases es <;> rfl
  | cons f rest ih =>
    cases es with
    | nil => rfl
    | cons e es => rw [fieldsToAvroJson, ih, List.zip_cons_cons, List.map_cons]

theorem toAvroJson_array (names : Names) (s : Schema) (items : List Value) :
    (array items).toAvroJson names (.array s) =
      .array (items.map fun v => v.toAvroJson names s) := by
  simp only [toAvroJson, Schema.resolve, itemsToAvroJson_eq]

theorem toAvroJson_map (names : Names) (s : Schema) (entries : List (String × Value)) :
    (map entries).toAvroJson names (.map s) =
      .ofEntries (entries.map fun e => (e.1, e.2.toAvroJson names s)) := by
  simp only [toAvroJson, Schema.resolve, entriesToAvroJson_eq]

theorem toAvroJson_record (names : Names) (name : Name) (fields : List (Field × Schema))
    (entries : List (String × Value)) :
    (record entries).toAvroJson names (.record name fields) = .ofEntries
      ((fields.zip entries).map fun p => (p.2.1, p.2.2.toAvroJson names p.1.2)) := by
  simp only [toAvroJson, Schema.resolve, fieldsToAvroJson_eq]

theorem toAvroJson_union {names : Names} {branches : List Schema} {index : Nat} {branch : Schema}
    (chosen : branches[index]? = some branch) (v : Value) :
    (union index v).toAvroJson names (.union branches) = if branch.isNull then .null
      else .object [(branch.branchName, v.toAvroJson names branch)] := by
  simp only [toAvroJson, Schema.resolve, chosen]
  cases branch <;> rfl

/-- The encoding depends on what the schema stands for. -/
theorem toAvroJson_congr {names : Names} {s t : Schema} (h : s.resolve names = t.resolve names)
    (v : Value) : v.toAvroJson names s = v.toAvroJson names t := by
  cases v <;> simp only [toAvroJson, h]

/-! ### Unions -/

namespace Converts

variable {names : Names}

/-- The branch that is named. -/
theorem union_named {branches : List Schema} {index : Nat} {branch : Schema} {j : Json} {v : Value}
    (chosen : branches[index]? = some branch)
    (first : branches.findIdx? (fun b => b.branchName = branch.branchName) = some index)
    (value : Converts names .encoded branch j v) :
    Converts names .encoded (.union branches) (.object [(branch.branchName, j)])
      (.union index v) := by
  obtain ⟨n, hn⟩ := value
  refine .of_succ ⟨n, fun m hm => ?_⟩
  have hnamed : namedBranch? branches (.object [(branch.branchName, j)]) =
      some (index, branch, j) := by
    simp only [namedBranch?, first, chosen, Option.map_some]
  rw [ofJsonWithin]
  simp only [if_true, hnamed]
  rw [hn m hm]
  rfl

/-- The branch `null` need not be named. -/
theorem union_null {branches : List Schema} {index : Nat} (chosen : branches[index]? = some .null)
    (before : ∀ i < index, ∀ b, branches[i]? = some b → b.isNull = false) :
    Converts names .encoded (.union branches) .null (.union index .null) := by
  obtain ⟨n, hn⟩ := firstBranch_eventually
    (f := fun m b => if isUnnamedIn .encoded b then ofJsonWithin names .encoded m b .null
      else .error (.mismatch ⟨.null, (Schema.union branches).kind⟩)) chosen
    ⟨1, fun m hm => by
      obtain ⟨m, rfl⟩ : ∃ k, m = k + 1 := ⟨m - 1, by omega⟩
      rfl⟩
    (fun i hi b hb => ⟨0, fun m _ => ⟨⟨.null, (Schema.union branches).kind⟩, by
      rw [isUnnamedIn_encoded, before i hi b hb]
      rfl⟩⟩) 0
  refine .of_succ ⟨n, fun m hm => ?_⟩
  rw [ofJsonWithin]
  simp only [if_true, namedBranch?]
  rw [hn m hm, Nat.zero_add]
  rfl

end Converts

/-! ### Leaves -/

theorem bytesOfJson?_textOfBytes (b : Bytes) : bytesOfJson? .encoded (textOfBytes b) = some b := by
  rw [textOfBytes, bytesOfJson?]
  exact Bytes.ofCharacters?_toCharacters b

/-- A value without parts is read back from its encoding. -/
theorem leafOfJson?_toAvroJson {names : Names} {s : Schema} {v : Value} (hs : s.IsLeaf)
    (hexact : s.Exact) (hwell : s.WellFormed) (h : LeafOf s v) :
    leafOfJson? .encoded s (v.toAvroJson names s) = some v := by
  have hgeneric := leafOfJson?_toJson hs hexact hwell h
  cases s <;> cases v <;>
    first
    | exact absurd hs h
    | exact hs.elim
    | exact hexact.elim
    | exact hgeneric
    | skip
  · simp only [toAvroJson, leafOfJson?, bytesOfJson?_textOfBytes, Option.map_some]
  · simp only [toAvroJson, leafOfJson?, bytesOfJson?_textOfBytes, Option.bind_some]
    exact if_pos h
  · simp only [toAvroJson, leafOfJson?, bytesOfJson?_textOfBytes, Option.map_some]
  · simp only [toAvroJson, leafOfJson?, bytesOfJson?_textOfBytes, Option.bind_some]
    exact if_pos h

theorem isPlain_leaf {names : Names} {s : Schema} {v : Value} (hs : s.IsLeaf) (hfloat : s.FloatFree)
    (h : LeafOf s v) : (v.toAvroJson names s).IsPlain := by
  cases s <;> cases v <;>
    first
    | exact absurd hs h
    | exact hs.elim
    | exact hfloat.elim
    | exact trivial
    | skip
  all_goals
    simp only [LeafOf] at h
    simp only [toAvroJson, toJson, Json.int, Json.IsPlain]
    omega

/-! ### Whole values -/

/-- The keys of a record in its encoding. -/
theorem map_fst_encoded (names : Names) {fields : List (Field × Schema)}
    {entries : List (String × Value)}
    (order : entries.map Prod.fst = fields.map fun f => f.1.name) :
    ((fields.zip entries).map fun p => (p.2.1, p.2.2.toAvroJson names p.1.2)).map Prod.fst =
      entries.map Prod.fst := by
  have hlength : entries.length ≤ fields.length := by
    have := congrArg List.length order
    simp only [List.length_map] at this
    omega
  have hsnd : (fields.zip entries).map (Prod.fst ∘ Prod.snd) = entries.map Prod.fst := by
    rw [← List.map_map, List.map_snd_zip hlength]
  rw [List.map_map]
  exact hsnd

/-- Does the relation go on from the parts of two values to the values? -/
structure Congruent (R : Value → Value → Prop) : Prop where
  array : ∀ {vs ws}, List.Forall₂ R vs ws → R (.array vs) (.array ws)
  map : ∀ {es fs}, List.Forall₂ (fun e f => f.1 = e.1 ∧ R e.2 f.2) es fs → R (.map es) (.map fs)
  record : ∀ {es fs}, List.Forall₂ (fun e f => f.1 = e.1 ∧ R e.2 f.2) es fs →
    R (.record es) (.record fs)
  union : ∀ {v w} index, R v w → R (.union index v) (.union index w)

theorem eq_of_forall₂_entries {es fs : List (String × Value)}
    (h : List.Forall₂ (fun e f => f.1 = e.1 ∧ e.2 = f.2) es fs) : es = fs := by
  induction h with
  | nil => rfl
  | cons hfirst _ ih => rw [ih, Prod.ext hfirst.1.symm hfirst.2]

theorem congruent_eq : Congruent Eq where
  array {vs ws} h := by
    rw [List.forall₂_eq_eq_eq] at h
    rw [h]
  map h := by rw [eq_of_forall₂_entries h]
  record h := by rw [eq_of_forall₂_entries h]
  union _ h := by rw [h]

theorem entriesToJson_congr {es fs : List (String × Value)}
    (h : List.Forall₂ (fun e f => f.1 = e.1 ∧ f.2.toJson = e.2.toJson) es fs) :
    entriesToJson fs = entriesToJson es := by
  induction h with
  | nil => rfl
  | cons hfirst _ ih => rw [entriesToJson, entriesToJson, hfirst.1, hfirst.2, ih]

theorem congruent_toJson : Congruent fun v w => w.toJson = v.toJson where
  array {vs ws} h := by
    have hitems : itemsToJson ws = itemsToJson vs := by
      induction h with
      | nil => rfl
      | cons hfirst _ ih => rw [itemsToJson, itemsToJson, hfirst, ih]
    rw [toJson, toJson, hitems]
  map h := by rw [toJson, toJson, entriesToJson_congr h]
  record h := by rw [toJson, toJson, entriesToJson_congr h]
  union _ h := by rw [toJson, toJson, h]

/-- Are values without parts read back from their encoding in relation, and is a branch that is
chosen the first with its name, unless it is `null`? -/
structure Spellable (names : Names) (P : List Schema) (N : Schema → Value → Prop)
    (R : Value → Value → Prop) : Prop where
  congruent : Congruent R
  leafOf : ∀ s v, N s v → LeafOf s v
  leaf : ∀ s ∈ P, s.IsLeaf → ∀ v, N s v →
    ∃ w, leafOfJson? .encoded s (v.toAvroJson names s) = some w ∧ R v w
  named : ∀ {branches index branch v}, .union branches ∈ P →
    N (.union branches) (.union index v) → branches[index]? = some branch →
      branch.isNull = false →
        branches.findIdx? (fun b => b.branchName = branch.branchName) = some index

theorem spellable_eq {names : Names} {P : List Schema} (hP : Sound names P)
    (hexact : ∀ s ∈ P, s.Exact) (htells : ∀ s ∈ P, s.TellsBranches) :
    Spellable names P LeafOf Eq where
  congruent := congruent_eq
  leafOf _ _ h := h
  leaf s hs leaf v h := ⟨v, leafOfJson?_toAvroJson leaf (hexact s hs) (hP.wellFormed s hs) h, rfl⟩
  named hs _ chosen hnull := htells _ hs _ _ chosen hnull

/-- The JSON encoding of a value is read back as one in relation to it. -/
theorem converts_toAvroJson {names : Names} {P : List Schema} (hP : Sound names P)
    {N : Schema → Value → Prop} {R : Value → Value → Prop} (hR : Spellable names P N R)
    {s : Schema} {v : Value} (h : Shaped names N s v) (hs : s ∈ P) :
    ∃ w, Converts names .encoded s (v.toAvroJson names s) w ∧ R v w := by
  induction h with
  | leaf leaf node =>
    obtain ⟨w, hw, hr⟩ := hR.leaf _ hs leaf _ node
    exact ⟨w, .leaf leaf hw, hr⟩
  | ref found _ ih =>
    obtain ⟨w, hw, hr⟩ := ih (hP.target found)
    rw [toAvroJson_congr (hP.resolve_ref found)]
    exact ⟨w, .ref found hw, hr⟩
  | @array s items _ _ ih =>
    obtain ⟨ws, hws⟩ := exists_forall₂ fun v hv => ih v hv (hP.items hs)
    rw [toAvroJson_array]
    exact ⟨_, .array (List.forall₂_map_left_iff.mpr (hws.imp fun _ _ h => h.1)),
      hR.congruent.array (hws.imp fun _ _ h => h.2)⟩
  | @map s entries _ sorted _ ih =>
    obtain ⟨fs, hfs⟩ := exists_forall₂ (R := fun (e f : String × Value) => f.1 = e.1 ∧
      Converts names .encoded s (e.2.toAvroJson names s) f.2 ∧ R e.2 f.2) fun e he => by
      obtain ⟨w, hw⟩ := ih e he (hP.values hs)
      exact ⟨(e.1, w), rfl, hw⟩
    rw [toAvroJson_map, Json.ofEntries,
      Table.ofList_of_sorted (sorted_map sorted fun v => v.toAvroJson names s)]
    exact ⟨_, .map (List.forall₂_map_left_iff.mpr (hfs.imp fun _ _ h => ⟨h.1, h.2.1⟩)),
      hR.congruent.map (hfs.imp fun _ _ h => ⟨h.1, h.2.2⟩)⟩
  | @record name fields entries _ order _ ih =>
    have hnodup := Definition.nodup_of_distinctFields (hP.wellFormed _ hs).1
    rw [← order, ← map_fst_encoded names order] at hnodup
    rw [toAvroJson_record]
    -- The fields, the values and what the values are read back as go together.
    obtain ⟨fs, hfs, hes⟩ := exists_of_forall₂ (Shaped.forall₂_fields order
      (R := fun f e => ∃ c : String × Value,
        (c.1 = f.1.name ∧ Converts names .encoded f.2 (fieldJson (Table.ofList
          ((fields.zip entries).map fun p => (p.2.1, p.2.2.toAvroJson names p.1.2))) f.1) c.2) ∧
        (c.1 = e.1 ∧ R e.2 c.2)) fun p hp hname => by
      obtain ⟨w, hw, hr⟩ := ih p hp (hP.fields hs _ (List.of_mem_zip hp).1)
      refine ⟨(p.2.1, w), ⟨hname, ?_⟩, rfl, hr⟩
      rwa [fieldJson_ofList hnodup (List.mem_map.mpr ⟨p, hp, by rw [hname]⟩)])
    exact ⟨_, .record hfs, hR.congruent.record hes⟩
  | @union branches index branch v node chosen value ih =>
    have hbranch := hP.branches hs _ (List.mem_of_getElem? chosen)
    obtain ⟨w, hw, hr⟩ := ih hbranch
    refine ⟨.union index w, ?_, hR.congruent.union index hr⟩
    cases hnull : branch.isNull with
    | true =>
      obtain rfl := Schema.eq_null_of_isNull hnull
      have hv := (value.mono hR.leafOf).eq_null
      obtain rfl : w = .null := by
        subst hv
        exact Except.ok.inj (hw.ofJson.symm.trans
          (Converts.leaf (s := .null) (j := .null) trivial rfl).ofJson)
      rw [toAvroJson_union chosen, hnull]
      refine .union_null chosen fun i hi b hb => ?_
      have hpairs :=
        List.pairwise_iff_getElem.mp (Schema.pairwise_not_isNull (hP.wellFormed _ hs))
      obtain ⟨hi', rfl⟩ := List.getElem?_eq_some_iff.mp hb
      obtain ⟨hindex, hchosen⟩ := List.getElem?_eq_some_iff.mp chosen
      have hnot := hpairs i index hi' hindex hi
      rw [hchosen] at hnot
      simpa using fun hi => hnot ⟨hi, hnull⟩
    | false =>
      rw [toAvroJson_union chosen, hnull]
      exact .union_named chosen (hR.named hs node chosen hnull) hw

/-- The JSON encoding of a value is plain. -/
theorem isPlain_toAvroJson {names : Names} {P : List Schema} (hP : Sound names P)
    (hfloat : ∀ s ∈ P, s.FloatFree) {s : Schema} {v : Value} (h : Shaped names LeafOf s v)
    (hs : s ∈ P) : (v.toAvroJson names s).IsPlain := by
  induction h with
  | leaf leaf node => exact isPlain_leaf leaf (hfloat _ hs) node
  | ref found _ ih =>
    rw [toAvroJson_congr (hP.resolve_ref found)]
    exact ih (hP.target found)
  | @array s items _ _ ih =>
    rw [toAvroJson_array]
    refine Json.arePlain_iff.mpr fun j hj => ?_
    obtain ⟨v, hv, rfl⟩ := List.mem_map.mp hj
    exact ih v hv (hP.items hs)
  | @map s entries _ _ _ ih =>
    rw [toAvroJson_map]
    refine Json.isPlain_ofEntries fun e he => ?_
    obtain ⟨a, ha, rfl⟩ := List.mem_map.mp he
    exact ih a ha (hP.values hs)
  | @record name fields entries _ _ _ ih =>
    rw [toAvroJson_record]
    refine Json.isPlain_ofEntries fun e he => ?_
    obtain ⟨p, hp, rfl⟩ := List.mem_map.mp he
    exact ih p hp (hP.fields hs _ (List.of_mem_zip hp).1)
  | @union branches index branch v _ chosen _ ih =>
    have hplain := ih (hP.branches hs _ (List.mem_of_getElem? chosen))
    rw [toAvroJson_union chosen]
    split
    · trivial
    · exact ⟨List.pairwise_singleton _ _, hplain, trivial⟩

end Value

end Messaging.Avro
