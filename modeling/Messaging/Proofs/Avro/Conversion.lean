import Messaging.Proofs.Avro.Shape
import Messaging.Proofs.Avro.Steps
import Messaging.Proofs.Text.Uuid
import Mathlib.Data.List.Forall2

/-! # Values that are read back from their generic form

`Converts` says that a conversion has a value in any number of steps from some on; there is one
lemma for each kind of schema. From these `converts_toJson` follows by induction on the shape: the
generic form of a value is read back as the value, if each union is narrow. -/

namespace Messaging.Avro

namespace Value

/-- The conversion has the value, in any number of steps from some on. -/
def Converts (names : Names) (dialect : Dialect) (s : Schema) (j : Json) (v : Value) : Prop :=
  ∃ n, ∀ m ≥ n, ofJsonWithin names dialect m s j = .ok v

/-- The conversion is a mismatch, in any number of steps from some on. -/
def Misses (names : Names) (dialect : Dialect) (s : Schema) (j : Json) : Prop :=
  ∃ n, ∀ m ≥ n, ∃ e, ofJsonWithin names dialect m s j = .error (.mismatch e)

theorem Converts.ofJson {names : Names} {dialect : Dialect} {s : Schema} {j : Json} {v : Value}
    (h : Converts names dialect s j v) : ofJson names dialect s j = .ok v :=
  ofJson_eq_of_eventually h

namespace Converts

variable {names : Names} {dialect : Dialect}

/-- One step more than the parts take. -/
theorem of_succ {s : Schema} {j : Json} {v : Value}
    (h : ∃ n, ∀ m ≥ n, ofJsonWithin names dialect (m + 1) s j = .ok v) :
    Converts names dialect s j v := by
  obtain ⟨n, hn⟩ := h
  refine ⟨n + 1, fun m hm => ?_⟩
  obtain ⟨m, rfl⟩ : ∃ k, m = k + 1 := ⟨m - 1, by omega⟩
  exact hn m (by omega)

theorem leaf {s : Schema} (hs : s.IsLeaf) {j : Json} {v : Value}
    (h : leafOfJson? dialect s j = some v) : Converts names dialect s j v := by
  refine .of_succ ⟨0, fun m _ => ?_⟩
  unfold ofJsonWithin
  cases s <;> first | exact hs.elim | simp only [h]

theorem ref {name : Name} {s : Schema} {j : Json} {v : Value}
    (found : names.find? name.full = some s) (h : Converts names dialect s j v) :
    Converts names dialect (.ref name) j v := by
  obtain ⟨n, hn⟩ := h
  refine .of_succ ⟨n, fun m hm => ?_⟩
  rw [ofJsonWithin]
  simp only [found]
  exact hn m hm

theorem array {s : Schema} {js : List Json} {vs : List Value}
    (h : List.Forall₂ (Converts names dialect s) js vs) :
    Converts names dialect (.array s) (.array js) (.array vs) := by
  obtain ⟨n, hn⟩ := forall₂_eventually h
  refine .of_succ ⟨n, fun m hm => ?_⟩
  rw [ofJsonWithin, mapM_of_forall₂ (hn m hm)]
  rfl

theorem map {s : Schema} {es : List (String × Json)} {vs : List (String × Value)}
    (h : List.Forall₂ (fun e p => p.1 = e.1 ∧ Converts names dialect s e.2 p.2) es vs) :
    Converts names dialect (.map s) (.object es) (.map vs) := by
  obtain ⟨n, hn⟩ := forall₂_eventually
    (R := fun m e p => (fun v => (e.1, v)) <$> ofJsonWithin names dialect m s e.2 = .ok p)
    (h.imp fun e p ⟨hkey, n, hn⟩ => ⟨n, fun m hm => by rw [hn m hm, ← hkey]; rfl⟩)
  refine .of_succ ⟨n, fun m hm => ?_⟩
  rw [ofJsonWithin, mapM_of_forall₂ (hn m hm)]
  rfl

theorem record {name : Name} {fields : List (Field × Schema)} {es : List (String × Json)}
    {vs : List (String × Value)}
    (h : List.Forall₂
      (fun f p => p.1 = f.1.name ∧ Converts names dialect f.2 (fieldJson es f.1) p.2) fields vs) :
    Converts names dialect (.record name fields) (.object es) (.record vs) := by
  obtain ⟨n, hn⟩ := forall₂_eventually
    (R := fun m f p => (fun v => (f.1.name, v)) <$>
      ofJsonWithin names dialect m f.2 (fieldJson es f.1) = .ok p)
    (h.imp fun f p ⟨hkey, n, hn⟩ => ⟨n, fun m hm => by rw [hn m hm, ← hkey]; rfl⟩)
  refine .of_succ ⟨n, fun m hm => ?_⟩
  rw [ofJsonWithin, mapM_of_forall₂ (hn m hm)]
  rfl

/-- The first branch that is allowed and does not miss. -/
theorem firstBranch_eventually {f : Nat → Schema → Converted Value} {branches : List Schema}
    {index : Nat} {branch : Schema} {v : Value} (chosen : branches[index]? = some branch)
    (value : ∃ n, ∀ m ≥ n, f m branch = .ok v)
    (before : ∀ i < index, ∀ b, branches[i]? = some b →
      ∃ n, ∀ m ≥ n, ∃ e, f m b = .error (.mismatch e)) (start : Nat) :
    ∃ n, ∀ m ≥ n, firstBranch (f m) start branches = .ok (some (.union (start + index) v)) := by
  induction branches generalizing index start with
  | nil => cases chosen
  | cons b rest ih =>
    cases index with
    | zero =>
      obtain ⟨n, hn⟩ := value
      obtain rfl : b = branch := Option.some.inj chosen
      refine ⟨n, fun m hm => ?_⟩
      rw [firstBranch, hn m hm]
      rfl
    | succ index =>
      obtain ⟨n, hn⟩ := before 0 (Nat.succ_pos _) b rfl
      obtain ⟨k, hk⟩ := ih chosen
        (fun i hi c hc => before (i + 1) (Nat.succ_lt_succ hi) c hc) (start + 1)
      refine ⟨max n k, fun m hm => ?_⟩
      obtain ⟨e, he⟩ := hn m (by omega)
      rw [firstBranch, he]
      simp only
      rw [hk m (by omega), Nat.add_assoc, Nat.add_comm 1]

/-- A union in generic form. -/
theorem union {branches : List Schema} {index : Nat} {branch : Schema} {j : Json} {v : Value}
    (chosen : branches[index]? = some branch) (value : Converts names .generic branch j v)
    (before : ∀ i < index, ∀ b, branches[i]? = some b → Misses names .generic b j) :
    Converts names .generic (.union branches) j (.union index v) := by
  obtain ⟨n, hn⟩ := firstBranch_eventually
    (f := fun m b => ofJsonWithin names .generic m b j) chosen value before 0
  refine .of_succ ⟨n, fun m hm => ?_⟩
  rw [ofJsonWithin]
  simp only [reduceCtorEq, if_false, isUnnamedIn, if_true]
  rw [hn m hm, Nat.zero_add]
  rfl

end Converts

/-! ### Mismatches of `null` -/

namespace Misses

variable {names : Names} {dialect : Dialect}

theorem of_succ {s : Schema} {j : Json}
    (h : ∃ n, ∀ m ≥ n, ∃ e, ofJsonWithin names dialect (m + 1) s j = .error (.mismatch e)) :
    Misses names dialect s j := by
  obtain ⟨n, hn⟩ := h
  refine ⟨n + 1, fun m hm => ?_⟩
  obtain ⟨m, rfl⟩ : ∃ k, m = k + 1 := ⟨m - 1, by omega⟩
  exact hn m (by omega)

theorem ofJson {s : Schema} {j : Json} (h : Misses names dialect s j) :
    ∃ e, Value.ofJson names dialect s j = .error (.mismatch e) := by
  obtain ⟨n, hn⟩ := h
  rw [← ofJsonWithin_eq_ofJson names dialect s j (Nat.le_max_right n _)]
  exact hn _ (Nat.le_max_left n _)

/-- Only `null` is of the schema `null`. -/
theorem null {j : Json} (hj : j ≠ .null) : Misses names dialect .null j := by
  refine .of_succ ⟨0, fun m _ => ⟨⟨j, Schema.kind .null⟩, ?_⟩⟩
  cases j <;> first | rfl | exact absurd rfl hj

/-- `null` is not of a schema that declares a name. -/
theorem of_declares {s : Schema} (hs : s.Declares) : Misses names dialect s .null := by
  refine .of_succ ⟨0, fun m _ => ⟨⟨.null, s.kind⟩, ?_⟩⟩
  cases s <;> first | exact hs.elim | rfl

/-- `null` is of no other schema, if no name stands for a union or `null`. -/
theorem of_null {P : List Schema} (hP : Sound names P) {s : Schema} (hs : s.isNull = false)
    (hunion : ∀ bs, s ≠ .union bs) : Misses names dialect s .null := by
  cases s with
  | null => cases hs
  | union bs => exact absurd rfl (hunion bs)
  | ref name =>
    cases found : names.find? name.full with
    | none =>
      refine .of_succ ⟨0, fun m _ => ⟨⟨.null, Schema.kind (.ref name)⟩, ?_⟩⟩
      rw [ofJsonWithin]
      simp only [found]
    | some t =>
      have hmiss : Misses names dialect t .null := of_declares (hP.declares found)
      obtain ⟨n, hn⟩ := hmiss
      refine .of_succ ⟨n, fun m hm => ?_⟩
      rw [ofJsonWithin]
      simp only [found]
      exact hn m hm
  | _ => exact .of_succ ⟨0, fun m _ => ⟨_, rfl⟩⟩

end Misses

/-! ### Generic forms -/

theorem itemsToJson_eq (vs : List Value) : itemsToJson vs = vs.map toJson := by
  induction vs with
  | nil => rfl
  | cons v rest ih => rw [itemsToJson, ih, List.map_cons]

theorem entriesToJson_eq (es : List (String × Value)) :
    entriesToJson es = es.map fun e => (e.1, e.2.toJson) := by
  induction es with
  | nil => rfl
  | cons e rest ih => rw [entriesToJson, ih, List.map_cons]

theorem toByte?_toNat (b : UInt8) : Json.Num.toByte? (.int b.toNat) = some b := by
  have hb : b.toNat < 256 := b.toNat_lt
  have hrange : (0 : Int) ≤ b.toNat ∧ (b.toNat : Int) < 256 := by omega
  rw [Json.Num.toByte?, if_pos hrange]
  simp

theorem bytesOfJson?_ofBytes (b : Bytes) : bytesOfJson? .generic (.ofBytes b) = some b := by
  rw [Json.ofBytes, bytesOfJson?]
  induction b with
  | nil => rfl
  | cons a rest ih =>
    rw [List.map_cons, List.mapM_cons, ih]
    simp only [Json.int, toByte?_toNat]
    rfl

theorem intOfJson?_int {bound i : Int} (h : -bound ≤ i ∧ i < bound) :
    intOfJson? bound (.int i) = some i := if_pos h

theorem idxOf?_of_nodup {symbols : List String} (hnodup : symbols.Nodup) {index : Nat}
    {symbol : String} (h : symbols[index]? = some symbol) :
    symbols.idxOf? symbol = some index := by
  obtain ⟨hindex, rfl⟩ := List.getElem?_eq_some_iff.mp h
  refine List.idxOf?_eq_some_iff.mpr ⟨hindex, rfl, fun j hj heq => ?_⟩
  have := hnodup.getElem_inj_iff.mp heq
  omega

/-- A value without parts is read back from its generic form. -/
theorem leafOfJson?_toJson {s : Schema} {v : Value} (hs : s.IsLeaf) (hexact : s.Exact)
    (hwell : s.WellFormed) (h : LeafOf s v) : leafOfJson? .generic s v.toJson = some v := by
  cases s <;> cases v <;> first | exact absurd hs h | exact hs.elim | exact hexact.elim | skip
  · rfl
  · rfl
  · simp only [toJson, leafOfJson?, intOfJson?_int h, Option.map_some]
  · simp only [toJson, leafOfJson?, intOfJson?_int h, Option.map_some]
  · simp only [toJson, leafOfJson?, bytesOfJson?_ofBytes, Option.map_some]
  · rfl
  · simp only [toJson, leafOfJson?, textOfJson?, Option.bind_some, idxOf?_of_nodup hwell h,
      Option.map_some]
  · simp only [toJson, leafOfJson?, bytesOfJson?_ofBytes, Option.bind_some]
    exact if_pos h
  · simp only [toJson, leafOfJson?, bytesOfJson?_ofBytes, Option.map_some]
  · simp only [toJson, leafOfJson?, textOfJson?, Option.bind_some, Text.Uuid.ofString?_text h,
      Option.map_some]
  · obtain ⟨rfl, hrange⟩ := h
    simp only [toJson, leafOfJson?, intOfJson?_int hrange, Option.map_some]
  · obtain ⟨rfl, hrange⟩ := h
    simp only [toJson, leafOfJson?, intOfJson?_int hrange, Option.map_some]
  · simp only [toJson, leafOfJson?, bytesOfJson?_ofBytes, Option.bind_some]
    exact if_pos h

theorem leaf_toJson_ne_null {s : Schema} {v : Value} (hleaf : s.IsLeaf) (hexact : s.Exact)
    (hs : s.isNull = false) (h : LeafOf s v) : v.toJson ≠ .null := by
  cases s <;> cases v <;>
    first
    | exact absurd hleaf h
    | exact hleaf.elim
    | exact hexact.elim
    | exact Bool.noConfusion hs
    | exact fun hnull => Json.noConfusion hnull

/-- Only `null` is spelled `null`. -/
theorem toJson_ne_null {names : Names} {P : List Schema} (hP : Sound names P)
    (hexact : ∀ s ∈ P, s.Exact) {s : Schema} {v : Value} (h : Shaped names LeafOf s v)
    (hmem : s ∈ P) (hs : s.isNull = false) (hunion : ∀ bs, s ≠ .union bs) : v.toJson ≠ .null := by
  induction h with
  | leaf leaf node => exact leaf_toJson_ne_null leaf (hexact _ hmem) hs node
  | @ref name t v found _ ih =>
    have hdecl := hP.declares found
    refine ih (hP.target found) ?_ ?_ <;> cases t <;> first | exact hdecl.elim | rfl | skip
    all_goals exact fun _ h => Schema.noConfusion h
  | array | map | record => exact fun hnull => Json.noConfusion hnull
  | union => exact absurd rfl (hunion _)

/-- The entries of a sorted table are spelled in order. -/
theorem sorted_map {entries : List (String × Value)} (h : Table.Sorted entries)
    (f : Value → Json) : Table.Sorted (entries.map fun e => (e.1, f e.2)) :=
  List.pairwise_map.mpr h

/-- A field is found in the object of a record. -/
theorem fieldJson_ofList {entries : List (String × Json)} {f : Field} {j : Json}
    (hnodup : (entries.map Prod.fst).Nodup) (h : (f.name, j) ∈ entries) :
    fieldJson (Table.ofList entries) f = j := by
  have hfind : (Table.ofList entries).lookup f.name = some j := Table.find?_ofList hnodup h
  rw [fieldJson, hfind]
  rfl

/-- The generic form of a value is read back as the value. -/
theorem converts_toJson {names : Names} {P : List Schema} (hP : Sound names P)
    (hexact : ∀ s ∈ P, s.Exact) (hnarrow : ∀ s ∈ P, s.Narrow) {s : Schema} {v : Value}
    (h : Shaped names LeafOf s v) (hs : s ∈ P) : Converts names .generic s v.toJson v := by
  induction h with
  | leaf leaf node =>
    exact .leaf leaf (leafOfJson?_toJson leaf (hexact _ hs) (hP.wellFormed _ hs) node)
  | ref found _ ih => exact .ref found (ih (hP.target found))
  | @array s items _ _ ih =>
    rw [toJson, itemsToJson_eq]
    refine .array (List.forall₂_map_left_iff.mpr (List.forall₂_same.mpr fun v hv => ?_))
    exact ih v hv (hP.items hs)
  | @map s entries _ sorted _ ih =>
    rw [toJson, entriesToJson_eq, Json.ofEntries, Table.ofList_of_sorted (sorted_map sorted toJson)]
    refine .map (List.forall₂_map_left_iff.mpr (List.forall₂_same.mpr fun e he => ?_))
    exact ⟨rfl, ih e he (hP.values hs)⟩
  | @record name fields entries _ order _ ih =>
    have hnodup := Definition.nodup_of_distinctFields (hP.wellFormed _ hs).1
    rw [← order] at hnodup
    rw [toJson, entriesToJson_eq, Json.ofEntries]
    have hkeys : ((entries.map fun e => (e.1, e.2.toJson)).map Prod.fst).Nodup := by
      rwa [List.map_map]
    refine .record (Shaped.forall₂_fields order fun p hp hname => ⟨hname, ?_⟩)
    obtain ⟨hf, he⟩ := List.of_mem_zip hp
    rw [fieldJson_ofList hkeys (List.mem_map.mpr ⟨p.2, he, by rw [hname]⟩)]
    exact ih p hp (hP.fields hs _ hf)
  | @union branches index branch v _ chosen value ih =>
    have hbranch := hP.branches hs _ (List.mem_of_getElem? chosen)
    have hwell := hP.wellFormed _ hs
    rw [toJson]
    refine .union chosen (ih hbranch) fun i hi b hb => ?_
    have hpairs := List.pairwise_iff_getElem.mp (Schema.pairwise_isNull (hnarrow _ hs) hwell)
    obtain ⟨hi', rfl⟩ := List.getElem?_eq_some_iff.mp hb
    obtain ⟨hindex, rfl⟩ := List.getElem?_eq_some_iff.mp chosen
    have hne := hpairs i index hi' hindex hi
    cases hnull : branches[index].isNull with
    | true =>
      rw [hnull, ne_eq, Bool.not_eq_true] at hne
      rw [Schema.eq_null_of_isNull hnull] at value
      rw [value.eq_null]
      exact .of_null hP hne (hwell.1 _ (List.getElem_mem hi'))
    | false =>
      rw [hnull, ne_eq, Bool.not_eq_false] at hne
      rw [Schema.eq_null_of_isNull hne]
      exact .null (toJson_ne_null hP hexact value hbranch hnull
        (hwell.1 _ (List.getElem_mem hindex)))

end Value

end Messaging.Avro
