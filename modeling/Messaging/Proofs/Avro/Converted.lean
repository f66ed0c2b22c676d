import Messaging.Proofs.Avro.Shape
import Messaging.Proofs.Avro.Steps
import Messaging.Proofs.Number.BigDecimal
import Messaging.Proofs.Text.Uuid

/-! # What a conversion gives

`shaped_of_ofJson`: what a conversion gives is a value of the shape of the schema, in either
dialect. The objects that are converted have to be tables, since the entries of a map are taken as
they come; in the generic form of a value they are (`isTabled_toJson`). -/

namespace Messaging.Avro

open Number

namespace Value

/-! ### Values without parts -/

theorem intOfJson?_eq_some {bound i : Int} {j : Json} (h : intOfJson? bound j = some i) :
    j = .int i ∧ -bound ≤ i ∧ i < bound := by
  unfold intOfJson? at h
  split at h
  · next n =>
    cases n with
    | float x => cases h
    | int k =>
      rw [Json.Num.toInt?] at h
      split at h
      · next hrange =>
        cases h
        exact ⟨rfl, hrange⟩
      · cases h
  · cases h

/-- A value without parts that is converted is one of the schema. -/
theorem leafOf_of_leafOfJson? {dialect : Dialect} {s : Schema} {j : Json} {v : Value}
    (hs : s.IsLeaf) (h : leafOfJson? dialect s j = some v) : LeafOf s v := by
  cases s with
  | array | map | union | record | ref => exact hs.elim
  | null =>
    rw [leafOfJson?] at h
    split at h <;> cases h
    trivial
  | boolean =>
    simp only [leafOfJson?] at h
    split at h <;> cases h
    trivial
  | int | long =>
    obtain ⟨i, hi, rfl⟩ := Option.map_eq_some_iff.mp h
    exact (intOfJson?_eq_some hi).2
  | intAs | longAs =>
    obtain ⟨i, hi, rfl⟩ := Option.map_eq_some_iff.mp h
    exact ⟨rfl, (intOfJson?_eq_some hi).2⟩
  | float | double | bytes | string | decimal =>
    obtain ⟨x, -, rfl⟩ := Option.map_eq_some_iff.mp h
    trivial
  | fixed name size =>
    obtain ⟨b, -, h⟩ := Option.bind_eq_some_iff.mp h
    split at h
    · next hsize =>
      cases h
      exact hsize
    · cases h
  | duration =>
    obtain ⟨b, -, h⟩ := Option.bind_eq_some_iff.mp h
    split at h
    · next hsize =>
      cases h
      exact hsize
    · cases h
  | enum name symbols default =>
    obtain ⟨symbol, -, h⟩ := Option.bind_eq_some_iff.mp h
    obtain ⟨index, hindex, rfl⟩ := Option.map_eq_some_iff.mp h
    obtain ⟨hlt, hsymbol, -⟩ := List.idxOf?_eq_some_iff.mp hindex
    exact List.getElem?_eq_some_iff.mpr ⟨hlt, hsymbol⟩
  | uuid =>
    obtain ⟨b, hb, rfl⟩ := Option.map_eq_some_iff.mp h
    obtain ⟨text, -, hb⟩ := Option.bind_eq_some_iff.mp hb
    exact Text.Uuid.length_of_ofString? hb
  | bigDecimal =>
    obtain ⟨d, hd, rfl⟩ := Option.map_eq_some_iff.mp h
    obtain ⟨text, -, hd⟩ := Option.bind_eq_some_iff.mp hd
    exact BigDecimal.scale_of_ofString? hd

end Value

/-! ### Fields -/

/-- Are the fields of every record among the schemas told apart by their names, and are the objects
in their defaults tables? -/
def LawfulFields (P : List Schema) : Prop :=
  ∀ {name : Name} {fields : List (Field × Schema)}, .record name fields ∈ P →
    (fields.map fun f => f.1.name).Nodup ∧ ∀ f ∈ fields, ∀ d, f.1.default = some d → d.IsTabled

theorem Sound.lawfulFields {names : Names} {P : List Schema} (hP : Sound names P) :
    LawfulFields P := fun h =>
  ⟨Definition.nodup_of_distinctFields (hP.wellFormed _ h).1, (hP.wellFormed _ h).2⟩

namespace Value

/-! ### Whole values -/

/-- The value of a field is tabled if the record and the defaults are. -/
theorem isTabled_fieldJson {entries : List (String × Json)} {f : Field}
    (hentries : (Json.object entries).IsTabled)
    (hdefault : ∀ d, f.default = some d → d.IsTabled) : (fieldJson entries f).IsTabled := by
  unfold fieldJson
  cases hlookup : entries.lookup f.name with
  | some j => exact hentries.lookup hlookup
  | none =>
    cases hd : f.default with
    | some d => exact hdefault d hd
    | none => exact .single rfl fun _ he => Json.noConfusion he

/-- A union that is converted without a name for its branch has one that takes the value. -/
theorem firstBranch_eq_some {f : Schema → Converted Value} {branches : List Schema} {start : Nat}
    {w : Value} (h : firstBranch f start branches = .ok (some w)) :
    ∃ index branch v, branches[index]? = some branch ∧ w = .union (start + index) v ∧
      f branch = .ok v := by
  induction branches generalizing start with
  | nil => cases h
  | cons b rest ih =>
    rw [firstBranch] at h
    split at h
    · next v hv =>
      cases h
      exact ⟨0, b, v, rfl, rfl, hv⟩
    · cases h
    · obtain ⟨index, branch, v, hbranch, rfl, hv⟩ := ih h
      exact ⟨index + 1, branch, v, hbranch, by rw [Nat.add_assoc, Nat.add_comm 1], hv⟩

/-- Entries that are converted have the keys that they are given. -/
theorem forall₂_entries {α : Type} {key : α → String} {convert : α → Converted Value}
    {as : List α} {es : List (String × Value)}
    (h : List.Forall₂ (fun a e => (fun v => (key a, v)) <$> convert a = .ok e) as es) :
    List.Forall₂ (fun a e => e.1 = key a ∧ convert a = .ok e.2) as es :=
  h.imp fun _ _ he => by
    obtain ⟨v, hv, rfl⟩ := map_eq_ok he
    exact ⟨rfl, hv⟩

/-- What a conversion gives is a value of the shape of the schema, in however many steps. -/
theorem shaped_of_ofJsonWithin {names : Names} {P : List Schema} (hP : Closed names P)
    (hfields : LawfulFields P) (dialect : Dialect) (fuel : Nat) {s : Schema} {j : Json} {v : Value}
    (hs : s ∈ P) (hj : j.IsTabled) (h : ofJsonWithin names dialect fuel s j = .ok v) :
    Shaped names LeafOf s v := by
  induction fuel generalizing s j v with
  | zero => cases h
  | succ fuel ih =>
    have hleaf : s.IsLeaf → leafOfJson? dialect s j = some v → Shaped names LeafOf s v :=
      fun hs hv => .leaf hs (leafOf_of_leafOfJson? hs hv)
    unfold ofJsonWithin at h
    cases s with
    | ref name =>
      dsimp only at h
      split at h
      · next t found => exact .ref found (ih (hP.target found) hj h)
      · cases h
    | array items =>
      dsimp only at h
      split at h
      · next values =>
        obtain ⟨vs, hvs, rfl⟩ := map_eq_ok h
        refine .array id fun v hv => ?_
        obtain ⟨i, hi, hiv⟩ := exists_mem_of_forall₂ (forall₂_of_mapM hvs) hv
        exact ih (hP.items hs) (hj.item i hi) hiv
      · cases h
    | map values =>
      dsimp only at h
      split at h
      · next entries =>
        obtain ⟨es, hes, rfl⟩ := map_eq_ok h
        have hall := forall₂_entries (forall₂_of_mapM hes)
        refine .map id ?_ fun p hp => ?_
        · rw [Table.Sorted, ← List.pairwise_map, map_fst_eq hall]
          exact List.pairwise_map.mpr hj.sorted
        · obtain ⟨e, he, hep⟩ := exists_mem_of_forall₂ hall hp
          exact ih (hP.values hs) (hj.entry e he) hep.2
      · cases h
    | record name fields =>
      dsimp only at h
      split at h
      · next entries =>
        obtain ⟨es, hes, rfl⟩ := map_eq_ok h
        have hall := forall₂_entries (forall₂_of_mapM hes)
        refine .record id (map_fst_eq hall) fun p hp => ?_
        have hf := (List.of_mem_zip hp).1
        have hdefault := (hfields hs).2 _ hf
        exact ih (hP.fields hs _ hf) (isTabled_fieldJson hj hdefault)
          ((List.forall₂_iff_zip.mp hall).2 hp).2
      · cases h
    | union branches =>
      dsimp only at h
      split at h
      · next index branch inner hnamed =>
        split at hnamed
        · obtain ⟨v, hv, rfl⟩ := map_eq_ok h
          obtain ⟨chosen, key, rfl⟩ := mem_of_namedBranch? hnamed
          have hinner := hj.entry (key, inner) (List.mem_singleton_self _)
          exact .union id chosen
            (ih (hP.branches hs _ (List.mem_of_getElem? chosen)) hinner hv)
        · cases hnamed
      · obtain ⟨o, ho, h⟩ := bind_eq_ok h
        split at h
        · next w =>
          cases h
          obtain ⟨index, branch, v, chosen, rfl, hv⟩ := firstBranch_eq_some ho
          rw [Nat.zero_add]
          split at hv
          · exact .union id chosen (ih (hP.branches hs _ (List.mem_of_getElem? chosen)) hj hv)
          · cases hv
        · cases h
    | _ =>
      dsimp only at h
      split at h
      · next hv =>
        cases h
        exact hleaf trivial hv
      · cases h

/-- What a conversion gives is a value of the shape of the schema. -/
theorem shaped_of_ofJson {names : Names} {P : List Schema} (hP : Sound names P) {dialect : Dialect}
    {s : Schema} {j : Json} {v : Value} (hs : s ∈ P) (hj : j.IsTabled)
    (h : ofJson names dialect s j = .ok v) : Shaped names LeafOf s v :=
  shaped_of_ofJsonWithin hP.toClosed hP.lawfulFields dialect _ hs hj h

/-! ### Generic forms -/

mutual

/-- The objects in the generic form of a value are tables. -/
theorem isTabled_toJson (v : Value) : v.toJson.IsTabled := by
  have hbytes : ∀ b : Bytes, (Json.ofBytes b).IsTabled := fun b => .array fun j hj => by
    obtain ⟨_, -, rfl⟩ := List.mem_map.mp hj
    exact .single rfl fun _ he => Json.noConfusion he
  have hdouble : ∀ x, (Json.ofDouble x).IsTabled := fun x => by
    unfold Json.ofDouble
    split <;> exact .single rfl fun _ he => Json.noConfusion he
  match v with
  | .null | .boolean _ | .int _ | .long _ | .intAs _ _ | .longAs _ _ | .string _ | .enum _ _
  | .bigDecimal _ | .uuid _ => exact .single rfl fun _ he => Json.noConfusion he
  | .float x => exact hdouble x.toDouble
  | .double x => exact hdouble x
  | .bytes b | .fixed b | .decimal b | .duration b => exact hbytes b
  | .union _ v => exact isTabled_toJson v
  | .array items => exact .array (isTabled_itemsToJson items)
  | .map entries | .record entries => exact .ofEntries (isTabled_entriesToJson entries)

theorem isTabled_itemsToJson (items : List Value) : ∀ j ∈ itemsToJson items, j.IsTabled := by
  match items with
  | [] => exact fun _ hj => absurd hj List.not_mem_nil
  | v :: rest => exact List.forall_mem_cons.mpr ⟨isTabled_toJson v, isTabled_itemsToJson rest⟩

theorem isTabled_entriesToJson (entries : List (String × Value)) :
    ∀ e ∈ entriesToJson entries, e.2.IsTabled := by
  match entries with
  | [] => exact fun _ he => absurd he List.not_mem_nil
  | (_, v) :: rest => exact List.forall_mem_cons.mpr ⟨isTabled_toJson v, isTabled_entriesToJson rest⟩

end

end Value

end Messaging.Avro
