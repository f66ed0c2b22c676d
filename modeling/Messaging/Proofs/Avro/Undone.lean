import Messaging.Proofs.Avro.Spelling
import Messaging.Proofs.Number.BigDecimal
import Messaging.Proofs.Number.Binary

/-! # The JSON encoding is undone by reading it

A value is read back from its JSON encoding, with the same branch in every union, if its
floating-point numbers are finite and no union of its schema has two branches of one name
(`avro_spelling_undone`). Nothing is said of how the value came about, so this holds of values that
no record converts to. A number of 32 bits comes back because it loses nothing as one of 64; a big
decimal comes back as a number of the same value, and as itself if its text is read as itself. -/

namespace Messaging.Avro

open Number

namespace Value

/-- Is the value, if it is a floating-point number, a finite one? -/
def FiniteNumber : Value → Prop
  | float x => x.isFinite = true
  | double x => x.isFinite = true
  | _ => True

/-- Is the text of the value, if it is a big decimal, read as the value itself? -/
def ReadBack : Value → Prop
  | bigDecimal d => BigDecimal.ofString? d.text = some d
  | _ => True

/-- Are two values the same but for the scales of big decimals? -/
inductive Same : Value → Value → Prop
  | refl (v : Value) : Same v v
  | bigDecimal {d d' : BigDecimal} (value : d'.value = d.value) :
      Same (.bigDecimal d) (.bigDecimal d')
  | array {vs ws : List Value} (items : List.Forall₂ Same vs ws) : Same (.array vs) (.array ws)
  | map {es fs : List (String × Value)} (keys : fs.map Prod.fst = es.map Prod.fst)
      (values : List.Forall₂ Same (es.map Prod.snd) (fs.map Prod.snd)) : Same (.map es) (.map fs)
  | record {es fs : List (String × Value)} (keys : fs.map Prod.fst = es.map Prod.fst)
      (values : List.Forall₂ Same (es.map Prod.snd) (fs.map Prod.snd)) :
      Same (.record es) (.record fs)
  | union {v w : Value} (index : Nat) (value : Same v w) : Same (.union index v) (.union index w)

/-- Entries that go together have one list of keys, and their values go together. -/
theorem forall₂_entries_iff {R : Value → Value → Prop} {es fs : List (String × Value)} :
    List.Forall₂ (fun e f => f.1 = e.1 ∧ R e.2 f.2) es fs ↔
      fs.map Prod.fst = es.map Prod.fst ∧ List.Forall₂ R (es.map Prod.snd) (fs.map Prod.snd) := by
  induction es generalizing fs with
  | nil => cases fs <;> simp
  | cons e rest ih =>
    cases fs with
    | nil => simp
    | cons f fs =>
      simp only [List.forall₂_cons, List.map_cons, List.cons.injEq, ih]
      tauto

theorem congruent_same : Congruent Same where
  array := .array
  map h := (forall₂_entries_iff.mp h).elim .map
  record h := (forall₂_entries_iff.mp h).elim .record
  union := .union

/-! ### Leaves -/

theorem leafOfJson?_float {names : Names} {x : Single} (h : x.isFinite = true) :
    leafOfJson? .encoded .float ((float x).toAvroJson names .float) = some (float x) := by
  obtain ⟨hfinite, hnarrow⟩ := Single.toSingle_toDouble h
  simp only [toAvroJson, toJson, Json.ofSingle, Json.ofDouble, if_pos hfinite, leafOfJson?,
    doubleOfJson?, Json.Num.toDouble, Option.map_some, hnarrow]

theorem leafOfJson?_double {names : Names} {x : Double} (h : x.isFinite = true) :
    leafOfJson? .encoded .double ((double x).toAvroJson names .double) = some (double x) := by
  simp only [toAvroJson, toJson, Json.ofDouble, if_pos h, leafOfJson?, doubleOfJson?,
    Json.Num.toDouble, Option.map_some]

/-- A finite value without parts is read back, but for the scale of a big decimal. -/
theorem leafOfJson?_finite {names : Names} {s : Schema} {v : Value} (hs : s.IsLeaf)
    (hwell : s.WellFormed) (h : LeafOf s v) (hfinite : v.FiniteNumber) :
    ∃ w, leafOfJson? .encoded s (v.toAvroJson names s) = some w ∧ Same v w ∧
      (v.ReadBack → w = v) := by
  by_cases hexact : s.Exact
  · exact ⟨v, leafOfJson?_toAvroJson hs hexact hwell h, .refl v, fun _ => rfl⟩
  cases s <;> first | exact absurd trivial hexact | skip
  all_goals cases v <;> first | exact absurd hs h | skip
  case float.float x => exact ⟨_, leafOfJson?_float hfinite, .refl _, fun _ => rfl⟩
  case double.double x => exact ⟨_, leafOfJson?_double hfinite, .refl _, fun _ => rfl⟩
  case bigDecimal.bigDecimal d =>
    obtain ⟨d', hread, -, hvalue⟩ := BigDecimal.ofString?_text d h
    refine ⟨.bigDecimal d', ?_, .bigDecimal hvalue, fun hback => ?_⟩
    · simp only [toAvroJson, toJson, leafOfJson?, textOfJson?, Option.bind_some, hread,
        Option.map_some]
    · rw [Option.some.inj (hread.symm.trans hback)]

end Value

/-! ### Whole values -/

/-- Has no union among the schemas two branches of one name? -/
def DistinctNames (P : List Schema) : Prop :=
  ∀ branches, Schema.union branches ∈ P → (branches.map Schema.branchName).Nodup

theorem DistinctNames.tellsBranches {P : List Schema} (h : DistinctNames P) :
    ∀ s ∈ P, s.TellsBranches := by
  intro s hs
  cases s with
  | union branches =>
    intro index branch hchosen _
    obtain ⟨hlt, hget⟩ := List.getElem?_eq_some_iff.mp hchosen
    refine List.findIdx?_eq_some_iff_getElem.mpr ⟨hlt, by simp [hget], fun i hi hname => ?_⟩
    -- An earlier branch of that name would be the same one.
    have hlt' : index < (branches.map Schema.branchName).length := by rwa [List.length_map]
    have hi' : i < (branches.map Schema.branchName).length := hi.trans hlt'
    have hsame : (branches.map Schema.branchName)[i] = (branches.map Schema.branchName)[index] := by
      simpa [hget] using hname
    exact absurd ((h branches hs).getElem_inj_iff.mp hsame) (Nat.ne_of_lt hi)
  | _ => trivial

namespace Value

/-- The values without parts that are read back, and what they are read back as. -/
theorem spellable_same {names : Names} {P : List Schema} (hP : Sound names P)
    (hnames : DistinctNames P) :
    Spellable names P (fun s v => LeafOf s v ∧ v.FiniteNumber) Same where
  congruent := congruent_same
  leafOf _ _ h := h.1
  leaf s hs leaf v h := by
    obtain ⟨w, hw, hsame, -⟩ := leafOfJson?_finite leaf (hP.wellFormed s hs) h.1 h.2
    exact ⟨w, hw, hsame⟩
  named hs _ chosen hnull := hnames.tellsBranches _ hs _ _ chosen hnull

theorem spellable_readBack {names : Names} {P : List Schema} (hP : Sound names P)
    (hnames : DistinctNames P) :
    Spellable names P (fun s v => (LeafOf s v ∧ v.FiniteNumber) ∧ v.ReadBack) Eq where
  congruent := congruent_eq
  leafOf _ _ h := h.1.1
  leaf s hs leaf v h := by
    obtain ⟨w, hw, -, heq⟩ := leafOfJson?_finite leaf (hP.wellFormed s hs) h.1.1 h.1.2
    exact ⟨w, hw, (heq h.2).symm⟩
  named hs _ chosen hnull := hnames.tellsBranches _ hs _ _ chosen hnull

end Value

/-- **The JSON encoding is undone by reading it.** Let a schema and its types be as a definition gives
them (`sound_of_define`), let no union among them have two branches of one name, and let a value of
the schema have no floating-point numbers but finite ones. Reading its JSON encoding gives the value
back, with the same branch in every union, but for the scales of big decimals; and it gives the value
itself if the text of every big decimal in it is read as that number. -/
theorem avro_spelling_undone {names : Names} {schema : Schema}
    (hschema : Sound names (schema.partsWith names))
    (hnames : DistinctNames (schema.partsWith names)) {v : Value}
    (hv : Value.Shaped names Value.LeafOf schema v)
    (hfinite : Value.Shaped names (fun _ v => v.FiniteNumber) schema v) :
    ∃ w, Value.ofJson names .encoded schema (v.toAvroJson names schema) = .ok w ∧ v.Same w ∧
      (Value.Shaped names (fun _ v => v.ReadBack) schema v → w = v) := by
  have hmem := schema.self_mem_partsWith names
  obtain ⟨w, hw, hsame⟩ :=
    Value.converts_toAvroJson hschema (Value.spellable_same hschema hnames) (hv.and hfinite) hmem
  refine ⟨w, hw.ofJson, hsame, fun hback => ?_⟩
  obtain ⟨w', hw', rfl⟩ := Value.converts_toAvroJson hschema
    (Value.spellable_readBack hschema hnames)
    ((hv.and hfinite).and hback) hmem
  exact Except.ok.inj (hw.ofJson.symm.trans hw'.ofJson)

/-- Nothing, a number or another record. -/
def seriesNext : Schema := .union [.null, .double, .ref ⟨"", "Series"⟩]

/-- A recursive record with numbers of three kinds. -/
def series : Schema := .record ⟨"", "Series"⟩
  [(⟨"weight", [], none⟩, .float), (⟨"price", [], none⟩, .bigDecimal),
    (⟨"next", [], none⟩, seriesNext)]

/-- A value of that record. -/
def seriesOf (next : Value) : Value := .record
  [("weight", .float ⟨0x3FC00000⟩), ("price", .bigDecimal ⟨150, 2⟩), ("next", next)]

/-- A record in another; in the inner one comes a number. -/
def seriesOfTwo : Value := seriesOf (.union 2 (seriesOf (.union 1 (.double ⟨0x3FB999999999999A⟩))))

theorem series_parts {s : Schema} (h : s ∈ series.partsWith [("Series", series)]) :
    s = series ∨ s = seriesNext ∨
      s ∈ [.float, .bigDecimal, .null, .double, .ref ⟨"", "Series"⟩] := by
  have h' : s ∈ series.parts := by simpa [Schema.partsWith] using h
  simp only [series, seriesNext, Schema.parts, Schema.fieldParts, Schema.branchParts,
    List.cons_append, List.nil_append, List.mem_cons, List.not_mem_nil, or_false] at h' ⊢
  tauto

theorem series_sound : Sound [("Series", series)] (series.partsWith [("Series", series)]) where
  toClosed := Schema.closed_partsWith _ _
  wellFormed s hs := by
    rcases series_parts hs with rfl | rfl | hs
    · exact ⟨by decide, by simp⟩
    · exact ⟨by simp, by decide⟩
    · simp only [List.mem_cons, List.not_mem_nil, or_false] at hs
      rcases hs with rfl | rfl | rfl | rfl | rfl <;> trivial
  declares {name s} h := by
    rw [Table.find?_cons, Table.find?_nil] at h
    split at h
    · cases h
      trivial
    · cases h

theorem series_distinctNames : DistinctNames (series.partsWith [("Series", series)]) := by
  intro branches h
  rcases series_parts h with h | h | h
  · cases h
  · cases h
    decide
  · simp at h

theorem seriesOfTwo_shaped {N : Schema → Value → Prop} (hrecord : ∀ es, N series (.record es))
    (hfloat : N .float (.float ⟨0x3FC00000⟩)) (hprice : N .bigDecimal (.bigDecimal ⟨150, 2⟩))
    (hunion : ∀ i v, N seriesNext (.union i v))
    (hdouble : N .double (.double ⟨0x3FB999999999999A⟩)) :
    Value.Shaped [("Series", series)] N series seriesOfTwo := by
  have hseries : ∀ {next : Value},
      Value.Shaped [("Series", series)] N seriesNext next →
      Value.Shaped [("Series", series)] N series (seriesOf next) := by
    intro next hnext
    refine .record (hrecord _) rfl fun p hp => ?_
    rcases List.mem_cons.mp hp with rfl | hp
    · exact .leaf trivial hfloat
    rcases List.mem_cons.mp hp with rfl | hp
    · exact .leaf trivial hprice
    · rw [List.mem_singleton.mp hp]
      exact hnext
  exact hseries (.union (hunion _ _) rfl (.ref rfl (hseries (.union (hunion _ _) rfl
    (.leaf trivial hdouble)))))

theorem avro_spelling_undone_series :
    Value.ofJson [("Series", series)] .encoded series
      (seriesOfTwo.toAvroJson [("Series", series)] series) = .ok seriesOfTwo := by
  have hweight : Single.isFinite ⟨0x3FC00000⟩ = true := by decide
  have hnumber : Double.isFinite ⟨0x3FB999999999999A⟩ = true := by decide
  have hprice : BigDecimal.ofString? (BigDecimal.text ⟨150, 2⟩) = some ⟨150, 2⟩ := by
    decide +kernel
  obtain ⟨w, hread, -, hsame⟩ := avro_spelling_undone series_sound series_distinctNames
    (seriesOfTwo_shaped (fun _ => id) trivial ⟨by decide, by decide⟩ (fun _ _ => id) trivial)
    (seriesOfTwo_shaped (fun _ => trivial) hweight trivial (fun _ _ => trivial) hnumber)
  rw [hread, hsame (seriesOfTwo_shaped (fun _ => trivial) trivial hprice (fun _ _ => trivial)
    trivial)]

end Messaging.Avro
