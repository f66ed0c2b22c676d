import Messaging.Proofs.Avro.Converted
import Messaging.Proofs.Avro.Undone

/-! # Conversion is sound and complete

`conversion_sound_complete`: what a conversion gives has the shape of the schema, in either dialect,
and the generic form of a value of that shape is never a mismatch. The value that it converts to may
be another one, since a union takes the first branch that accepts the form; so the second half says
that a conversion passes (`Passes`), by induction on the shape and for every number of steps. -/

namespace Messaging.Avro

open Number

namespace Value

/-! ### Conversions that are no mismatch -/

/-- Is the outcome of a conversion no mismatch? -/
def Passes {α : Type} (x : Converted α) : Prop := ∀ m, x ≠ .error (.mismatch m)

namespace Passes

variable {α β : Type}

theorem ok (a : α) : Passes (.ok a) := fun _ h => by cases h

theorem unbounded : Passes (.error .unbounded : Converted α) := fun _ h => by cases h

theorem cases {x : Converted α} (h : Passes x) : (∃ a, x = .ok a) ∨ x = .error .unbounded := by
  cases x with
  | ok a => exact .inl ⟨a, rfl⟩
  | error e =>
    cases e with
    | mismatch m => exact absurd rfl (h m)
    | unbounded => exact .inr rfl

theorem bind {x : Converted α} {f : α → Converted β} (hx : Passes x)
    (hf : ∀ a, x = .ok a → Passes (f a)) : Passes (x.bind f) := by
  rcases hx.cases with ⟨a, rfl⟩ | rfl
  · exact hf a rfl
  · exact unbounded

theorem map {x : Converted α} (f : α → β) (hx : Passes x) : Passes (f <$> x) := by
  rcases hx.cases with ⟨a, rfl⟩ | rfl
  · exact ok (f a)
  · exact unbounded

theorem mapM {f : α → Converted β} {as : List α} (h : ∀ a ∈ as, Passes (f a)) :
    Passes (as.mapM f) := by
  induction as with
  | nil => exact ok []
  | cons a rest ih =>
    rw [List.mapM_cons]
    refine bind (h a List.mem_cons_self) fun b _ => ?_
    exact bind (ih fun a ha => h a (List.mem_cons_of_mem _ ha)) fun bs _ => ok (b :: bs)

end Passes

/-- Where one branch passes, some branch is taken or the conversion does not end. -/
theorem firstBranch_of_passes {f : Schema → Converted Value} {branches : List Schema} {index : Nat}
    {branch : Schema} (chosen : branches[index]? = some branch) (h : Passes (f branch))
    (start : Nat) :
    (∃ w, firstBranch f start branches = .ok (some w)) ∨
      firstBranch f start branches = .error .unbounded := by
  induction branches generalizing index start with
  | nil => cases chosen
  | cons b rest ih =>
    rw [firstBranch]
    split
    · exact .inl ⟨_, rfl⟩
    · exact .inr rfl
    · next m hm =>
      cases index with
      | zero =>
        obtain rfl : b = branch := Option.some.inj chosen
        exact absurd hm (h m)
      | succ index => exact ih chosen (start + 1)

/-! ### Values without parts -/

theorem exists_idxOf? {symbols : List String} {index : Nat} {symbol : String}
    (h : symbols[index]? = some symbol) : ∃ first, symbols.idxOf? symbol = some first := by
  cases hfirst : symbols.idxOf? symbol with
  | some first => exact ⟨first, rfl⟩
  | none => exact absurd (List.mem_of_getElem? h) (List.idxOf?_eq_none_iff.mp hfirst)

/-- The generic form of a value without parts is accepted. -/
theorem exists_leafOfJson?_toJson {s : Schema} {v : Value} (hs : s.IsLeaf) (h : LeafOf s v)
    (hfinite : v.FiniteNumber) : ∃ w, leafOfJson? .generic s v.toJson = some w := by
  by_cases henum : ∃ name symbols default, s = .enum name symbols default
  · obtain ⟨name, symbols, default, rfl⟩ := henum
    cases v <;> first | exact absurd hs h | skip
    case enum index symbol =>
      obtain ⟨first, hfirst⟩ := exists_idxOf? h
      exact ⟨.enum first symbol, by
        simp only [toJson, leafOfJson?, textOfJson?, Option.bind_some, hfirst, Option.map_some]⟩
  -- All other values are read back from their JSON encoding, and these in the same way.
  by_cases hexact : s.Exact
  · have hwell : s.WellFormed := by
      cases s <;> first | trivial | exact hs.elim | exact absurd ⟨_, _, _, rfl⟩ henum
    exact ⟨v, leafOfJson?_toJson hs hexact hwell h⟩
  cases s <;> first | exact absurd trivial hexact | skip
  all_goals
    obtain ⟨w, hw, -⟩ := @leafOfJson?_finite [] _ _ hs trivial h hfinite
    cases v <;> first | exact absurd hs h | exact ⟨w, hw⟩

/-! ### Whole values -/

/-- The generic form of a value passes, in however many steps. -/
theorem ofJsonWithin_toJson_passes {names : Names} {P : List Schema} (hP : Closed names P)
    (hfields : LawfulFields P) {s : Schema} {v : Value}
    (h : Shaped names (fun s v => LeafOf s v ∧ v.FiniteNumber) s v) (hs : s ∈ P) (fuel : Nat) :
    Passes (ofJsonWithin names .generic fuel s v.toJson) := by
  induction h generalizing fuel with
  | @leaf s v leaf node =>
    obtain ⟨w, hw⟩ := exists_leafOfJson?_toJson leaf node.1 node.2
    cases fuel with
    | zero => exact .unbounded
    | succ fuel =>
      unfold ofJsonWithin
      cases s <;> first | exact leaf.elim | simp only [hw, Passes.ok]
  | ref found _ ih =>
    cases fuel with
    | zero => exact .unbounded
    | succ fuel =>
      rw [ofJsonWithin]
      simp only [found]
      exact ih (hP.target found) fuel
  | array _ _ ih =>
    cases fuel with
    | zero => exact .unbounded
    | succ fuel =>
      rw [toJson, itemsToJson_eq, ofJsonWithin]
      refine .map _ (.mapM fun j hj => ?_)
      obtain ⟨v, hv, rfl⟩ := List.mem_map.mp hj
      exact ih v hv (hP.items hs) fuel
  | map _ sorted _ ih =>
    cases fuel with
    | zero => exact .unbounded
    | succ fuel =>
      rw [toJson, entriesToJson_eq, Json.ofEntries,
        Table.ofList_of_sorted (sorted_map sorted toJson), ofJsonWithin]
      refine .map _ (.mapM fun e he => .map _ ?_)
      obtain ⟨e, hmem, rfl⟩ := List.mem_map.mp he
      exact ih e hmem (hP.values hs) fuel
  | @record name fields entries _ order _ ih =>
    cases fuel with
    | zero => exact .unbounded
    | succ fuel =>
      have hkeys : ((entries.map fun e => (e.1, e.2.toJson)).map Prod.fst).Nodup := by
        rw [List.map_map, Function.comp_def, order]
        exact (hfields hs).1
      rw [toJson, entriesToJson_eq, Json.ofEntries, ofJsonWithin]
      -- Each field is converted from the form of its own value, since the fields are told apart.
      have hpass : List.Forall₂ (fun f _ => Passes (ofJsonWithin names .generic fuel f.2 (fieldJson
          (Table.ofList (entries.map fun e => (e.1, e.2.toJson))) f.1))) fields entries :=
        Shaped.forall₂_fields order fun p hp hname => by
          obtain ⟨hf, he⟩ := List.of_mem_zip hp
          rw [fieldJson_ofList hkeys (List.mem_map.mpr ⟨p.2, he, by rw [hname]⟩)]
          exact ih p hp (hP.fields hs _ hf) fuel
      refine .map _ (.mapM fun f hf => .map _ ?_)
      obtain ⟨-, -, hf⟩ := exists_mem_of_forall₂ hpass.flip hf
      exact hf
  | @union branches index branch v _ chosen _ ih =>
    cases fuel with
    | zero => exact .unbounded
    | succ fuel =>
      have hbranch := ih (hP.branches hs _ (List.mem_of_getElem? chosen)) fuel
      rw [toJson, ofJsonWithin]
      simp only [reduceCtorEq, if_false, isUnnamedIn, if_true]
      rcases firstBranch_of_passes (f := fun b => ofJsonWithin names .generic fuel b v.toJson)
        chosen hbranch 0 with ⟨w, hw⟩ | hw
      · rw [hw]
        exact .ok w
      · rw [hw]
        exact .unbounded

end Value

/-- **Conversion is sound and complete.** Let the fields of all records of a schema and its types be
told apart. What a conversion gives in either dialect is a value of the shape of the schema: names
stand for their types, integers have their width, bytes of fixed size and durations their length,
symbols their index, records the declared fields in order, and the branch that a union names takes
what it holds. The generic form of a value of that shape, with finite numbers, is converted to a
value of that shape, unless the conversion does not end; it is never a mismatch. -/
theorem conversion_sound_complete {names : Names} {schema : Schema}
    (hfields : LawfulFields (schema.partsWith names)) :
    (∀ dialect x v, x.IsTabled → Value.ofJson names dialect schema x = .ok v →
      Value.Shaped names Value.LeafOf schema v) ∧
    ∀ v, Value.Shaped names (fun s v => Value.LeafOf s v ∧ v.FiniteNumber) schema v →
      (∃ w, Value.ofJson names .generic schema v.toJson = .ok w ∧
        Value.Shaped names Value.LeafOf schema w) ∨
      Value.ofJson names .generic schema v.toJson = .error .unbounded := by
  have hclosed := schema.closed_partsWith names
  have hmem := schema.self_mem_partsWith names
  have hsound : ∀ dialect x v, x.IsTabled → Value.ofJson names dialect schema x = .ok v →
      Value.Shaped names Value.LeafOf schema v := fun dialect x v hx h =>
    Value.shaped_of_ofJsonWithin hclosed hfields dialect _ hmem hx h
  refine ⟨hsound, fun v hv => ?_⟩
  have hpasses : Value.Passes (Value.ofJson names .generic schema v.toJson) :=
    Value.ofJsonWithin_toJson_passes hclosed hfields hv hmem _
  exact hpasses.cases.imp (fun ⟨w, hw⟩ => ⟨w, hw, hsound _ _ w v.isTabled_toJson hw⟩) id

-- A point in local time may lie before 1970.
example : Value.ofJson [] .generic (.longAs .localTimestampNanos)
    (Value.longAs .localTimestampNanos (-5)).toJson = .ok (.longAs .localTimestampNanos (-5)) := rfl

/-- A level, in words of one's own or by its symbol. -/
def levelUnion : Schema := .union [.string, .enum ⟨"", "Level"⟩ ["low", "high"] none]

/-- A measurement of a level. -/
def measurement : Schema :=
  .record ⟨"", "Measurement"⟩ [(⟨"level", [], none⟩, levelUnion), (⟨"amount", [], none⟩, .double)]

/-- The types that the measurement declares. -/
def measurementNames : Names :=
  [("Level", .enum ⟨"", "Level"⟩ ["low", "high"] none), ("Measurement", measurement)]

/-- A measurement of a level by its symbol. -/
def measuredLow : Value :=
  .record [("level", .union 1 (.enum 0 "low")), ("amount", .double ⟨0x3FF8000000000000⟩)]

theorem measurement_fields : LawfulFields (measurement.partsWith measurementNames) := by
  intro name fields h
  simp only [measurement, measurementNames, levelUnion, Schema.partsWith, Schema.parts,
    Schema.fieldParts, Schema.branchParts, List.flatMap_cons, List.flatMap_nil, List.cons_append,
    List.nil_append, List.append_nil, List.mem_cons, List.not_mem_nil, or_false,
    Schema.record.injEq, reduceCtorEq, false_or, or_self] at h
  obtain ⟨-, rfl⟩ := h
  exact ⟨by decide, by simp⟩

theorem measuredLow_shaped : Value.Shaped measurementNames
    (fun s v => Value.LeafOf s v ∧ v.FiniteNumber) measurement measuredLow := by
  refine .record ⟨id, trivial⟩ rfl fun p hp => ?_
  rcases List.mem_cons.mp hp with rfl | hp
  · exact .union ⟨id, trivial⟩ rfl (.leaf trivial ⟨rfl, trivial⟩)
  · rw [List.mem_singleton.mp hp]
    exact .leaf trivial ⟨trivial, show Double.isFinite ⟨0x3FF8000000000000⟩ = true by decide⟩

/-- The symbol of a level comes back as a word of one's own. -/
theorem conversion_sound_complete_measurement :
    ∃ w, Value.ofJson measurementNames .generic measurement measuredLow.toJson = .ok w ∧
      Value.Shaped measurementNames Value.LeafOf measurement w ∧ w ≠ measuredLow := by
  obtain ⟨-, hcomplete⟩ := conversion_sound_complete measurement_fields
  have hword : Value.ofJson measurementNames .generic measurement measuredLow.toJson =
      .ok (.record [("level", .union 0 (.string "low")),
        ("amount", .double ⟨0x3FF8000000000000⟩)]) := by
    rfl
  rcases hcomplete measuredLow measuredLow_shaped with ⟨w, hw, hshaped⟩ | h
  · refine ⟨w, hw, hshaped, ?_⟩
    cases hw.symm.trans hword
    simp [measuredLow]
  · cases h.symm.trans hword

end Messaging.Avro
