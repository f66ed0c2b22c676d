import Messaging.Avro.Definition
import Messaging.Proofs.Avro.Parts
import Messaging.Proofs.Json.Parts
import Messaging.Proofs.Steps
import Mathlib.Data.List.Dedup

/-! # Schemas that are accepted

What a definition has to keep to: a union has no union for a branch and no kind of branch twice, but
for named types, the fields of a record and the symbols of an enumeration are told apart, and the
objects in a default are tables (`Schema.WellFormed`). `sound_of_define`: this holds of all parts of
a schema that is read from a definition, and of the types that it declares, which are records,
enumerations and bytes of fixed size. -/

namespace Messaging.Avro

namespace Schema

/-- Does the schema keep to the rules, whatever its parts do? -/
def WellFormed : Schema → Prop
  | union branches => (∀ b ∈ branches, ∀ bs, b ≠ .union bs) ∧
      ((branches.filter fun b => !b.isNamed).map kind).Nodup
  | record _ fields => Definition.distinctFields fields = true ∧
      ∀ f ∈ fields, ∀ d, f.1.default = some d → d.IsTabled
  | enum _ symbols _ => symbols.Nodup
  | _ => True

/-- Do all parts of the schema keep to the rules? -/
def AllWellFormed (s : Schema) : Prop := ∀ t ∈ s.parts, t.WellFormed

/-- Does the schema declare a name? -/
def Declares : Schema → Prop
  | record _ _ | enum _ _ _ | fixed _ _ => True
  | _ => False

theorem AllWellFormed.array {s : Schema} (h : s.AllWellFormed) : (array s).AllWellFormed := by
  intro t ht
  rcases List.mem_cons.mp ht with rfl | ht
  · trivial
  · exact h t ht

theorem AllWellFormed.map {s : Schema} (h : s.AllWellFormed) : (map s).AllWellFormed := by
  intro t ht
  rcases List.mem_cons.mp ht with rfl | ht
  · trivial
  · exact h t ht

theorem AllWellFormed.union {branches : List Schema} (h : (union branches).WellFormed)
    (hb : ∀ b ∈ branches, b.AllWellFormed) : (union branches).AllWellFormed := by
  intro t ht
  rcases List.mem_cons.mp ht with rfl | ht
  · exact h
  · obtain ⟨b, hmem, ht⟩ := mem_branchParts.mp ht
    exact hb b hmem t ht

theorem AllWellFormed.record {name : Name} {fields : List (Field × Schema)}
    (h : (record name fields).WellFormed) (hf : ∀ f ∈ fields, f.2.AllWellFormed) :
    (record name fields).AllWellFormed := by
  intro t ht
  rcases List.mem_cons.mp ht with rfl | ht
  · exact h
  · obtain ⟨f, hmem, ht⟩ := mem_fieldParts.mp ht
    exact hf f hmem t ht

/-- A schema without parts keeps to the rules if it does itself. -/
theorem AllWellFormed.single {s : Schema} (hs : s.parts = [s]) (h : s.WellFormed) :
    s.AllWellFormed := by
  intro t ht
  rw [hs, List.mem_singleton] at ht
  rwa [ht]

end Schema

namespace Definition

/-! ### Steps of reading -/

/-- Do the complete types keep to the rules? -/
def State.WellFormed (st : State) : Prop := ∀ e ∈ st.complete, e.2.AllWellFormed

/-- Where the complete types keep to the rules, every result of the step has the property, and the
complete types keep to the rules afterwards. -/
def Yields {α : Type} (m : Read α) (Q : α → Prop) : Prop :=
  ∀ st, st.WellFormed → ∀ a st', m.run st = .ok (a, st') → Q a ∧ st'.WellFormed

namespace Yields

variable {α β : Type} {m : Read α} {Q R : α → Prop}

theorem pure {a : α} (h : Q a) : Yields (pure a) Q := by
  intro st hst b st' hrun
  cases hrun
  exact ⟨h, hst⟩

theorem throw (e : Fault) : Yields (throw e : Read α) Q := by
  intro st hst a st' hrun
  cases hrun

theorem invalid : Yields (invalid : Read α) Q := throw .invalid

theorem bind {f : α → Read β} {S : β → Prop} (hm : Yields m Q) (hf : ∀ a, Q a → Yields (f a) S) :
    Yields (m >>= f) S := by
  intro st hst b st' hrun
  rw [StateT.run_bind] at hrun
  cases hm' : m.run st with
  | error e =>
    rw [hm'] at hrun
    cases hrun
  | ok r =>
    rw [hm'] at hrun
    obtain ⟨ha, hst'⟩ := hm st hst r.1 r.2 hm'
    exact hf r.1 ha r.2 hst' b st' hrun

theorem map {f : α → β} {S : β → Prop} (hm : Yields m Q) (hf : ∀ a, Q a → S (f a)) :
    Yields (f <$> m) S := by
  rw [← bind_pure_comp]
  exact hm.bind fun a ha => pure (hf a ha)

theorem mono (hm : Yields m Q) (h : ∀ a, Q a → R a) : Yields m R := fun st hst a st' hrun =>
  (hm st hst a st' hrun).imp (h a) id

theorem require (o : Option α) : Yields (require o) fun a => o = some a := by
  cases o with
  | none => exact invalid
  | some a => exact pure rfl

theorem get : Yields (get : Read State) State.WellFormed := by
  intro st hst a st' hrun
  cases hrun
  exact ⟨hst, hst⟩

theorem modify {f : State → State} (h : ∀ st, st.WellFormed → (f st).WellFormed) :
    Yields (modify f) fun _ => True := by
  intro st hst a st' hrun
  cases hrun
  exact ⟨trivial, h st hst⟩

theorem lift (x : Except Fault α) : Yields (liftM x : Read α) fun _ => True := by
  intro st hst a st' hrun
  cases x with
  | error e => cases hrun
  | ok b =>
    cases hrun
    exact ⟨trivial, hst⟩

theorem mapM {f : α → Read β} {S : β → Prop} {l : List α} (h : ∀ a ∈ l, Yields (f a) S) :
    Yields (l.mapM f) fun bs => ∀ b ∈ bs, S b := by
  induction l with
  | nil => exact pure fun b hb => absurd hb List.not_mem_nil
  | cons a rest ih =>
    rw [List.mapM_cons]
    refine (h a List.mem_cons_self).bind fun b hb => ?_
    refine (ih fun a ha => h a (List.mem_cons_of_mem _ ha)).bind fun bs hbs => pure ?_
    intro c hc
    rcases List.mem_cons.mp hc with rfl | hc
    · exact hb
    · exact hbs c hc

end Yields

/-! ### Types that are read -/

theorem complete_yields {name : Name} {aliases : List Name} {s : Schema} (h : s.AllWellFormed) :
    Yields (complete name aliases s) fun _ => True := by
  refine .modify fun st hst => ?_
  suffices hall : ∀ (ns : List Name) (table : Names), (∀ e ∈ table, e.2.AllWellFormed) →
      ∀ e ∈ ns.foldl (fun t n => t.insert n.full s) table, e.2.AllWellFormed from
    hall (name :: aliases) st.complete hst
  intro ns
  induction ns with
  | nil => exact fun _ htable => htable
  | cons n rest ih =>
    refine fun table htable => ih _ fun e he => ?_
    rcases Table.mem_insert he with rfl | he
    · exact h
    · exact htable e he

theorem begin_yields (name : Name) (aliases : List Name) :
    Yields (begin name aliases) fun _ => True :=
  .modify fun _ hst => hst

theorem reference_yields (written space : String) :
    Yields (reference written space) Schema.AllWellFormed := by
  unfold reference
  refine (Yields.require _).bind fun r _ => Yields.get.bind fun st _ => ?_
  split
  · exact .pure (.single rfl trivial)
  · split
    · exact .pure (.single rfl trivial)
    · exact .invalid

theorem seenBefore_yields (kind space : String) :
    Yields (seenBefore kind space) fun o => ∀ s, o = some s → s.AllWellFormed := by
  unfold seenBefore
  refine Yields.get.bind fun st hst => .pure fun s hs => ?_
  cases hbegun : st.begun.find? (Name.within ⟨"", kind⟩ space).full with
  | some target =>
    rw [hbegun] at hs
    cases hs
    exact .single rfl trivial
  | none =>
    rw [hbegun] at hs
    exact hst _ (Table.mem_of_find? hs)

theorem named_yields (written space : String) :
    Yields (named written space) Schema.AllWellFormed := by
  unfold named
  split
  · next s hs =>
    refine .pure ?_
    unfold primitive? at hs
    split at hs <;> first | cases hs; exact .single rfl trivial | cases hs
  · exact reference_yields written space

theorem nodup_eraseDups (l : List String) : l.eraseDups.Nodup := by
  induction h : l.length using Nat.strongRecOn generalizing l with
  | ind n ih =>
    cases l with
    | nil => exact List.nodup_nil
    | cons a rest =>
      have hlength := List.length_filter_le (fun b => !b == a) rest
      rw [List.eraseDups_cons, List.nodup_cons, List.mem_eraseDups]
      refine ⟨by simp, ih _ ?_ _ rfl⟩
      rw [List.length_cons] at h
      omega

theorem nodup_of_eraseDups_eq {l : List String} (h : l.eraseDups = l) : l.Nodup := by
  rw [← h]
  exact nodup_eraseDups l

theorem unionOf_yields {branches : List Schema} (h : ∀ b ∈ branches, b.AllWellFormed) :
    Yields (unionOf branches) Schema.AllWellFormed := by
  unfold unionOf
  simp only
  split
  · exact .invalid
  · next hvalid =>
    simp only [Bool.or_eq_true, decide_eq_true_eq, not_or, List.any_eq_true, ne_eq, not_exists,
      Decidable.not_not] at hvalid
    refine .pure (.union ⟨fun b hb bs hunion => ?_, nodup_of_eraseDups_eq hvalid.2⟩ h)
    exact hvalid.1 b ⟨hb, by rw [hunion]⟩

theorem readName_yields (entries : Entries) (space : String) :
    Yields (readName entries space) fun _ => True := by
  unfold readName
  refine (Yields.require _).bind fun written _ => ?_
  split
  · exact .throw _
  · simp only
    split
    · exact .pure trivial
    · exact .invalid

theorem readAliases_yields (entries : Entries) (name : Name) :
    Yields (readAliases entries name) fun _ => True := by
  unfold readAliases
  split
  · refine (Yields.mapM (S := fun _ => True) fun other _ => ?_).mono fun _ _ => trivial
    split
    · exact .pure trivial
    · exact .throw _
  · exact .pure trivial

theorem readFixed_yields (entries : Entries) (space : String) :
    Yields (readFixed entries space) Schema.AllWellFormed := by
  unfold readFixed
  split
  · refine (seenBefore_yields "fixed" space).bind fun o ho => ?_
    split
    · exact .pure (ho _ rfl)
    · exact .invalid
  · split
    · exact .invalid
    · simp only
      split
      · exact .invalid
      · refine (readName_yields entries space).bind fun name _ => ?_
        refine (readAliases_yields entries name).bind fun aliases _ => ?_
        have hfixed : ∀ size, (Schema.fixed name size).AllWellFormed := fun _ => .single rfl trivial
        exact (complete_yields (hfixed _)).bind fun _ _ => .pure (hfixed _)
  · exact .invalid

theorem readEnumDefault_yields (entries : Entries) (symbols : List String) :
    Yields (readEnumDefault entries symbols) fun _ => True := by
  unfold readEnumDefault
  split
  · exact .pure trivial
  · split
    · exact .pure trivial
    · exact .invalid
  · exact .invalid

theorem readEnum_yields (entries : Entries) (space : String) :
    Yields (readEnum entries space) Schema.AllWellFormed := by
  unfold readEnum
  simp only
  refine Yields.bind (Q := fun o => ∀ s, o = some s → s.AllWellFormed) ?_ fun o ho => ?_
  · split
    · exact seenBefore_yields "enum" space
    · exact .pure fun s hs => by cases hs
  split
  · exact .pure (ho _ rfl)
  · refine (readName_yields entries space).bind fun name _ => ?_
    refine (readAliases_yields entries name).bind fun aliases _ => ?_
    split
    · refine (Yields.require _).bind fun symbols _ => ?_
      split
      · exact .invalid
      · next hvalid =>
        simp only [Bool.or_eq_true, decide_eq_true_eq, not_or, ne_eq, Decidable.not_not] at hvalid
        refine (readEnumDefault_yields entries symbols).bind fun default _ => ?_
        have henum : (Schema.enum name symbols default).AllWellFormed :=
          .single rfl (nodup_of_eraseDups_eq hvalid.2)
        exact (complete_yields henum).bind fun _ _ => .pure henum
    · exact .invalid

/-- What the description of a field gives: a schema that keeps to the rules, and a default whose
objects are tables. -/
def IsSound (f : Field × Schema) : Prop :=
  f.2.AllWellFormed ∧ ∀ d, f.1.default = some d → d.IsTabled

theorem readField_yields {recur : Json → String → Read Schema}
    (h : ∀ json, json.IsTabled → ∀ space, Yields (recur json space) Schema.AllWellFormed)
    (space : String) {entries : Entries} (hentries : (Json.object entries).IsTabled) :
    Yields (readField recur space entries) IsSound := by
  unfold readField
  refine (Yields.require _).bind fun name _ => ?_
  split
  · exact .invalid
  · refine (h _ hentries _).bind fun s hs => Yields.get.bind fun st _ => ?_
    have hfinish : ∀ ok : Bool, Yields
        (if ok = true then
          pure (⟨name, fieldAliases entries, entries.lookup "default"⟩, s) else Definition.invalid)
        IsSound := fun ok => by
      split
      · exact .pure ⟨hs, fun d hd => hentries.lookup hd⟩
      · exact .invalid
    simp only
    split
    · exact (Yields.pure (Q := fun _ => True) trivial).bind fun ok _ => hfinish ok
    · exact (Yields.lift _).bind fun ok _ => hfinish ok

theorem readRecord_yields {recur : Json → String → Read Schema}
    (h : ∀ json, json.IsTabled → ∀ space, Yields (recur json space) Schema.AllWellFormed)
    {entries : Entries} (hentries : (Json.object entries).IsTabled) (space : String) :
    Yields (readRecord recur entries space) Schema.AllWellFormed := by
  unfold readRecord
  simp only
  refine Yields.bind (Q := fun o => ∀ s, o = some s → s.AllWellFormed) ?_ fun o ho => ?_
  · split
    · exact seenBefore_yields "record" space
    · exact .pure fun s hs => by cases hs
  split
  · exact .pure (ho _ rfl)
  · refine (readName_yields entries space).bind fun name _ => ?_
    refine (readAliases_yields entries name).bind fun aliases _ => ?_
    refine (begin_yields name aliases).bind fun _ _ => ?_
    split
    · next items hitems =>
      refine (Yields.mapM fun es hes => readField_yields h name.space ?_).bind fun fields hf => ?_
      · obtain ⟨j, hj, hjs⟩ := List.mem_filterMap.mp hes
        split at hjs <;> cases hjs
        exact (hentries.lookup hitems).item _ hj
      · split
        · exact .invalid
        · next hvalid =>
          rw [Bool.not_eq_true', Bool.not_eq_false] at hvalid
          have hrecord : (Schema.record name fields).AllWellFormed :=
            .record ⟨hvalid, fun f hmem => (hf f hmem).2⟩ fun f hmem => (hf f hmem).1
          exact (complete_yields hrecord).bind fun _ _ => .pure hrecord
    · exact .invalid

theorem applyLogical_wellFormed {entries : Entries} {logical : String} {base s : Schema}
    (h : base.AllWellFormed) (hs : applyLogical entries logical base = some s) :
    s.AllWellFormed := by
  unfold applyLogical at hs
  split at hs <;> try split at hs
  all_goals cases hs
  all_goals first | exact h | exact .single rfl trivial

theorem readBase_yields {recur : Json → String → Read Schema}
    (h : ∀ json, json.IsTabled → ∀ space, Yields (recur json space) Schema.AllWellFormed)
    {entries : Entries} (hentries : (Json.object entries).IsTabled) (space : String) :
    Yields (readBase recur entries space) Schema.AllWellFormed := by
  unfold readBase
  split
  · exact readFixed_yields entries space
  · next hvalue => exact h _ (hentries.lookup hvalue) _
  · exact .invalid

theorem readPlain_yields {recur : Json → String → Read Schema}
    (h : ∀ json, json.IsTabled → ∀ space, Yields (recur json space) Schema.AllWellFormed)
    {entries : Entries} (hentries : (Json.object entries).IsTabled) (space : String) :
    Yields (readPlain recur entries space) Schema.AllWellFormed := by
  unfold readPlain
  split
  · exact readRecord_yields h hentries space
  · exact readEnum_yields entries space
  · exact (Yields.require _).bind fun items hitems =>
      (h _ (hentries.lookup hitems) _).map fun s hs => hs.array
  · exact (Yields.require _).bind fun values hvalues =>
      (h _ (hentries.lookup hvalues) _).map fun s hs => hs.map
  · exact readFixed_yields entries space
  · exact named_yields _ _
  · next hinner => exact h _ (hentries.lookup hinner) _
  · next hbranches => exact h _ (hentries.lookup hbranches) _
  · exact .invalid

theorem readObject_yields {recur : Json → String → Read Schema}
    (h : ∀ json, json.IsTabled → ∀ space, Yields (recur json space) Schema.AllWellFormed)
    {entries : Entries} (hentries : (Json.object entries).IsTabled) (space : String) :
    Yields (readObject recur entries space) Schema.AllWellFormed := by
  unfold readObject
  split
  · exact readPlain_yields h hentries space
  · split
    · refine (readBase_yields h hentries space).bind fun base hbase => .pure ?_
      cases hs : applyLogical entries _ base with
      | none => exact hbase
      | some s => exact applyLogical_wellFormed hbase hs
    · exact readPlain_yields h hentries space
  · exact .invalid

/-- What is read keeps to the rules. -/
theorem read_yields (depth : Nat) {json : Json} (hjson : json.IsTabled) (space : String) :
    Yields (read depth json space) Schema.AllWellFormed := by
  induction depth generalizing json space with
  | zero => exact .invalid
  | succ depth ih =>
    have ih' : ∀ json, json.IsTabled → ∀ space,
        Yields (read depth json space) Schema.AllWellFormed := fun _ hj space => ih hj space
    unfold read
    split
    · exact named_yields _ _
    · exact readObject_yields ih' hjson _
    · refine (Yields.mapM fun b hb => ih (hjson.item b hb) space).bind fun branches hb => ?_
      exact unionOf_yields hb
    · exact .invalid

/-! ### Fields of a record -/

theorem foldl_distinct {step : Option (List String) → Field × Schema → Option (List String)}
    (hstep : ∀ acc f, step acc f = acc.bind fun taken =>
      if taken.contains f.1.name then none else some (f.1.name :: f.1.aliases ++ taken))
    {fields : List (Field × Schema)} {acc : Option (List String)}
    (h : (fields.foldl step acc).isSome = true) :
    ∃ taken, acc = some taken ∧ (∀ f ∈ fields, f.1.name ∉ taken) ∧
      fields.Pairwise fun f g => g.1.name ≠ f.1.name ∧ g.1.name ∉ f.1.aliases := by
  induction fields generalizing acc with
  | nil =>
    obtain ⟨taken, htaken⟩ := Option.isSome_iff_exists.mp h
    exact ⟨taken, htaken, fun f hf => absurd hf List.not_mem_nil, .nil⟩
  | cons f rest ih =>
    obtain ⟨taken', hacc, hrest, hpairs⟩ := ih h
    rw [hstep] at hacc
    cases acc with
    | none => cases hacc
    | some taken =>
      rw [Option.bind_some] at hacc
      split at hacc
      · cases hacc
      · next hf =>
        cases hacc
        simp only [List.contains_eq_mem, decide_eq_true_eq] at hf
        simp only [List.mem_cons, List.mem_append, not_or] at hrest
        refine ⟨taken, rfl, fun g hg => ?_, .cons (fun g hg => ?_) hpairs⟩
        · rcases List.mem_cons.mp hg with rfl | hg
          · exact hf
          · exact (hrest g hg).2
        · exact ⟨(hrest g hg).1.1, (hrest g hg).1.2⟩

/-- No field is named like an earlier one or by an alias of it. -/
theorem pairwise_of_distinctFields {fields : List (Field × Schema)}
    (h : distinctFields fields = true) :
    fields.Pairwise fun f g => g.1.name ≠ f.1.name ∧ g.1.name ∉ f.1.aliases := by
  unfold distinctFields at h
  obtain ⟨taken, -, -, hpairs⟩ := foldl_distinct (fun acc f => by cases acc <;> rfl) h
  exact hpairs

theorem nodup_of_distinctFields {fields : List (Field × Schema)}
    (h : distinctFields fields = true) : (fields.map fun f => f.1.name).Nodup :=
  List.pairwise_map.mpr ((pairwise_of_distinctFields h).imp fun hne => hne.1.symm)

end Definition

/-! ### The types that a schema declares -/

namespace Names

/-- Every type of the second table is in the first, or a part of the schema that declares it. -/
def Grows (parts : List Schema) (names names' : Names) : Prop :=
  ∀ e ∈ names', e ∈ names ∨ (e.2 ∈ parts ∧ e.2.Declares)

theorem Grows.refl (parts : List Schema) (names : Names) : Grows parts names names :=
  fun _ he => .inl he

theorem Grows.trans {parts parts' parts'' : List Schema} {names names' names'' : Names}
    (h : Grows parts names names') (h' : Grows parts' names' names'')
    (hsub : ∀ s, s ∈ parts ∨ s ∈ parts' → s ∈ parts'') : Grows parts'' names names'' := by
  intro e he
  rcases h' e he with he | ⟨he, hdecl⟩
  · exact (h e he).imp id fun ⟨he, hdecl⟩ => ⟨hsub _ (.inl he), hdecl⟩
  · exact .inr ⟨hsub _ (.inr he), hdecl⟩

theorem Grows.mono {parts parts' : List Schema} {names names' : Names}
    (h : Grows parts names names') (hsub : ∀ s ∈ parts, s ∈ parts') : Grows parts' names names' :=
  fun e he => (h e he).imp id fun ⟨he, hdecl⟩ => ⟨hsub _ he, hdecl⟩

theorem declare_grows {names names' : Names} {name : Name} {s : Schema} (hs : s.Declares)
    (h : names.declare name s = .ok names') : Grows [s] names names' := by
  unfold declare at h
  split at h
  · cases h
  · cases h
    intro e he
    rcases Table.mem_insert he with rfl | he
    · exact .inr ⟨List.mem_singleton_self s, hs⟩
    · exact .inl he

mutual

theorem collect_grows {space : String} {names names' : Names} (s : Schema)
    (h : collect space names s = .ok names') : Grows s.parts names names' := by
  match s with
  | .array i => exact (collect_grows i h).mono fun _ => List.mem_cons_of_mem _
  | .map v => exact (collect_grows v h).mono fun _ => List.mem_cons_of_mem _
  | .union bs => exact (collectAll_grows bs h).mono fun _ => List.mem_cons_of_mem _
  | .record n fs =>
    rw [collect] at h
    obtain ⟨names₁, hdeclare, hfields⟩ := bind_eq_ok h
    have hrecord : Grows [.record n fs] names names₁ := declare_grows trivial hdeclare
    refine hrecord.trans (collectFields_grows fs hfields) fun t ht => ?_
    rcases ht with ht | ht
    · rw [List.mem_singleton.mp ht]
      exact Schema.self_mem_parts _
    · exact List.mem_cons_of_mem _ ht
  | .enum n symbols default => exact declare_grows trivial h
  | .fixed n size => exact declare_grows trivial h
  | .ref n =>
    rw [collect] at h
    split at h
    · cases h
      exact .refl _ _
    · cases h
  | .null | .boolean | .int | .long | .float | .double | .bytes | .string | .decimal _
  | .bigDecimal | .uuid | .intAs _ | .longAs _ | .duration =>
    cases h
    exact .refl _ _

theorem collectAll_grows {space : String} {names names' : Names} (branches : List Schema)
    (h : collectAll space names branches = .ok names') :
    Grows (Schema.branchParts branches) names names' := by
  match branches with
  | [] =>
    cases h
    exact .refl _ _
  | s :: rest =>
    rw [collectAll] at h
    obtain ⟨names₁, hfirst, hrest⟩ := bind_eq_ok h
    exact (collect_grows s hfirst).trans (collectAll_grows rest hrest) fun _ =>
      List.mem_append.mpr

theorem collectFields_grows {space : String} {names names' : Names} (fields : List (Field × Schema))
    (h : collectFields space names fields = .ok names') :
    Grows (Schema.fieldParts fields) names names' := by
  match fields with
  | [] =>
    cases h
    exact .refl _ _
  | (_, s) :: rest =>
    rw [collectFields] at h
    obtain ⟨names₁, hfirst, hrest⟩ := bind_eq_ok h
    exact (collect_grows s hfirst).trans (collectFields_grows rest hrest) fun _ =>
      List.mem_append.mpr

end

end Names

/-- A schema with the types that its names stand for, as a definition gives them: all keep to the
rules, and every type declares its name. -/
structure Sound (names : Names) (P : List Schema) : Prop extends Closed names P where
  wellFormed : ∀ s ∈ P, s.WellFormed
  declares : ∀ {name : Name} {s}, names.find? name.full = some s → s.Declares

theorem sound_of_define {definition : String} {schema : Schema} {names : Names}
    (h : Schema.define definition = .ok (schema, names)) :
    Sound names (schema.partsWith names) := by
  unfold Schema.define at h
  split at h
  · cases h
  next json hparse =>
  obtain ⟨⟨s, st⟩, hread, hnames⟩ := bind_eq_ok h
  simp only at hnames
  cases hcollect : Names.ofSchema s with
  | error e =>
    rw [hcollect] at hnames
    cases hnames
  | ok names' =>
    rw [hcollect] at hnames
    cases hnames
    have hs : schema.AllWellFormed := (Definition.read_yields _ (Json.isTabled_of_parse? hparse) ""
      _ (fun e he => absurd he List.not_mem_nil) _ _ hread).1
    have hgrows := Names.collect_grows schema hcollect
    have htypes : ∀ e ∈ names, e.2 ∈ schema.parts ∧ e.2.Declares := fun e he =>
      (hgrows e he).resolve_left List.not_mem_nil
    refine ⟨schema.closed_partsWith names, fun t ht => ?_, fun hfind => ?_⟩
    · rcases Schema.mem_partsWith.mp ht with ht | ⟨e, he, ht⟩
      · exact hs t ht
      · exact hs t (Schema.parts_trans (htypes e he).1 ht)
    · exact (htypes _ (Table.mem_of_find? hfind)).2

end Messaging.Avro
