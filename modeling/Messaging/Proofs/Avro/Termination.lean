import Mathlib
import Messaging.Proofs.Avro.Unfolding
import Messaging.Proofs.Steps.Cycles

/-! # Conversions that end

A conversion tries others: that of the type a name stands for, those of the items of an array one
after the other, those of the branches of a union until one takes the value (`Tries`).
`conversion_ends_iff`: a conversion ends unless it comes to the default of a field and, while that
is converted, to the same default again. Types that refer to themselves do no harm, since a value
gets smaller on the way through a record; only a field that is missing brings in another value. So
a conversion ends where no default holds an object.

A definition is accepted with a default that comes back (`conversion_does_not_end`): a default has
to suit one branch of a union only, but is tried under all branches before that one. -/

namespace Messaging.Avro

open Relation

namespace Value

/-- A conversion to be made: a schema and a value. -/
abbrev Task := Schema × Json

/-- One conversion tries another: it needs the outcome of that one, given what came before. Items,
entries and fields are tried while all before them are converted, branches while all before them
miss. -/
inductive Tries (names : Names) (dialect : Dialect) : Task → Task → Prop
  | ref {name s j} (found : names.find? name.full = some s) :
      Tries names dialect (.ref name, j) (s, j)
  | item {s before j after} (earlier : ∀ i ∈ before, ∃ v, ofJson names dialect s i = .ok v) :
      Tries names dialect (.array s, .array (before ++ j :: after)) (s, j)
  | entry {s before e after} (earlier : ∀ d ∈ before, ∃ v, ofJson names dialect s d.2 = .ok v) :
      Tries names dialect (.map s, .object (before ++ e :: after)) (s, e.2)
  | field {name before f after es}
      (earlier : ∀ g ∈ before, ∃ v, ofJson names dialect g.2 (fieldJson es g.1) = .ok v) :
      Tries names dialect (.record name (before ++ f :: after), .object es)
        (f.2, fieldJson es f.1)
  | named {branches j index branch inner}
      (chosen : named? dialect branches j = some (index, branch, inner)) :
      Tries names dialect (.union branches, j) (branch, inner)
  | branch {branches before b after j} (split : branches = before ++ b :: after)
      (unnamed : named? dialect branches j = none) (allowed : isUnnamedIn dialect b = true)
      (earlier : ∀ c ∈ before, ∃ m,
        ofJsonUnnamed names dialect branches j c = .error (.mismatch m)) :
      Tries names dialect (.union branches, j) (b, j)

variable {names : Names} {dialect : Dialect}

/-! ### The branches of a union -/

/-- Where a branch runs out of steps, and those before it miss or do as well, the union does. -/
theorem firstBranch_stops {f : Schema → Converted Value} {before after : List Schema} {b : Schema}
    (hbefore : ∀ c ∈ before, f c = .error .unbounded ∨ ∃ m, f c = .error (.mismatch m))
    (hb : f b = .error .unbounded) (start : Nat) :
    firstBranch f start (before ++ b :: after) = .error .unbounded := by
  induction before generalizing start with
  | nil => rw [List.nil_append, firstBranch, hb]
  | cons c rest ih =>
    rw [List.cons_append, firstBranch]
    rcases hbefore c List.mem_cons_self with hc | ⟨m, hc⟩
    · rw [hc]
    · rw [hc]
      exact ih (fun c hc => hbefore c (List.mem_cons_of_mem _ hc)) (start + 1)

/-- Where a union has no outcome, that is because of a branch behind others that miss. -/
theorem firstBranch_eq_error {f : Schema → Converted Value} {branches : List Schema} {start : Nat}
    {e : ConvertFault} (h : firstBranch f start branches = .error e) :
    ∃ before b after, branches = before ++ b :: after ∧
      (∀ c ∈ before, ∃ m, f c = .error (.mismatch m)) ∧ f b = .error e ∧ e = .unbounded := by
  induction branches generalizing start with
  | nil => cases h
  | cons b rest ih =>
    rw [firstBranch] at h
    split at h
    · cases h
    · next hb =>
      cases h
      exact ⟨[], b, rest, rfl, fun _ hc => absurd hc List.not_mem_nil, hb, rfl⟩
    · next m hm =>
      obtain ⟨before, c, after, rfl, hbefore, hc⟩ := ih h
      exact ⟨b :: before, c, after, rfl, List.forall_mem_cons.mpr ⟨⟨m, hm⟩, hbefore⟩, hc⟩

/-! ### Conversions that are tried -/

/-- In some number of steps a conversion has its outcome, if it has any. -/
theorem within_of_ofJson {s : Schema} {j : Json} {x : Converted Value}
    (h : ofJson names dialect s j = x) (n : Nat) :
    ofJsonWithin names dialect n s j = .error .unbounded ∨
      ofJsonWithin names dialect n s j = x := by
  rw [← h]
  exact ofJsonWithin_extends_ofJson names dialect n s j

/-- A conversion takes one step more than one that it tries. -/
theorem Tries.stops {p q : Task} (h : Tries names dialect p q) {n : Nat}
    (hq : ofJsonWithin names dialect n q.1 q.2 = .error .unbounded) :
    ofJsonWithin names dialect (n + 1) p.1 p.2 = .error .unbounded := by
  cases h with
  | ref found =>
    rw [ofJsonWithin]
    simp only [found]
    exact hq
  | item earlier =>
    rw [ofJsonWithin, mapM_stops (fun i hi => ?_) hq]
    · rfl
    · obtain ⟨v, hv⟩ := earlier i hi
      exact (within_of_ofJson hv n).imp id fun h => ⟨v, h⟩
  | entry earlier =>
    rw [ofJsonWithin, mapM_stops (fun d hd => ?_) (by rw [hq]; rfl)]
    · rfl
    · obtain ⟨v, hv⟩ := earlier d hd
      refine (within_of_ofJson hv n).imp (fun h => ?_) fun h => ⟨(d.1, v), ?_⟩
      all_goals
        rw [h]
        rfl
  | field earlier =>
    rw [ofJsonWithin, mapM_stops (fun g hg => ?_) (by rw [hq]; rfl)]
    · rfl
    · obtain ⟨v, hv⟩ := earlier g hg
      refine (within_of_ofJson hv n).imp (fun h => ?_) fun h => ⟨(g.1.name, v), ?_⟩
      all_goals
        rw [h]
        rfl
  | named chosen =>
    rw [named?] at chosen
    rw [ofJsonWithin]
    simp only [chosen, hq]
    rfl
  | @branch branches before b after j split unnamed allowed earlier =>
    subst split
    rw [named?] at unnamed
    rw [ofJsonWithin]
    simp only [unnamed]
    rw [firstBranch_stops (fun c hc => ?_) (by rw [if_pos allowed]; exact hq)]
    · rfl
    · obtain ⟨m, hm⟩ := earlier c hc
      unfold ofJsonUnnamed at hm
      split at hm
      · next hallowed =>
        rw [if_pos hallowed]
        exact (within_of_ofJson hm n).imp id fun h => ⟨m, h⟩
      · next hallowed =>
        rw [if_neg hallowed]
        exact .inr ⟨_, rfl⟩

/-- A conversion that does not end tries one that does not end. -/
theorem exists_tries {s : Schema} {j : Json} (h : ofJson names dialect s j = .error .unbounded) :
    ∃ q, Tries names dialect (s, j) q ∧ ofJson names dialect q.1 q.2 = .error .unbounded := by
  cases s with
  | ref name =>
    cases found : names.find? name.full with
    | none =>
      rw [ofJson_ref_of_none found] at h
      cases h
    | some t =>
      rw [ofJson_ref found] at h
      exact ⟨(t, j), .ref found, h⟩
  | array s =>
    cases j with
    | array js =>
      rw [ofJson_array] at h
      obtain ⟨before, i, after, rfl, hbefore, hi⟩ := mapM_eq_error (map_eq_error h)
      exact ⟨(s, i), .item hbefore, hi⟩
    | _ => cases h
  | map s =>
    cases j with
    | object es =>
      rw [ofJson_map] at h
      obtain ⟨before, e, after, rfl, hbefore, he⟩ := mapM_eq_error (map_eq_error h)
      refine ⟨(s, e.2), .entry fun d hd => ?_, map_eq_error he⟩
      obtain ⟨p, hp⟩ := hbefore d hd
      obtain ⟨v, hv, -⟩ := map_eq_ok hp
      exact ⟨v, hv⟩
    | _ => cases h
  | record name fields =>
    cases j with
    | object es =>
      rw [ofJson_record] at h
      obtain ⟨before, f, after, rfl, hbefore, hf⟩ := mapM_eq_error (map_eq_error h)
      refine ⟨(f.2, fieldJson es f.1), .field fun g hg => ?_, map_eq_error hf⟩
      obtain ⟨p, hp⟩ := hbefore g hg
      obtain ⟨v, hv, -⟩ := map_eq_ok hp
      exact ⟨v, hv⟩
    | _ => cases h
  | union branches =>
    cases chosen : named? dialect branches j with
    | some r =>
      obtain ⟨index, branch, inner⟩ := r
      rw [ofJson_union_named chosen] at h
      exact ⟨(branch, inner), .named chosen, map_eq_error h⟩
    | none =>
      rw [ofJson_union chosen] at h
      cases hfirst : firstBranch (ofJsonUnnamed names dialect branches j) 0 branches with
      | ok o =>
        rw [hfirst] at h
        cases o <;> cases h
      | error e =>
        obtain ⟨before, b, after, hsplit, hbefore, hb, rfl⟩ := firstBranch_eq_error hfirst
        unfold ofJsonUnnamed at hb
        split at hb
        · next allowed => exact ⟨(b, j), .branch hsplit chosen allowed hbefore, hb⟩
        · cases hb
  | _ => exact absurd h (ofJson_leaf_ends (by exact trivial) j)

/-- The conversions that one of a value of a schema can come to. -/
def tasksWith (names : Names) (schema : Schema) (json : Json) : List Task :=
  schema.partsWith names ×ˢ valuesWith names schema json

theorem self_mem_tasksWith (names : Names) (schema : Schema) (json : Json) :
    (schema, json) ∈ tasksWith names schema json :=
  List.mem_product.mpr
    ⟨schema.self_mem_partsWith names, mem_valuesWith.mpr (.inl json.self_mem_parts)⟩

/-- Conversions keep to the parts of the schema and of the values that can come up. -/
theorem Tries.mem {schema : Schema} {json : Json} {p q : Task} (h : Tries names dialect p q)
    (hp : p ∈ tasksWith names schema json) : q ∈ tasksWith names schema json := by
  have hclosed := schema.closed_partsWith names
  obtain ⟨hs, hj⟩ := List.mem_product.mp hp
  refine List.mem_product.mpr ?_
  cases h with
  | ref found => exact ⟨hclosed.target found, hj⟩
  | item =>
    refine ⟨hclosed.items hs, valuesWith_trans hj (List.mem_cons_of_mem _ ?_)⟩
    exact Json.mem_itemParts.mpr ⟨_, List.mem_append_right _ List.mem_cons_self,
      Json.self_mem_parts _⟩
  | entry =>
    refine ⟨hclosed.values hs, valuesWith_trans hj (List.mem_cons_of_mem _ ?_)⟩
    exact Json.mem_entryParts.mpr ⟨_, List.mem_append_right _ List.mem_cons_self,
      Json.self_mem_parts _⟩
  | @field name before f after es =>
    have hf : f ∈ before ++ f :: after := List.mem_append_right _ List.mem_cons_self
    exact ⟨hclosed.fields hs _ hf, fieldJson_mem_valuesWith hs hj hf⟩
  | named chosen =>
    unfold named? at chosen
    split at chosen
    · obtain ⟨hbranch, key, rfl⟩ := mem_of_namedBranch? chosen
      refine ⟨hclosed.branches hs _ (List.mem_of_getElem? hbranch),
        valuesWith_trans hj (List.mem_cons_of_mem _ ?_)⟩
      exact Json.mem_entryParts.mpr ⟨_, List.mem_cons_self, Json.self_mem_parts _⟩
    · cases chosen
  | branch split =>
    subst split
    exact ⟨hclosed.branches hs _ (List.mem_append_right _ List.mem_cons_self), hj⟩

/-- What holds what each of its conversions tries holds all that come up. -/
theorem mem_of_path {l : List Task} (hclosed : ∀ p ∈ l, ∀ q, Tries names dialect p q → q ∈ l)
    {p q : Task} (hp : p ∈ l) (h : ReflTransGen (Tries names dialect) p q) : q ∈ l := by
  induction h with
  | refl => exact hp
  | tail _ hstep ih => exact hclosed _ ih _ hstep

theorem mem_tasksWith_of_path {schema : Schema} {json : Json} {q : Task}
    (h : ReflTransGen (Tries names dialect) (schema, json) q) : q ∈ tasksWith names schema json :=
  mem_of_path (fun _ hp _ hstep => hstep.mem hp) (self_mem_tasksWith names schema json) h

/-- A conversion does not end exactly if it comes to one that comes to itself again. -/
theorem ofJson_unbounded_iff_comes_back {schema : Schema} {json : Json} :
    ofJson names dialect schema json = .error .unbounded ↔
      ∃ q, ReflTransGen (Tries names dialect) (schema, json) q ∧
        TransGen (Tries names dialect) q q := by
  rw [ofJson_unbounded_iff]
  refine stops_iff_comes_back (a := (schema, json))
    (F := fun n (p : Task) => ofJsonWithin names dialect n p.1 p.2) (fun _ => rfl)
    (fun n p q h hq => h.stops hq) (tasksWith names schema json).finite_toSet
    (fun p hp q h => h.mem hp) (fun p _ hp => ?_) (self_mem_tasksWith names schema json)
  obtain ⟨q, hpq, hq⟩ := exists_tries (ofJson_unbounded_iff.mpr hp)
  exact ⟨q, hpq, ofJson_unbounded_iff.mp hq⟩

/-! ### What a conversion comes to again -/

/-- Is it the conversion of the default of a field? -/
def IsDefault (P : List Schema) (p : Task) : Prop :=
  ∃ name fields, .record name fields ∈ P ∧ ∃ f ∈ fields, f.1.default = some p.2 ∧ f.2 = p.1

/-- The size of a value, which is nothing for `null`. -/
def content : Json → Nat
  | .null => 0
  | j => j.size

theorem content_le (j : Json) : content j ≤ j.size := by
  cases j <;> first | exact Nat.zero_le _ | exact Nat.le_refl _

/-- How many schemas may be tried under the same value. -/
def detours : Schema → Nat
  | .union _ => 2
  | .ref _ => 1
  | _ => 0

theorem detours_le (s : Schema) : detours s ≤ 2 := by
  unfold detours
  split <;> decide

theorem detours_of_declares {s : Schema} (h : s.Declares) : detours s = 0 := by
  cases s <;> first | exact h.elim | rfl

theorem detours_lt {s : Schema} (h : ∀ bs, s ≠ .union bs) : detours s < 2 := by
  cases s <;> first | exact absurd rfl (h _) | exact Nat.zero_lt_two | exact Nat.one_lt_two

/-- What a conversion has before it, as long as no default comes up: values get smaller, names and
unions stand before types. -/
def weight (p : Task) : Nat := 3 * content p.2 + detours p.1

/-- Under a smaller value there is less before a conversion. -/
theorem weight_lt {p q : Task} (h : content q.2 < content p.2) : weight q < weight p := by
  have hq := detours_le q.1
  unfold weight
  omega

theorem content_item_lt {items : List Json} {j : Json} (h : j ∈ items) :
    content j < content (.array items) :=
  Nat.lt_succ_of_le ((content_le j).trans (Json.size_le_sizes h))

theorem content_entry_lt {entries : List (String × Json)} {e : String × Json} (h : e ∈ entries) :
    content e.2 < content (.object entries) :=
  Nat.lt_succ_of_le ((content_le e.2).trans (Json.size_le_entrySizes h))

/-- A conversion leaves less before it and keeps to the value it has, unless it comes to a default
under an object. -/
theorem Tries.lighter {P : List Schema} (hP : Sound names P) {p q : Task}
    (h : Tries names dialect p q) (hp : p.1 ∈ P) :
    weight q < weight p ∧ (q.2 ∈ p.2.parts ∨ q.2 = .null) ∨
      IsDefault P q ∧ ∃ es, p.2 = .object es := by
  cases h with
  | @ref name s j found =>
    refine .inl ⟨Nat.add_lt_add_left ?_ _, .inl j.self_mem_parts⟩
    rw [detours_of_declares (hP.declares found)]
    exact Nat.zero_lt_one
  | @item s before j after =>
    have hj : j ∈ before ++ j :: after := List.mem_append_right _ List.mem_cons_self
    exact .inl ⟨weight_lt (content_item_lt hj),
      .inl (List.mem_cons_of_mem _ (Json.mem_itemParts.mpr ⟨j, hj, j.self_mem_parts⟩))⟩
  | @entry s before e after =>
    have he : e ∈ before ++ e :: after := List.mem_append_right _ List.mem_cons_self
    exact .inl ⟨weight_lt (content_entry_lt he),
      .inl (List.mem_cons_of_mem _ (Json.mem_entryParts.mpr ⟨e, he, e.2.self_mem_parts⟩))⟩
  | @field name before f after es =>
    have hf : f ∈ before ++ f :: after := List.mem_append_right _ List.mem_cons_self
    unfold fieldJson
    cases hlookup : es.lookup f.1.name with
    | some j =>
      have he : (f.1.name, j) ∈ es := Table.mem_of_find? hlookup
      exact .inl ⟨weight_lt (content_entry_lt he),
        .inl (List.mem_cons_of_mem _ (Json.mem_entryParts.mpr ⟨_, he, j.self_mem_parts⟩))⟩
    | none =>
      cases hdefault : f.1.default with
      | some d => exact .inr ⟨⟨name, _, hp, f, hf, hdefault, rfl⟩, es, rfl⟩
      | none => exact .inl ⟨weight_lt (Nat.succ_pos _), .inr rfl⟩
  | @named branches j index branch inner chosen =>
    unfold named? at chosen
    split at chosen
    · obtain ⟨-, key, rfl⟩ := mem_of_namedBranch? chosen
      have he : (key, inner) ∈ [(key, inner)] := List.mem_singleton_self _
      exact .inl ⟨weight_lt (content_entry_lt he),
        .inl (List.mem_cons_of_mem _ (Json.mem_entryParts.mpr ⟨_, he, inner.self_mem_parts⟩))⟩
    · cases chosen
  | @branch branches before b after j split =>
    have hb : b ∈ branches := split ▸ List.mem_append_right _ List.mem_cons_self
    exact .inl ⟨Nat.add_lt_add_left (detours_lt ((hP.wellFormed _ hp).1 b hb)) _,
      .inl j.self_mem_parts⟩

/-- On the way from one conversion to another there is less before it at the end, or a default has
come up. -/
theorem lighter_or_default {schema : Schema} {json : Json}
    (hP : Sound names (schema.partsWith names)) {p q : Task}
    (hp : p ∈ tasksWith names schema json) (h : TransGen (Tries names dialect) p q) :
    q ∈ tasksWith names schema json ∧ (weight q < weight p ∨
      ∃ d, IsDefault (schema.partsWith names) d ∧ TransGen (Tries names dialect) p d ∧
        ReflTransGen (Tries names dialect) d q) := by
  induction h with
  | @single q hstep =>
    refine ⟨hstep.mem hp, ?_⟩
    rcases hstep.lighter hP (List.mem_product.mp hp).1 with ⟨hlt, -⟩ | ⟨hd, -⟩
    · exact .inl hlt
    · exact .inr ⟨q, hd, .single hstep, .refl⟩
  | @tail q r hpath hstep ih =>
    obtain ⟨hq, ih⟩ := ih
    refine ⟨hstep.mem hq, ?_⟩
    rcases hstep.lighter hP (List.mem_product.mp hq).1 with ⟨hlt, -⟩ | ⟨hd, -⟩
    · rcases ih with hlt' | ⟨d, hd, hpd, hdq⟩
      · exact .inl (hlt.trans hlt')
      · exact .inr ⟨d, hd, hpd, hdq.tail hstep⟩
    · exact .inr ⟨r, hd, hpath.tail hstep, .refl⟩

/-- A conversion does not end exactly if it comes to a default that it comes to again. -/
theorem ofJson_unbounded_iff_default {schema : Schema} {json : Json}
    (hP : Sound names (schema.partsWith names)) :
    ofJson names dialect schema json = .error .unbounded ↔
      ∃ d, IsDefault (schema.partsWith names) d ∧
        ReflTransGen (Tries names dialect) (schema, json) d ∧
        TransGen (Tries names dialect) d d := by
  rw [ofJson_unbounded_iff_comes_back]
  refine ⟨fun ⟨q, hq, hback⟩ => ?_, fun ⟨d, _, hd, hback⟩ => ⟨d, hd, hback⟩⟩
  have hmem := mem_tasksWith_of_path hq
  rcases (lighter_or_default hP hmem hback).2 with hlt | ⟨d, hd, hqd, hdq⟩
  · exact absurd hlt (lt_irrefl _)
  · exact ⟨d, hd, hq.trans hqd.to_reflTransGen, .trans_right hdq hqd⟩

/-- Under a value without objects no default comes up. -/
theorem Tries.lighter_of_objectFree {P : List Schema} (hP : Sound names P) {p q : Task}
    (h : Tries names dialect p q) (hp : p.1 ∈ P) (hfree : p.2.ObjectFree) :
    weight q < weight p ∧ q.2.ObjectFree := by
  rcases h.lighter hP hp with ⟨hlt, hpart | hnull⟩ | ⟨-, es, hobject⟩
  · exact ⟨hlt, hfree.of_mem hpart⟩
  · exact ⟨hlt, hnull ▸ .null⟩
  · exact absurd (hobject ▸ Json.self_mem_parts _) (hfree es)

theorem lighter_of_objectFree {schema : Schema} {json : Json}
    (hP : Sound names (schema.partsWith names)) {p q : Task}
    (hp : p ∈ tasksWith names schema json) (hfree : p.2.ObjectFree)
    (h : TransGen (Tries names dialect) p q) : weight q < weight p ∧ q.2.ObjectFree := by
  induction h with
  | single hstep => exact hstep.lighter_of_objectFree hP (List.mem_product.mp hp).1 hfree
  | @tail q r hpath hstep ih =>
    have hq := mem_of_path (fun _ hp _ h => h.mem hp) hp hpath.to_reflTransGen
    obtain ⟨hlt, hfree⟩ := hstep.lighter_of_objectFree hP (List.mem_product.mp hq).1 ih.2
    exact ⟨hlt.trans ih.1, hfree⟩

/-- Does the conversion have an outcome, in some number of steps? -/
def Ends (names : Names) (dialect : Dialect) (s : Schema) (j : Json) : Prop :=
  ∃ n, ofJsonWithin names dialect n s j ≠ .error .unbounded

theorem ends_iff {s : Schema} {j : Json} :
    Ends names dialect s j ↔ ofJson names dialect s j ≠ .error .unbounded := by
  rw [Ends, Ne, ofJson_unbounded_iff, not_forall]

/-- A conversion ends if no default that it comes to comes up again, and only then. -/
theorem ends_iff_default {schema : Schema} {json : Json}
    (hP : Sound names (schema.partsWith names)) :
    Ends names dialect schema json ↔
      ∀ d, IsDefault (schema.partsWith names) d →
        ReflTransGen (Tries names dialect) (schema, json) d →
          ¬TransGen (Tries names dialect) d d := by
  rw [ends_iff, Ne, ofJson_unbounded_iff_default hP]
  push Not
  rfl

/-- Where no default holds an object, every conversion ends. -/
theorem ends_of_objectFree {schema : Schema} (hP : Sound names (schema.partsWith names))
    (hfree : ∀ d ∈ schema.defaultsWith names, d.ObjectFree) (json : Json) :
    Ends names dialect schema json := by
  refine (ends_iff_default hP).mpr fun d hd hreach hback => ?_
  have hmem := mem_tasksWith_of_path hreach
  obtain ⟨name, fields, hrecord, f, hf, hdefault, -⟩ := hd
  have hvalue : d.2 ∈ schema.defaultsWith names :=
    Schema.mem_defaultsWith hrecord (Schema.mem_fieldDefaults.mpr ⟨f, hf, .inl hdefault⟩)
  exact absurd (lighter_of_objectFree hP hmem (hfree _ hvalue) hback).1 (lt_irrefl _)

end Value

open Value

/-- **Conversions end, but for defaults that come back.** Under an accepted definition a conversion
has an outcome in some number of steps, in either dialect, exactly if it comes to no default of a
field that is tried again while it is converted. That holds for all values if no default of the
definition holds an object, however its types refer to each other. -/
theorem conversion_ends_iff {definition : String} {schema : Schema} {names : Names}
    (hdefine : Schema.define definition = .ok (schema, names)) :
    (∀ dialect x, Ends names dialect schema x ↔
      ∀ d, IsDefault (schema.partsWith names) d →
        ReflTransGen (Tries names dialect) (schema, x) d →
          ¬TransGen (Tries names dialect) d d) ∧
    ((∀ d ∈ schema.defaultsWith names, d.ObjectFree) →
      ∀ dialect x, Ends names dialect schema x) :=
  ⟨fun _ _ => ends_iff_default (sound_of_define hdefine),
    fun hfree _ x => ends_of_objectFree (sound_of_define hdefine) hfree x⟩

/-- A list whose items have a label that may be missing. -/
def labelsText : String :=
  "\x7b\"type\":\"record\",\"name\":\"Labels\",\"fields\":[\x7b\"name\":\"label\",\"type\":\x7b" ++
    "\"type\":\"record\",\"name\":\"Label\",\"fields\":[\x7b\"name\":\"text\",\"type\":\"string\"," ++
    "\"default\":\"x\"\x7d]\x7d,\"default\":\x7b\x7d\x7d,\x7b\"name\":\"next\",\"type\":[\"null\"," ++
    "\"Labels\"]\x7d]\x7d"

/-- What an item is labelled with. -/
def label : Schema := .record ⟨"", "Label"⟩ [(⟨"text", [], some (.string "x")⟩, .string)]

/-- What the text of the list reads as. -/
def labels : Schema :=
  .record ⟨"", "Labels"⟩ [(⟨"label", [], some (.object [])⟩, label),
    (⟨"next", [], none⟩, .union [.null, .ref ⟨"", "Labels"⟩])]

/-- A list of nothing. -/
def linksText : String :=
  "\x7b\"type\":\"record\",\"name\":\"Links\",\"fields\":[" ++
    "\x7b\"name\":\"next\",\"type\":[\"null\",\"Links\"],\"default\":null\x7d]\x7d"

/-- What the text of the list of nothing reads as. -/
def links : Schema :=
  .record ⟨"", "Links"⟩ [(⟨"next", [], some .null⟩, .union [.null, .ref ⟨"", "Links"⟩])]

theorem define_labels :
    Schema.define labelsText = .ok (labels, [("Label", label), ("Labels", labels)]) := by
  cbv

theorem define_links : Schema.define linksText = .ok (links, [("Links", links)]) := by
  cbv

/-- The default of a label holds another default, but none comes back; all lists of nothing are
converted, however long. -/
theorem conversion_ends_iff_labels :
    (Schema.define labelsText = .ok (labels, [("Label", label), ("Labels", labels)]) ∧
      IsDefault (labels.partsWith [("Label", label), ("Labels", labels)]) (label, .object []) ∧
      ∀ d, IsDefault (labels.partsWith [("Label", label), ("Labels", labels)]) d →
        ReflTransGen (Tries [("Label", label), ("Labels", labels)] .encoded)
          (labels, .object []) d →
        ¬TransGen (Tries [("Label", label), ("Labels", labels)] .encoded) d d) ∧
    Schema.define linksText = .ok (links, [("Links", links)]) ∧
    ∀ dialect x, Ends [("Links", links)] dialect links x := by
  have hvalue : ofJson [("Label", label), ("Labels", labels)] .encoded labels (.object []) =
      .ok (.record [("label", .record [("text", .string "x")]), ("next", .union 0 .null)]) := by
    rfl
  refine ⟨⟨define_labels, ⟨⟨"", "Labels"⟩, _, Schema.self_mem_partsWith _ _, _, List.mem_cons_self,
    rfl, rfl⟩, ?_⟩, define_links, (conversion_ends_iff define_links).2 fun d hd => ?_⟩
  · refine ((conversion_ends_iff define_labels).1 .encoded (.object [])).mp (ends_iff.mpr ?_)
    rw [hvalue]
    exact fun h => by cases h
  · have hnull : d = .null := by
      simpa [links, Schema.defaultsWith, Schema.defaults, Schema.fieldDefaults,
        Schema.branchDefaults] using hd
    exact hnull ▸ .null

/-- A record in a field of its own, as one branch of a union. The default of the field suits the
other branch. -/
def circularText : String :=
  "\x7b\"type\":\"record\",\"name\":\"R\",\"fields\":[\x7b\"name\":\"f\",\"type\":[\"R\",\x7b\"type\":" ++
    "\"map\",\"values\":\x7b\"type\":\"map\",\"values\":\"int\"\x7d\x7d],\"default\":\x7b\"R\":\x7b\x7d" ++
    "\x7d\x7d]\x7d"

/-- The default of the field. -/
def circularDefault : Json := .object [("R", .object [])]

/-- What the text of the circular record reads as. -/
def circular : Schema :=
  .record ⟨"", "R"⟩
    [(⟨"f", [], some circularDefault⟩, .union [.ref ⟨"", "R"⟩, .map (.map .int)])]

/-- The default of the field is tried again under the record: under the first branch in the dialect
without names, under the branch that it names in the other. -/
theorem circularDefault_comes_back (dialect : Dialect) :
    TransGen (Tries [("R", circular)] dialect)
      (.union [.ref ⟨"", "R"⟩, .map (.map .int)], circularDefault)
      (.union [.ref ⟨"", "R"⟩, .map (.map .int)], circularDefault) := by
  have hfield : ∀ es, es.lookup "f" = none → Tries [("R", circular)] dialect
      (circular, .object es)
      (.union [.ref ⟨"", "R"⟩, .map (.map .int)], circularDefault) := by
    intro es hnone
    have hdefault : fieldJson es ⟨"f", [], some circularDefault⟩ = circularDefault := by
      rw [fieldJson, hnone]
      rfl
    rw [← hdefault]
    exact @Tries.field _ _ ⟨"", "R"⟩ [] _ [] es fun _ h => absurd h List.not_mem_nil
  have href : ∀ j, Tries [("R", circular)] dialect (.ref ⟨"", "R"⟩, j) (circular, j) :=
    fun j => .ref rfl
  cases dialect with
  | generic =>
    have hbranch : Tries [("R", circular)] .generic
        (.union [.ref ⟨"", "R"⟩, .map (.map .int)], circularDefault)
        (.ref ⟨"", "R"⟩, circularDefault) :=
      @Tries.branch _ _ _ [] _ [.map (.map .int)] _ rfl rfl rfl
        fun _ h => absurd h List.not_mem_nil
    exact ((TransGen.single hbranch).tail (href _)).tail (hfield _ rfl)
  | encoded =>
    have hnamed : Tries [("R", circular)] .encoded
        (.union [.ref ⟨"", "R"⟩, .map (.map .int)], circularDefault)
        (.ref ⟨"", "R"⟩, .object []) := @Tries.named _ _ _ _ 0 _ _ rfl
    exact ((TransGen.single hnamed).tail (href _)).tail (hfield _ rfl)

/-- The definition is accepted, but the conversion of the empty record does not end, in either
dialect: the default of the field suits the second branch only, but is tried under the record first,
which lacks the field again. -/
theorem conversion_does_not_end :
    Schema.define circularText = .ok (circular, [("R", circular)]) ∧
    ∀ dialect n, ofJsonWithin [("R", circular)] dialect n circular (.object []) =
      .error .unbounded := by
  refine ⟨by cbv, fun dialect => ofJson_unbounded_iff.mp ?_⟩
  refine ofJson_unbounded_iff_comes_back.mpr ⟨_, .single ?_, circularDefault_comes_back dialect⟩
  exact @Tries.field _ _ ⟨"", "R"⟩ [] _ [] [] fun _ h => absurd h List.not_mem_nil

end Messaging.Avro
