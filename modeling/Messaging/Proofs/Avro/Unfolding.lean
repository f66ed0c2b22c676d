import Messaging.Proofs.Avro.Shape
import Messaging.Proofs.Avro.Steps

/-! # A conversion in terms of the conversions of parts

`Value.ofJson` counts its steps; once there are enough, the count does not matter
(`ofJsonWithin_extends_ofJson`). So it satisfies the equations of a conversion that is not bounded,
one for each kind of schema (`ofJson_ref`, `ofJson_array`, `ofJson_map`, `ofJson_record`,
`ofJson_union`, `ofJson_leaf`). -/

namespace Messaging.Avro

namespace Value

variable {names : Names} {dialect : Dialect}

/-- More steps do better. -/
theorem ofJsonWithin_extends_of_le {m n : Nat} (h : m ≤ n) (s : Schema) (j : Json) :
    Extends .unbounded (ofJsonWithin names dialect m s j) (ofJsonWithin names dialect n s j) := by
  have hzero : ∀ p : Schema × Json,
      ofJsonWithin names dialect 0 p.1 p.2 = .error .unbounded := fun _ => rfl
  have hextends := extends_of_le (P := s.partsWith names ×ˢ valuesWith names s j)
    (F := fun n (p : Schema × Json) => ofJsonWithin names dialect n p.1 p.2) hzero
    (fun m n ih p hp => by
      obtain ⟨ht, hi⟩ := List.mem_product.mp hp
      exact ofJsonWithin_extends (Schema.closed_partsWith names s) valuesWith_trans
        (fun ht hi f hf => fieldJson_mem_valuesWith ht hi hf)
        (fun t ht i hi => ih (t, i) (List.mem_product.mpr ⟨ht, hi⟩)) ht hi) h
  exact hextends (s, j) (List.mem_product.mpr ⟨s.self_mem_partsWith names,
    mem_valuesWith.mpr (.inl j.self_mem_parts)⟩)

/-- What a conversion gives in some number of steps is its outcome. -/
theorem ofJsonWithin_extends_ofJson (names : Names) (dialect : Dialect) (n : Nat) (s : Schema)
    (j : Json) :
    Extends .unbounded (ofJsonWithin names dialect n s j) (ofJson names dialect s j) := by
  rw [← ofJsonWithin_eq_ofJson names dialect s j (Nat.le_max_right n (stepLimit names s j))]
  exact ofJsonWithin_extends_of_le (Nat.le_max_left n _) s j

/-- A conversion is unbounded if no number of steps is enough. -/
theorem ofJson_unbounded_iff {s : Schema} {j : Json} :
    ofJson names dialect s j = .error .unbounded ↔
      ∀ n, ofJsonWithin names dialect n s j = .error .unbounded := by
  refine ⟨fun h n => ?_, fun h => h _⟩
  rcases ofJsonWithin_extends_ofJson names dialect n s j with hn | hn
  · exact hn
  · exact hn.trans h

/-- Some number of steps is enough for a conversion and the conversions of finitely many parts. -/
theorem exists_steps (names : Names) (dialect : Dialect) (s : Schema) (j : Json)
    (parts : List (Schema × Json)) :
    ∃ n, ofJson names dialect s j = ofJsonWithin names dialect (n + 1) s j ∧
      ∀ p ∈ parts, ofJsonWithin names dialect n p.1 p.2 = ofJson names dialect p.1 p.2 := by
  suffices h : ∃ k, ∀ n ≥ k, ∀ p ∈ parts,
      ofJsonWithin names dialect n p.1 p.2 = ofJson names dialect p.1 p.2 by
    obtain ⟨k, hk⟩ := h
    refine ⟨max k (stepLimit names s j), ?_, hk _ (Nat.le_max_left _ _)⟩
    exact (ofJsonWithin_eq_ofJson names dialect s j
      (Nat.le_succ_of_le (Nat.le_max_right _ _))).symm
  induction parts with
  | nil => exact ⟨0, fun _ _ _ hp => absurd hp List.not_mem_nil⟩
  | cons p rest ih =>
    obtain ⟨k, hk⟩ := ih
    refine ⟨max k (stepLimit names p.1 p.2), fun n hn => List.forall_mem_cons.mpr ⟨?_, ?_⟩⟩
    · exact ofJsonWithin_eq_ofJson names dialect p.1 p.2 (le_trans (Nat.le_max_right _ _) hn)
    · exact hk n (le_trans (Nat.le_max_left _ _) hn)

/-! ### The equations -/

theorem ofJson_leaf {s : Schema} (hs : s.IsLeaf) (j : Json) :
    ofJson names dialect s j = match leafOfJson? dialect s j with
      | some v => .ok v
      | none => .error (.mismatch ⟨j, s.kind⟩) := by
  rw [ofJson, stepLimit]
  unfold ofJsonWithin
  cases s <;> first | exact hs.elim | rfl

theorem ofJson_leaf_ends {s : Schema} (hs : s.IsLeaf) (j : Json) :
    ¬ ofJson names dialect s j = .error .unbounded := by
  rw [ofJson_leaf hs]
  split <;> exact fun h => by cases h

theorem ofJson_ref {name : Name} {s : Schema} (found : names.find? name.full = some s) (j : Json) :
    ofJson names dialect (.ref name) j = ofJson names dialect s j := by
  obtain ⟨n, hn, hparts⟩ := exists_steps names dialect (.ref name) j [(s, j)]
  rw [hn, ← hparts (s, j) (List.mem_singleton_self _), ofJsonWithin]
  simp only [found]

theorem ofJson_ref_of_none {name : Name} (h : names.find? name.full = none) (j : Json) :
    ofJson names dialect (.ref name) j = .error (.mismatch ⟨j, (Schema.ref name).kind⟩) := by
  rw [ofJson, stepLimit, ofJsonWithin]
  simp only [h]

theorem ofJson_array (s : Schema) (js : List Json) :
    ofJson names dialect (.array s) (.array js) =
      .array <$> js.mapM (ofJson names dialect s) := by
  obtain ⟨n, hn, hparts⟩ := exists_steps names dialect (.array s) (.array js)
    (js.map fun j => (s, j))
  have hitems : js.mapM (ofJsonWithin names dialect n s) = js.mapM (ofJson names dialect s) :=
    mapM_congr fun j hj => hparts (s, j) (List.mem_map.mpr ⟨j, hj, rfl⟩)
  rw [hn, ofJsonWithin, hitems]

theorem ofJson_map (s : Schema) (es : List (String × Json)) :
    ofJson names dialect (.map s) (.object es) =
      .map <$> es.mapM fun e => (fun v => (e.1, v)) <$> ofJson names dialect s e.2 := by
  obtain ⟨n, hn, hparts⟩ := exists_steps names dialect (.map s) (.object es)
    (es.map fun e => (s, e.2))
  rw [hn, ofJsonWithin]
  refine congrArg (Value.map <$> ·) (mapM_congr fun e he => ?_)
  rw [hparts (s, e.2) (List.mem_map.mpr ⟨e, he, rfl⟩)]

theorem ofJson_record (name : Name) (fields : List (Field × Schema)) (es : List (String × Json)) :
    ofJson names dialect (.record name fields) (.object es) =
      .record <$> fields.mapM fun f =>
        (fun v => (f.1.name, v)) <$> ofJson names dialect f.2 (fieldJson es f.1) := by
  obtain ⟨n, hn, hparts⟩ := exists_steps names dialect (.record name fields)
    (.object es) (fields.map fun f => (f.2, fieldJson es f.1))
  rw [hn, ofJsonWithin]
  refine congrArg (Value.record <$> ·) (mapM_congr fun f hf => ?_)
  rw [hparts (f.2, fieldJson es f.1) (List.mem_map.mpr ⟨f, hf, rfl⟩)]

/-- A union only tells outcomes of its branches apart that are no mismatches. -/
theorem firstBranch_congr {f g : Schema → Converted Value} {branches : List Schema}
    (h : ∀ b ∈ branches, f b = g b ∨
      (∃ m, f b = .error (.mismatch m)) ∧ ∃ m, g b = .error (.mismatch m)) (start : Nat) :
    firstBranch f start branches = firstBranch g start branches := by
  induction branches generalizing start with
  | nil => rfl
  | cons b rest ih =>
    have hrest := ih (fun b hb => h b (List.mem_cons_of_mem _ hb)) (start + 1)
    rw [firstBranch, firstBranch]
    rcases h b List.mem_cons_self with hb | ⟨⟨m, hf⟩, m', hg⟩
    · rw [hb, hrest]
    · rw [hf, hg]
      exact hrest

/-- The conversion under a branch that need not be named; under any other it is a mismatch. -/
def ofJsonUnnamed (names : Names) (dialect : Dialect) (branches : List Schema) (j : Json)
    (branch : Schema) : Converted Value :=
  if isUnnamedIn dialect branch then ofJson names dialect branch j
  else .error (.mismatch ⟨j, (Schema.union branches).kind⟩)

/-- The branch that a value names, in the dialect that has names. -/
def named? (dialect : Dialect) (branches : List Schema) (j : Json) :
    Option (Nat × Schema × Json) :=
  if dialect = .encoded then namedBranch? branches j else none

theorem ofJson_union_named {branches : List Schema} {j : Json} {index : Nat} {branch : Schema}
    {inner : Json} (h : named? dialect branches j = some (index, branch, inner)) :
    ofJson names dialect (.union branches) j =
      .union index <$> ofJson names dialect branch inner := by
  obtain ⟨n, hn, hparts⟩ := exists_steps names dialect (.union branches) j
    [(branch, inner)]
  rw [named?] at h
  rw [hn, ofJsonWithin]
  simp only [h]
  rw [hparts (branch, inner) (List.mem_singleton_self _)]

theorem ofJson_union {branches : List Schema} {j : Json} (h : named? dialect branches j = none) :
    ofJson names dialect (.union branches) j =
      (firstBranch (ofJsonUnnamed names dialect branches j) 0 branches).bind fun
        | some value => .ok value
        | none => .error (.mismatch ⟨j, (Schema.union branches).kind⟩) := by
  obtain ⟨n, hn, hparts⟩ := exists_steps names dialect (.union branches) j
    (branches.map fun b => (b, j))
  rw [named?] at h
  rw [hn, ofJsonWithin]
  simp only [h]
  refine congrArg (Except.bind · _) (firstBranch_congr (fun b hb => .inl ?_) 0)
  rw [ofJsonUnnamed, hparts (b, j) (List.mem_map.mpr ⟨b, hb, rfl⟩)]

end Value

end Messaging.Avro
