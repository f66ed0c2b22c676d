import Messaging.Proofs.Avro.Definition

/-! # Values of a schema

`Value.Shaped` says that a value has the shape of a schema, names standing for their types, where a
relation holds of every part and its schema. `Value.LeafOf` is such a relation: integers have their
width, bytes their size, symbols their index. -/

namespace Messaging.Avro

namespace Schema

/-- Is the schema without parts, and not a name either? -/
def IsLeaf : Schema → Prop
  | array _ | map _ | union _ | record _ _ | ref _ => False
  | _ => True

/-- Is it the schema of `null`? -/
def isNull : Schema → Bool
  | null => true
  | _ => false

/-- Is the schema none of the kinds whose values may lose in their spelling? -/
def Exact : Schema → Prop
  | float | double | bigDecimal => False
  | _ => True

/-- Is the schema none of those of floating-point numbers? -/
def FloatFree : Schema → Prop
  | float | double => False
  | _ => True

/-- Has the schema, if it is a union, one branch at most besides `null`? -/
def Narrow : Schema → Prop
  | union branches => (branches.filter fun b => !b.isNull).length ≤ 1
  | _ => True

/-- Is every branch of the schema, if it is a union, the first with its name, but for `null`? -/
def TellsBranches : Schema → Prop
  | union branches => ∀ (index : Nat) (branch : Schema), branches[index]? = some branch →
      branch.isNull = false →
        branches.findIdx? (fun b => b.branchName = branch.branchName) = some index
  | _ => True

theorem Exact.floatFree {s : Schema} (h : s.Exact) : s.FloatFree := by
  cases s <;> first | exact h.elim | trivial

/-- Without floating-point numbers only big decimals may lose in their spelling. -/
theorem FloatFree.exact {s : Schema} (h : s.FloatFree) (hs : s ≠ .bigDecimal) : s.Exact := by
  cases s <;> first | exact h.elim | exact absurd rfl hs | trivial

theorem eq_null_of_isNull {s : Schema} (h : s.isNull = true) : s = .null := by
  cases s <;> first | rfl | cases h

theorem Declares.resolve {s : Schema} (h : s.Declares) (names : Names) :
    s.resolve names = some s := by
  cases s <;> first | rfl | exact h.elim

theorem pairwise_of_length_filter_le {α : Type} {p : α → Bool} {l : List α}
    (h : (l.filter p).length ≤ 1) : l.Pairwise fun a b => ¬(p a = true ∧ p b = true) := by
  induction l with
  | nil => exact .nil
  | cons a rest ih =>
    by_cases ha : p a = true
    · rw [List.filter_cons_of_pos ha, List.length_cons] at h
      have hnone : rest.filter p = [] := List.eq_nil_of_length_eq_zero (by omega)
      have hrest : ∀ b ∈ rest, ¬p b = true := List.filter_eq_nil_iff.mp hnone
      exact .cons (fun b hb hab => hrest b hb hab.2) (ih (by rw [hnone]; exact Nat.zero_le 1))
    · rw [List.filter_cons_of_neg ha] at h
      exact .cons (fun b _ hab => ha hab.1) (ih h)

/-- No two branches of a union are `null`. -/
theorem pairwise_not_isNull {branches : List Schema} (hwell : (union branches).WellFormed) :
    branches.Pairwise fun a b => ¬(a.isNull = true ∧ b.isNull = true) := by
  have hkinds := List.pairwise_filter.mp (List.pairwise_map.mp hwell.2)
  refine hkinds.imp fun {a b} hkind hnull => ?_
  rw [eq_null_of_isNull hnull.1, eq_null_of_isNull hnull.2] at hkind
  exact hkind rfl rfl rfl

/-- Of two branches of a narrow union one is `null`. -/
theorem pairwise_isNull {branches : List Schema} (hnarrow : (union branches).Narrow)
    (hwell : (union branches).WellFormed) :
    branches.Pairwise fun a b => a.isNull ≠ b.isNull := by
  refine (pairwise_of_length_filter_le hnarrow).imp₂ (fun a b hone hnone heq => ?_)
    (pairwise_not_isNull hwell)
  cases hb : b.isNull with
  | false => exact hone ⟨by rw [heq, hb]; rfl, by rw [hb]; rfl⟩
  | true => exact hnone ⟨heq.trans hb, hb⟩

end Schema

/-- A name stands for what its type stands for. -/
theorem Sound.resolve_ref {names : Names} {P : List Schema} (hP : Sound names P) {name : Name}
    {s : Schema} (found : names.find? name.full = some s) :
    (Schema.ref name).resolve names = s.resolve names := by
  rw [(hP.declares found).resolve, Schema.resolve, found]

namespace Value

/-- In the dialect that names branches, only `null` goes without. -/
theorem isUnnamedIn_encoded (b : Schema) : isUnnamedIn .encoded b = b.isNull := by
  cases b <;> rfl

/-- Has the value the shape of the schema, names standing for their types, and stand all its parts
in a relation to their schemas? The entries of a map are sorted, a record has its fields in
order. -/
inductive Shaped (names : Names) (N : Schema → Value → Prop) : Schema → Value → Prop
  | leaf {s v} (leaf : s.IsLeaf) (node : N s v) : Shaped names N s v
  | ref {name s v} (found : names.find? name.full = some s) (value : Shaped names N s v) :
      Shaped names N (.ref name) v
  | array {s items} (node : N (.array s) (.array items))
      (values : ∀ v ∈ items, Shaped names N s v) : Shaped names N (.array s) (.array items)
  | map {s entries} (node : N (.map s) (.map entries)) (sorted : Table.Sorted entries)
      (values : ∀ e ∈ entries, Shaped names N s e.2) : Shaped names N (.map s) (.map entries)
  | record {name fields entries} (node : N (.record name fields) (.record entries))
      (order : entries.map Prod.fst = fields.map fun f : Field × Schema => f.1.name)
      (values : ∀ p ∈ fields.zip entries, Shaped names N p.1.2 p.2.2) :
      Shaped names N (.record name fields) (.record entries)
  | union {branches index branch v} (node : N (.union branches) (.union index v))
      (chosen : branches[index]? = some branch) (value : Shaped names N branch v) :
      Shaped names N (.union branches) (.union index v)

/-- Is the value one of the schema, if that is a schema without parts? -/
def LeafOf : Schema → Value → Prop
  | .null, null => True
  | .boolean, boolean _ => True
  | .int, int i => -0x80000000 ≤ i ∧ i < 0x80000000
  | .long, long i => -0x8000000000000000 ≤ i ∧ i < 0x8000000000000000
  | .float, float _ => True
  | .double, double _ => True
  | .bytes, bytes _ => True
  | .string, string _ => True
  | .fixed _ size, fixed b => b.length = size
  | .enum _ symbols _, enum index symbol => symbols[index]? = some symbol
  | .decimal _, decimal _ => True
  | .bigDecimal, bigDecimal d => -0x8000000000000000 ≤ d.scale ∧ d.scale < 0x8000000000000000
  | .uuid, uuid b => b.length = 16
  | .intAs meaning, intAs meaning' i => meaning = meaning' ∧ -0x80000000 ≤ i ∧ i < 0x80000000
  | .longAs meaning, longAs meaning' i =>
    meaning = meaning' ∧ -0x8000000000000000 ≤ i ∧ i < 0x8000000000000000
  | .duration, duration b => b.length = 12
  | s, _ => ¬s.IsLeaf

/-- Has a decimal number one byte at least, and as many as its base? -/
def DecimalFills : Schema → Value → Prop
  | .decimal .bytes, decimal b => b ≠ []
  | .decimal (.fixed _ size), decimal b => b ≠ [] ∧ b.length = size
  | _, _ => True

/-- Does the value conform to the schema? -/
def Conforms (names : Names) : Schema → Value → Prop :=
  Shaped names fun s v => LeafOf s v ∧ DecimalFills s v

theorem map_fst_eq {α : Type} {key : α → String} {R : α → String × Value → Prop}
    {as : List α} {es : List (String × Value)}
    (h : List.Forall₂ (fun a e => e.1 = key a ∧ R a e) as es) : es.map Prod.fst = as.map key := by
  induction h with
  | nil => rfl
  | cons hfirst _ ih => rw [List.map_cons, List.map_cons, hfirst.1, ih]

namespace Shaped

variable {names : Names} {N N' : Schema → Value → Prop} {s : Schema} {v : Value}

theorem mono (hN : ∀ s v, N s v → N' s v) (h : Shaped names N s v) : Shaped names N' s v := by
  induction h with
  | leaf leaf node => exact .leaf leaf (hN _ _ node)
  | ref found _ ih => exact .ref found ih
  | array node _ ih => exact .array (hN _ _ node) ih
  | map node sorted _ ih => exact .map (hN _ _ node) sorted ih
  | record node order _ ih => exact .record (hN _ _ node) order ih
  | union node chosen _ ih => exact .union (hN _ _ node) chosen ih

theorem node (h : Shaped names N s v) (leaf : s.IsLeaf) : N s v := by
  cases h with
  | leaf _ node => exact node
  | _ => exact leaf.elim

theorem target {name : Name} (h : Shaped names N (.ref name) v)
    (found : names.find? name.full = some s) : Shaped names N s v := by
  cases h with
  | leaf leaf _ => exact leaf.elim
  | ref found' value =>
    cases found.symm.trans found'
    exact value

theorem items {items : List Value} (h : Shaped names N (.array s) (.array items)) :
    N (.array s) (.array items) ∧ ∀ v ∈ items, Shaped names N s v := by
  cases h with
  | leaf leaf _ => exact leaf.elim
  | array node values => exact ⟨node, values⟩

theorem entries {entries : Table Value} (h : Shaped names N (.map s) (.map entries)) :
    N (.map s) (.map entries) ∧ ∀ e ∈ entries, Shaped names N s e.2 := by
  cases h with
  | leaf leaf _ => exact leaf.elim
  | map node _ values => exact ⟨node, values⟩

theorem fields {name : Name} {fields : List (Field × Schema)} {entries : List (String × Value)}
    (h : Shaped names N (.record name fields) (.record entries)) :
    ∀ p ∈ fields.zip entries, Shaped names N p.1.2 p.2.2 := by
  cases h with
  | leaf leaf _ => exact leaf.elim
  | record _ _ values => exact values

theorem branch {branches : List Schema} {index : Nat}
    (h : Shaped names N (.union branches) (.union index v))
    (chosen : branches[index]? = some s) :
    N (.union branches) (.union index v) ∧ Shaped names N s v := by
  cases h with
  | leaf leaf _ => exact leaf.elim
  | union node chosen' value =>
    cases chosen.symm.trans chosen'
    exact ⟨node, value⟩

/-- Two relations that stand of all parts stand together. -/
theorem and (h : Shaped names N s v) (h' : Shaped names N' s v) :
    Shaped names (fun s v => N s v ∧ N' s v) s v := by
  induction h with
  | leaf leaf node => exact .leaf leaf ⟨node, h'.node leaf⟩
  | ref found _ ih => exact .ref found (ih (h'.target found))
  | array node _ ih =>
    obtain ⟨node', values'⟩ := h'.items
    exact .array ⟨node, node'⟩ fun v hv => ih v hv (values' v hv)
  | map node sorted _ ih =>
    obtain ⟨node', values'⟩ := h'.entries
    exact .map ⟨node, node'⟩ sorted fun e he => ih e he (values' e he)
  | record node order _ ih =>
    cases h' with
    | leaf leaf _ => exact leaf.elim
    | record node' _ values' =>
      exact .record ⟨node, node'⟩ order fun p hp => ih p hp (values' p hp)
  | union node chosen _ ih =>
    obtain ⟨node', value'⟩ := h'.branch chosen
    exact .union ⟨node, node'⟩ chosen (ih value')

/-- The fields of a record and its schema go together. -/
theorem forall₂_fields {fields : List (Field × Schema)} {entries : List (String × Value)}
    (order : entries.map Prod.fst = fields.map fun f => f.1.name)
    {R : Field × Schema → String × Value → Prop}
    (h : ∀ p ∈ fields.zip entries, p.2.1 = p.1.1.name → R p.1 p.2) :
    List.Forall₂ R fields entries := by
  have hlength : fields.length = entries.length := by
    simpa using (congrArg List.length order).symm
  refine List.forall₂_iff_zip.mpr ⟨hlength, fun {f e} hmem => h (f, e) hmem ?_⟩
  obtain ⟨i, hi, hzip⟩ := List.getElem_of_mem hmem
  rw [List.getElem_zip] at hzip
  obtain ⟨rfl, rfl⟩ := Prod.mk.inj hzip
  rw [List.length_zip] at hi
  have hfst := congrArg (·[i]?) order
  simpa [List.getElem?_eq_getElem, show i < entries.length by omega,
    show i < fields.length by omega] using hfst

theorem eq_null (h : Shaped names LeafOf .null v) : v = .null := by
  cases h with
  | leaf leaf node => cases v <;> first | rfl | exact absurd leaf node

end Shaped

theorem Conforms.shaped {names : Names} {s : Schema} {v : Value} (h : Conforms names s v) :
    Shaped names LeafOf s v :=
  h.mono fun _ _ hleaf => hleaf.1

end Value

end Messaging.Avro
