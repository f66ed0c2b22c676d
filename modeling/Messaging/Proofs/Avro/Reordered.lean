import Messaging.Proofs.Avro.Shape

/-! # Values but for the order of the entries of maps

A value whose maps have their entries in another order has the same parts, and is let through like
the value itself (`Value.Reordered.fits_eq`). What is shown of a value and its schema part by part
is shown of the value and each of its reorderings (`Value.Shaped.reordered`). Every reordering is
the one of some arrangement (`Arrangement.exists_arrange`). -/

namespace Messaging.Avro

theorem Arrangement.exists_arrange {v w : Value} (h : v.Reordered w) :
    ∃ order : Arrangement, order.arrange v = w := by
  classical
  refine ⟨⟨fun u => if u = v then w else u, fun u => ?_⟩, if_pos rfl⟩
  split
  · next heq => exact heq ▸ h
  · exact .refl u

namespace Value

namespace Reordered

variable {v w : Value}

/-- The entries of a map in another order. -/
theorem of_perm {es fs : List (String × Value)} (h : es.Perm fs) :
    (Value.map es).Reordered (Value.map fs) :=
  have hsame : List.Forall₂ (fun e f : String × Value => e.2.Reordered f.2) fs fs :=
    List.forall₂_same.mpr fun e _ => .refl e.2
  .map h rfl fun _ hp => (List.forall₂_iff_zip.mp hsame).2 hp

/-! ### What a reordering is -/

theorem forall₂_entries {es fs : List (String × Value)} {R : Value → Value → Prop}
    (hnames : es.map Prod.fst = fs.map Prod.fst) (hvalues : ∀ p ∈ es.zip fs, R p.1.2 p.2.2) :
    List.Forall₂ (fun e f => f.1 = e.1 ∧ R e.2 f.2) es fs := by
  have hnames : List.Forall₂ (fun e f : String × Value => f.1 = e.1) es fs := by
    have h := List.forall₂_eq_eq_eq.symm ▸ hnames.symm
    rw [List.forall₂_map_left_iff, List.forall₂_map_right_iff] at h
    exact h.flip
  obtain ⟨hlength, hzip⟩ := List.forall₂_iff_zip.mp hnames
  exact List.forall₂_iff_zip.mpr ⟨hlength, fun h => ⟨hzip h, hvalues _ h⟩⟩

theorem forall₂_entries_refl (es : List (String × Value)) :
    List.Forall₂ (fun e f => f.1 = e.1 ∧ e.2.Reordered f.2) es es :=
  List.forall₂_same.mpr fun e _ => ⟨rfl, .refl e.2⟩

theorem of_union {index : Nat} (h : (Value.union index v).Reordered w) :
    ∃ v', w = .union index v' ∧ v.Reordered v' := by
  cases h with
  | refl => exact ⟨v, rfl, .refl v⟩
  | union value => exact ⟨_, rfl, value⟩

theorem of_array {vs : List Value} (h : (Value.array vs).Reordered w) :
    ∃ ws, w = .array ws ∧ List.Forall₂ Reordered vs ws := by
  cases h with
  | refl => exact ⟨vs, rfl, List.forall₂_same.mpr fun v _ => .refl v⟩
  | array length items =>
    exact ⟨_, rfl, List.forall₂_iff_zip.mpr ⟨length, fun h => items _ h⟩⟩

theorem of_record {es : List (String × Value)} (h : (Value.record es).Reordered w) :
    ∃ fs, w = .record fs ∧ List.Forall₂ (fun e f => f.1 = e.1 ∧ e.2.Reordered f.2) es fs := by
  cases h with
  | refl => exact ⟨es, rfl, forall₂_entries_refl es⟩
  | record names values => exact ⟨_, rfl, forall₂_entries names values⟩

theorem of_map {es : List (String × Value)} (h : (Value.map es).Reordered w) :
    ∃ fs gs, w = .map gs ∧ es.Perm fs ∧
      List.Forall₂ (fun f g => g.1 = f.1 ∧ f.2.Reordered g.2) fs gs := by
  cases h with
  | refl => exact ⟨es, es, rfl, .refl es, forall₂_entries_refl es⟩
  | map order names values => exact ⟨_, _, rfl, order, forall₂_entries names values⟩

/-- A value without parts has no other order. -/
theorem eq_of_leafOf {s : Schema} (hs : s.IsLeaf) (hv : LeafOf s v) (h : v.Reordered w) :
    w = v := by
  cases h with
  | refl => rfl
  | _ => cases s <;> exact absurd hs hv

/-! ### Values that fit -/

variable {names : Names}

theorem itemsFit_congr {s : Schema} {vs ws : List Value}
    (h : List.Forall₂ (fun v w => w.fits names s = v.fits names s) vs ws) :
    itemsFit names s ws = itemsFit names s vs := by
  induction h with
  | nil => rfl
  | cons hfirst _ ih => rw [itemsFit, itemsFit, hfirst, ih]

theorem entriesFit_congr {s : Schema} {es fs : List (String × Value)}
    (h : List.Forall₂ (fun e f => f.2.fits names s = e.2.fits names s) es fs) :
    entriesFit names s fs = entriesFit names s es := by
  induction h with
  | nil => rfl
  | cons hfirst _ ih => rw [entriesFit, entriesFit, hfirst, ih]

theorem entriesFit_perm {s : Schema} {es fs : List (String × Value)} (h : es.Perm fs) :
    entriesFit names s es = entriesFit names s fs := by
  induction h with
  | nil => rfl
  | cons e _ ih => rw [entriesFit, entriesFit, ih]
  | swap e f es => simp only [entriesFit, Bool.and_left_comm]
  | trans _ _ ih ih' => rw [ih, ih']

theorem fieldsFit_congr {schemas : List (Field × Schema)} {es fs : List (String × Value)}
    (h : List.Forall₂ (fun e f => f.1 = e.1 ∧ ∀ s, f.2.fits names s = e.2.fits names s) es fs) :
    fieldsFit names schemas fs = fieldsFit names schemas es := by
  induction h with
  | nil => rfl
  | cons hfirst _ ih => simp only [fieldsFit, hfirst.1, hfirst.2, ih]

/-- A reordering of a value fits what the value fits. -/
theorem fits_eq (h : v.Reordered w) (s : Schema) : w.fits names s = v.fits names s := by
  induction h generalizing s with
  | refl v => rfl
  | union _ ih => simp only [fits, ih]
  | array length _ ih =>
    have hitems := fun s => itemsFit_congr (s := s)
      (List.forall₂_iff_zip.mpr ⟨length, fun h => ih _ h s⟩)
    simp only [fits, hitems]
  | record hnames _ ih =>
    have hall := forall₂_entries (R := fun v w => ∀ s, w.fits names s = v.fits names s) hnames ih
    simp only [fits, hall.length_eq, fieldsFit_congr hall]
  | map order hnames _ ih =>
    have hall := forall₂_entries (R := fun v w => ∀ s, w.fits names s = v.fits names s) hnames ih
    have hentries := fun s =>
      (entriesFit_congr (hall.imp fun _ _ h => h.2 s)).trans (entriesFit_perm order.symm)
    simp only [fits, hentries]

end Reordered

/-! ### Values of the shape of a schema -/

theorem forall₂_zip {α β γ : Type} {R : α → β → Prop} {S : β → γ → Prop} {as : List α}
    {bs : List β} {cs : List γ} (h : List.Forall₂ R as bs) (h' : List.Forall₂ S bs cs) :
    List.Forall₂ (fun p q => q.1 = p.1 ∧ R p.1 p.2 ∧ S p.2 q.2) (as.zip bs) (as.zip cs) := by
  induction h generalizing cs with
  | nil =>
    cases h'
    exact .nil
  | cons hfirst _ ih =>
    cases h' with
    | cons hfirst' hrest => exact .cons ⟨rfl, hfirst, hfirst'⟩ (ih hrest)

/-- What is shown of a value and its schema part by part is shown of the value and a reordering. -/
theorem Shaped.reordered {names : Names} {N : Schema → Value → Prop}
    (hN : ∀ s v, N s v → LeafOf s v) {motive : Schema → Value → Value → Prop}
    (leaf : ∀ {s v}, s.IsLeaf → N s v → motive s v v)
    (ref : ∀ {name s v w}, names.find? name.full = some s → motive s v w → motive (.ref name) v w)
    (array : ∀ {s vs ws}, List.Forall₂ (motive s) vs ws →
      motive (.array s) (.array vs) (.array ws))
    (map : ∀ {s es fs gs}, Table.Sorted es → es.Perm fs →
      List.Forall₂ (fun f g => g.1 = f.1 ∧ motive s f.2 g.2) fs gs →
        motive (.map s) (.map es) (.map gs))
    (record : ∀ {name fields es fs}, es.map Prod.fst = fields.map (fun f => f.1.name) →
      fs.map Prod.fst = fields.map (fun f => f.1.name) →
        List.Forall₂ (fun p q => q.1 = p.1 ∧ motive p.1.2 p.2.2 q.2.2) (fields.zip es)
          (fields.zip fs) → motive (.record name fields) (.record es) (.record fs))
    (union : ∀ {branches index branch v w}, branches[index]? = some branch → motive branch v w →
      motive (.union branches) (.union index v) (.union index w))
    {s : Schema} {v w : Value} (h : Shaped names N s v) (hw : v.Reordered w) : motive s v w := by
  induction h generalizing w with
  | leaf hs node =>
    obtain rfl := hw.eq_of_leafOf hs (hN _ _ node)
    exact leaf hs node
  | ref found _ ih => exact ref found (ih hw)
  | array _ _ ih =>
    obtain ⟨ws, rfl, hws⟩ := hw.of_array
    exact array ((List.forall₂_and_left _ _ |>.mpr ⟨ih, hws⟩).imp fun _ _ h => h.1 h.2)
  | map _ sorted _ ih =>
    obtain ⟨fs, gs, rfl, order, hgs⟩ := hw.of_map
    have ih' : ∀ f ∈ fs, ∀ w, f.2.Reordered w → motive _ f.2 w :=
      fun f hf w => ih f (order.mem_iff.mpr hf)
    refine map sorted order ?_
    exact (List.forall₂_and_left _ _ |>.mpr ⟨ih', hgs⟩).imp fun _ _ h => ⟨h.2.1, h.1 _ h.2.2⟩
  | record _ order _ ih =>
    obtain ⟨fs, rfl, hfs⟩ := hw.of_record
    have hnames := (map_fst_eq hfs).trans order
    have hfields := forall₂_fields order (R := fun f e => ∀ w, e.2.Reordered w → motive f.2 e.2 w)
      fun p hp _ w hw => ih p hp hw
    refine record order hnames ((forall₂_zip hfields hfs).imp ?_)
    exact fun _ _ h => ⟨h.1, h.2.1 _ h.2.2.2⟩
  | union _ chosen _ ih =>
    obtain ⟨v', rfl, hv'⟩ := hw.of_union
    exact union chosen (ih hv')

end Value

end Messaging.Avro
