import Messaging.Avro.Binary
import Messaging.Proofs.Avro.Parts
import Messaging.Proofs.Steps
import Mathlib.Data.List.ProdSigma
import Mathlib.Data.List.Infix

/-! # The steps of reading a value

Whatever a step of reading takes, what it leaves is an end of the data (`decodeWithin_leaves`). So a
value is only read at the parts of its schema and the ends of its data, and `decodeLimit` is as good
as any larger number of steps (`decode_eq_of_eventually`). -/

namespace Messaging.Avro

open Number Binary

/-- Is what the step leaves an end of the data? -/
def Leaves {α : Type} (b : Bytes) (x : Decoded α) : Prop :=
  ∀ a rest, x = .ok (a, rest) → rest <:+ b

namespace Leaves

variable {α β : Type} {b : Bytes}

theorem ok (a : α) {rest : Bytes} (h : rest <:+ b) : Leaves b (.ok (a, rest)) := by
  intro a' rest' heq
  cases heq
  exact h

theorem error (e : Fault) : Leaves b (.error e : Decoded α) := by
  intro a rest heq
  cases heq

theorem bind {x : Decoded α} {f : α × Bytes → Decoded β} (hx : Leaves b x)
    (hf : ∀ a rest, Leaves rest (f (a, rest))) : Leaves b (x.bind f) := by
  intro c rest heq
  cases x with
  | error e => cases heq
  | ok r => exact (hf r.1 r.2 c rest heq).trans (hx r.1 r.2 rfl)

theorem map {x : Decoded α} {f : α × Bytes → β × Bytes} (hx : Leaves b x)
    (hf : ∀ r, (f r).2 = r.2) : Leaves b (x.map f) := by
  intro c rest heq
  cases x with
  | error e => cases heq
  | ok r =>
    have hrest : (f r).2 = rest := congrArg Prod.snd (Except.ok.inj heq)
    rw [← hrest, hf r]
    exact hx r.1 r.2 rfl

end Leaves

namespace Binary

variable {α : Type}

theorem varint_leaves (count weight : Nat) (b : Bytes) {n : Nat} {rest : Bytes}
    (h : Varint.decodeWithin count weight b = .ok (n, rest)) : rest <:+ b := by
  induction count generalizing weight b n with
  | zero => cases h
  | succ count ih =>
    cases b with
    | nil => cases h
    | cons a b =>
      rw [Varint.decodeWithin] at h
      split at h
      · cases h
        exact List.suffix_cons a _
      · cases hrec : Varint.decodeWithin count (128 * weight) b with
        | error e =>
          rw [hrec] at h
          cases h
        | ok r =>
          rw [hrec] at h
          cases h
          exact (ih _ b hrec).trans (List.suffix_cons a b)

theorem decode_leaves {b : Bytes} {n : Nat} {rest : Bytes} (h : Varint.decode b = .ok (n, rest)) :
    rest <:+ b := by
  rw [Varint.decode] at h
  cases hwithin : Varint.decodeWithin 10 1 b with
  | error e =>
    rw [hwithin] at h
    cases h
  | ok r =>
    rw [hwithin] at h
    cases h
    exact varint_leaves 10 1 b hwithin

theorem readLong_leaves (b : Bytes) : Leaves b (readLong b) := by
  unfold readLong
  split
  · next h => exact .ok _ (decode_leaves h)
  · exact .error _

theorem readInt_leaves (b : Bytes) : Leaves b (readInt b) := by
  refine (readLong_leaves b).bind fun i rest => ?_
  simp only
  split
  · exact .ok _ (List.suffix_refl rest)
  · exact .error _

theorem readLength_leaves (b : Bytes) : Leaves b (readLength b) := by
  refine (readLong_leaves b).bind fun i rest => ?_
  simp only
  split
  · exact .ok _ (List.suffix_refl rest)
  · exact .error _

theorem readBlockLength_leaves (b : Bytes) : Leaves b (readBlockLength b) := by
  refine (readLong_leaves b).bind fun i rest => ?_
  simp only
  split
  · refine (readLong_leaves rest).bind fun _ rest => ?_
    simp only
    split
    · exact .ok _ (List.suffix_refl rest)
    · exact .error _
  · split
    · exact .ok _ (List.suffix_refl rest)
    · exact .error _

theorem readExactly_leaves (count : Nat) (b : Bytes) : Leaves b (readExactly count b) := by
  unfold readExactly split?
  split
  · next h =>
    split at h
    · cases h
      exact .ok _ (List.drop_suffix count b)
    · cases h
  · exact .error _

theorem readBytes_leaves (b : Bytes) : Leaves b (readBytes b) :=
  (readLength_leaves b).bind fun count rest => readExactly_leaves count rest

theorem readString_leaves (b : Bytes) : Leaves b (readString b) := by
  refine (readLength_leaves b).bind fun count rest => ?_
  simp only [split?]
  split
  · exact .ok _ (List.nil_suffix)
  · next h =>
    split at h
    · cases h
      split
      · exact .ok _ (List.drop_suffix count rest)
      · exact .error _
    · cases h

theorem readBoolean_leaves (b : Bytes) : Leaves b (readBoolean b) := by
  unfold readBoolean
  split
  · exact .ok _ (List.suffix_refl [])
  · next a rest =>
    split
    · exact .ok _ (List.suffix_cons a rest)
    · split
      · exact .ok _ (List.suffix_cons a rest)
      · exact .error _

theorem readUuid_leaves (b : Bytes) : Leaves b (readUuid b) := by
  refine (readBytes_leaves b).bind fun id rest => ?_
  simp only
  split
  · exact .ok _ (List.suffix_refl rest)
  · split
    · exact .ok _ (List.suffix_refl rest)
    · exact .error _

theorem readDecimal_leaves (base : DecimalBase) (b : Bytes) : Leaves b (readDecimal base b) := by
  cases base with
  | bytes => exact readBytes_leaves b
  | fixed name size => exact readExactly_leaves size b

theorem readMany_leaves {one : Bytes → Decoded α} (h : ∀ b, Leaves b (one b)) (count : Nat)
    (b : Bytes) : Leaves b (readMany one count b) := by
  induction count generalizing b with
  | zero => exact .ok _ (List.suffix_refl b)
  | succ count ih => exact (h b).bind fun a rest => (ih rest).map fun _ => rfl

theorem readBlocks_leaves {one : Bytes → Decoded α} (h : ∀ b, Leaves b (one b)) (fuel : Nat)
    (b : Bytes) : Leaves b (readBlocks one fuel b) := by
  induction fuel generalizing b with
  | zero => exact .error _
  | succ fuel ih =>
    refine (readBlockLength_leaves b).bind fun count rest => ?_
    simp only
    split
    · exact .ok _ (List.suffix_refl rest)
    · exact (readMany_leaves h count rest).bind fun items rest => (ih rest).map fun _ => rfl

theorem readEntry_leaves {one : Bytes → Decoded Value} (h : ∀ b, Leaves b (one b)) (b : Bytes) :
    Leaves b (readEntry one b) := by
  refine (readString_leaves b).bind fun key rest => ?_
  split
  · next heq =>
    cases heq
    exact (h rest).map fun _ => rfl
  · exact .error _

theorem readFields_leaves {one : Schema → Bytes → Decoded Value}
    (h : ∀ s b, Leaves b (one s b)) (fields : List (Field × Schema)) (b : Bytes) :
    Leaves b (readFields one fields b) := by
  induction fields generalizing b with
  | nil => exact .ok _ (List.suffix_refl b)
  | cons f rest ih => exact (h f.2 b).bind fun v b => (ih b).map fun _ => rfl

theorem readIndex_leaves {b rest : Bytes} {i : Int} (h : readIndex b = .ok (some (i, rest))) :
    rest <:+ b := by
  unfold readIndex at h
  split at h
  · next heq =>
    cases h
    exact decode_leaves heq
  · cases h
  · cases h

end Binary

namespace Value

theorem decodeWithin_leaves (names : Names) (n : Nat) (s : Schema) (b : Bytes) :
    Leaves b (decodeWithin names n s b) := by
  induction n generalizing s b with
  | zero => exact .error _
  | succ n ih =>
    cases s with
    | null => exact .ok _ (List.suffix_refl b)
    | boolean => exact readBoolean_leaves b
    | int => exact (readInt_leaves b).map fun _ => rfl
    | long => exact (readLong_leaves b).map fun _ => rfl
    | intAs meaning => exact (readInt_leaves b).map fun _ => rfl
    | longAs meaning => exact (readLong_leaves b).map fun _ => rfl
    | float => exact (readExactly_leaves 4 b).map fun _ => rfl
    | double => exact (readExactly_leaves 8 b).map fun _ => rfl
    | bytes => exact (readBytes_leaves b).map fun _ => rfl
    | string => exact readString_leaves b
    | fixed name size => exact (readExactly_leaves size b).map fun _ => rfl
    | decimal base => exact (readDecimal_leaves base b).map fun _ => rfl
    | bigDecimal =>
      refine (readBytes_leaves b).bind fun x rest => ?_
      simp only
      cases readBigDecimal x with
      | error e => exact .error e
      | ok d => exact .ok _ (List.suffix_refl rest)
    | uuid => exact readUuid_leaves b
    | duration => exact (readExactly_leaves 12 b).map fun _ => rfl
    | enum name symbols default =>
      refine (readInt_leaves b).bind fun i rest => ?_
      simp only
      cases symbolAt symbols i with
      | error e => exact .error e
      | ok v => exact .ok _ (List.suffix_refl rest)
    | ref name =>
      unfold decodeWithin
      simp only
      split
      · exact ih _ b
      · exact .error _
    | array items => exact (readBlocks_leaves (ih items) (b.length + 1) b).map fun _ => rfl
    | map values =>
      exact (readBlocks_leaves (readEntry_leaves (ih values)) (b.length + 1) b).map fun _ => rfl
    | record name fields => exact (readFields_leaves ih fields b).map fun _ => rfl
    | union branches =>
      unfold decodeWithin
      simp only
      split
      · exact .error _
      · exact .ok _ List.nil_suffix
      · next i rest hindex =>
        split
        · exact .error _
        · split
          · exact .error _
          · next branch _ =>
            have hrest : Leaves rest ((decodeWithin names n branch rest).map fun r =>
              (union i.toNat r.1, r.2)) := (ih branch rest).map fun _ => rfl
            exact fun v rest' heq => (hrest v rest' heq).trans (readIndex_leaves hindex)

end Value

/-! ### More steps do better -/

namespace Binary

variable {α : Type} {B : Bytes}

theorem readMany_extends {f g : Bytes → Decoded α}
    (h : ∀ c, c <:+ B → Extends .aborted (f c) (g c)) (hg : ∀ c, Leaves c (g c)) (count : Nat)
    {b : Bytes} (hb : b <:+ B) : Extends .aborted (readMany f count b) (readMany g count b) := by
  induction count generalizing b with
  | zero => exact .refl _
  | succ count ih =>
    refine .bind (h b hb) fun r hr => .map _ (ih ?_)
    exact (hg b r.1 r.2 hr).trans hb

theorem readBlocks_extends {f g : Bytes → Decoded α}
    (h : ∀ c, c <:+ B → Extends .aborted (f c) (g c)) (hg : ∀ c, Leaves c (g c)) (fuel : Nat)
    {b : Bytes} (hb : b <:+ B) : Extends .aborted (readBlocks f fuel b) (readBlocks g fuel b) := by
  induction fuel generalizing b with
  | zero => exact .refl _
  | succ fuel ih =>
    refine .bind (.refl _) fun r hr => ?_
    have hrest : r.2 <:+ B := (readBlockLength_leaves b r.1 r.2 hr).trans hb
    by_cases hcount : r.1 = 0
    · simp only [hcount, if_true]
      exact .refl _
    · simp only [hcount, if_false]
      refine .bind (readMany_extends h hg r.1 hrest) fun r' hr' => .map _ (ih ?_)
      exact (readMany_leaves hg r.1 r.2 r'.1 r'.2 hr').trans hrest

theorem readEntry_extends {f g : Bytes → Decoded Value}
    (h : ∀ c, c <:+ B → Extends .aborted (f c) (g c)) {b : Bytes} (hb : b <:+ B) :
    Extends .aborted (readEntry f b) (readEntry g b) := by
  refine .bind (.refl _) fun r hr => ?_
  have hrest := (readString_leaves b r.1 r.2 hr).trans hb
  obtain ⟨v, rest⟩ := r
  cases v with
  | string key => exact .map _ (h rest hrest)
  | _ => exact .refl _

theorem readFields_extends {f g : Schema → Bytes → Decoded Value} {fields : List (Field × Schema)}
    (h : ∀ p ∈ fields, ∀ c, c <:+ B → Extends .aborted (f p.2 c) (g p.2 c))
    (hg : ∀ s c, Leaves c (g s c)) {b : Bytes} (hb : b <:+ B) :
    Extends .aborted (readFields f fields b) (readFields g fields b) := by
  induction fields generalizing b with
  | nil => exact .refl _
  | cons p rest ih =>
    refine .bind (h p List.mem_cons_self b hb) fun r hr => .map _ (ih ?_ ?_)
    · exact fun q hq => h q (List.mem_cons_of_mem _ hq)
    · exact (hg p.2 b r.1 r.2 hr).trans hb

end Binary

namespace Value

theorem decodeWithin_extends {names : Names} {P : List Schema} (hP : Closed names P) {B : Bytes}
    {m n : Nat}
    (ih : ∀ s ∈ P, ∀ c, c <:+ B → Extends .aborted (decodeWithin names m s c)
      (decodeWithin names n s c)) {s : Schema} {b : Bytes} (hs : s ∈ P) (hb : b <:+ B) :
    Extends .aborted (decodeWithin names (m + 1) s b) (decodeWithin names (n + 1) s b) := by
  unfold decodeWithin
  cases s with
  | ref name =>
    simp only
    cases hfind : names.find? name.full with
    | none => exact .refl _
    | some t => exact ih t (hP.target hfind) b hb
  | array items =>
    exact .map _ (readBlocks_extends (ih items (hP.items hs)) (decodeWithin_leaves names n items) _
      hb)
  | map values =>
    exact .map _ (readBlocks_extends (fun c hc => readEntry_extends (ih values (hP.values hs)) hc)
      (readEntry_leaves (decodeWithin_leaves names n values)) _ hb)
  | record name fields =>
    exact .map _ (readFields_extends (fun f hf => ih f.2 (hP.fields hs f hf))
      (decodeWithin_leaves names n) hb)
  | union branches =>
    simp only
    split
    · exact .refl _
    · exact .refl _
    · next i rest hindex =>
      split
      · exact .refl _
      · split
        · exact .refl _
        · next branch hbranch =>
          exact .map _ (ih branch (hP.branches hs _ (List.mem_of_getElem? hbranch)) rest
            ((readIndex_leaves hindex).trans hb))
  | _ => exact .refl _

/-- As many steps as `decodeLimit` are as good as any larger number. -/
theorem decodeWithin_eq (names : Names) (schema : Schema) (b : Bytes) {n : Nat}
    (hn : decodeLimit names schema b ≤ n) :
    decodeWithin names n schema b = decodeWithin names (decodeLimit names schema b) schema b := by
  have hlength : (schema.partsWith names ×ˢ b.tails).length + 1 = decodeLimit names schema b := by
    rw [List.length_product, Schema.length_partsWith, List.length_tails, decodeLimit,
      Schema.sizeWith]
  have hzero : ∀ p : Schema × Bytes,
      decodeWithin names 0 p.1 p.2 = .error .aborted := fun _ => rfl
  have hsuffice := steps_suffice
    (F := fun n (p : Schema × Bytes) => decodeWithin names n p.1 p.2)
    (P := schema.partsWith names ×ˢ b.tails) hzero fun m n ih p hp => by
      obtain ⟨hs, hb⟩ := List.mem_product.mp hp
      exact decodeWithin_extends (Schema.closed_partsWith names schema)
        (fun s hs c hc => ih (s, c) (List.mem_product.mpr ⟨hs, (List.mem_tails _ _).mpr hc⟩)) hs
        ((List.mem_tails _ _).mp hb)
  have hmem : (schema, b) ∈ schema.partsWith names ×ˢ b.tails :=
    List.mem_product.mpr
      ⟨schema.self_mem_partsWith names, (List.mem_tails _ _).mpr (List.suffix_refl b)⟩
  exact (hsuffice n (by omega) _ hmem).trans (hsuffice _ (by omega) _ hmem).symm

/-- Data that is read in any number of steps from some on is read. -/
theorem decode_eq_of_eventually {names : Names} {schema : Schema} {b rest : Bytes} {v : Value}
    (h : ∃ n, ∀ m ≥ n, decodeWithin names m schema b = .ok (v, rest)) :
    decode names schema b = .ok v := by
  obtain ⟨n, hn⟩ := h
  have hlimit := decodeWithin_eq names schema b (Nat.le_max_right n (decodeLimit names schema b))
  rw [decode, ← hlimit, hn _ (Nat.le_max_left _ _)]
  rfl

end Value

end Messaging.Avro
