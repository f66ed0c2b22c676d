import Messaging.Proofs.Proto.Parts

/-! # Messages are read in steps

`Takes` says that a reader in steps goes through some data, whatever follows it, from one state to
another. One occurrence of a field takes a message to the one in which the field has the value that
is read behind its key (`takes_occurrence`), several are gathered (`takes_gathered`), and unknown
fields take it to the one that has them too (`takes_unread`). -/

namespace Messaging.Proto

/-! ### Steps of a reader -/

/-- Whatever follows the data, the reader goes on behind it in the other state. The steps that are
left suffice for what follows if there were enough for all. -/
def Takes {σ : Type} (run : Nat → σ → Bytes → Option σ) (s : σ) (data : Bytes) (s' : σ) : Prop :=
  ∀ rest fuel, (data ++ rest).length ≤ fuel →
    ∃ left, rest.length ≤ left ∧ run fuel s (data ++ rest) = run left s' rest

namespace Takes

variable {σ : Type} {run : Nat → σ → Bytes → Option σ} {s s' s'' : σ} {data data' : Bytes}

theorem nil : Takes run s [] s := fun _ fuel hfuel => ⟨fuel, hfuel, rfl⟩

theorem append (h : Takes run s data s') (h' : Takes run s' data' s'') :
    Takes run s (data ++ data') s'' := by
  intro rest fuel hfuel
  rw [List.append_assoc] at hfuel ⊢
  obtain ⟨left, hleft, heq⟩ := h (data' ++ rest) fuel hfuel
  obtain ⟨last, hlast, heq'⟩ := h' rest left hleft
  exact ⟨last, hlast, heq.trans heq'⟩

/-- One step takes what it goes through, its first byte at least. -/
theorem of_step {head : Bytes} (hpos : 0 < head.length)
    (h : ∀ rest fuel, data.length ≤ fuel →
      run (fuel + 1) s (head ++ (data ++ rest)) = run fuel s' rest) :
    Takes run s (head ++ data) s' := by
  intro rest fuel hfuel
  rw [List.append_assoc] at hfuel ⊢
  simp only [List.length_append] at hfuel
  obtain ⟨fuel, rfl⟩ : ∃ k, fuel = k + 1 := ⟨fuel - 1, by omega⟩
  exact ⟨fuel, by omega, h rest fuel (by omega)⟩

/-- A reader that stops at the end of its data stops behind what it takes. -/
theorem finish (h : Takes run s data s') (hdone : ∀ fuel s, run fuel s [] = some s) {fuel : Nat}
    (hfuel : data.length ≤ fuel) : run fuel s data = some s' := by
  obtain ⟨left, -, heq⟩ := h [] fuel (by rwa [List.append_nil])
  rw [List.append_nil] at heq
  rw [heq, hdone]

end Takes

/-! ### What a message holds -/

namespace Body

variable {t : MessageType} {f : Field}

/-- The numbers of the other members of the oneof of a field. -/
def rivals (t : MessageType) (f : Field) : List Nat :=
  (t.fields.filter fun g =>
    f.oneof.isSome && g.oneof = f.oneof && g.number ≠ f.number).map (·.number)

theorem fields_set (t : MessageType) (b : Body) (f : Field) (v : Value) :
    (b.set t f v).fields =
      setNumber f.number v (b.fields.filter fun e => !(rivals t f).contains e.1) := rfl

theorem mem_rivals {number : Nat} : number ∈ rivals t f ↔
    ∃ g ∈ t.fields, (f.oneof.isSome = true ∧ g.oneof = f.oneof) ∧ number ≠ f.number ∧
      g.number = number := by
  simp only [rivals, List.mem_map, List.mem_filter, Bool.and_eq_true, decide_eq_true_eq]
  grind

theorem get?_set (t : MessageType) (b : Body) (f : Field) (v : Value) :
    (b.set t f v).get? f = some v :=
  lookup_setNumber f.number v _

theorem set_set (t : MessageType) (b : Body) (f : Field) (v w : Value) :
    (b.set t f v).set t f w = b.set t f w := by
  have hkept : ∀ e ∈ (b.set t f v).fields, (!(rivals t f).contains e.1) = true := by
    intro e he
    rcases mem_setNumber he with rfl | he
    · simpa using fun hmem => (mem_rivals.mp hmem).choose_spec.2.2.1 rfl
    · exact (List.mem_filter.mp he).2
  have hfields : ((b.set t f v).set t f w).fields = (b.set t f w).fields := by
    rw [fields_set, List.filter_eq_self.mpr hkept, fields_set, setNumber_setNumber, ← fields_set]
  exact congrArg (fun fields => Body.mk fields b.unknown) hfields

/-- A field behind all others, of which none is in its oneof, is put at the end. -/
theorem set_eq_append {b : Body} {v : Value} (hf : f ∈ t.fields)
    (h : ∀ e ∈ b.fields, Precedes t e (f.number, v)) :
    b.set t f v = { b with fields := b.fields ++ [(f.number, v)] } := by
  have hkept : ∀ e ∈ b.fields, (!(rivals t f).contains e.1) = true := by
    intro e he
    simp only [Bool.not_eq_true', List.contains_eq_mem, decide_eq_false_iff_not]
    intro hmem
    obtain ⟨g, hg, ⟨hsome, hsame⟩, -, hnumber⟩ := mem_rivals.mp hmem
    exact (h e he).2 g hg f hf hnumber rfl (hsame ▸ hsome) hsame
  have hfields : (b.set t f v).fields = b.fields ++ [(f.number, v)] := by
    rw [fields_set, List.filter_eq_self.mpr hkept]
    exact setNumber_of_forall_lt fun e he => (h e he).1
  exact congrArg (fun fields => Body.mk fields b.unknown) hfields

theorem addUnknown_addUnknown (b : Body) (number : Nat) (x y : Bytes) :
    (b.addUnknown number x).addUnknown number y = b.addUnknown number (x ++ y) := by
  simp only [addUnknown, lookup_setNumber, setNumber_setNumber, Option.getD_some,
    List.append_assoc]

/-- An unknown field behind all others is put at the end. -/
theorem addUnknown_eq_append {b : Body} {number : Nat} {raw : Bytes}
    (h : ∀ u ∈ b.unknown, u.1 < number) :
    b.addUnknown number raw = { b with unknown := b.unknown ++ [(number, raw)] } := by
  have hnone : b.unknown.lookup number = none :=
    List.lookup_eq_none_iff.mpr fun u hu => by simpa using (h u hu).ne'
  rw [addUnknown, hnone, Option.getD_none, List.nil_append, setNumber_of_forall_lt h]

end Body

/-! ### Steps of reading a message -/

/-- The reader of the messages in a message, which are one level deeper. -/
def readNested (p : Pool) (fuel : Nat) : Nat → MessageType → Body → Bytes → Option Body
  | 0, _, _, _ => none
  | depth + 1, t, body, b => readBody p fuel depth t body b

/-- Reading a message takes it through the data from what it holds to something else. -/
abbrev TakesBody (p : Pool) (depth : Nat) (t : MessageType) : Body → Bytes → Body → Prop :=
  Takes fun fuel => readBody p fuel depth t

section TakesBody

variable {p : Pool} {depth : Nat} {t : MessageType} {body : Body} {f : Field} {number : Nat}

theorem readBody_nil (fuel : Nat) (body : Body) : readBody p fuel depth t body [] = some body := by
  cases fuel <;> exact if_pos rfl

theorem append_ne_nil_of_key (number : Nat) (w : WireType) (b : Bytes) :
    writeKey number w ++ b ≠ [] :=
  List.append_ne_nil_of_left_ne_nil (List.ne_nil_of_length_pos (length_writeKey_pos number w)) b

theorem readBody_known (hf : t.byNumber? number = some f) (hnumber : IsNumber number) (fuel : Nat)
    (w : WireType) (b : Bytes) :
    readBody p (fuel + 1) depth t body (writeKey number w ++ b) =
      (readField (readNested p fuel depth) p depth f w
        ((body.get? f).getD (f.defaultValue p)) b).bind fun x =>
          readBody p fuel depth t (body.set t f x.1) x.2 := by
  rw [readBody, if_neg (append_ne_nil_of_key number w b), readKey_writeKey hnumber,
    Option.bind_eq_bind, Option.bind_some]
  simp only [hf]
  cases depth <;> rfl

theorem readBody_unknown (hf : t.byNumber? number = none) (hnumber : IsNumber number) (fuel : Nat)
    (w : WireType) (b : Bytes) :
    readBody p (fuel + 1) depth t body (writeKey number w ++ b) =
      (readUnknown ((writeKey number w ++ b).length + 1) depth number w b).bind fun x =>
        readBody p fuel depth t (body.addUnknown number x.1) x.2 := by
  rw [readBody, if_neg (append_ne_nil_of_key number w b), readKey_writeKey hnumber,
    Option.bind_eq_bind, Option.bind_some]
  simp only [hf]
  rfl

/-- One occurrence of a field is taken if it is read behind its key into the value there is. -/
theorem takes_occurrence (hf : t.byNumber? f.number = some f) (hnumber : IsNumber f.number)
    {w : WireType} {data : Bytes} {v : Value}
    (h : ∀ fuel, data.length ≤ fuel → Reads (readField (readNested p fuel depth) p depth f w
      ((body.get? f).getD (f.defaultValue p))) data v) :
    TakesBody p depth t body (writeKey f.number w ++ data) (body.set t f v) := by
  refine .of_step (length_writeKey_pos _ _) fun rest fuel hfuel => ?_
  rw [readBody_known hf hnumber, h fuel hfuel rest, Option.bind_some]

/-- An unknown field is taken up. -/
theorem takes_rereads (hf : t.byNumber? number = none) (hnumber : IsNumber number) {raw : Bytes}
    (h : Rereads depth number raw) :
    TakesBody p depth t body raw (body.addUnknown number raw) := by
  obtain ⟨w, data, rfl, -, hread⟩ := h
  refine .of_step (length_writeKey_pos _ _) fun rest fuel _ => ?_
  have hlt : data.length < (writeKey number w ++ (data ++ rest)).length + 1 := by
    simp only [List.length_append]
    omega
  rw [readBody_unknown hf hnumber, hread _ hlt rest, Option.bind_some]

/-- The unknown fields of a number are taken up. -/
theorem takes_unread (body : Body) (hf : t.byNumber? number = none) {raw : Bytes}
    (h : UnreadAll depth number raw) :
    TakesBody p depth t body raw (body.addUnknown number raw) := by
  obtain ⟨hnumber, pieces, hne, rfl, hpieces⟩ := h
  induction pieces generalizing body with
  | nil => exact absurd rfl hne
  | cons x rest ih =>
    have hfirst : TakesBody p depth t body x (body.addUnknown number x) :=
      takes_rereads hf hnumber ((hpieces x List.mem_cons_self).rereads hnumber)
    by_cases hrest : rest = []
    · subst hrest
      simpa using hfirst
    · have hmore := ih (body.addUnknown number x) hrest
        fun y hy => hpieces y (List.mem_cons_of_mem x hy)
      rw [Body.addUnknown_addUnknown] at hmore
      exact hfirst.append hmore

/-- The occurrences of a field are gathered in its value. -/
theorem takes_gathered {α : Type} {w : WireType} {data : α → Bytes} {xs : List α} (body : Body)
    (grow : Value → α → Value) (hf : t.byNumber? f.number = some f) (hnumber : IsNumber f.number)
    (hne : xs ≠ [])
    (h : ∀ x ∈ xs, ∀ old fuel, (data x).length ≤ fuel →
      Reads (readField (readNested p fuel depth) p depth f w old) (data x) (grow old x)) :
    TakesBody p depth t body (xs.flatMap fun x => writeKey f.number w ++ data x)
      (body.set t f (xs.foldl grow ((body.get? f).getD (f.defaultValue p)))) := by
  induction xs generalizing body with
  | nil => exact absurd rfl hne
  | cons x rest ih =>
    let first := grow ((body.get? f).getD (f.defaultValue p)) x
    have hfirst : TakesBody p depth t body (writeKey f.number w ++ data x) (body.set t f first) :=
      takes_occurrence hf hnumber fun fuel hfuel => h x List.mem_cons_self _ fuel hfuel
    rw [List.flatMap_cons, List.foldl_cons]
    by_cases hrest : rest = []
    · subst hrest
      rw [List.flatMap_nil, List.append_nil]
      exact hfirst
    · have hmore := ih (body.set t f first) hrest fun y hy => h y (List.mem_cons_of_mem x hy)
      rw [Body.get?_set, Option.getD_some, Body.set_set] at hmore
      exact hfirst.append hmore

end TakesBody

end Messaging.Proto
