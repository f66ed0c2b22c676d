import Messaging.Codec
import Messaging.Proofs.Proto.Fields

/-! # Messages are read back from the wire

A message is read back from its wire form as itself without what counts as unset in it, whatever the
target held before (`proto_round_trip`). Its parts are read one after the other (`takes_parts`), and
the messages in it by induction on how deep they are nested (`readsBack_of_fits`). -/

namespace Messaging

namespace Proto

variable {p : Pool} {depth : Nat} {t : MessageType}

/-! ### The parts of a message -/

theorem Body.get?_eq_none {b : Body} {f : Field} (h : ∀ e ∈ b.fields, e.1 < f.number) :
    b.get? f = none :=
  List.lookup_eq_none_iff.mpr fun e he => by simpa using (h e he).ne'

/-- The parts of a message are taken in any order of known and unknown ones. -/
theorem takes_parts {parts : List (Nat × Bytes)} {shown : List (Field × Value)}
    {unknown : List (Nat × Bytes)} (body : Body)
    (hshown : (parts.filter fun e => (t.byNumber? e.1).isSome) =
      shown.map fun s => (s.1.number, fieldData p s.1 s.2))
    (hunknown : (parts.filter fun e => !(t.byNumber? e.1).isSome) = unknown)
    (hmem : ∀ s ∈ shown, s.1 ∈ t.fields)
    (htakes : ∀ s ∈ shown, ∀ body : Body, body.get? s.1 = none →
      TakesBody p depth t body (fieldData p s.1 s.2) (body.set t s.1 (s.2.settled p s.1.type)))
    (hunread : ∀ u ∈ unknown, ∀ body : Body,
      TakesBody p depth t body u.2 (body.addUnknown u.1 u.2))
    (hordered : (body.fields ++
      shown.map fun s => (s.1.number, s.2.settled p s.1.type)).Pairwise (Precedes t))
    (hascending : Ascending (body.unknown ++ unknown)) :
    TakesBody p depth t body (parts.flatMap Prod.snd)
      ⟨body.fields ++ shown.map fun s => (s.1.number, s.2.settled p s.1.type),
        body.unknown ++ unknown⟩ := by
  -- What the message holds always precedes what is still to come, so that each part goes to the end.
  induction parts generalizing shown unknown body with
  | nil =>
    obtain rfl : shown = [] := List.map_eq_nil_iff.mp hshown.symm
    obtain rfl : unknown = [] := hunknown.symm
    simpa using Takes.nil
  | cons e rest ih =>
    rw [List.flatMap_cons]
    by_cases hknown : (t.byNumber? e.1).isSome = true
    · rw [List.filter_cons, if_pos hknown] at hshown
      rw [List.filter_cons, if_neg (by simp [hknown])] at hunknown
      obtain ⟨s, shown, rfl, rfl, hrest⟩ := List.map_eq_cons_iff.mp hshown.symm
      rw [List.map_cons] at hordered ⊢
      have hbefore : ∀ e ∈ body.fields, Precedes t e (s.1.number, s.2.settled p s.1.type) :=
        fun e he => (List.pairwise_append.mp hordered).2.2 e he _ List.mem_cons_self
      have hfirst := htakes s List.mem_cons_self body
        (Body.get?_eq_none fun e he => (hbefore e he).1)
      rw [Body.set_eq_append (hmem s List.mem_cons_self) hbefore] at hfirst
      rw [List.append_cons] at hordered ⊢
      exact hfirst.append (ih _ hrest.symm hunknown
        (fun s hs => hmem s (List.mem_cons_of_mem _ hs))
        (fun s hs => htakes s (List.mem_cons_of_mem _ hs)) hunread hordered hascending)
    · rw [List.filter_cons, if_neg hknown] at hshown
      rw [List.filter_cons, if_pos (by simp [hknown])] at hunknown
      subst hunknown
      have hbefore : ∀ u ∈ body.unknown, u.1 < e.1 := fun u hu =>
        (List.pairwise_append.mp hascending).2.2 u hu _ List.mem_cons_self
      have hfirst := hunread e List.mem_cons_self body
      rw [Body.addUnknown_eq_append hbefore] at hfirst
      rw [List.append_cons] at hascending ⊢
      exact hfirst.append (ih _ hshown rfl hmem htakes
        (fun u hu => hunread u (List.mem_cons_of_mem _ hu)) hordered hascending)

section Fits

variable {item : FieldType → Value → Prop} {b : Body}

/-- The fields that count as set follow one another. -/
theorem Body.Fits.pairwise_shown (hb : b.Fits item p depth t) :
    (shownFields p t b.fields).Pairwise fun s s' =>
      Precedes t (s.1.number, s.2) (s'.1.number, s'.2) :=
  List.pairwise_map.mp (hb.ordered.sublist (shownFields_sublist p t b.fields))

/-- A field that counts as set holds a value of its own. -/
theorem Body.Fits.shown_fits (hb : b.Fits item p depth t) {s : Field × Value}
    (hs : s ∈ shownFields p t b.fields) : s.1.Fits item p s.2 := by
  have hmem := (shownFields_sublist p t b.fields).subset (List.mem_map_of_mem hs)
  obtain ⟨f, hf, hfits⟩ := hb.fields _ hmem
  obtain rfl : s.1 = f := Option.some.inj ((shows_of_mem hs).1.symm.trans hf)
  exact hfits

/-- The wire form of what a message holds is one of parts. -/
theorem Body.Fits.exists_parts (hb : b.Fits item p depth t) :
    ∃ parts : List (Nat × Bytes),
      writeParts (fieldParts p t b.fields) b.unknown = parts.flatMap Prod.snd ∧
      (parts.filter fun e => (t.byNumber? e.1).isSome) =
        (shownFields p t b.fields).map (fun s => (s.1.number, fieldData p s.1 s.2)) ∧
      (parts.filter fun e => !(t.byNumber? e.1).isSome) = b.unknown := by
  rw [fieldParts_eq]
  have hknown : ∀ e ∈ (shownFields p t b.fields).map fun s => (s.1.number, fieldData p s.1 s.2),
      (t.byNumber? e.1).isSome = true := by
    intro e he
    obtain ⟨s, hs, rfl⟩ := List.mem_map.mp he
    simp [(shows_of_mem hs).1]
  have hunknown : ∀ u ∈ b.unknown, (t.byNumber? u.1).isSome = false := fun u hu => by
    simp [(hb.unknown u hu).1]
  exact Proto.exists_parts (q := fun n => (t.byNumber? n).isSome) hknown hunknown
    (List.pairwise_map.mpr (hb.pairwise_shown.imp fun h => h.1)) hb.unknown_ordered

end Fits

/-! ### Messages by their depth -/

/-- The wire form of what a message holds takes an empty message to what counts as set in it. -/
theorem takes_body {b : Body} (ht : t.WellFormed p) (hb : b.Fits (Value.Fits p depth) p depth t)
    (hread : ∀ type v, v.Fits p depth type → ReadsBack p depth type v)
    (hlen : (writeParts (fieldParts p t b.fields) b.unknown).length < 2 ^ 64) :
    TakesBody p depth t {} (writeParts (fieldParts p t b.fields) b.unknown)
      { b with fields := settledFields p t b.fields } := by
  obtain ⟨parts, hparts, hknown, hunknown⟩ := hb.exists_parts
  rw [hparts] at hlen ⊢
  rw [settledFields_eq]
  refine takes_parts {} hknown hunknown
    (fun s hs => MessageType.mem_of_byNumber? (shows_of_mem hs).1) ?_ ?_
    (List.pairwise_map.mpr hb.pairwise_shown) hb.unknown_ordered
  · intro s hs body hnew
    obtain ⟨hf, hshows⟩ := shows_of_mem hs
    have hmem : (s.1.number, fieldData p s.1 s.2) ∈ parts := by
      refine List.mem_of_mem_filter (p := fun e => (t.byNumber? e.1).isSome) ?_
      rw [hknown]
      exact List.mem_map_of_mem hs
    have hle : (fieldData p s.1 s.2).length ≤ (parts.flatMap Prod.snd).length :=
      length_le_flatMap (g := Prod.snd) hmem
    exact takes_field hf (ht.fields _ (MessageType.mem_of_byNumber? hf)) hnew (hb.shown_fits hs)
      hread hshows (hle.trans_lt hlen)
  · exact fun u hu body => takes_unread body (hb.unknown u hu).1 (hb.unknown u hu).2

/-- A value is read back if it is one of its type; messages in it are one level deeper. -/
theorem readsBack_of_fits (hp : p.WellFormed) (depth : Nat) (type : FieldType) (v : Value)
    (h : v.Fits p depth type) : ReadsBack p depth type v := by
  induction depth using Nat.strong_induction_on generalizing type v with
  | _ depth ih =>
    cases type with
    | scalar s => exact readsBack_scalar (Value.Fits.scalar_iff.mp h)
    | enum name =>
      obtain ⟨i, rfl, hlow, hhigh⟩ := Value.Fits.enum_iff.mp h
      exact readsBack_enum hlow hhigh
    | message name =>
      obtain ⟨d, b, rfl, rfl, hb⟩ := Value.Fits.message_iff.mp h
      -- Behind its length the message is read as a whole, at the depth below.
      intro fuel old hfuel hlen hblank rest
      simp only [Value.data, Value.settled] at hfuel hlen ⊢
      have hle := length_le_writeDelimited
        (writeParts (fieldParts p (p.messageOf (.message name)) b.fields) b.unknown)
      have htakes := takes_body (hp.message name) hb (ih d (Nat.lt_succ_self d))
        (hle.trans_lt hlen)
      have hbody := htakes.finish readBody_nil (hle.trans hfuel)
      rw [FieldType.wireType, readItem_message hblank, reads_delimited (hle.trans_lt hlen) rest,
        Option.bind_some]
      exact congrArg (Option.map _) hbody

/-- A message is read back from its wire form without what counts as unset in it. -/
theorem Message.decode?_encode {m : Message} (h : m.Fits maxDepth)
    (hlen : m.encode.length < 2 ^ 64) :
    Message.decode? m.pool m.type m.encode = some m.settled := by
  have htakes := takes_body h.type h.body (readsBack_of_fits h.pool maxDepth) hlen
  exact congrArg (Option.map _) (htakes.finish readBody_nil le_rfl)

end Proto

/-! ### The codec -/

open Proto Number

/-- A message is written, and read from what is written into any target of its type: the target is
then the message without what counts as unset in it, whatever it was before. The two have the same
fields set, and are the same but for what is not set. The data fits an address space of 64 bits. -/
theorem proto_round_trip {m : Message} (h : m.Fits maxDepth) (hlen : m.encode.length < 2 ^ 64) :
    ∃ data, Codec.protoBinary.encode (.proto m) = .ok data ∧
      (∀ old : Body, Codec.protoBinary.decode (.proto { m with body := old }) data =
        .ok (.proto m.settled)) ∧
      m.settled.shown = m.shown.map (fun s => (s.1, s.2.settled m.pool s.1.type)) ∧
      m.settled.Same m := by
  refine ⟨m.encode, rfl, fun old => ?_, m.shown_settled, m.settled_same⟩
  simp only [Codec.decode, Codec.messageOf, Except.bind, Codec.decodeProtoBinary,
    Message.decode?_encode h hlen, Except.map]

/-! ### A tree -/

namespace Proto

/-- A field whose names do not matter. -/
def treeField (number : Nat) (type : FieldType) (cardinality : Cardinality) (oneof : Option Nat) :
    Field where
  name := ""
  jsonName := ""
  number := number
  type := type
  cardinality := cardinality
  oneof := oneof
  presence := oneof.isSome
  packed := cardinality = .repeated && type.packable

/-- A tree has a weight, steps in one piece, branches, heights by level, and a label or a kind. -/
def treeType : MessageType where
  name := "Tree"
  fields := [treeField 1 (.scalar .float) .singular none,
    treeField 2 (.scalar .sint64) .repeated none, treeField 3 (.message "Tree") .repeated none,
    treeField 4 (.message "Level") .map none, treeField 5 (.scalar .string) .singular (some 0),
    treeField 6 (.enum "Kind") .singular (some 0)]

/-- A level has a number and a height. -/
def levelType : MessageType where
  name := "Level"
  fields := [treeField 1 (.scalar .uint32) .singular none,
    treeField 2 (.scalar .double) .singular none]

/-- The pool of both types. -/
def treePool : Pool where
  messages := [("Level", levelType), ("Tree", treeType)]

/-- A branch whose weight is a negative zero, which counts as unset, and whose kind is the default,
which is set. -/
def branch : Body where
  fields := [(1, .float ⟨0x80000000⟩), (6, .enum 0)]

/-- A tree with an unknown group; its weight is not a number, and one height is a negative zero. -/
def tree : Message where
  pool := treePool
  type := treeType
  body :=
    { fields := [(1, .float ⟨0xffc00001⟩), (2, .list [.int (-1), .int 300]),
        (3, .list [.message branch.fields branch.unknown]),
        (4, .map [(.int 0, .double ⟨0x8000000000000000⟩), (.int 7, .double ⟨0x3ff0000000000000⟩)]),
        (5, .string "")]
      unknown := [(9, writeKey 9 .startGroup ++ (writeKey 1 .varint ++ Varint.encode 5)
        ++ writeKey 9 .endGroup)] }

theorem message_tree : treePool.message "Tree" = treeType := by decide +kernel

theorem entryFields_level : treePool.entryFields? (.message "Level") =
    some (treeField 1 (.scalar .uint32) .singular none,
      treeField 2 (.scalar .double) .singular none) := by decide +kernel

theorem branch_fits (depth : Nat) :
    branch.Fits (Value.Fits treePool depth) treePool depth treeType where
  fields := by
    refine List.forall_mem_cons.mpr ⟨⟨treeField 1 (.scalar .float) .singular none, rfl, ?_⟩,
      List.forall_mem_singleton.mpr ⟨treeField 6 (.enum "Kind") .singular (some 0), rfl, ?_⟩⟩
    · exact Value.Fits.scalar_iff.mpr rfl
    · exact Value.Fits.enum_iff.mpr ⟨0, rfl, by decide, by decide⟩
  ordered := by decide
  unknown := nofun
  unknown_ordered := .nil

theorem steps_fit (depth : Nat) :
    ∀ v ∈ [Value.int (-1), .int 300], v.Fits treePool depth (.scalar .sint64) := by
  simp only [List.forall_mem_cons, Value.Fits.scalar_iff]
  exact ⟨⟨_, _, rfl, by decide, by decide⟩, ⟨_, _, rfl, by decide, by decide⟩, nofun⟩

theorem levels_fit (depth : Nat) :
    ∀ e ∈ [(Key.int 0, Value.double ⟨0x8000000000000000⟩), (.int 7, .double ⟨0x3ff0000000000000⟩)],
      e.1.toValue.Fits treePool depth (.scalar .uint32) ∧
        e.2.Fits treePool depth (.scalar .double) := by
  simp only [List.forall_mem_cons, Value.Fits.scalar_iff]
  exact ⟨⟨⟨_, _, rfl, by decide, by decide⟩, rfl⟩, ⟨⟨_, _, rfl, by decide, by decide⟩, rfl⟩, nofun⟩

theorem unread_tree (depth : Nat) : Unread (depth + 1) 9 (writeKey 9 .startGroup
    ++ (writeKey 1 .varint ++ Varint.encode 5) ++ writeKey 9 .endGroup) := by
  have h : Unread (depth + 1) 9 (writeKey 9 .startGroup
      ++ [(1, writeKey 1 .varint ++ Varint.encode 5)].flatMap Prod.snd ++ writeKey 9 .endGroup) :=
    .group (List.forall_mem_singleton.mpr (by decide))
      (List.forall_mem_singleton.mpr (.varint (by decide)))
  simpa using h

theorem tree_fits : tree.Fits maxDepth where
  pool := by decide +kernel
  type := by decide +kernel
  body :=
    { fields := by
        have hbranch : Value.Fits treePool maxDepth (.message "Tree")
            (.message branch.fields branch.unknown) :=
          Value.Fits.message_iff.mpr ⟨99, branch, rfl, rfl, message_tree ▸ branch_fits 99⟩
        simp only [tree, List.forall_mem_cons]
        refine ⟨⟨_, rfl, Value.Fits.scalar_iff.mpr rfl⟩, ⟨_, rfl, _, rfl, steps_fit maxDepth⟩,
          ⟨_, rfl, _, rfl, List.forall_mem_singleton.mpr hbranch⟩,
          ⟨_, rfl, _, rfl, by decide, fun key value h => ?_⟩,
          ⟨_, rfl, Value.Fits.scalar_iff.mpr rfl⟩, nofun⟩
        obtain ⟨rfl, rfl⟩ : _ = key ∧ _ = value :=
          Prod.mk.inj (Option.some.inj (entryFields_level.symm.trans h))
        exact levels_fit maxDepth
      ordered := by decide
      unknown := List.forall_mem_singleton.mpr
        ⟨rfl, by decide, [_], nofun, (List.flatten_singleton).symm,
          List.forall_mem_singleton.mpr (unread_tree 99)⟩
      unknown_ordered := List.pairwise_singleton _ _ }

/-- A tree of every kind of field comes back, a negative zero in a branch as unset. -/
theorem proto_round_trip_tree : tree.Fits maxDepth ∧ tree.encode.length < 2 ^ 64 ∧
    ∃ data, Codec.protoBinary.encode (.proto tree) = .ok data ∧
      (∀ old : Body, Codec.protoBinary.decode (.proto { tree with body := old }) data =
        .ok (.proto tree.settled)) ∧
      tree.settled.shown = tree.shown.map (fun s => (s.1, s.2.settled tree.pool s.1.type)) ∧
      tree.settled.Same tree :=
  ⟨tree_fits, by decide +kernel, proto_round_trip tree_fits (by decide +kernel)⟩

end Proto

end Messaging
