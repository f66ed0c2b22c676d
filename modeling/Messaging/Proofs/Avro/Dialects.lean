import Messaging.Proofs.Avro.Conversion
import Messaging.Proofs.Avro.Termination
import Messaging.Proofs.Bytes

/-! # Defaults in both dialects

A default is written once in a definition, but read in the dialect of the data that lacks the field.
`defaults_read_alike`: the dialects agree on the defaults of a record if they agree on the bytes and
the unions in them, that is if bytes are spelled in ASCII and unions are `null` or of no branch.
Other bytes and other unions are read in two ways, or in one dialect only (`defaults_differ`).

The proof compares a conversion in some number of steps in one dialect with the conversion in the
other (`extends_of_alike`). Each of them comes to the same parts, so the hypothesis is about those
parts that the generic dialect comes to. -/

namespace Messaging.Avro

open Relation

namespace Value

/-! ### Bytes -/

/-- Does the value spell the same bytes in both dialects, or none in both? -/
def BytesAlike : Json → Prop
  | .string s => ∀ c ∈ s.toList, c.toNat < 128
  | .array items => items.all Schema.isByte = false
  | _ => True

theorem bytesOfJson?_array {items : List Json} (h : items.all Schema.isByte = false) :
    bytesOfJson? .generic (.array items) = none := by
  rw [bytesOfJson?]
  induction items with
  | nil => cases h
  | cons i rest ih =>
    rw [List.all_cons, Bool.and_eq_false_iff] at h
    rw [List.mapM_cons]
    cases i with
    | number n =>
      rcases h with hi | hrest
      · have hn : n.toByte? = none := Option.not_isSome_iff_eq_none.mp (ne_true_of_eq_false hi)
        show n.toByte?.bind _ = none
        rw [hn, Option.bind_none]
      · rw [ih hrest]
        exact Option.bind_fun_none n.toByte?
    | _ => rfl

theorem bytesOfJson?_alike {j : Json} (h : BytesAlike j) :
    bytesOfJson? .generic j = bytesOfJson? .encoded j := by
  cases j with
  | string s => exact (Bytes.ofCharacters?_of_ascii h).symm
  | array items => exact bytesOfJson?_array h
  | _ => rfl

variable {names : Names}

/-- Is the value read alike in both dialects, as far as its own schema goes? -/
def ReadsAlike (names : Names) (s : Schema) (j : Json) : Prop :=
  match s with
  | .bytes | .fixed _ _ | .decimal _ | .duration => BytesAlike j
  | .union branches => j = .null ∨ namedBranch? branches j = none ∧
      ∀ b ∈ branches, ∃ m, ofJson names .generic b j = .error (.mismatch m)
  | _ => True

theorem leafOfJson?_alike {s : Schema} (hs : s.IsLeaf) {j : Json} (h : ReadsAlike names s j) :
    leafOfJson? .generic s j = leafOfJson? .encoded s j := by
  cases s <;> first
    | exact hs.elim
    | rfl
    | simp only [leafOfJson?, bytesOfJson?_alike (show BytesAlike j from h)]

/-- A union that reads alike is `null` under the same branch, or of no branch in both dialects. -/
theorem ofJson_union_alike {P : List Schema} (hP : Sound names P) {branches : List Schema}
    (hs : .union branches ∈ P) {j : Json} (h : ReadsAlike names (.union branches) j) :
    ofJson names .generic (.union branches) j = ofJson names .encoded (.union branches) j := by
  have hunnamed : ∀ dialect, named? dialect branches j = none := by
    intro dialect
    rcases h with rfl | ⟨hnone, -⟩
    · cases dialect <;> rfl
    · cases dialect
      · rfl
      · exact hnone
  rw [ofJson_union (hunnamed _), ofJson_union (hunnamed _)]
  refine congrArg (Except.bind · _) (firstBranch_congr (fun b hb => ?_) 0)
  cases hnull : b.isNull with
  | true =>
    rw [Schema.eq_null_of_isNull hnull]
    exact .inl rfl
  | false =>
    have hmiss : ∃ m, ofJson names .generic b j = .error (.mismatch m) := by
      rcases h with rfl | ⟨-, hmiss⟩
      · exact (Misses.of_null hP hnull ((hP.wellFormed _ hs).1 b hb)).ofJson
      · exact hmiss b hb
    refine .inr ⟨hmiss, _, if_neg ?_⟩
    rw [isUnnamedIn_encoded, hnull]
    exact Bool.false_ne_true

/-! ### Whole values -/

section

variable {d d' : Dialect} (hd : d ≠ d') {n : Nat} {s : Schema} {j : Json}

include hd

/-- One of two dialects is the generic one, so what both convert it does. -/
theorem exists_generic (h : ∃ v, ofJsonWithin names d n s j = .ok v)
    (h' : ∃ v, ofJson names d' s j = .ok v) : ∃ v, ofJson names .generic s j = .ok v := by
  obtain ⟨v, hv⟩ := h
  cases d with
  | encoded =>
    cases d' with
    | encoded => exact absurd rfl hd
    | generic => exact h'
  | generic =>
    rcases ofJsonWithin_extends_ofJson names .generic n s j with h | h
    · cases hv.symm.trans h
    · exact ⟨v, h.symm.trans hv⟩

theorem exists_generic_entry {key : String}
    (h : ∃ p, (fun v => (key, v)) <$> ofJsonWithin names d n s j = .ok p ∧
      (fun v => (key, v)) <$> ofJson names d' s j = .ok p) :
    ∃ v, ofJson names .generic s j = .ok v := by
  obtain ⟨_, h, h'⟩ := h
  obtain ⟨v, hv, -⟩ := map_eq_ok h
  obtain ⟨v', hv', -⟩ := map_eq_ok h'
  exact exists_generic hd ⟨v, hv⟩ ⟨v', hv'⟩

/-- Where the dialects agree, more steps in one do what the other does. -/
theorem extends_of_eq (h : ofJson names .generic s j = ofJson names .encoded s j) :
    Extends .unbounded (ofJsonWithin names d n s j) (ofJson names d' s j) := by
  have hsame : ofJson names d s j = ofJson names d' s j := by
    cases d <;> cases d' <;> first | exact absurd rfl hd | exact h | exact h.symm
  rw [← hsame]
  exact ofJsonWithin_extends_ofJson names d n s j

/-- Where all that the generic dialect comes to reads alike, a conversion in some number of steps in
one dialect has the outcome that the other has. -/
theorem extends_of_alike {P : List Schema} (hP : Sound names P) {start : Task}
    (hmem : ∀ p, ReflTransGen (Tries names .generic) start p → p.1 ∈ P)
    (halike : ∀ p, ReflTransGen (Tries names .generic) start p → ReadsAlike names p.1 p.2)
    (hreach : ReflTransGen (Tries names .generic) start (s, j)) :
    Extends .unbounded (ofJsonWithin names d n s j) (ofJson names d' s j) := by
  induction n generalizing s j with
  | zero => exact .inl rfl
  | succ n ih =>
    have hs := hmem _ hreach
    have hown := halike _ hreach
    -- Names and parts are left to the induction, all else is the same in any number of steps.
    cases s with
    | ref name =>
      cases found : names.find? name.full with
      | none =>
        exact extends_of_eq hd ((ofJson_ref_of_none found j).trans (ofJson_ref_of_none found j).symm)
      | some t =>
        rw [ofJson_ref found, ofJsonWithin]
        simp only [found]
        exact ih (hreach.tail (.ref found))
    | array s =>
      cases j with
      | array js =>
        rw [ofJson_array, ofJsonWithin]
        refine .map _ (.mapM_of_before fun before i after hsplit hbefore => ?_)
        subst hsplit
        refine ih (hreach.tail (.item fun i hi => ?_))
        obtain ⟨v, hv, hv'⟩ := hbefore i hi
        exact exists_generic hd ⟨v, hv⟩ ⟨v, hv'⟩
      | _ => exact extends_of_eq hd rfl
    | map s =>
      cases j with
      | object es =>
        rw [ofJson_map, ofJsonWithin]
        refine .map _ (.mapM_of_before fun before e after hsplit hbefore => .map _ ?_)
        subst hsplit
        exact ih (hreach.tail (.entry fun e he => exists_generic_entry hd (hbefore e he)))
      | _ => exact extends_of_eq hd rfl
    | record name fields =>
      cases j with
      | object es =>
        rw [ofJson_record, ofJsonWithin]
        refine .map _ (.mapM_of_before fun before f after hsplit hbefore => .map _ ?_)
        subst hsplit
        exact ih (hreach.tail (.field fun g hg => exists_generic_entry hd (hbefore g hg)))
      | _ => exact extends_of_eq hd rfl
    | union branches => exact extends_of_eq hd (ofJson_union_alike hP hs hown)
    | _ =>
      refine extends_of_eq hd ?_
      rw [ofJson_leaf (by exact trivial), ofJson_leaf (by exact trivial),
        leafOfJson?_alike (by exact trivial) hown]

end

/-- Where all that the generic dialect comes to reads alike, the dialects agree. -/
theorem ofJson_alike {P : List Schema} (hP : Sound names P) {s : Schema} {j : Json}
    (hmem : ∀ p, ReflTransGen (Tries names .generic) (s, j) p → p.1 ∈ P)
    (halike : ∀ p, ReflTransGen (Tries names .generic) (s, j) p → ReadsAlike names p.1 p.2) :
    ofJson names .generic s j = ofJson names .encoded s j :=
  (extends_of_alike (by decide) hP hmem halike .refl).antisymm
    (extends_of_alike (by decide) hP hmem halike .refl)

/-! ### What comes up -/

/-- The conversions that one may come to next, whatever those before have as outcomes. -/
def followers (names : Names) (dialect : Dialect) : Task → List Task
  | (.ref name, j) => (names.find? name.full).toList.map fun s => (s, j)
  | (.array s, .array js) => js.map fun j => (s, j)
  | (.map s, .object es) => es.map fun e => (s, e.2)
  | (.record _ fields, .object es) => fields.map fun f => (f.2, fieldJson es f.1)
  | (.union branches, j) =>
    match named? dialect branches j with
    | some (_, branch, inner) => [(branch, inner)]
    | none => branches.map fun b => (b, j)
  | _ => []

theorem Tries.mem_followers {dialect : Dialect} {p q : Task} (h : Tries names dialect p q) :
    q ∈ followers names dialect p := by
  cases h with
  | @ref name s j found =>
    rw [followers, found]
    exact List.mem_singleton_self _
  | item => exact List.mem_map.mpr ⟨_, List.mem_append_right _ List.mem_cons_self, rfl⟩
  | entry => exact List.mem_map.mpr ⟨_, List.mem_append_right _ List.mem_cons_self, rfl⟩
  | field => exact List.mem_map.mpr ⟨_, List.mem_append_right _ List.mem_cons_self, rfl⟩
  | named chosen =>
    rw [followers, chosen]
    exact List.mem_singleton_self _
  | branch split unnamed =>
    rw [followers, unnamed, split]
    exact List.mem_map.mpr ⟨_, List.mem_append_right _ List.mem_cons_self, rfl⟩

end Value

open Value

/-- **Defaults read alike.** Under an accepted definition the empty record has the same outcome in
both dialects, the same value or the same mismatch, if all values that come up in the generic one,
defaults and `null`, are such that bytes are spelled in ASCII, or do not spell any, and unions are
`null`, or name no branch and are of none. -/
theorem defaults_read_alike {definition : String} {schema : Schema} {names : Names}
    (hdefine : Schema.define definition = .ok (schema, names))
    (halike : ∀ p, ReflTransGen (Tries names .generic) (schema, .object []) p →
      ReadsAlike names p.1 p.2) :
    ofJson names .generic schema (.object []) = ofJson names .encoded schema (.object []) :=
  ofJson_alike (sound_of_define hdefine)
    (fun _ hp => (List.mem_product.mp (mem_tasksWith_of_path hp)).1) halike

/-- A journal of some data and a remark. -/
def journalText : String :=
  "\x7b\"type\":\"record\",\"name\":\"Journal\",\"fields\":[\x7b\"name\":\"data\",\"type\":\"bytes\"," ++
    "\"default\":\"a\"\x7d,\x7b\"name\":\"remark\",\"type\":[\"null\",\"string\"],\"default\":null\x7d]\x7d"

/-- What the text of the journal reads as. -/
def journal : Schema :=
  .record ⟨"", "Journal"⟩ [(⟨"data", [], some (.string "a")⟩, .bytes),
    (⟨"remark", [], some .null⟩, .union [.null, .string])]

/-- What comes up when the empty journal is converted. -/
def journalTasks : List Task :=
  [(journal, .object []), (.bytes, .string "a"), (.union [.null, .string], .null), (.null, .null),
    (.string, .null)]

theorem followers_journalTasks : ∀ p ∈ journalTasks,
    followers [("Journal", journal)] .generic p ⊆ journalTasks := by
  simp [journalTasks, followers, journal, named?, fieldJson]

/-- The data of the journal are in ASCII, its remark is `null`. -/
theorem defaults_read_alike_journal :
    Schema.define journalText = .ok (journal, [("Journal", journal)]) ∧
    ofJson [("Journal", journal)] .generic journal (.object []) =
      .ok (.record [("data", .bytes [97]), ("remark", .union 0 .null)]) := by
  have hdefine : Schema.define journalText = .ok (journal, [("Journal", journal)]) := by cbv
  have hencoded : ofJson [("Journal", journal)] .encoded journal (.object []) =
      .ok (.record [("data", .bytes [97]), ("remark", .union 0 .null)]) := by rfl
  refine ⟨hdefine, (defaults_read_alike hdefine fun p hp => ?_).trans hencoded⟩
  have hmem : p ∈ journalTasks := mem_of_path
    (fun p hp q h => followers_journalTasks p hp h.mem_followers) List.mem_cons_self hp
  simp only [journalTasks, List.mem_cons, List.not_mem_nil, or_false] at hmem
  rcases hmem with rfl | rfl | rfl | rfl | rfl
  · trivial
  · show ∀ c ∈ "a".toList, c.toNat < 128
    exact List.forall_mem_singleton.mpr (by decide)
  · exact .inl rfl
  · trivial
  · trivial

/-- A note whose remark has a default that is not `null`. -/
def noteText : String :=
  "\x7b\"type\":\"record\",\"name\":\"Note\",\"fields\":[\x7b\"name\":\"remark\",\"type\":[\"string\"," ++
    "\"null\"],\"default\":\"x\"\x7d]\x7d"

/-- What the text of the note reads as. -/
def note : Schema :=
  .record ⟨"", "Note"⟩ [(⟨"remark", [], some (.string "x")⟩, .union [.string, .null])]

/-- Data whose default is a character beyond ASCII. -/
def blobText : String :=
  "\x7b\"type\":\"record\",\"name\":\"Blob\",\"fields\":[\x7b\"name\":\"data\",\"type\":\"bytes\"," ++
    "\"default\":\"\u00ff\"\x7d]\x7d"

/-- What the text of the blob reads as. -/
def blob : Schema :=
  .record ⟨"", "Blob"⟩ [(⟨"data", [], some (.string "\u00ff")⟩, .bytes)]

/-- Two defaults that are not read alike: a text in a union is no value in the dialect that names
branches, and a character beyond ASCII is two bytes in one dialect and one in the other. -/
theorem defaults_differ :
    (Schema.define noteText = .ok (note, [("Note", note)]) ∧
      ofJson [("Note", note)] .generic note (.object []) =
        .ok (.record [("remark", .union 0 (.string "x"))]) ∧
      ofJson [("Note", note)] .encoded note (.object []) =
        .error (.mismatch ⟨.string "x", "Union"⟩)) ∧
    (Schema.define blobText = .ok (blob, [("Blob", blob)]) ∧
      ofJson [("Blob", blob)] .generic blob (.object []) =
        .ok (.record [("data", .bytes [195, 191])]) ∧
      ofJson [("Blob", blob)] .encoded blob (.object []) =
        .ok (.record [("data", .bytes [255])])) := by
  refine ⟨⟨by cbv, by rfl, by rfl⟩, by cbv, ?_, by rfl⟩
  have hdata : leafOfJson? .generic .bytes (.string "\u00ff") = some (.bytes [195, 191]) := by
    rw [leafOfJson?, bytesOfJson?, Bytes.ofString_eq]
    rfl
  exact (Converts.record (.cons ⟨rfl, .leaf (s := .bytes) trivial hdata⟩ .nil)).ofJson

end Messaging.Avro
