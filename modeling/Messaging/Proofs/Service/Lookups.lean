import Messaging.Proofs.ResourceName
import Messaging.Proofs.Service.Within
import Messaging.Proofs.Table

/-! # Concurrent lookups in the cache of schemas

Any number of lookups run beside each other. One that has its turn with the lock of the cache
either returns what is there or asks the schema service, and keeps the lock until the service has
answered. `Lookups` is the state of all of them and `LookupStep` what can happen next: a lookup is
called, has its turn, in whatever order, is answered or is dropped, and in between anything may
happen to the service, so that it may answer differently every time.

A lookup that nobody comes between is `SchemaCache.get` (`Lookups.run_alone`). What the cache holds
is what has been fetched (`Lookups.Coherent`): one lemma for each step shows that this stays so, and
`concurrent_lookups_coherent` is what it means for the lookups. -/

namespace Messaging

/-- A lookup of a schema. -/
structure Lookup where
  reference : String
  /-- The id that it has asked the service for. -/
  asked : Option String := none
  /-- What the service has answered. -/
  answer : Option (Except BrokerError SchemaConfig) := none
  /-- What it has returned. -/
  result : Option (Except ServiceError SchemaConfig) := none
  /-- Has it been dropped before it returned? -/
  dropped : Bool := false

namespace Lookup

/-- The id under which the cache keeps what is looked up. -/
def id (l : Lookup) : String := schemaId l.reference

/-- Does a lookup still wait for its turn? -/
def isWaiting (l : Lookup) : Bool := l.asked.isNone && l.result.isNone && !l.dropped

/-- A lookup has fetched the configuration of an id. -/
def Fetched (l : Lookup) (id : String) (config : SchemaConfig) : Prop :=
  l.asked = some id ∧ l.answer = some (.ok config)

end Lookup

/-- Lookups beside each other, by their numbers in the order of their calls. -/
structure Lookups (σ : Type) where
  cache : SchemaCache := []
  world : σ
  lookups : List Lookup := []
  /-- The lookup that holds the lock while the service answers. -/
  holder : Option Nat := none

/-- What can happen next. -/
inductive LookupStep (σ : Type) where
  | call (reference : String)
  | enter (n : Nat)
  | answer
  | drop (n : Nat)
  | outside (f : σ → σ)

namespace Lookups

variable {σ : Type}

/-- A lookup is called. -/
def call (reference : String) (s : Lookups σ) : Lookups σ :=
  { s with lookups := s.lookups ++ [{ reference }] }

/-- A waiting lookup has its turn with the lock, if the lock is free. -/
def enter (n : Nat) (s : Lookups σ) : Lookups σ :=
  match s.holder, s.lookups[n]? with
  | none, some l =>
    if l.isWaiting then
      match Table.find? s.cache l.id with
      | some config => { s with lookups := s.lookups.set n { l with result := some (.ok config) } }
      | none =>
        { s with lookups := s.lookups.set n { l with asked := some l.id }, holder := some n }
    else s
  | _, _ => s

/-- The service answers the lookup that holds the lock, which takes the answer in and returns. -/
def answer [Log.Journal σ] (fetch : String → σ → Except BrokerError SchemaConfig × σ)
    (s : Lookups σ) : Lookups σ :=
  match s.holder with
  | none => s
  | some n =>
    match s.lookups[n]? with
    | none => s
    | some l =>
      let (answer, world) := fetch l.id s.world
      let (result, cache, world) := s.cache.answered l.id answer world
      let l := { l with answer := some answer, result := some result }
      { cache, world, lookups := s.lookups.set n l, holder := none }

/-- A lookup that has not returned is dropped, with the lock if it holds it. -/
def drop (n : Nat) (s : Lookups σ) : Lookups σ :=
  match s.lookups[n]? with
  | none => s
  | some l =>
    if l.result.isSome then s
    else { s with
      lookups := s.lookups.set n { l with dropped := true }
      holder := if s.holder = some n then none else s.holder }

/-- The lookups after a step. -/
def step [Log.Journal σ] (fetch : String → σ → Except BrokerError SchemaConfig × σ)
    (s : Lookups σ) : LookupStep σ → Lookups σ
  | .call reference => s.call reference
  | .enter n => s.enter n
  | .answer => s.answer fetch
  | .drop n => s.drop n
  | .outside f => { s with world := f s.world }

/-- The lookups after steps, one after the other. -/
def run [Log.Journal σ] (fetch : String → σ → Except BrokerError SchemaConfig × σ)
    (steps : List (LookupStep σ)) (s : Lookups σ) : Lookups σ :=
  steps.foldl (step fetch) s

/-! ### Turns -/

section Turns

variable {s : Lookups σ} {n : Nat} {l : Lookup}

theorem enter_of_found (hs : s.holder = none) (hl : s.lookups[n]? = some l)
    (hw : l.isWaiting = true) {config : SchemaConfig}
    (hc : Table.find? s.cache l.id = some config) :
    s.enter n = { s with lookups := s.lookups.set n { l with result := some (.ok config) } } := by
  simp only [enter, hs, hl, hw, hc, if_true]

theorem enter_of_new (hs : s.holder = none) (hl : s.lookups[n]? = some l)
    (hw : l.isWaiting = true) (hc : Table.find? s.cache l.id = none) :
    s.enter n =
      { s with lookups := s.lookups.set n { l with asked := some l.id }, holder := some n } := by
  simp only [enter, hs, hl, hw, hc, if_true]

/-- Nobody has a turn who does not wait, or while the lock is held. -/
theorem enter_eq_self (h : ∀ l, s.lookups[n]? = some l → s.holder = none → l.isWaiting = false) :
    s.enter n = s := by
  unfold enter
  split
  · next hs hl => simp [h _ hl hs]
  · rfl

variable [Log.Journal σ] {fetch : String → σ → Except BrokerError SchemaConfig × σ}

theorem answer_of_free (hs : s.holder = none) : s.answer fetch = s := by simp only [answer, hs]

theorem answer_of_holder (hs : s.holder = some n) (hl : s.lookups[n]? = some l)
    {answer : Except BrokerError SchemaConfig} {world : σ}
    (hf : fetch l.id s.world = (answer, world)) :
    s.answer fetch =
      { cache := (s.cache.answered l.id answer world).2.1
        world := (s.cache.answered l.id answer world).2.2
        holder := none
        lookups := s.lookups.set n { l with
          answer := some answer, result := some (s.cache.answered l.id answer world).1 } } := by
  simp only [Lookups.answer, hs, hl, hf]

/-- A lookup that nobody comes between does what a lookup in the cache does: it returns the same and
leaves the same cache. -/
theorem run_alone (reference : String) (hs : s.holder = none) :
    let n := s.lookups.length
    let s' := s.run fetch [.call reference, .enter n, .answer]
    let got := s.cache.get fetch reference s.world
    (∃ l, s'.lookups[n]? = some l ∧ l.result = some got.1) ∧ s'.cache = got.2.1 ∧
      s'.world = got.2.2 ∧ s'.holder = none := by
  intro n s' got
  have hl : (s.call reference).lookups[n]? = some { reference } := by simp [call, n]
  have hs₁ : (s.call reference).holder = none := hs
  have hs' : s' = ((s.call reference).enter n).answer fetch := rfl
  cases hc : Table.find? s.cache (schemaId reference) with
  | some config =>
    have hgot : got = (.ok config, s.cache, s.world) := SchemaCache.get_of_some hc
    rw [hs', enter_of_found hs₁ hl rfl hc, answer_of_free (by exact hs₁), hgot]
    exact ⟨⟨_, List.getElem?_set_self (by simp [call, n]), rfl⟩, rfl, rfl, hs⟩
  | none =>
    have hgot : got = s.cache.answered (schemaId reference) (fetch (schemaId reference) s.world).1
      (fetch (schemaId reference) s.world).2 := SchemaCache.get_of_none hc
    have hl₂ : ((s.call reference).lookups.set n
        { reference, asked := some (schemaId reference) })[n]? =
          some { reference, asked := some (schemaId reference) } :=
      List.getElem?_set_self (by simp [call, n])
    rw [hs', enter_of_new hs₁ hl rfl hc, answer_of_holder rfl hl₂ rfl, hgot]
    exact ⟨⟨_, List.getElem?_set_self (by simp [call, n]), rfl⟩, rfl, rfl, rfl⟩

end Turns

/-! ### What stays true -/

/-- What a lookup says about the cache: it has asked for its own id; what it has fetched is there;
what it returns is there, or is the error of its own fetch. -/
structure Sound (cache : SchemaCache) (l : Lookup) : Prop where
  asked : ∀ id, l.asked = some id → id = l.id
  answered : l.answer.isSome → l.asked.isSome
  fetched : ∀ config, l.answer = some (.ok config) → Table.find? cache l.id = some config
  found : ∀ config, l.result = some (.ok config) → Table.find? cache l.id = some config
  failed : ∀ e, l.result = some (.error e) → ∃ b, l.answer = some (.error b) ∧ e = .schemaConfig b

namespace Sound

variable {cache cache' : SchemaCache} {l : Lookup}

theorem mono (h : Sound cache l) (hc : Table.Extends cache cache') : Sound cache' l :=
  { h with
    fetched := fun config hf => hc _ _ (h.fetched config hf)
    found := fun config hf => hc _ _ (h.found config hf) }

/-- A lookup returns what is there. -/
theorem found_result (h : Sound cache l) {config : SchemaConfig}
    (hc : Table.find? cache l.id = some config) :
    Sound cache { l with result := some (.ok config) } where
  asked := h.asked
  answered := h.answered
  fetched := h.fetched
  found config' hresult := by
    cases hresult
    exact hc
  failed e hresult := by cases hresult

theorem asked_id (h : Sound cache l) : Sound cache { l with asked := some l.id } where
  asked id hid := by
    cases hid
    rfl
  answered _ := rfl
  fetched := h.fetched
  found := h.found
  failed := h.failed

theorem dropped (h : Sound cache l) : Sound cache { l with dropped := true } :=
  ⟨h.asked, h.answered, h.fetched, h.found, h.failed⟩

/-- A lookup takes an error in. -/
theorem failed_answer (h : Sound cache l) (hasked : l.asked = some l.id) (error : BrokerError) :
    Sound cache
      { l with answer := some (.error error), result := some (.error (.schemaConfig error)) } where
  asked := h.asked
  answered _ := by rw [hasked]; rfl
  fetched config hanswer := by cases hanswer
  found config hresult := by cases hresult
  failed e hresult := by
    cases hresult
    exact ⟨error, rfl, rfl⟩

/-- A lookup takes a configuration in. -/
theorem ok_answer (h : Sound cache l) (hasked : l.asked = some l.id) (config : SchemaConfig) :
    Sound (Table.insert l.id config cache)
      { l with answer := some (.ok config), result := some (.ok config) } where
  asked := h.asked
  answered _ := by rw [hasked]; rfl
  fetched config' hanswer := by
    cases hanswer
    exact (Table.find?_insert ..).trans (if_pos rfl)
  found config' hresult := by
    cases hresult
    exact (Table.find?_insert ..).trans (if_pos rfl)
  failed e hresult := by cases hresult

theorem find?_of_fetched (h : Sound cache l) {id : String} {config : SchemaConfig}
    (hf : l.Fetched id config) : Table.find? cache id = some config := by
  rw [h.asked id hf.1]
  exact h.fetched config hf.2

end Sound

/-- Every lookup is sound, and what the cache holds has been fetched by just one of them. The lookup
that holds the lock has asked for something that is not in the cache. -/
structure Coherent (s : Lookups σ) : Prop where
  sound : ∀ l ∈ s.lookups, Sound s.cache l
  fetched : ∀ id config, Table.find? s.cache id = some config →
    ∃ l ∈ s.lookups, l.Fetched id config
  once : ∀ (n m : Nat) (l l' : Lookup) (id : String) (config config' : SchemaConfig),
    s.lookups[n]? = some l → s.lookups[m]? = some l' → l.Fetched id config →
      l'.Fetched id config' → n = m
  held : ∀ n, s.holder = some n → ∃ l, s.lookups[n]? = some l ∧ l.asked = some l.id ∧
    l.answer = none ∧ l.result = none ∧ Table.find? s.cache l.id = none

namespace Coherent

variable {s : Lookups σ} {n : Nat} {l l' : Lookup}

theorem empty (world : σ) : Coherent ({ world } : Lookups σ) where
  sound _ h := absurd h List.not_mem_nil
  fetched id _ h := by
    rw [Table.find?_nil] at h
    cases h
  once n _ _ _ _ _ _ h := by cases h
  held _ h := by cases h

theorem outside (h : s.Coherent) (f : σ → σ) : Coherent { s with world := f s.world } :=
  ⟨h.sound, h.fetched, h.once, h.held⟩

theorem call (h : s.Coherent) (reference : String) : (s.call reference).Coherent := by
  have hold {m : Nat} {l : Lookup} {id : String} {config : SchemaConfig}
      (hl : (s.call reference).lookups[m]? = some l) (hf : l.Fetched id config) :
      s.lookups[m]? = some l := by
    rw [Lookups.call, List.getElem?_append] at hl
    split at hl
    · exact hl
    · obtain rfl := List.mem_singleton.mp (List.mem_of_getElem? hl)
      cases hf.1
  refine ⟨fun l hl => ?_, fun id config hc => ?_,
    fun n m l l' id config config' hl hl' hf hf' => ?_, fun n hn => ?_⟩
  · rcases List.mem_append.mp hl with hl | hl
    · exact h.sound l hl
    · obtain rfl := List.mem_singleton.mp hl
      exact ⟨nofun, nofun, nofun, nofun, nofun⟩
  · obtain ⟨l, hl, hf⟩ := h.fetched id config hc
    exact ⟨l, List.mem_append_left _ hl, hf⟩
  · exact h.once n m l l' id config config' (hold hl hf) (hold hl' hf') hf hf'
  · obtain ⟨l, hl, hrest⟩ := h.held n hn
    have hlt := (List.getElem?_eq_some_iff.mp hl).1
    exact ⟨l, by rw [Lookups.call, List.getElem?_append_left hlt, hl], hrest⟩

/-- A lookup is replaced, with more in the cache: what it has fetched it keeps, and what it fetches
is new to the cache and put there. -/
theorem replace (h : s.Coherent) (hl : s.lookups[n]? = some l) {cache : SchemaCache}
    (hext : Table.Extends s.cache cache) (hsound : Sound cache l')
    (hkeeps : ∀ id config, l.Fetched id config → l'.Fetched id config)
    (hnew : ∀ id config, l'.Fetched id config →
      l.Fetched id config ∨ Table.find? s.cache id = none)
    (hcache : ∀ id config, Table.find? cache id = some config →
      Table.find? s.cache id = some config ∨ l'.Fetched id config)
    (world : σ) {holder : Option Nat}
    (hheld : ∀ m, holder = some m → ∃ l₁, (s.lookups.set n l')[m]? = some l₁ ∧
      l₁.asked = some l₁.id ∧ l₁.answer = none ∧ l₁.result = none ∧
      Table.find? cache l₁.id = none) :
    Coherent { cache, world, lookups := s.lookups.set n l', holder } := by
  have hlt := (List.getElem?_eq_some_iff.mp hl).1
  -- A fetch is an old one or the new one.
  have hold {m : Nat} {l₁ : Lookup} {id : String} {config : SchemaConfig}
      (hl₁ : (s.lookups.set n l')[m]? = some l₁) (hf : l₁.Fetched id config) :
      (∃ l₀, s.lookups[m]? = some l₀ ∧ l₀.Fetched id config) ∨
        m = n ∧ Table.find? s.cache id = none := by
    by_cases hm : n = m
    · rw [← hm, List.getElem?_set_self hlt, Option.some.injEq] at hl₁
      rcases hnew id config (hl₁ ▸ hf) with hf₀ | hnone
      · exact .inl ⟨l, hm ▸ hl, hf₀⟩
      · exact .inr ⟨hm.symm, hnone⟩
    · rw [List.getElem?_set_ne hm] at hl₁
      exact .inl ⟨l₁, hl₁, hf⟩
  refine ⟨fun l₁ hl₁ => ?_, fun id config hc => ?_,
    fun m m' l₁ l₂ id config config' hl₁ hl₂ hf₁ hf₂ => ?_, hheld⟩
  · rcases List.mem_or_eq_of_mem_set hl₁ with hmem | rfl
    · exact (h.sound l₁ hmem).mono hext
    · exact hsound
  · have hmem : l' ∈ s.lookups.set n l' := List.mem_set hlt l'
    rcases hcache id config hc with hc₀ | hf
    · obtain ⟨l₀, hl₀, hf₀⟩ := h.fetched id config hc₀
      obtain ⟨m, hm⟩ := List.getElem?_of_mem hl₀
      by_cases hnm : n = m
      · rw [← hnm, hl, Option.some.injEq] at hm
        exact ⟨l', hmem, hkeeps _ _ (hm ▸ hf₀)⟩
      · exact ⟨l₀, List.mem_of_getElem? ((List.getElem?_set_ne hnm).trans hm), hf₀⟩
    · exact ⟨l', hmem, hf⟩
  · have hthere {k : Nat} {l₀ : Lookup} {c : SchemaConfig} (hl₀ : s.lookups[k]? = some l₀)
        (hf₀ : l₀.Fetched id c) : Table.find? s.cache id = some c :=
      (h.sound l₀ (List.mem_of_getElem? hl₀)).find?_of_fetched hf₀
    rcases hold hl₁ hf₁ with ⟨l₀, hl₀, hf₀⟩ | ⟨hm, hnone⟩ <;>
      rcases hold hl₂ hf₂ with ⟨l₀', hl₀', hf₀'⟩ | ⟨hm', hnone'⟩
    · exact h.once m m' l₀ l₀' id config config' hl₀ hl₀' hf₀ hf₀'
    · rw [hthere hl₀ hf₀] at hnone'
      cases hnone'
    · rw [hthere hl₀' hf₀'] at hnone
      cases hnone
    · rw [hm, hm']

theorem enter (h : s.Coherent) (n : Nat) : (s.enter n).Coherent := by
  by_cases hturn : ∃ l, s.lookups[n]? = some l ∧ s.holder = none ∧ l.isWaiting = true
  · obtain ⟨l, hl, hs, hw⟩ := hturn
    have hsound := h.sound l (List.mem_of_getElem? hl)
    have hfree (m : Nat) (hm : s.holder = some m) : False := by
      rw [hs] at hm
      cases hm
    obtain ⟨hasked, hresult⟩ : l.asked = none ∧ l.result = none := by
      simp only [Lookup.isWaiting, Bool.and_eq_true, Option.isNone_iff_eq_none] at hw
      exact hw.1
    have hanswer : l.answer = none := by
      by_contra hne
      have := hsound.answered (Option.isSome_iff_ne_none.mpr hne)
      rw [hasked] at this
      cases this
    cases hc : Table.find? s.cache l.id with
    | some config =>
      rw [enter_of_found hs hl hw hc]
      exact h.replace hl (.refl _) (hsound.found_result hc) (fun _ _ hf => hf)
        (fun _ _ hf => .inl hf) (fun _ _ hf => .inl hf) s.world fun m hm => (hfree m hm).elim
    | none =>
      rw [enter_of_new hs hl hw hc]
      refine h.replace hl (.refl _) hsound.asked_id (fun _ _ hf => ?_) (fun _ _ hf => ?_)
        (fun _ _ hf => .inl hf) s.world fun m hm => ?_
      · rw [Lookup.Fetched, hasked] at hf
        cases hf.1
      · rw [Lookup.Fetched, hanswer] at hf
        cases hf.2
      · cases hm
        exact ⟨_, List.getElem?_set_self (List.getElem?_eq_some_iff.mp hl).1, rfl, hanswer, hresult,
          hc⟩
  · rw [enter_eq_self fun l hl hs => ?_]
    · exact h
    · exact Bool.eq_false_iff.mpr fun hw => hturn ⟨l, hl, hs, hw⟩

theorem answer [Log.Journal σ] (h : s.Coherent)
    (fetch : String → σ → Except BrokerError SchemaConfig × σ) : (s.answer fetch).Coherent := by
  cases hs : s.holder with
  | none =>
    rw [answer_of_free hs]
    exact h
  | some n =>
    obtain ⟨l, hl, hasked, hanswer, hresult, hnone⟩ := h.held n hs
    have hsound := h.sound l (List.mem_of_getElem? hl)
    have hunfetched (id : String) (config : SchemaConfig) : ¬ l.Fetched id config := by
      rintro ⟨-, hf⟩
      rw [hanswer] at hf
      cases hf
    rcases hf : fetch l.id s.world with ⟨error | config, world⟩
    · rw [answer_of_holder hs hl hf]
      refine h.replace hl (.refl _) (hsound.failed_answer hasked error)
        (fun _ _ hf => absurd hf (hunfetched _ _)) (fun _ _ hf => ?_) (fun _ _ hf => .inl hf) _
        fun _ hm => ?_
      · cases hf.2
      · cases hm
    · rw [answer_of_holder hs hl hf]
      refine h.replace hl (.insert hnone config) (hsound.ok_answer hasked config)
        (fun _ _ hf => absurd hf (hunfetched _ _)) (fun id _ hf => ?_) (fun id config' hf => ?_) _
        fun _ hm => ?_
      · rw [hsound.asked id hf.1]
        exact .inr hnone
      · rw [Table.find?_insert] at hf
        split at hf
        · next hid =>
          cases hf
          exact .inr ⟨hid ▸ hasked, rfl⟩
        · exact .inl hf
      · cases hm

theorem drop (h : s.Coherent) (n : Nat) : (s.drop n).Coherent := by
  unfold Lookups.drop
  split
  · exact h
  · next l hl =>
    split
    · exact h
    · have hsound := h.sound l (List.mem_of_getElem? hl)
      refine h.replace hl (.refl _) hsound.dropped (fun _ _ hf => hf) (fun _ _ hf => .inl hf)
        (fun _ _ hf => .inl hf) s.world fun m hm => ?_
      -- Whoever still holds the lock is not the one that is dropped.
      split at hm
      · cases hm
      · next hne =>
        have hnm : n ≠ m := by
          rintro rfl
          exact hne hm
        rw [List.getElem?_set_ne hnm]
        exact h.held m hm

theorem step [Log.Journal σ] (h : s.Coherent)
    (fetch : String → σ → Except BrokerError SchemaConfig × σ) (t : LookupStep σ) :
    (s.step fetch t).Coherent := by
  cases t with
  | call reference => exact h.call reference
  | enter n => exact h.enter n
  | answer => exact h.answer fetch
  | drop n => exact h.drop n
  | outside f => exact h.outside f

theorem run [Log.Journal σ] (h : s.Coherent)
    (fetch : String → σ → Except BrokerError SchemaConfig × σ) (steps : List (LookupStep σ)) :
    (s.run fetch steps).Coherent := by
  induction steps generalizing s with
  | nil => exact h
  | cons t rest ih => exact ih (h.step fetch t)

end Coherent

end Lookups

open Lookups in
/-- **Concurrent lookups are coherent.** Let lookups with any references run beside each other, in
any order and with any answers of the schema service.

* A lookup asks the service for nothing but the last segment of its reference.
* At most one fetch of an id succeeds.
* Every lookup that succeeds returns the configuration that has been fetched for the last segment of
  its reference.
* A lookup fails only with the error of the fetch that it has made itself.
* A fetch that fails leaves the cache as it is.
* A lookup that has its turn returns what has been fetched for its id, or asks for it if no fetch
  has succeeded yet, however many have failed. -/
theorem concurrent_lookups_coherent {σ : Type} [Log.Journal σ]
    (fetch : String → σ → Except BrokerError SchemaConfig × σ) (world : σ)
    (steps : List (LookupStep σ)) :
    let s := run fetch steps { world }
    (∀ l ∈ s.lookups, ∀ id, l.asked = some id → IsLastSegment id l.reference) ∧
    (∀ (n m : Nat) (l l' : Lookup) (id : String) (config config' : SchemaConfig),
      s.lookups[n]? = some l → s.lookups[m]? = some l' →
        l.Fetched id config → l'.Fetched id config' → n = m) ∧
    (∀ l ∈ s.lookups, ∀ config, l.result = some (.ok config) →
      ∃ l' ∈ s.lookups, ∃ id, IsLastSegment id l.reference ∧ l'.Fetched id config) ∧
    (∀ l ∈ s.lookups, ∀ e, l.result = some (.error e) →
      ∃ id error, l.asked = some id ∧ l.answer = some (.error error) ∧
        e = .schemaConfig error) ∧
    (∀ n l error, s.holder = some n → s.lookups[n]? = some l →
      (fetch l.id s.world).1 = .error error → (s.answer fetch).cache = s.cache) ∧
    ∀ n l id, s.holder = none → s.lookups[n]? = some l → l.isWaiting = true →
      IsLastSegment id l.reference →
      (∀ config, (∃ l' ∈ s.lookups, l'.Fetched id config) →
        (s.enter n).lookups[n]? = some { l with result := some (.ok config) }) ∧
      ((∀ l' ∈ s.lookups, ∀ config, ¬ l'.Fetched id config) →
        (s.enter n).lookups[n]? = some { l with asked := some id } ∧
          (s.enter n).holder = some n) := by
  intro s
  have h : s.Coherent := (Coherent.empty world).run fetch steps
  refine ⟨fun l hl id hid => ?_, h.once, fun l hl config hr => ?_, fun l hl e hr => ?_,
    fun n l error hs hl ha => ?_, fun n l id hs hl hw hid => ?_⟩
  · exact isLastSegment_iff.mpr ((h.sound l hl).asked id hid)
  · obtain ⟨l', hl', hf⟩ := h.fetched _ _ ((h.sound l hl).found config hr)
    exact ⟨l', hl', l.id, isLastSegment_iff.mpr rfl, hf⟩
  · obtain ⟨error, hanswer, rfl⟩ := (h.sound l hl).failed e hr
    obtain ⟨id, hasked⟩ := Option.isSome_iff_exists.mp
      ((h.sound l hl).answered (by rw [hanswer]; rfl))
    exact ⟨id, error, hasked, hanswer, rfl⟩
  · rw [answer_of_holder hs hl (Prod.ext ha rfl)]
    rfl
  · obtain rfl : id = l.id := isLastSegment_iff.mp hid
    have hlt := (List.getElem?_eq_some_iff.mp hl).1
    refine ⟨fun config ⟨l', hl', hf⟩ => ?_, fun hnone => ?_⟩
    · have hc := (h.sound l' hl').find?_of_fetched hf
      rw [enter_of_found hs hl hw hc]
      exact List.getElem?_set_self hlt
    · have hc : Table.find? s.cache l.id = none := by
        cases hc : Table.find? s.cache l.id with
        | none => rfl
        | some config =>
          obtain ⟨l', hl', hf⟩ := h.fetched _ _ hc
          exact absurd hf (hnone l' hl' config)
      rw [enter_of_new hs hl hw hc]
      exact ⟨List.getElem?_set_self hlt, rfl⟩

/-- A schema service that fails as long as nothing has been noted. -/
def lateSchemas (id : String) (log : List Log.Entry) :
    Except BrokerError SchemaConfig × List Log.Entry :=
  if log.isEmpty then (.error (.missing .schema id), log)
  else (.ok { name := id, kind := .avro, definition := "\"int\"" }, log)

/-- Three lookups of one schema: the second has its turn first and is failed, the first one fetches
again while the third one tries to get in, and then the third one has its turn. -/
def retriedSteps : List (LookupStep (List Log.Entry)) :=
  [.call "p/s", .call "s", .call "q/s", .enter 1, .enter 0, .answer,
    .outside (Log.note ⟨.info, "", "created", []⟩), .enter 0, .enter 2, .answer, .enter 2]

/-- The third lookup returns what the first one has fetched. -/
theorem concurrent_lookups_coherent_retried :
    let s := Lookups.run lateSchemas retriedSteps { world := [] }
    s.lookups.map (·.asked) = [some "s", some "s", none] ∧
      s.lookups.map (·.answer) =
        [some (.ok ⟨"s", .avro, "\"int\""⟩), some (.error (.missing .schema "s")), none] ∧
      ∃ l ∈ s.lookups, ∃ id, IsLastSegment id "q/s" ∧ l.Fetched id ⟨"s", .avro, "\"int\""⟩ := by
  intro s
  obtain ⟨-, -, hfound, -⟩ := concurrent_lookups_coherent lateSchemas [] retriedSteps
  have hthird : s.lookups[2]? =
      some { reference := "q/s", result := some (.ok ⟨"s", .avro, "\"int\""⟩) } := rfl
  exact ⟨rfl, rfl, hfound _ (List.mem_of_getElem? hthird) _ rfl⟩

end Messaging
