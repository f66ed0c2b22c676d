import Messaging.Proofs.Broker.Retained
import Messaging.Proofs.Broker.Spared
import Messaging.Proofs.Service.Callers

/-! # Publishes that do not influence each other

Whoever comes between the steps of a caller, a caller that has the lock of a topic finds the handle
as it has set it, and once it has recorded its options they are recorded (`Caller.InOrder`). One
step of a caller keeps this for itself (`CallerTurn.inOrder`), and for the others because it only
changes the topic and the emulator while it has the lock (`CallerTurn.unchanged`); so it holds in
any run (`Callers.Orderly.run`). Therefore the handle lets every message through, and what is stored
is what its own caller asked for (`publishes_apart`). -/

namespace Messaging

variable {σ : Type}

/-! ### A topic that is ready -/

/-- The store after a topic has accepted a message: every subscription to the topic has it. -/
def Store.accept (topicId : String) (content : OutgoingMessage) (s : Store) : Store :=
  { s with
    queues := fanOut topicId { id := Text.natural s.nextMessage, content } s.queues
    nextMessage := s.nextMessage + 1 }

namespace Emulator

variable {e : Emulator σ} {t : Topic} {n : Nat} {id : String} {settings : PublishSettings}
  {ordering : Bool}

/-- A topic can be published to: its handle is open for it and not stopped, it exists, and no
reactor rejects a publish, whatever the reactors remember. -/
structure Ready (t : Topic) (e : Emulator σ) : Prop where
  serves : e.serves t.handle t.id
  topic : e.store.topics.contains (e.nameOf .topic t.id) = true
  admits : ∀ name ids world,
    (Reactor.offer (.publish name ids) (Reactor.chain "Publish" e.reactors) world).1 = none

/-- A handle that is not stopped publishes to a topic, under settings, with ordering or without. -/
def Sets (n : Nat) (id : String) (settings : PublishSettings) (ordering : Bool) (e : Emulator σ) :
    Prop :=
  e.handles[n]? = some { id, settings, ordering, stopped := false }

/-- A handle that allows ordering for a key lets the message through. -/
theorem Sets.destination (h : e.Sets n id settings ordering) {content : OutgoingMessage}
    (hordering : content.orderingKey ≠ "" → ordering = true) :
    e.destination n content = .ok id := by
  have hhandle : e.handles[n]? = some { id, settings, ordering, stopped := false } := h
  have hrefuses : refuses { id, settings, ordering, stopped := false } content = false := by
    simp only [refuses, Bool.false_or, decide_eq_false_iff_not]
    rintro ⟨hkey, hoff⟩
    exact absurd (hordering hkey) (by simp [hoff])
  simp only [Emulator.destination, hhandle, hrefuses, Bool.false_eq_true, if_false]

theorem Ready.sets (h : e.Ready t) (settings : PublishSettings) (ordering : Bool) :
    (e.configure t.handle settings ordering).Sets t.handle t.id settings ordering := by
  obtain ⟨handle, hhandle, hid, hstopped⟩ := h.serves
  simp [Sets, configure, hhandle, hid, hstopped]

theorem Ready.configure (h : e.Ready t) (n : Nat) (settings : PublishSettings) (ordering : Bool) :
    (e.configure n settings ordering).Ready t where
  serves := h.serves.steady (configure_steady n settings ordering e)
  topic := h.topic
  admits := h.admits

theorem Ready.note [Log.Journal σ] (h : e.Ready t) (entry : Log.Entry) :
    (Log.note entry e).Ready t :=
  ⟨h.serves, h.topic, h.admits⟩

/-- A topic that can be published to accepts every message. -/
theorem Ready.publish (h : e.Ready t) (content : OutgoingMessage) :
    ∃ world, e.publish t.id content =
      (.ok (Text.natural e.store.nextMessage),
        { e with world, store := e.store.accept t.id content }) := by
  have haccepts : ({ e with store := { e.store with nextMessage := e.store.nextMessage + 1 } } :
      Emulator σ).accepts (e.publishRequest t.id) = true :=
    Option.isNone_iff_eq_none.mpr (h.admits _ _ e.world)
  unfold Emulator.publish
  dsimp only
  rcases guarded_cases (e.publishRequest t.id) _ _ with ⟨hrejected, -⟩ | ⟨-, world, hserved⟩
  · cases haccepts.symm.trans hrejected
  · refine ⟨world, ?_⟩
    rw [show Request.publish (e.nameOf .topic t.id) [Text.natural e.store.nextMessage] =
      e.publishRequest t.id from rfl, hserved]
    simp only [served, Store.publish, h.topic, if_true]
    rfl

theorem Ready.published (h : e.Ready t) (content : OutgoingMessage) :
    (e.publish t.id content).2.Ready t := by
  obtain ⟨world, hpublish⟩ := h.publish content
  rw [hpublish]
  exact ⟨h.serves, h.topic, h.admits⟩

end Emulator

/-- A topic stays ready if others spare its handle. -/
theorem Emulator.Ready.outside [Log.Journal σ] {e : Emulator σ} {t : Topic} (h : e.Ready t)
    {c : Call σ} (hc : c.spares t.handle = true) : (c.run e).Ready t where
  serves := by
    obtain ⟨handle, hhandle, hid, hstopped⟩ := h.serves
    exact ⟨handle, c.handle_run hc hhandle, hid, hstopped⟩
  topic := by
    have hretains := c.retains e
    obtain ⟨config, hconfig⟩ := Option.isSome_iff_exists.mp h.topic
    rw [Table.contains, hretains.nameOf, hretains.topics _ _ hconfig]
    rfl
  admits name ids world := by
    rw [c.reactors_run, Call.added?_of_spares hc, Option.toList_none, List.append_nil]
    exact h.admits name ids world

/-! ### Callers that take turns -/

namespace Caller

/-- Is the caller as it should be in its phase? From when it has set the handle until it gives the
lock back, the handle is as it has set it; once it has recorded its options, they are recorded. -/
def InOrder (t : Topic) (s : SharedTopic σ) (a : Caller) : Prop :=
  let sets := s.emulator.Sets t.handle t.id a.settings a.message.ordered
  let records := s.topic.settings = a.settings ∧ s.topic.message = a.message
  match a.phase with
  | .called => True
  | .waiting data | .locked data => a.encode t.codec = .ok data
  | .configured data => a.encode t.codec = .ok data ∧ sets
  | .recorded data => a.encode t.codec = .ok (some data) ∧ sets ∧ records
  | .admitted id data => a.encode t.codec = .ok (some data) ∧ sets ∧ records ∧ id = t.id
  | .returned answer => a.Told t.codec answer

variable {t : Topic} {s s' : SharedTopic σ} {a : Caller}

/-- Without the lock it does not matter how the handle and the options are. -/
theorem InOrder.of_not_holds (h : a.InOrder t s) (ha : a.phase.holds = false) : a.InOrder t s' := by
  unfold InOrder at h ⊢
  cases hphase : a.phase with
  | called => trivial
  | waiting data => simpa only [hphase] using h
  | returned answer => simpa only [hphase] using h
  | locked | configured | recorded | admitted =>
    rw [hphase] at ha
    cases ha

theorem InOrder.congr (h : a.InOrder t s) (htopic : s'.topic = s.topic)
    (hsets : ∀ settings ordering, s.emulator.Sets t.handle t.id settings ordering →
      s'.emulator.Sets t.handle t.id settings ordering) : a.InOrder t s' := by
  unfold InOrder at h ⊢
  cases hphase : a.phase with
  | called => trivial
  | waiting data => simpa only [hphase] using h
  | locked data => simpa only [hphase] using h
  | returned answer => simpa only [hphase] using h
  | configured data =>
    simp only [hphase] at h
    exact ⟨h.1, hsets _ _ h.2⟩
  | recorded data =>
    simp only [hphase] at h
    exact ⟨h.1, hsets _ _ h.2.1, by rw [htopic]; exact h.2.2⟩
  | admitted id data =>
    simp only [hphase] at h
    exact ⟨h.1, hsets _ _ h.2.1, by rw [htopic]; exact h.2.2.1, h.2.2.2⟩

end Caller

namespace SharedTopic

variable {s s' : SharedTopic σ} {n : Nat} {a : Caller} {t : Topic} {phase : CallerPhase}

/-- The topic is the given one but for its options, and can be published to. -/
structure Ready (t : Topic) (s : SharedTopic σ) : Prop where
  handle : s.topic.handle = t.handle
  codec : s.topic.codec = t.codec
  emulator : s.emulator.Ready t

variable [Log.Journal σ]

/-- The handle lets the message of a caller through that has set it. -/
theorem Ready.destination (h : s.Ready t)
    (hsets : s.emulator.Sets t.handle t.id a.settings a.message.ordered) (data : Bytes) :
    (s.announce data).emulator.destination s.topic.handle (a.content data) = .ok t.id := by
  rw [h.handle]
  exact Emulator.Sets.destination hsets Caller.ordered_of_key

end SharedTopic

namespace CallerTurn

variable [Log.Journal σ] {s s' : SharedTopic σ} {n : Nat} {a : Caller} {t : Topic}
  {phase : CallerPhase}

/-- A caller that goes on leaves the topic ready. -/
theorem ready (hturn : CallerTurn n a s phase s') (h : s.Ready t) (ha : a.InOrder t s) :
    s'.Ready t := by
  cases hturn with
  | failed | encoded | blocked | returned => exact h
  | locked | applied | recorded => exact ⟨h.handle, h.codec, h.emulator⟩
  | configured => exact ⟨h.handle, h.codec, h.emulator.configure _ _ _⟩
  | refused | admitted => exact ⟨h.handle, h.codec, h.emulator.note _⟩
  | submitted hphase =>
    unfold Caller.InOrder at ha
    simp only [hphase] at ha
    obtain ⟨-, -, -, rfl⟩ := ha
    exact ⟨h.handle, h.codec, h.emulator.published _⟩

/-- A caller that goes on is as it should be again. -/
theorem inOrder (hturn : CallerTurn n a s phase s') (h : s.Ready t) (ha : a.InOrder t s) :
    Caller.InOrder t s' { a with phase } := by
  cases hturn with
  | blocked | returned => exact ha
  | failed hphase encode =>
    rw [h.codec] at encode
    show Caller.Told t.codec _ _
    rw [Caller.Told, Caller.encode_phase, encode]
  | encoded hphase encode =>
    rw [h.codec] at encode
    exact encode
  | locked hphase free =>
    unfold Caller.InOrder at ha
    simp only [hphase] at ha
    exact ha
  | configured hphase =>
    unfold Caller.InOrder at ha
    simp only [hphase] at ha
    have hsets := h.emulator.sets a.settings a.message.ordered
    rw [← h.handle] at hsets
    exact ⟨ha, by rw [← h.handle]; exact hsets⟩
  | applied hphase =>
    unfold Caller.InOrder at ha
    simp only [hphase] at ha
    show Caller.Told t.codec _ _
    rw [Caller.Told, Caller.encode_phase, ha.1]
    rfl
  | recorded hphase =>
    unfold Caller.InOrder at ha
    simp only [hphase] at ha
    exact ⟨ha.1, ha.2, rfl, rfl⟩
  | refused hphase hsent =>
    unfold Caller.InOrder at ha
    simp only [hphase] at ha
    cases hsent.symm.trans (h.destination ha.2.1 _)
  | admitted hphase hsent =>
    unfold Caller.InOrder at ha
    simp only [hphase] at ha
    cases hsent.symm.trans (h.destination ha.2.1 _)
    exact ⟨ha.1, ha.2.1, ha.2.2, rfl⟩
  | submitted hphase =>
    unfold Caller.InOrder at ha
    simp only [hphase] at ha
    obtain ⟨hencode, -, -, rfl⟩ := ha
    obtain ⟨world, hpublish⟩ := h.emulator.publish (a.content _)
    show Caller.Told t.codec _ _
    rw [Caller.Told, Caller.encode_phase, hencode, hpublish]
    exact ⟨_, rfl⟩

/-- Whose turn it is has the lock just if its phase says so, if that is so before. -/
theorem holder (hturn : CallerTurn n a s phase s') (h : s.holder = some n ↔ a.phase.holds = true) :
    s'.holder = some n ↔ phase.holds = true := by
  cases hturn with
  | blocked | returned => exact h
  | failed hphase | encoded hphase | configured hphase | recorded hphase | admitted hphase =>
    rw [hphase] at h
    exact h
  | locked => exact iff_of_true rfl rfl
  | applied | refused | submitted => exact iff_of_false nofun nofun

/-- A caller whose turn it is takes the lock from no other. -/
theorem holder_ne (hturn : CallerTurn n a s phase s') (h : s.holder = some n ↔ a.phase.holds = true)
    {m : Nat} (hm : m ≠ n) : s'.holder = some m ↔ s.holder = some m := by
  cases hturn with
  | blocked | returned | failed | encoded | configured | recorded | admitted => exact .rfl
  | locked hphase free =>
    rw [free]
    simp [hm.symm]
  | applied hphase | refused hphase | submitted hphase =>
    have hheld : s.holder = some n := h.mpr (by rw [hphase]; rfl)
    rw [hheld]
    simp [SharedTopic.release, hm.symm]

/-- Without the lock a caller changes neither the topic nor the emulator. -/
theorem unchanged (hturn : CallerTurn n a s phase s') (ha : a.phase.holds = false) :
    s'.topic = s.topic ∧ s'.emulator = s.emulator := by
  cases hturn with
  | blocked | returned | failed | encoded | locked => exact ⟨rfl, rfl⟩
  | configured hphase | applied hphase | recorded hphase | refused hphase | admitted hphase
  | submitted hphase =>
    rw [hphase] at ha
    cases ha

end CallerTurn

namespace Callers

variable {s s' : Callers σ} {n : Nat} {a : Caller} {t : Topic}

/-- The topic can be published to, just the caller that has the lock is in a phase with it, and
every caller is as it should be. -/
structure Orderly (t : Topic) (s : Callers σ) : Prop where
  ready : s.toSharedTopic.Ready t
  lock : ∀ n, s.holder = some n ↔ ∃ a : Caller, s.callers[n]? = some a ∧ a.phase.holds = true
  caller : ∀ a ∈ s.callers, a.InOrder t s.toSharedTopic

namespace Orderly

theorem start {e : Emulator σ} (h : e.Ready t) : Orderly t { topic := t, emulator := e } where
  ready := ⟨rfl, rfl, h⟩
  lock n := by simp
  caller a ha := absurd ha List.not_mem_nil

theorem holds (h : s.Orderly t) (ha : s.callers[n]? = some a) :
    s.holder = some n ↔ a.phase.holds = true := by
  rw [h.lock, ha]
  simp

theorem call (h : s.Orderly t) (options : PublishOptions) (payload : Option Payload) :
    Orderly t { s with callers := s.callers ++ [{ options, payload }] } where
  ready := h.ready
  lock m := by
    rw [h.lock]
    constructor
    · rintro ⟨b, hb, hholds⟩
      have hlt := (List.getElem?_eq_some_iff.mp hb).1
      exact ⟨b, by rw [List.getElem?_append_left hlt, hb], hholds⟩
    · rintro ⟨b, hb, hholds⟩
      rw [List.getElem?_append] at hb
      split at hb
      · exact ⟨b, hb, hholds⟩
      · rw [List.mem_singleton.mp (List.mem_of_getElem? hb)] at hholds
        cases hholds
  caller b hb := by
    rcases List.mem_append.mp hb with hb | hb
    · exact h.caller b hb
    · rw [List.mem_singleton.mp hb]
      trivial

variable [Log.Journal σ]

theorem outside (h : s.Orderly t) {c : Call σ} (hc : c.spares t.handle = true) :
    Orderly t { s with emulator := c.run s.emulator } where
  ready := ⟨h.ready.handle, h.ready.codec, h.ready.emulator.outside hc⟩
  lock := h.lock
  caller b hb := (h.caller b hb).congr rfl fun _ _ hsets => c.handle_run hc hsets

/-- Whoever goes on, the callers stay in order: only the one that has the lock changes the topic or
the emulator. -/
theorem resume (h : s.Orderly t) (n : Nat) : (s.resume n).Orderly t := by
  cases ha : s.callers[n]? with
  | none => simpa only [Callers.resume, ha] using h
  | some a =>
    have hturn := a.turn n s.toSharedTopic
    have hinOrder := h.caller a (List.mem_of_getElem? ha)
    have hself := getElem?_resume ha
    have hothers := @getElem?_resume_ne _ _ s n
    have hshared : (s.resume n).toSharedTopic = (a.next n s.toSharedTopic).2 := by rw [resume_eq ha]
    refine ⟨?_, fun m => ?_, fun b hb => ?_⟩
    · rw [hshared]
      exact hturn.ready h.ready hinOrder
    · rw [hshared]
      by_cases hm : m = n
      · rw [hm, hself, hturn.holder (h.holds ha)]
        simp
      · rw [hothers hm, hturn.holder_ne (h.holds ha) hm, h.lock]
    · rw [hshared]
      obtain ⟨m, hb⟩ := List.getElem?_of_mem hb
      by_cases hm : m = n
      · rw [hm, hself] at hb
        cases hb
        exact hturn.inOrder h.ready hinOrder
      · rw [hothers hm] at hb
        have hinOrder' := h.caller b (List.mem_of_getElem? hb)
        by_cases hheld : s.holder = some n
        · refine hinOrder'.of_not_holds (Bool.eq_false_iff.mpr fun hholds => ?_)
          rw [← h.holds hb, hheld] at hholds
          exact hm (Option.some.inj hholds).symm
        · have hsame := hturn.unchanged (Bool.eq_false_iff.mpr fun hholds =>
            hheld ((h.holds ha).mpr hholds))
          exact hinOrder'.congr hsame.1 fun _ _ hsets => by rw [hsame.2]; exact hsets

theorem resumes (h : s.Orderly t) (turns : List Nat) : (s.resumes turns).Orderly t := by
  induction turns generalizing s with
  | nil => exact h
  | cons n rest ih => exact ih (h.resume n)

/-- In any run, callers stay in order as long as others spare the handle. -/
theorem run (h : s.Orderly t) {steps : List (CallerStep σ)}
    (hsteps : ∀ c, .outside c ∈ steps → c.spares t.handle = true) :
    (Callers.run steps s).Orderly t := by
  induction steps generalizing s with
  | nil => exact h
  | cons step rest ih =>
    have hrest : ∀ c, .outside c ∈ rest → c.spares t.handle = true :=
      fun c hc => hsteps c (List.mem_cons_of_mem _ hc)
    cases step with
    | call options payload => exact ih (h.call options payload) hrest
    | resume n => exact ih (h.resume n) hrest
    | outside c => exact ih (h.outside (hsteps c List.mem_cons_self)) hrest

end Orderly

end Callers

/-! ### What a call does -/

/-- A call is completed: its options are those of the topic and of its handle, and its message, if
it has one, is with every subscription to the topic. -/
structure Caller.Completed (t : Topic) (a : Caller) (data : Option Bytes)
    (s s' : SharedTopic σ) : Prop where
  settings : s'.topic.settings = a.settings
  message : s'.topic.message = a.message
  handle : s'.emulator.Sets t.handle t.id a.settings a.message.ordered
  store : s'.emulator.store =
    match data with
    | none => s.emulator.store
    | some data => s.emulator.store.accept t.id (a.content data)

namespace CallerTurn

variable [Log.Journal σ] {s s' : SharedTopic σ} {n : Nat} {a : Caller} {t : Topic}
  {phase : CallerPhase}

/-- A caller whose payload does not encode changes nothing. -/
theorem of_error (hturn : CallerTurn n a s phase s') (ha : a.InOrder t s) {e : ServiceError}
    (he : a.encode t.codec = .error e) : s'.topic = s.topic ∧ s'.emulator = s.emulator := by
  refine hturn.unchanged (Bool.eq_false_iff.mpr fun hholds => ?_)
  have hnever : ∀ {data : Option Bytes}, a.encode t.codec ≠ .ok data := by
    intro data hdata
    rw [he] at hdata
    cases hdata
  unfold Caller.InOrder at ha
  cases hphase : a.phase with
  | called | waiting | returned =>
    rw [hphase] at hholds
    cases hholds
  | locked =>
    simp only [hphase] at ha
    exact hnever ha
  | configured | recorded | admitted =>
    simp only [hphase] at ha
    exact hnever ha.1

/-- A caller that goes on without returning stores nothing, and one that returns has completed its
call. -/
theorem of_ok (hturn : CallerTurn n a s phase s') (h : s.Ready t) (ha : a.InOrder t s)
    {data : Option Bytes} (hdata : a.encode t.codec = .ok data) (hunanswered : a.answer? = none) :
    (Caller.answer? { a with phase } = none ∧ s'.emulator.store = s.emulator.store) ∨
      (∃ answer, phase = .returned answer) ∧ Caller.Completed t a data s s' := by
  unfold Caller.InOrder at ha
  cases hturn with
  | failed hphase encode =>
    rw [h.codec, hdata] at encode
    cases encode
  | encoded | locked | configured | recorded | admitted => exact .inl ⟨rfl, rfl⟩
  | blocked => exact .inl ⟨hunanswered, rfl⟩
  | returned hphase =>
    rw [Caller.answer?, hphase] at hunanswered
    cases hunanswered
  | refused hphase hsent =>
    simp only [hphase] at ha
    cases hsent.symm.trans (h.destination ha.2.1 _)
  | applied hphase =>
    simp only [hphase] at ha
    cases hdata.symm.trans ha.1
    exact .inr ⟨⟨_, rfl⟩, rfl, rfl, ha.2, rfl⟩
  | submitted hphase =>
    simp only [hphase] at ha
    obtain ⟨hencode, hsets, ⟨hsettings, hmessage⟩, rfl⟩ := ha
    cases hdata.symm.trans hencode
    refine .inr ⟨⟨_, rfl⟩, hsettings, hmessage, ?_, ?_⟩
    · exact (congrArg (·[t.handle]?) (Emulator.publish_handles t.id (a.content _) s.emulator)).trans
        hsets
    · obtain ⟨world, hpublish⟩ := h.emulator.publish (a.content _)
      show (s.emulator.publish t.id (a.content _)).2.store = _
      rw [hpublish]

end CallerTurn

/-! ### Every call returns -/

/-- A caller that does not have to wait for others gets further. -/
theorem CallerTurn.left_lt [Log.Journal σ] {s s' : SharedTopic σ} {n : Nat} {a : Caller}
    {phase : CallerPhase} (hturn : CallerTurn n a s phase s')
    (h : s.holder = some n ↔ a.phase.holds = true)
    (hfree : s.holder = none ∨ s.holder = some n) (hleft : a.phase.left ≠ 0) :
    phase.left < a.phase.left ∧ (s'.holder = none ∨ s'.holder = some n) := by
  cases hturn with
  | returned hphase => exact absurd (by rw [hphase]; rfl) hleft
  | blocked hphase held =>
    rw [held] at hfree
    have hn : s.holder = some n := held.trans (hfree.resolve_left nofun)
    rw [hphase] at h
    cases h.mp hn
  | locked hphase => exact ⟨by rw [hphase]; simp [CallerPhase.left], .inr rfl⟩
  | applied hphase | refused hphase | submitted hphase =>
    exact ⟨by rw [hphase]; simp [CallerPhase.left], .inl rfl⟩
  | failed hphase | encoded hphase | configured hphase | recorded hphase | admitted hphase =>
    exact ⟨by rw [hphase]; simp [CallerPhase.left], hfree⟩

namespace Callers

variable [Log.Journal σ] {s : Callers σ} {n : Nat} {a : Caller} {t : Topic}

/-- A caller returns, if nobody else gets between, and then the lock is free. -/
theorem Orderly.finish (h : s.Orderly t) (ha : s.callers[n]? = some a)
    (hfree : s.holder = none ∨ s.holder = some n) :
    ∃ turns answer, (s.resumes turns).callers[n]? = some { a with phase := .returned answer } ∧
      (s.resumes turns).holder = none ∧
      ∀ m ≠ n, (s.resumes turns).callers[m]? = s.callers[m]? := by
  induction hleft : a.phase.left using Nat.strongRecOn generalizing s a with
  | _ left ih =>
    have hholds := h.holds ha
    by_cases hzero : a.phase.left = 0
    · cases hphase : a.phase with
      | returned answer =>
        have hheld : s.holder ≠ some n := by
          intro hheld
          have hlock := hholds.mp hheld
          rw [hphase] at hlock
          cases hlock
        refine ⟨[], answer, ?_, hfree.resolve_right hheld, fun _ _ => rfl⟩
        rw [← hphase]
        exact ha
      | _ =>
        rw [hphase] at hzero
        cases hzero
    · obtain ⟨hlt, hfree'⟩ := (a.turn n s.toSharedTopic).left_lt hholds hfree hzero
      have hshared : (s.resume n).holder = (a.next n s.toSharedTopic).2.holder := by
        rw [resume_eq ha]
      rw [← hshared] at hfree'
      obtain ⟨turns, answer, hreturned, hback, hothers⟩ :=
        ih _ (hleft ▸ hlt) (h.resume n) (getElem?_resume ha) hfree' rfl
      exact ⟨n :: turns, answer, hreturned, hback, fun m hm =>
        (hothers m hm).trans (getElem?_resume_ne hm)⟩

/-- Every caller returns once the one that has the lock and then itself have gone on. -/
theorem Orderly.exists_returned (h : s.Orderly t) (ha : s.callers[n]? = some a) :
    ∃ turns answer,
      (s.resumes turns).callers[n]? = some { a with phase := .returned answer } := by
  by_cases hfree : s.holder = none ∨ s.holder = some n
  · obtain ⟨turns, answer, hreturned, -⟩ := h.finish ha hfree
    exact ⟨turns, answer, hreturned⟩
  · obtain ⟨m, hm⟩ := Option.ne_none_iff_exists'.mp fun hnone => hfree (.inl hnone)
    obtain ⟨b, hb, -⟩ := (h.lock m).mp hm
    have hne : n ≠ m := by
      rintro rfl
      exact hfree (.inr hm)
    obtain ⟨turns, -, -, hback, hothers⟩ := h.finish hb (.inr hm)
    obtain ⟨more, answer, hreturned, -⟩ :=
      (h.resumes turns).finish ((hothers n hne).trans ha) (.inl hback)
    exact ⟨turns ++ more, answer, by rw [resumes_append]; exact hreturned⟩

end Callers

/-- **Publishes on one topic do not influence each other.** Let a topic be ready: its handle is open
for it and not stopped, it exists, and no reactor rejects a publish. Let any number of callers
publish through it or set its options, beside each other, and others call the emulator without
touching the handle. At any time, for every caller:

* What it has been told, if it has returned, is what it has to be told. So a message is accepted,
  with a key or without, if its payload encodes.
* It returns, if the one that has the lock and then itself go on.
* If its payload does not encode, it leaves the topic and the emulator as they are.
* Otherwise it stores nothing until it returns. When it returns, its options over the defaults are
  those of the topic and of the handle, and every subscription to the topic has got its message,
  with the key and the attributes of its own options. -/
theorem publishes_apart [Log.Journal σ] {t : Topic} {e : Emulator σ} (h : e.Ready t)
    {steps : List (CallerStep σ)} (hsteps : ∀ c, .outside c ∈ steps → c.spares t.handle = true) :
    let s := Callers.run steps { topic := t, emulator := e }
    ∀ (n : Nat) (a : Caller), s.callers[n]? = some a →
      (∀ answer, a.answer? = some answer → a.Told t.codec answer) ∧
      (∃ turns answer,
        (s.resumes turns).callers[n]? = some { a with phase := .returned answer }) ∧
      (∀ error, a.encode t.codec = .error error →
        (s.resume n).topic = s.topic ∧ (s.resume n).emulator = s.emulator) ∧
      ∀ data, a.encode t.codec = .ok data → a.answer? = none →
        ∃ phase, (s.resume n).callers[n]? = some { a with phase } ∧
          ((Caller.answer? { a with phase } = none ∧
              (s.resume n).emulator.store = s.emulator.store) ∨
            (∃ answer, phase = .returned answer) ∧
              Caller.Completed t a data s.toSharedTopic (s.resume n).toSharedTopic) := by
  intro s n a ha
  have horder : s.Orderly t := (Callers.Orderly.start h).run hsteps
  have hinOrder := horder.caller a (List.mem_of_getElem? ha)
  have hturn := a.turn n s.toSharedTopic
  have hshared : (s.resume n).toSharedTopic = (a.next n s.toSharedTopic).2 := by
    rw [Callers.resume_eq ha]
  refine ⟨fun answer hanswer => ?_, horder.exists_returned ha, fun error he => ?_,
    fun data hdata hunanswered => ⟨_, Callers.getElem?_resume ha, ?_⟩⟩
  · unfold Caller.InOrder at hinOrder
    unfold Caller.answer? at hanswer
    split at hanswer
    · next phase =>
      cases hanswer
      simpa only [phase] using hinOrder
    · cases hanswer
  · rw [hshared]
    exact hturn.of_error hinOrder he
  · rw [hshared]
    exact hturn.of_ok horder.ready hinOrder hdata hunanswered

/-- A topic for integers, with a subscription to it. -/
def numbersBroker : Emulator (List Log.Entry) :=
  let e : Emulator (List Log.Entry) := { project := "p", world := [], reactors := [.log] }
  let e := (e.createTopic "numbers" {}).2
  let e := (e.createSubscription "sums" { topic := "numbers" }).2
  (e.openTopic "numbers").2

/-- The topic for integers. -/
def numbers : Topic := { id := "numbers", handle := 0, codec := .avroBinary .int [] }

theorem numbersBroker_ready : numbersBroker.Ready numbers where
  serves := ⟨_, rfl, rfl, rfl⟩
  topic := by decide
  admits _ _ _ := rfl

/-- One integer goes out under a key while another without a key has the lock; a text does not
encode, and in between the subscription is received from. -/
def numbersSteps : List (CallerStep (List Log.Entry)) :=
  [.call { orderingKey := some "k" } (some (.record (.int 1))), .call {} (some (.record (.int 2))),
    .call {} (some (.text "three")), .resume 0, .resume 1, .resume 1, .resume 0, .resume 1,
    .resume 0, .resume 2, .resume 1, .resume 1, .resume 1, .resume 0,
    .outside (.lease "projects/p/subscriptions/sums"), .resume 0, .resume 0, .resume 0, .resume 0]

/-- The integer with a key is accepted, though ordering has been off for the one before it. -/
theorem publishes_apart_numbers :
    let s := Callers.run numbersSteps { topic := numbers, emulator := numbersBroker }
    (∃ a, s.callers[0]? = some a ∧ a.Told numbers.codec (.submitted (.ok "2"))) ∧
    (∃ a, s.callers[2]? = some a ∧ a.Told numbers.codec (.failed (.encode
      (.wrapped "cannot encode avro binary" (.text "payload is not a record"))))) ∧
    (s.emulator.store.queues.find? "projects/p/subscriptions/sums").map
      (fun q => (q.pending ++ q.outstanding.map Prod.snd).map fun m =>
        (m.id, m.content.orderingKey)) = some [("2", "k"), ("1", "")] := by
  intro s
  have hsteps : ∀ c, .outside c ∈ numbersSteps → c.spares numbers.handle = true := by
    intro c hc
    simp only [numbersSteps, List.mem_cons, List.not_mem_nil, or_false, reduceCtorEq, false_or,
      CallerStep.outside.injEq] at hc
    rw [hc]
    rfl
  have hapart := publishes_apart numbersBroker_ready hsteps
  obtain ⟨keyed, hkeyed, hfirst⟩ : ∃ a, s.callers[0]? = some a ∧
      a.answer? = some (.submitted (.ok "2")) := ⟨_, rfl, rfl⟩
  obtain ⟨text, htext, hthird⟩ : ∃ a, s.callers[2]? = some a ∧
      a.answer? = some (.failed (.encode
        (.wrapped "cannot encode avro binary" (.text "payload is not a record")))) := ⟨_, rfl, rfl⟩
  exact ⟨⟨keyed, hkeyed, (hapart 0 keyed hkeyed).1 _ hfirst⟩,
    ⟨text, htext, (hapart 2 text htext).1 _ hthird⟩, rfl⟩

end Messaging
