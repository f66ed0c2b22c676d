import Messaging.Proofs.Broker.Operations
import Messaging.Service.Topic

/-! # Callers of one topic

Any number of callers publish through one topic and set its options. A caller goes step by step, and
others come between any two of its steps: first it encodes its payload; then it waits for the lock
of the options; as soon as it has the lock, it sets the handle, records its options, lets the handle
look at the message, and publishes it. Only then it gives the lock back. `Callers` is the state of
all of them, over an emulator that others call as well.

A caller that nobody comes between is `Topic.publish` or `Topic.withOptions` (`alone_publish`,
`alone_withOptions`). `CallerTurn` is all that a caller can do when it goes on. -/

namespace Messaging

variable {σ : Type}

/-! ### One caller -/

/-- What a caller is told in the end. -/
inductive CallerAnswer where
  | failed (e : ServiceError)
  | submitted (result : Except BrokerError String)
  | applied (message : MessageSettings)

/-- How far a caller is. From when it waits for the lock it has its data, if it publishes any. -/
inductive CallerPhase where
  | called
  | waiting (data : Option Bytes)
  /-- It has the lock. -/
  | locked (data : Option Bytes)
  /-- It has set the handle. -/
  | configured (data : Option Bytes)
  /-- It has recorded its options. -/
  | recorded (data : Bytes)
  /-- The handle has let its message through to a topic. -/
  | admitted (topicId : String) (data : Bytes)
  | returned (answer : CallerAnswer)

namespace CallerPhase

/-- Does a caller have the lock? -/
def holds : CallerPhase → Bool
  | locked _ | configured _ | recorded _ | admitted _ _ => true
  | _ => false

/-- The number of steps that are left. -/
def left : CallerPhase → Nat
  | called => 6
  | waiting _ => 5
  | locked _ => 4
  | configured _ => 3
  | recorded _ => 2
  | admitted _ _ => 1
  | returned _ => 0

end CallerPhase

/-- A caller that sets the options of a topic, and publishes a payload under them if it has one. -/
structure Caller where
  options : PublishOptions
  payload : Option Payload := none
  phase : CallerPhase := .called

namespace Caller

/-- The settings that the caller asks for, its options over the defaults. -/
def settings (a : Caller) : PublishSettings := a.options.resolve.1

/-- What a message of the caller carries. -/
def message (a : Caller) : MessageSettings := a.options.resolve.2

/-- The message of the caller with its data. -/
def content (a : Caller) (data : Bytes) : OutgoingMessage :=
  { data, attributes := a.message.attributes, orderingKey := a.message.orderingKey }

/-- The data that the caller publishes, if it does. -/
def encode (codec : Codec) (a : Caller) : Except ServiceError (Option Bytes) :=
  match a.payload with
  | none => .ok none
  | some p =>
    match codec.encode p with
    | .error e => .error (.encode e)
    | .ok data => .ok (some data)

/-- What the caller has been told, if it has returned. -/
def answer? (a : Caller) : Option CallerAnswer :=
  match a.phase with
  | .returned answer => some answer
  | _ => none

/-- Is the caller told what it has to be told? A message is accepted. -/
def Told (codec : Codec) (a : Caller) (answer : CallerAnswer) : Prop :=
  match a.encode codec with
  | .error e => answer = .failed e
  | .ok none => answer = .applied a.message
  | .ok (some _) => ∃ id, answer = .submitted (.ok id)

theorem encode_phase (codec : Codec) (a : Caller) (phase : CallerPhase) :
    ({ a with phase } : Caller).encode codec = a.encode codec := rfl

/-- A caller asks for ordering if its message has a key. -/
theorem ordered_of_key {a : Caller} {data : Bytes} (h : (a.content data).orderingKey ≠ "") :
    a.message.ordered = true :=
  decide_eq_true h

end Caller

namespace Emulator

/-- The topic that a handle publishes a message to, if it lets it through. -/
def destination (n : Nat) (content : OutgoingMessage) (e : Emulator σ) :
    Except BrokerError String :=
  match e.handles[n]? with
  | none => .error (.ofText "the handle is not open")
  | some h =>
    if refuses h content then
      .error (if h.stopped then stoppedError (e.nameOf .topic h.id) else orderingError)
    else .ok h.id

/-- A message is published once the handle has let it through. -/
theorem submit_eq_destination (n : Nat) (content : OutgoingMessage) (e : Emulator σ) :
    e.submit n content =
      match e.destination n content with
      | .error error => (.error error, e)
      | .ok id => e.publish id content := by
  rw [submit_eq, destination]
  cases e.handles[n]? with
  | none => rfl
  | some h =>
    dsimp only
    split <;> rfl

end Emulator

/-! ### Callers beside each other -/

/-- What the callers of a topic share, over an emulator. -/
structure SharedTopic (σ : Type) where
  topic : Topic
  emulator : Emulator σ
  /-- The caller that has the lock of the options. -/
  holder : Option Nat := none

namespace SharedTopic

/-- The handle is set as a caller asks for. -/
def configure (a : Caller) (s : SharedTopic σ) : SharedTopic σ :=
  { s with emulator := s.emulator.configure s.topic.handle a.settings a.message.ordered }

/-- The options of a caller are recorded. -/
def record (a : Caller) (s : SharedTopic σ) : SharedTopic σ :=
  { s with topic := { s.topic with settings := a.settings, message := a.message } }

/-- It is noted that data is published. -/
def announce [Log.Journal σ] (data : Bytes) (s : SharedTopic σ) : SharedTopic σ :=
  { s with emulator := Log.note (s.topic.publishEntry data.length) s.emulator }

/-- A message is published to a topic. -/
def publish (id : String) (content : OutgoingMessage) (s : SharedTopic σ) : SharedTopic σ :=
  { s with emulator := (s.emulator.publish id content).2 }

/-- The lock is given back. -/
def release (s : SharedTopic σ) : SharedTopic σ := { s with holder := none }

end SharedTopic

/-- A caller of a number goes on by one step; it stays where it is as long as it has to wait for the
lock. -/
def Caller.next [Log.Journal σ] (n : Nat) (a : Caller) (s : SharedTopic σ) :
    CallerPhase × SharedTopic σ :=
  match a.phase with
  | .called =>
    match a.encode s.topic.codec with
    | .error e => (.returned (.failed e), s)
    | .ok data => (.waiting data, s)
  | .waiting data =>
    if s.holder.isNone then (.locked data, { s with holder := some n }) else (.waiting data, s)
  | .locked data => (.configured data, s.configure a)
  | .configured none => (.returned (.applied a.message), (s.record a).release)
  | .configured (some data) => (.recorded data, s.record a)
  | .recorded data =>
    let s := s.announce data
    match s.emulator.destination s.topic.handle (a.content data) with
    | .error error => (.returned (.submitted (.error error)), s.release)
    | .ok id => (.admitted id data, s)
  | .admitted id data =>
    (.returned (.submitted (s.emulator.publish id (a.content data)).1),
      (s.publish id (a.content data)).release)
  | .returned answer => (.returned answer, s)

/-- The callers of a topic with what they share. -/
structure Callers (σ : Type) extends SharedTopic σ where
  callers : List Caller := []

/-- Something that happens: there is a new caller, a caller goes on, or someone else calls the
emulator. -/
inductive CallerStep (σ : Type) where
  | call (options : PublishOptions) (payload : Option Payload)
  | resume (n : Nat)
  | outside (call : Call σ)

namespace Callers

variable [Log.Journal σ]

/-- A caller goes on by one step. -/
def resume (n : Nat) (s : Callers σ) : Callers σ :=
  match s.callers[n]? with
  | none => s
  | some a =>
    let (phase, shared) := a.next n s.toSharedTopic
    { toSharedTopic := shared, callers := s.callers.set n { a with phase } }

/-- The callers after a step. -/
def step (s : Callers σ) : CallerStep σ → Callers σ
  | .call options payload => { s with callers := s.callers ++ [{ options, payload }] }
  | .resume n => s.resume n
  | .outside call => { s with emulator := call.run s.emulator }

/-- The callers after steps, one after the other. -/
def run (steps : List (CallerStep σ)) (s : Callers σ) : Callers σ := steps.foldl step s

/-- The callers after some of them have gone on, in the order of a list. -/
def resumes (turns : List Nat) (s : Callers σ) : Callers σ := turns.foldl (fun s n => s.resume n) s

theorem resumes_append (turns more : List Nat) (s : Callers σ) :
    s.resumes (turns ++ more) = (s.resumes turns).resumes more :=
  List.foldl_append

variable {s : Callers σ} {n : Nat} {a : Caller}

theorem resume_eq (ha : s.callers[n]? = some a) :
    s.resume n =
      { toSharedTopic := (a.next n s.toSharedTopic).2
        callers := s.callers.set n { a with phase := (a.next n s.toSharedTopic).1 } } := by
  simp only [resume, ha]

theorem getElem?_resume (ha : s.callers[n]? = some a) :
    (s.resume n).callers[n]? = some { a with phase := (a.next n s.toSharedTopic).1 } := by
  rw [resume_eq ha]
  exact List.getElem?_set_self (List.getElem?_eq_some_iff.mp ha).1

theorem getElem?_resume_ne {m : Nat} (hm : m ≠ n) : (s.resume n).callers[m]? = s.callers[m]? := by
  unfold resume
  split
  · rfl
  · exact List.getElem?_set_ne hm.symm

end Callers

/-! ### A caller by itself -/

namespace Caller

variable [Log.Journal σ]

/-- A caller after some steps that nobody comes between. -/
def alone (n : Nat) : Nat → Caller → SharedTopic σ → Caller × SharedTopic σ
  | 0, a, s => (a, s)
  | k + 1, a, s =>
    let (phase, s) := a.next n s
    alone n k { a with phase } s

theorem alone_returned (n k : Nat) {a : Caller} {answer : CallerAnswer}
    (h : a.phase = .returned answer) (s : SharedTopic σ) : alone n k a s = (a, s) := by
  induction k with
  | zero => rfl
  | succ k ih =>
    have hnext : a.next n s = (a.phase, s) := by rw [next, h]
    rw [alone, hnext]
    exact ih

end Caller

/-- What the caller of a publish is told. -/
def CallerAnswer.ofPublish : Except ServiceError (Except BrokerError String) → CallerAnswer
  | .error e => .failed e
  | .ok result => .submitted result

section Alone

variable [Log.Journal σ] (n : Nat) (project : String) (options : PublishOptions) (s : SharedTopic σ)

/-- A caller that takes its turns one after the other takes them as if it were alone. -/
theorem Callers.resumes_replicate (k : Nat) {s : Callers σ} {n : Nat} {a : Caller}
    (ha : s.callers[n]? = some a) :
    s.resumes (List.replicate k n) =
      { toSharedTopic := (a.alone n k s.toSharedTopic).2
        callers := s.callers.set n (a.alone n k s.toSharedTopic).1 } := by
  induction k generalizing s a with
  | zero =>
    obtain ⟨hlt, rfl⟩ := List.getElem?_eq_some_iff.mp ha
    simp [resumes, Caller.alone]
  | succ k ih =>
    have hrest := ih (getElem?_resume ha)
    rw [resume_eq ha] at hrest
    rw [List.replicate_succ]
    show (s.resume n).resumes (List.replicate k n) = _
    rw [resume_eq ha, hrest, List.set_set]
    rfl

/-- A caller with a payload that nobody comes between publishes it. -/
theorem alone_publish (hfree : s.holder = none) (p : Payload) :
    let r := s.topic.publish (Emulator.client project) p options s.emulator
    Caller.alone n 6 { options, payload := some p } s =
      ({ options, payload := some p, phase := .returned (.ofPublish r.1) },
        { s with topic := r.2.1, emulator := r.2.2 }) := by
  intro r
  cases hencode : s.topic.codec.encode p with
  | error e =>
    have hr : r = (.error (.encode e), s.topic, s.emulator) := by
      simp only [r, Topic.publish, hencode]
    have hfirst : Caller.next n { options, payload := some p } s =
        (.returned (.failed (.encode e)), s) := by
      simp only [Caller.next, Caller.encode, hencode]
    rw [Caller.alone, hfirst, hr]
    exact Caller.alone_returned n 5 rfl s
  | ok data =>
    let a : Caller := { options, payload := some p }
    let s' := (({ s with holder := some n }.configure a).record a).announce data
    have hr : r = (.ok (s'.emulator.submit s.topic.handle (a.content data)).1, s'.topic,
        (s'.emulator.submit s.topic.handle (a.content data)).2) := by
      simp only [r, Topic.publish, hencode]
      rfl
    have hencoded : a.next n s = (.waiting (some data), s) := by
      simp only [a, Caller.next, Caller.encode, hencode]
    have hlocked : Caller.next n { a with phase := .waiting (some data) } s =
        (.locked (some data), { s with holder := some n }) := by
      simp only [Caller.next, hfree, Option.isNone_none, if_true]
    -- The handle is set and the options are recorded.
    have hrest : Caller.alone n 6 a s = Caller.alone n 2 { a with phase := .recorded data }
        (({ s with holder := some n }.configure a).record a) := by
      rw [Caller.alone, hencoded]
      dsimp only
      rw [Caller.alone, hlocked]
      rfl
    have hrecorded : Caller.next n { a with phase := .recorded data }
        (({ s with holder := some n }.configure a).record a) =
        match s'.emulator.destination s.topic.handle (a.content data) with
        | .error error => (.returned (.submitted (.error error)), s'.release)
        | .ok id => (.admitted id data, s') := rfl
    show Caller.alone n 6 a s = _
    rw [hrest, Caller.alone, hrecorded, hr, Emulator.submit_eq_destination]
    cases s'.emulator.destination s.topic.handle (a.content data) with
    | error error =>
      dsimp only
      rw [Caller.alone_returned n 1 rfl]
      simp only [SharedTopic.release, ← hfree]
      rfl
    | ok id =>
      simp only [Caller.alone, Caller.next, SharedTopic.release, ← hfree]
      rfl

/-- A caller without a payload that nobody comes between sets the options. -/
theorem alone_withOptions (hfree : s.holder = none) :
    let r := s.topic.withOptions (Emulator.client project) options s.emulator
    Caller.alone n 4 { options } s =
      ({ options, phase := .returned (.applied r.1.message) },
        { s with topic := r.1, emulator := r.2 }) := by
  intro r
  have hlocked : Caller.next n { options, phase := .waiting none } s =
      (.locked none, { s with holder := some n }) := by
    simp only [Caller.next, hfree, Option.isNone_none, if_true]
  rw [Caller.alone, show Caller.next n { options } s = (.waiting none, s) from rfl]
  dsimp only
  rw [Caller.alone, hlocked]
  simp only [Caller.alone, Caller.next, SharedTopic.release, hfree]
  rfl

end Alone

/-! ### What a step does -/

section Turns

variable [Log.Journal σ]

/-- All that can happen when a caller goes on. -/
inductive CallerTurn (n : Nat) (a : Caller) (s : SharedTopic σ) :
    CallerPhase → SharedTopic σ → Prop
  | failed {e : ServiceError} (phase : a.phase = .called)
      (encode : a.encode s.topic.codec = .error e) : CallerTurn n a s (.returned (.failed e)) s
  | encoded {data : Option Bytes} (phase : a.phase = .called)
      (encode : a.encode s.topic.codec = .ok data) : CallerTurn n a s (.waiting data) s
  | blocked {data : Option Bytes} {m : Nat} (phase : a.phase = .waiting data)
      (held : s.holder = some m) : CallerTurn n a s a.phase s
  | locked {data : Option Bytes} (phase : a.phase = .waiting data) (free : s.holder = none) :
      CallerTurn n a s (.locked data) { s with holder := some n }
  | configured {data : Option Bytes} (phase : a.phase = .locked data) :
      CallerTurn n a s (.configured data) (s.configure a)
  | applied (phase : a.phase = .configured none) :
      CallerTurn n a s (.returned (.applied a.message)) (s.record a).release
  | recorded {data : Bytes} (phase : a.phase = .configured (some data)) :
      CallerTurn n a s (.recorded data) (s.record a)
  | refused {data : Bytes} {error : BrokerError} (phase : a.phase = .recorded data)
      (sent : (s.announce data).emulator.destination s.topic.handle (a.content data) =
        .error error) :
      CallerTurn n a s (.returned (.submitted (.error error))) (s.announce data).release
  | admitted {data : Bytes} {id : String} (phase : a.phase = .recorded data)
      (sent : (s.announce data).emulator.destination s.topic.handle (a.content data) = .ok id) :
      CallerTurn n a s (.admitted id data) (s.announce data)
  | submitted {data : Bytes} {id : String} (phase : a.phase = .admitted id data) :
      CallerTurn n a s (.returned (.submitted (s.emulator.publish id (a.content data)).1))
        (s.publish id (a.content data)).release
  | returned {answer : CallerAnswer} (phase : a.phase = .returned answer) :
      CallerTurn n a s a.phase s

/-- A caller that goes on does one of these. -/
theorem Caller.turn (n : Nat) (a : Caller) (s : SharedTopic σ) :
    CallerTurn n a s (a.next n s).1 (a.next n s).2 := by
  unfold Caller.next
  cases hphase : a.phase with
  | called =>
    dsimp only
    split
    · next he => exact .failed hphase he
    · next he => exact .encoded hphase he
  | waiting data =>
    cases hheld : s.holder with
    | none => exact .locked hphase hheld
    | some m =>
      have hblocked := CallerTurn.blocked (n := n) hphase hheld
      rw [hphase] at hblocked
      exact hblocked
  | locked data => exact .configured hphase
  | configured data =>
    cases data with
    | none => exact .applied hphase
    | some data => exact .recorded hphase
  | recorded data =>
    dsimp only
    split
    · next he => exact .refused hphase he
    · next he => exact .admitted hphase he
  | admitted id data => exact .submitted hphase
  | returned answer =>
    have hreturned := CallerTurn.returned (n := n) (s := s) hphase
    rw [hphase] at hreturned
    exact hreturned

end Turns

end Messaging
