import Messaging.Proofs.Service.Within
import Messaging.Proofs.Table

/-! # Concurrent publishes

Any number of publishes run beside each other. A publish to a topic that is registered runs to the
end at once. Any other creates the topic: it waits for the configuration, for the lock of the cache
of schemas and for the schema, in this order, and then opens a handle, registers the topic and
publishes to it. `Publishings` is the state of all of them, and one after the other they are resumed
in any order.

A publish that nobody comes between is `Service.publish` (`Publishings.run_alone`). Two publishes
that create the same topic each publish through a handle of their own, but only the topic that was
registered last is there to be stopped (`stop_flushes_submitted_of_race`). `stop_flushes_submitted`
says that every other handle that was submitted through is stopped.

`Publishing.Effect` is all that a publish can do to the topics and their handles when it is resumed.
From it follow what is known about the handles in any run (`Service.Opened`) and about those of a
topic that is not raced for (`Publishings.Alone`). -/

namespace Messaging

variable {σ : Type}

/-! ### One publish -/

/-- How far a publish is. -/
inductive PublishPhase where
  | called
  /-- It waits for the configuration of the topic that it creates. -/
  | configuring
  /-- It waits for the lock of the cache of schemas. -/
  | waiting (settings : SchemaSettings)
  /-- It holds the lock and waits for the schema. -/
  | fetching (settings : SchemaSettings)
  | returned (result : Except ServiceError (Except BrokerError String))

/-- A publish that is under way. -/
structure Publishing where
  id : String
  payload : Payload
  options : PublishOptions
  phase : PublishPhase := .called

namespace Publishing

/-- Is a publish creating its topic? -/
def isCreating (q : Publishing) : Bool :=
  match q.phase with
  | .configuring | .waiting _ | .fetching _ => true
  | .called | .returned _ => false

/-- Has a publish not been resumed yet? -/
def isCalled (q : Publishing) : Bool :=
  match q.phase with
  | .called => true
  | _ => false

/-- Does a publish hold the lock of the cache? -/
def isFetching (q : Publishing) : Bool :=
  match q.phase with
  | .fetching _ => true
  | _ => false

/-- A publish returns. -/
def returning (q : Publishing)
    (r : Except ServiceError (Except BrokerError String) × Service σ) : Publishing × Service σ :=
  ({ q with phase := .returned r.1 }, r.2)

/-- The codec for the topic of a publish. -/
def codec (q : Publishing) (kind : SchemaKind) (encoding : Encoding) (definition : String) :
    Except ServiceError Codec :=
  (Codec.create kind encoding definition).mapError (.resourceCodec .topic q.id)

variable [Log.Journal σ]

/-- The last part of a publish that creates its topic: with a codec, the topic is opened, registered
and published to. -/
def finish (c : Client σ) (codec : Except ServiceError Codec) (q : Publishing) (s : Service σ) :
    Publishing × Service σ :=
  match codec with
  | .error e => q.returning (.error (.create .topic e), s)
  | .ok codec =>
    let (handle, broker) := c.openTopic q.id s.broker
    let t := { id := q.id, handle, codec }
    let s := Log.note (Service.createdEntry .topic q.id codec) { s with broker }
    let s := Log.note (Registry.addedEntry .topic q.id) { s with topics := s.topics.add q.id t }
    q.returning (s.publishOn c q.id t q.payload q.options)

/-- A publish runs until it has to wait again; `free` tells whether the lock of the cache is. -/
def resume (c : Client σ) (free : Bool) (q : Publishing) (s : Service σ) :
    Publishing × Service σ :=
  match q.phase with
  | .called =>
    if s.topics.has q.id then q.returning (s.publish c q.id q.payload q.options)
    else ({ q with phase := .configuring }, s)
  | .configuring =>
    match c.topicConfig q.id s.broker with
    | (.error e, broker) => q.finish c (.error (.resourceConfig .topic q.id e)) { s with broker }
    | (.ok config, broker) =>
      match config.schemaSettings.filter fun settings => settings.schema ≠ "" with
      | none => q.finish c (q.codec .unspecified .unspecified "") { s with broker }
      | some settings => ({ q with phase := .waiting settings }, { s with broker })
  | .waiting settings =>
    if free then
      match Table.find? s.schemas (schemaId settings.schema) with
      | some config => q.finish c (q.codec config.kind settings.encoding config.definition) s
      | none => ({ q with phase := .fetching settings }, s)
    else (q, s)
  | .fetching settings =>
    let id := schemaId settings.schema
    let (answer, broker) := c.schema id s.broker
    let (result, schemas, broker) := s.schemas.answered id answer broker
    let codec := (result.mapError (.resourceSchema .topic q.id)).bind fun config =>
      q.codec config.kind settings.encoding config.definition
    q.finish c codec { s with schemas, broker }
  | .returned _ => (q, s)

end Publishing

/-! ### Publishes beside each other -/

/-- Publishes beside each other, by their numbers in the order of their calls. -/
structure Publishings (σ : Type) where
  service : Service σ
  publishes : List Publishing := []

/-- What can happen next: a publish is called, or one is resumed. -/
inductive PublishStep where
  | call (id : String) (payload : Payload) (options : PublishOptions)
  | resume (n : Nat)

namespace Publishings

/-- Is the lock of the cache of schemas free? -/
def isFree (p : Publishings σ) : Bool := p.publishes.all fun q => !q.isFetching

variable [Log.Journal σ]

/-- The publishes after a step. -/
def step (c : Client σ) (p : Publishings σ) : PublishStep → Publishings σ
  | .call id payload options =>
    { p with publishes := p.publishes ++ [{ id, payload, options }] }
  | .resume n =>
    match p.publishes[n]? with
    | none => p
    | some q =>
      let (q, service) := q.resume c p.isFree p.service
      { service, publishes := p.publishes.set n q }

/-- The publishes after steps, one after the other. -/
def run (c : Client σ) (steps : List PublishStep) (p : Publishings σ) : Publishings σ :=
  steps.foldl (step c) p

end Publishings

/-! ### A publish that nobody comes between -/

namespace Publishing

variable [Log.Journal σ] {c : Client σ} {q : Publishing} {s : Service σ}

/-- A publish to a topic that is not registered creates the topic and finishes. -/
theorem publish_of_new (hnew : s.topics.has q.id = false) :
    q.returning (s.publish c q.id q.payload q.options) =
      match c.topicConfig q.id s.broker with
      | (.error e, broker) => q.finish c (.error (.resourceConfig .topic q.id e)) { s with broker }
      | (.ok config, broker) =>
        let made := Service.codec c .topic q.id config.schemaSettings { s with broker }
        q.finish c made.1 made.2 := by
  unfold Service.publish Service.topic Service.newTopic Service.createTopic finish
  rw [hnew, if_neg Bool.false_ne_true]
  rcases c.topicConfig q.id s.broker with ⟨e | config, broker⟩
  · rfl
  · dsimp only
    rcases Service.codec c .topic q.id config.schemaSettings { s with broker } with
      ⟨e | codec, s'⟩ <;> rfl

theorem resume_finish (codec : Except ServiceError Codec) (free : Bool) :
    (q.finish c codec s).1.resume c free (q.finish c codec s).2 = q.finish c codec s := by
  cases codec <;> rfl

/-- Finishing does not depend on how far a publish is. -/
theorem finish_phase (phase : PublishPhase) (codec : Except ServiceError Codec) :
    finish c codec { q with phase } s = q.finish c codec s := by
  cases codec <;> rfl

/-- To whoever holds the lock it does not matter whether it is free. -/
theorem resume_fetching (h : q.isFetching = true) (free free' : Bool) :
    q.resume c free s = q.resume c free' s := by
  cases hp : q.phase with
  | fetching settings => simp only [resume, hp]
  | called => simp [isFetching, hp] at h
  | configuring => simp [isFetching, hp] at h
  | waiting settings => simp [isFetching, hp] at h
  | returned result => simp [isFetching, hp] at h

/-- A publish that is resumed four times with nobody in between does what a publish of the service
does. -/
theorem resume_four (hq : q.phase = .called) :
    let next := fun r : Publishing × Service σ => r.1.resume c true r.2
    next (next (next (next (q, s)))) = q.returning (s.publish c q.id q.payload q.options) := by
  intro next
  cases hnew : s.topics.has q.id with
  | true =>
    have hfirst : next (q, s) = q.returning (s.publish c q.id q.payload q.options) := by
      simp only [next, resume, hq, hnew, if_true]
    rw [hfirst]
    rfl
  | false =>
    have hfirst : next (q, s) = ({ q with phase := .configuring }, s) := by
      simp only [next, resume, hq, hnew, Bool.false_eq_true, if_false]
    rw [hfirst, publish_of_new hnew]
    rcases hconfig : c.topicConfig q.id s.broker with ⟨e | config, broker⟩
    · have hsecond : next ({ q with phase := .configuring }, s) =
          q.finish c (.error (.resourceConfig .topic q.id e)) { s with broker } := by
        simp only [next, resume, hconfig]
        rfl
      rw [hsecond]
      exact (congrArg next (resume_finish _ true)).trans (resume_finish _ true)
    · dsimp only
      cases hset : config.schemaSettings.filter fun settings => settings.schema ≠ "" with
      | none =>
        have hsecond : next ({ q with phase := .configuring }, s) =
            q.finish c (q.codec .unspecified .unspecified "") { s with broker } := by
          simp only [next, resume, hconfig, hset, finish_phase]
          rfl
        rw [hsecond, Service.codec, hset]
        exact (congrArg next (resume_finish _ true)).trans (resume_finish _ true)
      | some settings =>
        have hsecond : next ({ q with phase := .configuring }, s) =
            ({ q with phase := .waiting settings }, { s with broker }) := by
          simp only [next, resume, hconfig, hset]
        rw [hsecond, Service.codec, hset]
        dsimp only [Service.schema]
        cases hf : Table.find? s.schemas (schemaId settings.schema) with
        | some schema =>
          have hthird : next ({ q with phase := .waiting settings }, { s with broker }) =
              q.finish c (q.codec schema.kind settings.encoding schema.definition)
                { s with broker } := by
            simp only [next, resume, hf, if_true, finish_phase]
            rfl
          rw [hthird, SchemaCache.get_of_some hf]
          exact resume_finish _ true
        | none =>
          have hthird : next ({ q with phase := .waiting settings }, { s with broker }) =
              ({ q with phase := .fetching settings }, { s with broker }) := by
            simp only [next, resume, hf, if_true]
          rw [hthird, SchemaCache.get_of_none hf]
          simp only [next, resume, finish_phase]
          rcases hs : c.schema (schemaId settings.schema) broker with ⟨e | schema, broker'⟩ <;>
            simp only [hs] <;> rfl

end Publishing

namespace Publishings

variable [Log.Journal σ] {c : Client σ}

/-- The last publish is resumed while no other holds the lock. -/
theorem resume_last {publishes : List Publishing} (hfree : ∀ q ∈ publishes, q.isFetching = false)
    (q : Publishing) (service : Service σ) :
    step c { service, publishes := publishes ++ [q] } (.resume publishes.length) =
      { service := (q.resume c true service).2
        publishes := publishes ++ [(q.resume c true service).1] } := by
  have hq : (publishes ++ [q])[publishes.length]? = some q := by simp
  have hset (q' : Publishing) : (publishes ++ [q]).set publishes.length q' = publishes ++ [q'] := by
    simp
  have hlock : q.resume c (isFree { service, publishes := publishes ++ [q] }) service =
      q.resume c true service := by
    cases hf : q.isFetching with
    | true => exact Publishing.resume_fetching hf _ _
    | false =>
      have hall : isFree { service, publishes := publishes ++ [q] } = true := by
        simpa [isFree, hf] using hfree
      rw [hall]
  simp only [step, hq, hset, hlock]

/-- A publish that nobody comes between does what a publish of the service does. -/
theorem run_alone {p : Publishings σ} (hfree : p.isFree = true) (id : String) (payload : Payload)
    (options : PublishOptions) :
    let n := p.publishes.length
    let result := p.service.publish c id payload options
    p.run c [.call id payload options, .resume n, .resume n, .resume n, .resume n] =
      { service := result.2
        publishes := p.publishes ++ [{ id, payload, options, phase := .returned result.1 }] } := by
  intro n result
  have hothers : ∀ q ∈ p.publishes, q.isFetching = false := by
    simpa [isFree] using hfree
  have hfour := Publishing.resume_four (c := c) (s := p.service) (q := { id, payload, options }) rfl
  simp only [run, List.foldl_cons, List.foldl_nil]
  rw [step]
  simp only [n, resume_last hothers]
  exact congrArg
    (fun r : Publishing × Service σ =>
      ({ service := r.2, publishes := p.publishes ++ [r.1] } : Publishings σ)) hfour

end Publishings

/-! ### What is done with handles -/

/-- What has been done with a handle. -/
inductive HandleCall where
  | opened (id : String) (handle : Nat)
  | submitted (handle : Nat)
  | stopped (handle : Nat)
  deriving DecidableEq, Repr

/-- A broker, and what has been done with its handles. -/
structure Recorded (σ : Type) where
  world : σ
  calls : List HandleCall := []

namespace Recorded

instance [Log.Journal σ] : Log.Journal (Recorded σ) :=
  ⟨fun entry r => { r with world := Log.note entry r.world }⟩

/-- Does something with the broker that is not recorded. -/
def pass {α : Type} (f : σ → α × σ) (r : Recorded σ) : α × Recorded σ :=
  ((f r.world).1, { r with world := (f r.world).2 })

/-- Records what is done with a handle. -/
def record (call : HandleCall) (r : Recorded σ) : Recorded σ :=
  { r with calls := r.calls ++ [call] }

end Recorded

open Recorded in
/-- A client that records what is done with handles. -/
def Client.recorded (c : Client σ) : Client (Recorded σ) where
  project := c.project
  topicConfig id := pass (c.topicConfig id)
  topicExists id := pass (c.topicExists id)
  createTopic id config := pass (c.createTopic id config)
  subscriptionConfig id := pass (c.subscriptionConfig id)
  subscriptionExists id := pass (c.subscriptionExists id)
  createSubscription id config := pass (c.createSubscription id config)
  schema reference := pass (c.schema reference)
  createSchema id config := pass (c.createSchema id config)
  openTopic id r :=
    let (handle, r) := pass (c.openTopic id) r
    (handle, r.record (.opened id handle))
  configure handle settings ordering r :=
    { r with world := c.configure handle settings ordering r.world }
  submit handle content r := pass (c.submit handle content) (r.record (.submitted handle))
  stop handle r := { r with world := c.stop handle r.world }.record (.stopped handle)
  pull name := pass (c.pull name)

namespace Registry

/-- The topic of a handle is among the entries. -/
theorem mem_of_handle? {id : String} {r : Registry Topic} {n : Nat} (h : r.handle? id = some n) :
    ∃ e ∈ r.entries, e.2.handle = n := by
  obtain ⟨t, ht, rfl⟩ := handle?_eq_some.mp h
  exact ⟨(id, t), Table.mem_of_find? ht, rfl⟩

end Registry

namespace Service

variable [Log.Journal σ] {c : Client σ}

/-- Publishing on a topic keeps its handle, through which it submits at most one message. -/
theorem publishOn_recorded (id : String) (t : Topic) (p : Payload) (o : PublishOptions)
    (s : Service (Recorded σ)) :
    let s' := (s.publishOn c.recorded id t p o).2
    (∀ key, s'.topics.handle? key = if key = id then some t.handle else s.topics.handle? key) ∧
      ∃ more, s'.broker.calls = s.broker.calls ++ more ∧ ∀ x ∈ more, x = .submitted t.handle := by
  intro s'
  cases he : t.codec.encode p with
  | error e =>
    have hs' : s' = { s with topics := s.topics.add id t } := by
      simp only [s', publishOn, Topic.publish, he]
    rw [hs']
    exact ⟨fun key => Registry.handle?_add t, [], (List.append_nil _).symm, nofun⟩
  | ok data =>
    simp only [s', publishOn, Topic.publish, he]
    exact ⟨fun key => Registry.handle?_add (t.withOptions c.recorded o s.broker).1,
      [.submitted t.handle], rfl, fun _ => List.mem_singleton.mp⟩

/-- Stopping the service stops the handles of the topics that are registered, and no others. -/
theorem stop_recorded (s : Service (Recorded σ)) :
    (s.stop c.recorded).broker.calls =
      s.broker.calls ++ s.topics.entries.map fun e => .stopped e.2.handle := by
  unfold stop
  generalize s.topics.entries = entries
  induction entries generalizing s with
  | nil => simp
  | cons e rest ih =>
    rw [List.foldl_cons, ih]
    exact List.append_assoc s.broker.calls [.stopped e.2.handle] _

end Service

/-! ### What a publish does to the handles -/

/-- What a publish that is resumed does to the topics that are registered and to their handles:
nothing, though it may start to create its topic; it publishes to the topic that is registered; or
it opens and registers a topic of its own and publishes to that. -/
inductive Publishing.Effect (q q' : Publishing) (s s' : Service (Recorded σ)) : Prop
  | quiet (topics : s'.topics = s.topics) (calls : s'.broker.calls = s.broker.calls)
      (creating : q'.isCreating = true → q.isCreating = true ∨
        q.phase = .called ∧ s.topics.handle? q.id = none)
  | published (n : Nat) (registered : s.topics.handle? q.id = some n)
      (handles : ∀ id, s'.topics.handle? id = s.topics.handle? id)
      (calls : ∃ more, s'.broker.calls = s.broker.calls ++ more ∧ ∀ x ∈ more, x = .submitted n)
      (returned : q'.isCreating = false)
  | created (n : Nat) (creating : q.isCreating = true)
      (handles : ∀ id,
        s'.topics.handle? id = if id = q.id then some n else s.topics.handle? id)
      (calls : ∃ more, s'.broker.calls = s.broker.calls ++ .opened q.id n :: more ∧
        ∀ x ∈ more, x = .submitted n)
      (returned : q'.isCreating = false)

namespace Publishing

variable [Log.Journal σ] {c : Client σ} {q : Publishing} {s : Service (Recorded σ)}

theorem finish_id (codec : Except ServiceError Codec) :
    (q.finish c.recorded codec s).1.id = q.id := by
  cases codec <;> rfl

theorem resume_id (free : Bool) : (q.resume c.recorded free s).1.id = q.id := by
  unfold resume
  split
  · split <;> rfl
  · split
    · exact finish_id _
    · split
      · exact finish_id _
      · rfl
  · split
    · split
      · exact finish_id _
      · rfl
    · rfl
  · exact finish_id _
  · rfl

/-- A publish finishes: it fails, or it opens and registers its topic and publishes to it. -/
theorem finish_effect (hq : q.isCreating = true) (codec : Except ServiceError Codec)
    {s₁ : Service (Recorded σ)} (htopics : s₁.topics = s.topics)
    (hcalls : s₁.broker.calls = s.broker.calls) :
    q.Effect (q.finish c.recorded codec s₁).1 s (q.finish c.recorded codec s₁).2 := by
  cases codec with
  | error e => exact .quiet htopics hcalls nofun
  | ok codec =>
    let opened := c.recorded.openTopic q.id s₁.broker
    let t : Topic := { id := q.id, handle := opened.1, codec }
    let s₂ : Service (Recorded σ) := Log.note (Registry.addedEntry .topic q.id)
      { Log.note (Service.createdEntry .topic q.id codec) { s₁ with broker := opened.2 } with
        topics := s₁.topics.add q.id t }
    have hcalls₂ : s₂.broker.calls = s.broker.calls ++ [.opened q.id t.handle] := by
      rw [← hcalls]
      rfl
    have htopics₂ (id : String) :
        s₂.topics.handle? id = if id = q.id then some t.handle else s.topics.handle? id := by
      rw [← htopics]
      exact Registry.handle?_add t
    obtain ⟨hhandles, more, hmore, hsubmitted⟩ :=
      Service.publishOn_recorded (c := c) q.id t q.payload q.options s₂
    refine .created t.handle hq (fun id => ?_) ⟨more, ?_, hsubmitted⟩ rfl
    · refine (hhandles id).trans ?_
      rw [htopics₂]
      split <;> rfl
    · rw [hcalls₂, List.append_assoc] at hmore
      exact hmore

theorem resume_effect (free : Bool) :
    q.Effect (q.resume c.recorded free s).1 s (q.resume c.recorded free s).2 := by
  cases hp : q.phase with
  | called =>
    cases hhas : s.topics.has q.id with
    | false =>
      have hresume : q.resume c.recorded free s = ({ q with phase := .configuring }, s) := by
        simp only [resume, hp, hhas, Bool.false_eq_true, if_false]
      rw [hresume]
      exact .quiet rfl rfl fun _ => .inr ⟨hp, Registry.has_eq_false_iff_handle?.mp hhas⟩
    | true =>
      obtain ⟨n, hregistered⟩ := Registry.has_iff_handle?.mp hhas
      obtain ⟨t, ht, rfl⟩ := Registry.handle?_eq_some.mp hregistered
      have hresume : q.resume c.recorded free s =
          q.returning (s.publishOn c.recorded q.id t q.payload q.options) := by
        simp only [resume, hp, hhas, if_true, Service.publish_of_registered ht]
      obtain ⟨hhandles, hsubmitted⟩ :=
        Service.publishOn_recorded (c := c) q.id t q.payload q.options s
      rw [hresume]
      refine .published t.handle hregistered (fun id => ?_) hsubmitted rfl
      refine (hhandles id).trans ?_
      split
      · next hid => rw [hid, hregistered]
      · rfl
  | configuring =>
    have hq : q.isCreating = true := by rw [isCreating, hp]
    rcases hc : c.recorded.topicConfig q.id s.broker with ⟨result, broker⟩
    have hcalls : broker.calls = s.broker.calls := (congrArg (·.2.calls) hc).symm
    unfold resume
    simp only [hp, hc]
    cases result with
    | error e => exact finish_effect hq _ rfl hcalls
    | ok config =>
      dsimp only
      split
      · exact finish_effect hq _ rfl hcalls
      · exact .quiet rfl hcalls fun _ => .inl hq
  | waiting settings =>
    have hq : q.isCreating = true := by rw [isCreating, hp]
    unfold resume
    simp only [hp]
    split
    · split
      · exact finish_effect hq _ rfl rfl
      · exact .quiet rfl rfl fun _ => .inl hq
    · exact .quiet rfl rfl fun _ => .inl hq
  | fetching settings =>
    have hq : q.isCreating = true := by rw [isCreating, hp]
    rcases hc : c.recorded.schema (schemaId settings.schema) s.broker with ⟨answer, broker⟩
    have hcalls : broker.calls = s.broker.calls := (congrArg (·.2.calls) hc).symm
    unfold resume
    simp only [hp, hc]
    cases answer with
    | error e => exact finish_effect hq _ rfl hcalls
    | ok config => exact finish_effect hq _ rfl hcalls
  | returned result =>
    have hresume : q.resume c.recorded free s = (q, s) := by simp only [resume, hp]
    rw [hresume]
    exact .quiet rfl rfl .inl

end Publishing

/-- Whatever is done anew with a handle is an opening or a submit, and the handle is then the one of
the topic of the publish. -/
theorem Publishing.Effect.calls_cases {q q' : Publishing} {s s' : Service (Recorded σ)}
    (he : q.Effect q' s s') {x : HandleCall} (hx : x ∈ s'.broker.calls) :
    x ∈ s.broker.calls ∨
      ∃ n, s'.topics.handle? q.id = some n ∧ (x = .opened q.id n ∨ x = .submitted n) := by
  cases he with
  | quiet _ calls _ => exact .inl (calls ▸ hx)
  | published n registered handles calls _ =>
    obtain ⟨more, hcalls, hmore⟩ := calls
    rcases List.mem_append.mp (hcalls ▸ hx) with hx | hx
    · exact .inl hx
    · exact .inr ⟨n, (handles q.id).trans registered, .inr (hmore x hx)⟩
  | created n _ handles calls _ =>
    obtain ⟨more, hcalls, hmore⟩ := calls
    have hhandle : s'.topics.handle? q.id = some n := (handles q.id).trans (if_pos rfl)
    rcases List.mem_append.mp (hcalls ▸ hx) with hx | hx
    · exact .inl hx
    · rcases List.mem_cons.mp hx with hx | hx
      · exact .inr ⟨n, hhandle, .inl hx⟩
      · exact .inr ⟨n, hhandle, .inr (hmore x hx)⟩

theorem Publishing.Effect.calls_prefix {q q' : Publishing} {s s' : Service (Recorded σ)}
    (he : q.Effect q' s s') : s.broker.calls <+: s'.broker.calls := by
  cases he with
  | quiet _ calls _ => exact ⟨[], by rw [calls, List.append_nil]⟩
  | published _ _ _ calls _ =>
    obtain ⟨more, hcalls, -⟩ := calls
    exact ⟨more, hcalls.symm⟩
  | created _ _ _ calls _ =>
    obtain ⟨more, hcalls, -⟩ := calls
    exact ⟨_, hcalls.symm⟩

/-! ### Handles in any run -/

/-- The handle of a topic that is registered has been opened for it, nothing is submitted through a
handle that has not been opened, and none has been stopped. -/
structure Service.Opened (s : Service (Recorded σ)) : Prop where
  registered : ∀ id n, s.topics.handle? id = some n → .opened id n ∈ s.broker.calls
  submitted : ∀ n, .submitted n ∈ s.broker.calls → ∃ id, .opened id n ∈ s.broker.calls
  running : ∀ n, .stopped n ∉ s.broker.calls

theorem Service.Opened.effect {q q' : Publishing} {s s' : Service (Recorded σ)} (h : s.Opened)
    (he : q.Effect q' s s') : s'.Opened := by
  have hold {x : HandleCall} (hx : x ∈ s.broker.calls) : x ∈ s'.broker.calls :=
    he.calls_prefix.subset hx
  have hregistered (id : String) (n : Nat) (hn : s'.topics.handle? id = some n) :
      .opened id n ∈ s'.broker.calls := by
    cases he with
    | quiet topics _ _ => exact hold (h.registered id n (topics ▸ hn))
    | published _ _ handles _ _ => exact hold (h.registered id n (handles id ▸ hn))
    | created k _ handles calls _ =>
      rw [handles] at hn
      split at hn
      · next hid =>
        cases hn
        obtain ⟨more, hcalls, -⟩ := calls
        rw [hcalls, hid]
        exact List.mem_append_right _ List.mem_cons_self
      · exact hold (h.registered id n hn)
  refine ⟨hregistered, fun n hn => ?_, fun n hn => ?_⟩
  · rcases he.calls_cases hn with hn | ⟨m, hm, hx | hx⟩
    · obtain ⟨id, hid⟩ := h.submitted n hn
      exact ⟨id, hold hid⟩
    · cases hx
    · cases hx
      exact ⟨q.id, hregistered q.id n hm⟩
  · rcases he.calls_cases hn with hn | ⟨m, -, hx | hx⟩
    · exact h.running n hn
    · cases hx
    · cases hx

/-! ### Handles in runs without races -/

namespace Publishings

/-- The publish of a number creates the topic of an id. -/
def Creates (p : Publishings σ) (id : String) (n : Nat) : Prop :=
  ∃ q, p.publishes[n]? = some q ∧ q.id = id ∧ q.isCreating = true

/-- Does a step start a race for the topic of an id? It does if it resumes a publish to the topic
for the first time while another one creates the topic. -/
def races (id : String) (t : PublishStep) (p : Publishings σ) : Bool :=
  match t with
  | .call _ _ _ => false
  | .resume n =>
    (p.publishes[n]?.any fun q => q.id = id && q.isCalled) &&
      p.publishes.any fun q => q.id = id && q.isCreating

/-- Does no step of a run start a race for the topic of an id? -/
def unraced [Log.Journal σ] (c : Client σ) (id : String) :
    List PublishStep → Publishings σ → Bool
  | [], _ => true
  | t :: rest, p => !p.races id t && unraced c id rest (p.step c t)

/-- What is known about the handles of a topic that is not raced for: only one publish creates it,
and only if it is not registered; and every handle that has been opened for it is the one that is
registered. -/
structure Alone (id : String) (p : Publishings (Recorded σ)) : Prop where
  opened : ∀ n, .opened id n ∈ p.service.broker.calls → p.service.topics.handle? id = some n
  creating : ∀ n, p.Creates id n → p.service.topics.handle? id = none
  once : ∀ n m, p.Creates id n → p.Creates id m → n = m

section Steps

variable {p : Publishings (Recorded σ)} {id : String}

theorem races_of_creates {n m : Nat} {q : Publishing} (hq : p.publishes[n]? = some q)
    (hid : q.id = id) (hcalled : q.phase = .called) (h : p.Creates id m) :
    p.races id (.resume n) = true := by
  obtain ⟨r, hr, hrid, hcreating⟩ := h
  have hthis : (q.id = id && q.isCalled) = true := by simp [hid, Publishing.isCalled, hcalled]
  rw [races, hq, Option.any_some, hthis, Bool.true_and]
  exact List.any_eq_true.mpr ⟨r, List.mem_of_getElem? hr, by simp [hrid, hcreating]⟩

/-- A publish that is called does not create anything yet. -/
theorem Creates.of_call {q : Publishing} (hq : q.phase = .called) {m : Nat}
    (h : Creates { p with publishes := p.publishes ++ [q] } id m) : p.Creates id m := by
  obtain ⟨r, hr, hid, hcreating⟩ := h
  rw [List.getElem?_append] at hr
  split at hr
  · exact ⟨r, hr, hid, hcreating⟩
  · obtain rfl := List.mem_singleton.mp (List.mem_of_getElem? hr)
    simp [Publishing.isCreating, hq] at hcreating

/-- After a publish is resumed, a topic is created by another one or by this one. -/
theorem Creates.of_set {n m : Nat} {q' : Publishing} {s' : Service (Recorded σ)}
    (h : Creates { service := s', publishes := p.publishes.set n q' } id m) :
    m ≠ n ∧ p.Creates id m ∨ m = n ∧ q'.id = id ∧ q'.isCreating = true := by
  obtain ⟨r, hr, hid, hcreating⟩ := h
  by_cases hm : n = m
  · rw [← hm] at hr
    obtain rfl : r = q' := by
      have hlt : n < p.publishes.length := by
        have := (List.getElem?_eq_some_iff.mp hr).1
        simpa using this
      rw [List.getElem?_set_self hlt, Option.some.injEq] at hr
      exact hr.symm
    exact .inr ⟨hm.symm, hid, hcreating⟩
  · rw [List.getElem?_set_ne hm] at hr
    exact .inl ⟨Ne.symm hm, r, hr, hid, hcreating⟩

namespace Alone

/-- The topic is registered as before, and created by nobody who has not created it before. -/
theorem of_old (h : p.Alone id) {p' : Publishings (Recorded σ)}
    (handle : p'.service.topics.handle? id = p.service.topics.handle? id)
    (opened : ∀ n, .opened id n ∈ p'.service.broker.calls →
      .opened id n ∈ p.service.broker.calls ∨ p'.service.topics.handle? id = some n)
    (creates : ∀ n, p'.Creates id n → p.Creates id n) : p'.Alone id where
  opened n hn := (opened n hn).elim (fun hold => handle.trans (h.opened n hold)) fun hnew => hnew
  creating n hn := handle.trans (h.creating n (creates n hn))
  once n m hn hm := h.once n m (creates n hn) (creates m hm)

/-- A publish begins to create the topic, which is not registered and which no other creates. -/
theorem begin (h : p.Alone id) (hnone : p.service.topics.handle? id = none)
    (hothers : ∀ k, ¬ p.Creates id k) {n : Nat} {q' : Publishing} {s' : Service (Recorded σ)}
    (topics : s'.topics = p.service.topics)
    (calls : s'.broker.calls = p.service.broker.calls) :
    Alone id { service := s', publishes := p.publishes.set n q' } where
  opened m hm := by
    rw [topics]
    exact h.opened m (calls ▸ hm)
  creating _ _ := by rw [topics, hnone]
  once m m' hm hm' := by
    have hthis {k : Nat}
        (hk : Creates { service := s', publishes := p.publishes.set n q' } id k) : k = n := by
      rcases hk.of_set with ⟨-, hold⟩ | ⟨hkn, -⟩
      · exact absurd hold (hothers k)
      · exact hkn
    rw [hthis hm, hthis hm']

/-- The publish that creates the topic returns. -/
theorem finish (h : p.Alone id) {n : Nat} (hn : p.Creates id n) {q' : Publishing}
    (returned : q'.isCreating = false) {s' : Service (Recorded σ)}
    (opened : ∀ m, .opened id m ∈ s'.broker.calls →
      .opened id m ∈ p.service.broker.calls ∨ s'.topics.handle? id = some m) :
    Alone id { service := s', publishes := p.publishes.set n q' } := by
  have hnobody (m : Nat) :
      ¬ Creates { service := s', publishes := p.publishes.set n q' } id m := by
    intro hm
    rcases hm.of_set with ⟨hne, hold⟩ | ⟨-, -, hcreating⟩
    · exact hne (h.once m n hold hn)
    · rw [returned] at hcreating
      cases hcreating
  refine ⟨fun m hm => ?_, fun m hm => absurd hm (hnobody m), fun m _ hm => absurd hm (hnobody m)⟩
  rcases opened m hm with hold | hnew
  · -- A handle that was opened before would have been registered before.
    have hsome := h.opened m hold
    rw [h.creating n hn] at hsome
    cases hsome
  · exact hnew

end Alone

variable [Log.Journal σ] {c : Client σ}

/-- A step calls a publish, or resumes one, or there is none to resume. -/
theorem step_cases (c : Client σ) (p : Publishings (Recorded σ)) (t : PublishStep) :
    (∃ q : Publishing, q.phase = .called ∧
        p.step c.recorded t = { p with publishes := p.publishes ++ [q] }) ∨
      p.step c.recorded t = p ∨
      ∃ n q q' s', t = .resume n ∧ p.publishes[n]? = some q ∧ q'.id = q.id ∧
        q.Effect q' p.service s' ∧
        p.step c.recorded t = { service := s', publishes := p.publishes.set n q' } := by
  cases t with
  | call id payload options => exact .inl ⟨_, rfl, rfl⟩
  | resume n =>
    cases hq : p.publishes[n]? with
    | none => exact .inr (.inl (by simp only [step, hq]))
    | some q =>
      exact .inr (.inr ⟨n, q, _, _, rfl, hq, Publishing.resume_id p.isFree,
        Publishing.resume_effect (c := c) p.isFree, by simp only [step, hq]⟩)

theorem opened_step (h : p.service.Opened) (t : PublishStep) :
    (p.step c.recorded t).service.Opened := by
  rcases step_cases c p t with ⟨q, -, hstep⟩ | hstep | ⟨n, q, q', s', -, -, -, he, hstep⟩
  · rw [hstep]
    exact h
  · rw [hstep]
    exact h
  · rw [hstep]
    exact h.effect he

theorem Alone.step (h : p.Alone id) {t : PublishStep} (hrace : p.races id t = false) :
    (p.step c.recorded t).Alone id := by
  rcases step_cases c p t with ⟨q, hq, hstep⟩ | hstep | ⟨n, q, q', s', ht, hq, hid, he, hstep⟩
  · rw [hstep]
    exact h.of_old rfl (fun _ => .inl) fun _ hm => hm.of_call hq
  · rw [hstep]
    exact h
  · rw [hstep]
    have hopened (m : Nat) (hm : .opened id m ∈ s'.broker.calls) :
        .opened id m ∈ p.service.broker.calls ∨ s'.topics.handle? id = some m := by
      rcases he.calls_cases hm with hold | ⟨k, hk, hx | hx⟩
      · exact .inl hold
      · cases hx
        exact .inr hk
      · cases hx
    -- Unless the publish starts to create the topic, whoever creates it has done so before.
    have hold (hq' : q'.id = id → q'.isCreating = true → q.isCreating = true) (m : Nat)
        (hm : Creates { service := s', publishes := p.publishes.set n q' } id m) :
        p.Creates id m := by
      rcases hm.of_set with ⟨-, hold⟩ | ⟨rfl, hid', hcreating⟩
      · exact hold
      · exact ⟨q, hq, hid ▸ hid', hq' hid' hcreating⟩
    cases he with
    | quiet topics calls creating =>
      by_cases hnew : q.phase = .called ∧ q.id = id ∧ p.service.topics.handle? q.id = none
      · obtain ⟨hcalled, hqid, hnone⟩ := hnew
        refine h.begin (hqid ▸ hnone) (fun k hk => ?_) topics calls
        rw [ht, races_of_creates hq hqid hcalled hk] at hrace
        cases hrace
      · refine h.of_old (congrArg (Registry.handle? id) topics) hopened
          (hold fun hid' hcreating => ?_)
        rcases creating hcreating with hq' | ⟨hcalled, hnone⟩
        · exact hq'
        · exact absurd ⟨hcalled, hid ▸ hid', hnone⟩ hnew
    | published k registered handles calls returned =>
      refine h.of_old (handles id) hopened (hold fun _ hcreating => ?_)
      rw [returned] at hcreating
      cases hcreating
    | created k hcreating handles calls returned =>
      by_cases hqid : id = q.id
      · exact h.finish ⟨q, hq, hqid.symm, hcreating⟩ returned hopened
      · exact h.of_old ((handles id).trans (if_neg hqid)) hopened (hold fun _ _ => hcreating)

/-- What is known about the handles holds at the end of any run. -/
theorem opened_run (h : p.service.Opened) (steps : List PublishStep) :
    (p.run c.recorded steps).service.Opened := by
  induction steps generalizing p with
  | nil => exact h
  | cons t rest ih => exact ih (opened_step h t)

theorem Alone.run (h : p.Alone id) {steps : List PublishStep}
    (hsteps : unraced c.recorded id steps p = true) : (p.run c.recorded steps).Alone id := by
  induction steps generalizing p with
  | nil => exact h
  | cons t rest ih =>
    rw [unraced, Bool.and_eq_true, Bool.not_eq_true'] at hsteps
    exact ih (h.step hsteps.1) hsteps.2

end Steps

end Publishings

open Publishings in
/-- **What a stop flushes.** Let publishes run beside each other, with any broker, and let the
service be stopped then.

* The handles that are stopped are those of the topics that are registered.
* A handle through which a message was submitted has been opened for some topic. It is stopped if
  the topic was not raced for: if no publish to it was started while another one was creating it. -/
theorem stop_flushes_submitted {σ : Type} [Log.Journal σ] (c : Client σ) (config : Configuration)
    (world : σ) (steps : List PublishStep) :
    let start : Publishings (Recorded σ) := { service := { config, broker := { world } } }
    let s := (start.run c.recorded steps).service
    let calls := (s.stop c.recorded).broker.calls
    (∀ n, .stopped n ∈ calls ↔ ∃ e ∈ s.topics.entries, e.2.handle = n) ∧
    ∀ n, .submitted n ∈ calls → (∃ id, .opened id n ∈ calls) ∧
      ∀ id, .opened id n ∈ calls → unraced c.recorded id steps start = true →
        .stopped n ∈ calls := by
  intro start s calls
  have hcalls : calls = s.broker.calls ++ s.topics.entries.map fun e => .stopped e.2.handle :=
    s.stop_recorded
  have hempty (id : String) : start.service.topics.handle? id = none := by
    simp [start, Registry.handle?, Table.find?_nil]
  have hfirst : start.service.Opened := by
    refine ⟨fun id n h => ?_, fun n h => ?_, fun n => List.not_mem_nil⟩
    · rw [hempty] at h
      cases h
    · cases h
  have hopened : s.Opened := opened_run hfirst steps
  have hstopped (n : Nat) : .stopped n ∈ calls ↔ ∃ e ∈ s.topics.entries, e.2.handle = n := by
    simp [hcalls, hopened.running n]
  have hbefore {x : HandleCall} (hx : x ∈ calls) (hne : ∀ m, x ≠ .stopped m) :
      x ∈ s.broker.calls := by
    rcases List.mem_append.mp (hcalls ▸ hx) with hx | hx
    · exact hx
    · obtain ⟨e, -, he⟩ := List.mem_map.mp hx
      exact absurd he.symm (hne _)
  refine ⟨hstopped, fun n hn => ⟨?_, fun id hid hunraced => ?_⟩⟩
  · obtain ⟨id, hid⟩ := hopened.submitted n (hbefore hn (by simp))
    exact ⟨id, hcalls ▸ List.mem_append_left _ hid⟩
  · have hstart : start.Alone id := by
      refine ⟨fun n h => ?_, fun _ _ => hempty id, fun n m h _ => ?_⟩
      · cases h
      · obtain ⟨q, hq, -⟩ := h
        cases hq
    have hhandle := (hstart.run hunraced).opened n (hbefore hid (by simp))
    exact (hstopped n).mpr (Registry.mem_of_handle? hhandle)

/-- An emulator with two topics. -/
def twoTopics : Emulator Unit :=
  (Emulator.createTopic "u" {} (Emulator.createTopic "t" {} { project := "p", world := () }).2).2

/-- Publishes to two topics, each of which is created while the other one is, and one more publish
to one of them. -/
def interleavedSteps : List PublishStep :=
  [.call "t" (.bytes [1]) {}, .call "u" (.bytes [2]) {}, .resume 0, .resume 1, .resume 1, .resume 0,
    .call "t" (.bytes [3]) {}, .resume 2]

theorem stop_flushes_submitted_interleaved :
    let c := Emulator.client (σ := Unit) "p"
    let start : Publishings (Recorded (Emulator Unit)) :=
      { service := { config := { project := "p" }, broker := { world := twoTopics } } }
    let s := (start.run c.recorded interleavedSteps).service
    let calls := (s.stop c.recorded).broker.calls
    s.broker.calls =
        [.opened "u" 0, .submitted 0, .opened "t" 1, .submitted 1, .submitted 1] ∧
      .stopped 0 ∈ calls ∧ .stopped 1 ∈ calls := by
  obtain ⟨-, hflushed⟩ := stop_flushes_submitted (Emulator.client (σ := Unit) "p")
    { project := "p" } twoTopics interleavedSteps
  exact ⟨by decide +kernel,
    (hflushed 0 (by decide +kernel)).2 "u" (by decide +kernel) (by decide +kernel),
    (hflushed 1 (by decide +kernel)).2 "t" (by decide +kernel) (by decide +kernel)⟩

/-- Two publishes to one topic, which both find that it is not registered. -/
def racingSteps : List PublishStep :=
  [.call "t" (.bytes [1]) {}, .call "t" (.bytes [2]) {}, .resume 0, .resume 1, .resume 0, .resume 1]

/-- Both publishes succeed, each through a handle of its own, and only the second handle is
stopped. -/
theorem stop_flushes_submitted_of_race :
    let c := (Emulator.client (σ := Unit) "p").recorded
    let start : Publishings (Recorded (Emulator Unit)) :=
      { service := { config := { project := "p" }, broker := { world := twoTopics } } }
    let p := start.run c racingSteps
    let stopped := (p.service.stop c).broker
    p.publishes.map (·.phase) = [.returned (.ok (.ok "1")), .returned (.ok (.ok "2"))] ∧
      stopped.calls =
        [.opened "t" 0, .submitted 0, .opened "t" 1, .submitted 1, .stopped 1] ∧
      stopped.world.handles.map (·.stopped) = [false, true] := by
  refine ⟨?_, by decide +kernel, by decide +kernel⟩
  rfl

end Messaging
