import Messaging.Proofs.Broker.Deliveries
import Messaging.Proofs.Broker.Reactors

/-! # Operations and their answers

An `Operation` is a call of the emulator or one of the questions that its clients ask about topics
and subscriptions. `Operation.answer` is what it gives back and `Operation.run` what it does to the
emulator; `Operation.request?` is the request that it shows to the reactors, if it makes one.

Every request is guarded, and what serving it does is `Careful`: it goes by the store alone, and if
it fails it does nothing. -/

namespace Messaging

/-- What an operation gives back when it does not fail. -/
inductive Reply where
  | done
  | found (there : Bool)
  | topic (config : Option TopicConfig)
  | subscription (config : Option SubscriptionConfig)
  | schema (config : SchemaConfig)
  | handle (number : Nat)
  | message (id : String)
  | delivery (number : Option Nat)
  deriving DecidableEq, Repr

/-- A call of the emulator or a question about a resource. -/
inductive Operation (σ : Type) where
  | call (c : Call σ)
  | topicExists (id : String)
  | topicConfig (id : String)
  | subscriptionExists (id : String)
  | subscriptionConfig (id : String)

namespace Emulator

variable {σ : Type}

/-- The request for a message to be published to a topic. -/
def publishRequest (topicId : String) (e : Emulator σ) : Request :=
  .publish (e.nameOf .topic topicId) [Text.natural e.store.nextMessage]

/-- Does a handle refuse a message by itself? -/
def refuses (h : TopicHandle) (content : OutgoingMessage) : Bool :=
  h.stopped || (content.orderingKey ≠ "" ∧ h.ordering = false)

/-- The emulator without any reactors. -/
def withoutReactors (e : Emulator σ) : Emulator σ := { e with reactors := [] }

end Emulator

namespace Call

variable {σ : Type}

/-- What a call gives back. Settling a delivery gives nothing back, whatever becomes of it. -/
def answer (e : Emulator σ) : Call σ → Except BrokerError Reply
  | findTopic id => (e.findTopic id).1.map .topic
  | createTopic id config => (e.createTopic id config).1.map fun _ => .done
  | findSubscription id => (e.findSubscription id).1.map .subscription
  | createSubscription id config => (e.createSubscription id config).1.map fun _ => .done
  | schema reference => (e.schema reference).1.map .schema
  | createSchema id config => (e.createSchema id config).1.map .schema
  | openTopic id => .ok (.handle (e.openTopic id).1)
  | publish topicId content => (e.publish topicId content).1.map .message
  | submit handle content => (e.submit handle content).1.map .message
  | pull name => (e.pull name).1.map fun _ => .done
  | lease name => .ok (.delivery (e.lease name).1)
  | _ => .ok .done

/-- The request that a call makes, if it makes one. -/
def request? (e : Emulator σ) : Call σ → Option Request
  | findTopic id => some (.getTopic (e.nameOf .topic id))
  | createTopic id _ => some (.createTopic (e.nameOf .topic id))
  | findSubscription id => some (.getSubscription (e.nameOf .subscription id))
  | createSubscription id config =>
    some (.createSubscription (e.nameOf .subscription id) (e.nameOf .topic config.topic))
  | schema reference => some (.getSchema (e.nameOf .schema (schemaId reference)))
  | createSchema id _ => some (.createSchema (e.nameOf .schema id))
  | publish topicId _ => some (e.publishRequest topicId)
  | submit handle content =>
    match e.handles[handle]? with
    | none => none
    | some h => if Emulator.refuses h content then none else some (e.publishRequest h.id)
  | pull name => some (.pull name)
  | acknowledge name ackId => some (.acknowledge name [ackId])
  | modifyAckDeadline name ackId seconds => some (.modifyAckDeadline name [ackId] seconds)
  | ack n => (e.unsettled? n).map fun d => .acknowledge d.subscription [d.ackId]
  | nack n => (e.unsettled? n).map fun d => .modifyAckDeadline d.subscription [d.ackId] 0
  | addReactor _ | openTopic _ | configure _ _ _ | stop _ | lease _ => none

/-- Does a call give back the error of a reactor? -/
def reports : Call σ → Bool
  | acknowledge _ _ | modifyAckDeadline _ _ _ | ack _ | nack _ => false
  | _ => true

end Call

namespace Operation

variable {σ : Type}

/-- What an operation gives back. -/
def answer (e : Emulator σ) : Operation σ → Except BrokerError Reply
  | call c => c.answer e
  | topicExists id => (e.topicExists id).1.map .found
  | topicConfig id => (e.topicConfig id).1.map fun config => .topic (some config)
  | subscriptionExists id => (e.subscriptionExists id).1.map .found
  | subscriptionConfig id =>
    (e.subscriptionConfig id).1.map fun config => .subscription (some config)

/-- The emulator after an operation. -/
def run [Log.Journal σ] (e : Emulator σ) : Operation σ → Emulator σ
  | call c => c.run e
  | topicExists id => (e.topicExists id).2
  | topicConfig id => (e.topicConfig id).2
  | subscriptionExists id => (e.subscriptionExists id).2
  | subscriptionConfig id => (e.subscriptionConfig id).2

/-- The request that an operation makes, if it makes one. -/
def request? (e : Emulator σ) : Operation σ → Option Request
  | call c => c.request? e
  | topicExists id | topicConfig id => some (.getTopic (e.nameOf .topic id))
  | subscriptionExists id | subscriptionConfig id =>
    some (.getSubscription (e.nameOf .subscription id))

/-- Does an operation give back the error of a reactor? -/
def reports : Operation σ → Bool
  | call c => c.reports
  | _ => true

end Operation

/-! ### What serving a request does -/

namespace Emulator

variable {σ α β : Type}

/-- What serving a request does goes by the store alone. It changes nothing but the store, without
counting messages, and if it fails it changes nothing at all. -/
structure Careful (serve : Emulator σ → Except BrokerError α × Emulator σ) : Prop where
  answer : ∀ {e e' : Emulator σ}, e'.store = e.store → (serve e').1 = (serve e).1
  store : ∀ {e e' : Emulator σ}, e'.store = e.store → (serve e').2.store = (serve e).2.store
  restocked : ∀ e, (serve e).2 = { e with store := (serve e).2.store }
  nextMessage : ∀ e, (serve e).2.store.nextMessage = e.store.nextMessage
  failed : ∀ {e error}, (serve e).1 = .error error → (serve e).2 = e

/-- What has been found under a name, or the error that nothing is there. -/
def orMissing (r : Resource) (name : String) : Option α → Except BrokerError α
  | some a => .ok a
  | none => .error (.missing r name)

namespace Careful

/-- Looking something up is careful. -/
theorem look (find : Store → Except BrokerError α) :
    Careful fun e : Emulator σ => (find e.store, e) where
  answer h := congrArg find h
  store h := h
  restocked _ := rfl
  nextMessage _ := rfl
  failed _ := rfl

/-- So is changing the store, if the change counts no messages. -/
theorem served {change : Store → Except BrokerError Store}
    (h : ∀ s s', change s = .ok s' → s'.nextMessage = s.nextMessage) :
    Careful (σ := σ) (served change) where
  answer hstore := by
    unfold Emulator.served
    rw [hstore]
    split <;> rfl
  store {e e'} hstore := by
    unfold Emulator.served
    rw [hstore]
    split
    · rfl
    · exact hstore
  restocked e := by
    unfold Emulator.served
    split <;> rfl
  nextMessage e := by
    unfold Emulator.served
    split
    · next s hs => exact h _ _ hs
    · rfl
  failed {e error} hfail := by
    unfold Emulator.served at hfail ⊢
    split
    · next s hs =>
      rw [hs] at hfail
      cases hfail
    · rfl

/-- What is answered may be told in another way. -/
theorem map {serve : Emulator σ → Except BrokerError α × Emulator σ} (h : Careful serve)
    (tell : α → β) : Careful fun e => ((serve e).1.map tell, (serve e).2) where
  answer hstore := by rw [h.answer hstore]
  store hstore := h.store hstore
  restocked := h.restocked
  nextMessage := h.nextMessage
  failed {e error} hfail := by
    cases hs : (serve e).1 with
    | error error' => exact h.failed hs
    | ok a =>
      rw [hs] at hfail
      cases hfail

theorem schema (name : String) : Careful fun e : Emulator σ =>
    match e.store.schemas.find? name with
    | some config => (.ok config, e)
    | none => (.error (BrokerError.missing .schema name), e) := by
  have hlook := look (σ := σ) fun s => orMissing .schema name (s.schemas.find? name)
  convert hlook using 2 with e
  cases e.store.schemas.find? name <;> rfl

theorem pull (name : String) : Careful fun e : Emulator σ =>
    if e.store.queues.contains name then (.ok (), e)
    else (.error (BrokerError.missing .subscription name), e) := by
  have hlook := look (σ := σ) fun s => if s.queues.contains name then .ok ()
    else .error (BrokerError.missing .subscription name)
  convert hlook using 2 with e
  split <;> rfl

theorem createSchema (name : String) (config : SchemaConfig) : Careful fun e : Emulator σ =>
    match e.store.createSchema name config with
    | .ok (created, store) => (.ok created, { e with store })
    | .error error => (.error error, e) where
  answer hstore := by
    rw [hstore]
    split <;> rfl
  store {e e'} hstore := by
    rw [hstore]
    split
    · rfl
    · exact hstore
  restocked e := by split <;> rfl
  nextMessage e := by
    split
    · next created s hs =>
      unfold Store.createSchema at hs
      split at hs <;> cases hs
      rfl
    · rfl
  failed {e error} hfail := by
    split
    · next created s hs =>
      rw [hs] at hfail
      cases hfail
    · rfl

theorem createTopic (name : String) (config : TopicConfig) :
    Careful (σ := σ) (Emulator.served (·.createTopic name config)) := by
  refine served fun s s' h => ?_
  unfold Store.createTopic at h
  split at h <;> cases h
  rfl

theorem createSubscription (name topic : String) (config : SubscriptionConfig) :
    Careful (σ := σ) (Emulator.served (·.createSubscription name topic config)) := by
  refine served fun s s' h => ?_
  unfold Store.createSubscription at h
  split at h
  · cases h
  · split at h <;> cases h
    rfl

theorem publish (name topicId id : String) (content : OutgoingMessage) :
    Careful (σ := σ) (Emulator.served (·.publish name topicId id content)) := by
  refine served fun s s' h => ?_
  unfold Store.publish at h
  split at h <;> cases h
  rfl

theorem settle (name ackId : String) :
    Careful (σ := σ) (Emulator.served fun s => .ok (s.settle name ackId)) :=
  served fun s s' h => by cases h; rfl

theorem deadline (name ackId : String) (seconds : Int) :
    Careful (σ := σ) (Emulator.served fun s =>
      .ok (if seconds = 0 then s.requeue name ackId else s)) := by
  refine served fun s s' h => ?_
  split at h <;> cases h <;> rfl

end Careful

/-! ### Questions as requests -/

theorem topicExists_eq (id : String) (e : Emulator σ) :
    e.topicExists id = guarded (.getTopic (e.nameOf .topic id))
      (fun e' => (.ok (e'.store.topics.find? (e.nameOf .topic id)).isSome, e')) e := by
  unfold topicExists findTopic guarded
  dsimp only
  split <;> rfl

theorem topicConfig_guarded (id : String) (e : Emulator σ) :
    e.topicConfig id = guarded (.getTopic (e.nameOf .topic id))
      (fun e' => (orMissing .topic (e.nameOf .topic id)
        (e'.store.topics.find? (e.nameOf .topic id)), e')) e := by
  unfold topicConfig findTopic guarded
  dsimp only
  rcases Reactor.offer (.getTopic (e.nameOf .topic id))
    (Reactor.chain (Request.getTopic (e.nameOf .topic id)).method e.reactors) e.world with
    ⟨_ | error, world⟩
  · dsimp only
    cases e.store.topics.find? (e.nameOf .topic id) <;> rfl
  · rfl

theorem subscriptionExists_eq (id : String) (e : Emulator σ) :
    e.subscriptionExists id = guarded (.getSubscription (e.nameOf .subscription id))
      (fun e' => (.ok ((e'.store.queues.find? (e.nameOf .subscription id)).map Queue.config).isSome,
        e')) e := by
  unfold subscriptionExists findSubscription guarded
  dsimp only
  split <;> rfl

theorem subscriptionConfig_guarded (id : String) (e : Emulator σ) :
    e.subscriptionConfig id = guarded (.getSubscription (e.nameOf .subscription id))
      (fun e' => (orMissing .subscription (e.nameOf .subscription id)
        ((e'.store.queues.find? (e.nameOf .subscription id)).map Queue.config), e')) e := by
  unfold subscriptionConfig findSubscription guarded
  dsimp only
  rcases Reactor.offer (.getSubscription (e.nameOf .subscription id))
    (Reactor.chain (Request.getSubscription (e.nameOf .subscription id)).method e.reactors)
    e.world with ⟨_ | error, world⟩
  · dsimp only
    cases (e.store.queues.find? (e.nameOf .subscription id)).map Queue.config <;> rfl
  · rfl

theorem submit_eq (handle : Nat) (content : OutgoingMessage) (e : Emulator σ) :
    e.submit handle content =
      match e.handles[handle]? with
      | none => (.error (.ofText "the handle is not open"), e)
      | some h =>
        if refuses h content then
          (.error (if h.stopped then stoppedError (e.nameOf .topic h.id) else orderingError), e)
        else e.publish h.id content := by
  unfold submit refuses
  cases e.handles[handle]? with
  | none => rfl
  | some h =>
    cases hs : h.stopped with
    | true => simp [hs]
    | false =>
      cases ho : h.ordering with
      | true => simp [hs, ho]
      | false => by_cases hk : content.orderingKey = "" <;> simp [hs, ho, hk]

end Emulator

end Messaging
