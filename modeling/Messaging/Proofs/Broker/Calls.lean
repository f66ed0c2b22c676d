import Messaging.Broker.Emulator
import Messaging.Proofs.Table

/-! # Calls of the emulator

A run of the emulator is a list of calls in any order: `Call.run` is what one does to the state,
`Call.runs` what all of them do in turn. What a call means for the messages of the subscriptions is
one `Event`, read off from the answer of the call: a message was published, leased, acked or
returned, a subscription was created, or none of these.

`Event.onQueue S` is what an event does to the queue of a subscription `S`, by the rules of a queue
alone. `Call.change` says that this is all that a call can do: the queue of every subscription
changes by the event of the call and by nothing else, whatever the reactors do, and the numbers of
messages and leases are used up as the event says.

An ack and a nack of a delivery differ in their request and in what it does to the queue; what they
have in common is told of an `AckKind`. -/

namespace Messaging

/-- A call of the emulator, with any arguments. -/
inductive Call (σ : Type) where
  | addReactor (r : Reactor σ)
  | findTopic (id : String)
  | createTopic (id : String) (config : TopicConfig)
  | findSubscription (id : String)
  | createSubscription (id : String) (config : SubscriptionConfig)
  | schema (reference : String)
  | createSchema (id : String) (config : SchemaConfig)
  | openTopic (id : String)
  | configure (handle : Nat) (settings : PublishSettings) (ordering : Bool)
  | publish (topicId : String) (content : OutgoingMessage)
  | submit (handle : Nat) (content : OutgoingMessage)
  | stop (handle : Nat)
  | pull (name : String)
  | lease (name : String)
  | acknowledge (name ackId : String)
  | modifyAckDeadline (name ackId : String) (seconds : Int)
  | ack (delivery : Nat)
  | nack (delivery : Nat)

/-- Acks or nacks. -/
inductive AckKind where
  | ack
  | nack
  deriving DecidableEq, Repr

/-- What a call has meant for the messages of the subscriptions. -/
inductive Event where
  | quiet
  | created (name : String) (config : SubscriptionConfig)
  | published (topicId : String) (m : StoredMessage)
  | leased (name ackId : String) (m : StoredMessage)
  | acked (name ackId : String)
  | returned (name ackId : String)

namespace Event

/-- The queue of a subscription after an event; `none` as long as it has not been created. -/
def onQueue (S : String) : Event → Option Queue → Option Queue
  | quiet, q => q
  | created name config, q => if S = name then some { config } else q
  | published topicId m, q => q.map fun q => if q.config.topic = topicId then q.push m else q
  | leased name ackId m, q =>
    if S = name then
      q.map fun q =>
        { q with pending := q.pending.tail, outstanding := q.outstanding ++ [(ackId, m)] }
    else q
  | acked name ackId, q => if S = name then q.map (·.settle ackId) else q
  | returned name ackId, q => if S = name then q.map (·.requeue ackId) else q

/-- How many numbers of leases an event uses up. -/
def leases : Event → Nat
  | leased _ _ _ => 1
  | _ => 0

/-- When an event can happen: a subscription is created once, a message that is published has the
next number and has not been delivered, the message that is leased is the one in front. -/
def Allowed (s s' : Store) : Event → Prop
  | created name _ => s.queues.find? name = none
  | published _ m =>
    m.id = Text.natural s.nextMessage ∧ m.attempt = 1 ∧ s.nextMessage < s'.nextMessage
  | leased name ackId m =>
    ackId = Store.ackId m.id s.nextLease ∧
      ∃ q rest, s.queues.find? name = some q ∧ q.pending = m :: rest
  | _ => True

end Event

/-- A store changes by an event. -/
structure Store.Changes (ev : Event) (s s' : Store) : Prop where
  queue : ∀ S, s'.queues.find? S = ev.onQueue S (s.queues.find? S)
  nextMessage : s.nextMessage ≤ s'.nextMessage
  nextLease : s'.nextLease = s.nextLease + ev.leases
  names : s.queues.names.Nodup → s'.queues.names.Nodup
  allowed : ev.Allowed s s'

namespace Emulator

variable {σ : Type}

/-- Would no reactor fail the request? -/
def accepts (request : Request) (e : Emulator σ) : Bool :=
  (Reactor.offer request (Reactor.chain request.method e.reactors) e.world).1.isNone

/-- The delivery of a number, if it has not been settled. -/
def unsettled? (delivery : Nat) (e : Emulator σ) : Option Delivery :=
  (e.deliveries[delivery]?).filter fun d => !d.settled

/-- What acknowledging an ack id means. -/
def ackEvent (name ackId : String) (e : Emulator σ) : Event :=
  if e.accepts (.acknowledge name [ackId]) then .acked name ackId else .quiet

/-- What changing the deadline of an ack id means. -/
def deadlineEvent (name ackId : String) (seconds : Int) (e : Emulator σ) : Event :=
  if e.accepts (.modifyAckDeadline name [ackId] seconds) ∧ seconds = 0 then .returned name ackId
  else .quiet

/-- What publishing a message means. -/
def publishEvent (topicId : String) (content : OutgoingMessage) (e : Emulator σ) : Event :=
  match (e.publish topicId content).1 with
  | .ok id => .published topicId { id, content }
  | .error _ => .quiet

end Emulator

namespace Call

variable {σ : Type} [Log.Journal σ]

/-- The emulator after a call. -/
def run (e : Emulator σ) : Call σ → Emulator σ
  | addReactor r => e.addReactor r
  | findTopic id => (e.findTopic id).2
  | createTopic id config => (e.createTopic id config).2
  | findSubscription id => (e.findSubscription id).2
  | createSubscription id config => (e.createSubscription id config).2
  | schema reference => (e.schema reference).2
  | createSchema id config => (e.createSchema id config).2
  | openTopic id => (e.openTopic id).2
  | configure handle settings ordering => e.configure handle settings ordering
  | publish topicId content => (e.publish topicId content).2
  | submit handle content => (e.submit handle content).2
  | stop handle => e.stop handle
  | pull name => (e.pull name).2
  | lease name => (e.lease name).2
  | acknowledge name ackId => e.acknowledge name ackId
  | modifyAckDeadline name ackId seconds => e.modifyAckDeadline name ackId seconds
  | ack delivery => e.ack delivery
  | nack delivery => e.nack delivery

/-- The emulator after calls, one after the other. -/
def runs (calls : List (Call σ)) (e : Emulator σ) : Emulator σ := calls.foldl run e

omit [Log.Journal σ] in
/-- What a call means for the messages, by its answer. -/
def event (e : Emulator σ) : Call σ → Event
  | createSubscription id config =>
    let name := e.nameOf .subscription id
    match (e.createSubscription id config).1 with
    | .ok () => .created name { config with name }
    | .error _ => .quiet
  | publish topicId content => e.publishEvent topicId content
  | submit handle content =>
    match e.handles[handle]?, (e.submit handle content).1 with
    | some h, .ok id => .published h.id { id, content }
    | _, _ => .quiet
  | lease name =>
    match e.store.lease name with
    | some ((ackId, m), _) => .leased name ackId m
    | none => .quiet
  | acknowledge name ackId => e.ackEvent name ackId
  | modifyAckDeadline name ackId seconds => e.deadlineEvent name ackId seconds
  | ack delivery =>
    match e.unsettled? delivery with
    | some d => e.ackEvent d.subscription d.ackId
    | none => .quiet
  | nack delivery =>
    match e.unsettled? delivery with
    | some d => e.deadlineEvent d.subscription d.ackId 0
    | none => .quiet
  | _ => .quiet

end Call

/-! ### Acks and nacks -/

namespace AckKind

/-- The call that acks or nacks a delivery. -/
def call {σ : Type} (delivery : Nat) : AckKind → Call σ
  | ack => .ack delivery
  | nack => .nack delivery

/-- The request that the call makes. -/
def request (name ackId : String) : AckKind → Request
  | ack => .acknowledge name [ackId]
  | nack => .modifyAckDeadline name [ackId] 0

/-- What the request does to the queue of the subscription. -/
def act : AckKind → String → Queue → Queue
  | ack => Queue.settle
  | nack => Queue.requeue

/-- What the request means when no reactor fails it. -/
def event : AckKind → String → String → Event
  | ack => .acked
  | nack => .returned

theorem onQueue_event (k : AckKind) (name ackId S : String) (q : Option Queue) :
    (k.event name ackId).onQueue S q = if S = name then q.map (k.act ackId) else q := by
  cases k <;> rfl

theorem event_call {σ : Type} {e : Emulator σ} {n : Nat} {d : Delivery}
    (h : e.unsettled? n = some d) (k : AckKind) :
    (k.call n).event e =
      if e.accepts (k.request d.subscription d.ackId) then k.event d.subscription d.ackId
      else .quiet := by
  cases k with
  | ack =>
    simp only [call, Call.event, h]
    rfl
  | nack =>
    simp only [call, Call.event, h]
    exact if_congr (and_iff_left rfl) rfl rfl

theorem event_call_of_settled {σ : Type} {e : Emulator σ} {n : Nat} (h : e.unsettled? n = none)
    (k : AckKind) : (k.call n).event e = .quiet := by
  cases k <;> simp only [call, Call.event, h]

end AckKind

/-! ### What the operations of a store change -/

namespace Store

theorem find?_fanOut (topicId S : String) (m : StoredMessage) (queues : Table Queue) :
    (fanOut topicId m queues).find? S =
      (queues.find? S).map fun q => if q.config.topic = topicId then q.push m else q := by
  induction queues with
  | nil => rfl
  | cons e rest ih =>
    obtain ⟨n, q⟩ := e
    have step : fanOut topicId m ((n, q) :: rest) =
      (n, if q.config.topic = topicId then q.push m else q) :: fanOut topicId m rest := by
      simp only [fanOut, List.map_cons]
      split <;> rfl
    rw [step, Table.find?_cons, Table.find?_cons, ih]
    by_cases hS : S = n <;> simp [hS]

theorem names_fanOut (topicId : String) (m : StoredMessage) (queues : Table Queue) :
    (fanOut topicId m queues).names = queues.names := by
  simp only [Table.names, fanOut, List.map_map]
  refine List.map_congr_left fun e _ => ?_
  simp only [Function.comp_apply]
  split <;> rfl

theorem Changes.quiet {s s' : Store} (hq : s'.queues = s.queues)
    (hm : s.nextMessage ≤ s'.nextMessage) (hl : s'.nextLease = s.nextLease) :
    Changes .quiet s s' :=
  ⟨fun S => by rw [hq]; rfl, hm, hl, by rw [hq]; exact id, trivial⟩

theorem Changes.of_eq {s s' : Store} (h : s' = s) : Changes .quiet s s' :=
  .quiet (by rw [h]) (Nat.le_of_eq (by rw [h])) (by rw [h])

theorem Changes.refl (s : Store) : Changes .quiet s s := .of_eq rfl

theorem createTopic_changes {name : String} {config : TopicConfig} {s s' : Store}
    (h : s.createTopic name config = .ok s') : Changes .quiet s s' := by
  unfold createTopic at h
  split at h
  · cases h
  · cases h
    exact .quiet rfl (Nat.le_refl _) rfl

theorem createSchema_changes {name : String} {config created : SchemaConfig} {s s' : Store}
    (h : s.createSchema name config = .ok (created, s')) : Changes .quiet s s' := by
  unfold createSchema at h
  split at h
  · cases h
  · cases h
    exact .quiet rfl (Nat.le_refl _) rfl

theorem createSubscription_changes {name topic : String} {config : SubscriptionConfig}
    {s s' : Store} (h : s.createSubscription name topic config = .ok s') :
    Changes (.created name { config with name }) s s' := by
  unfold createSubscription at h
  split at h
  · cases h
  · split at h
    · cases h
    · next hnew =>
      cases h
      have hnone : s.queues.find? name = none := by simpa [Table.contains] using hnew
      refine ⟨fun S => ?_, Nat.le_refl _, rfl, fun h => ?_, hnone⟩
      · rw [Table.find?_insert]; rfl
      · exact (Table.names_insert hnone).nodup_iff.mpr
          (List.nodup_cons.mpr ⟨Table.notMem_names hnone, h⟩)

theorem publish_changes {name topicId id : String} {content : OutgoingMessage} {s s' : Store}
    (h : s.publish name topicId id content = .ok s') :
    (∀ S, s'.queues.find? S =
      (Event.published topicId { id, content }).onQueue S (s.queues.find? S)) ∧
    s'.nextMessage = s.nextMessage ∧ s'.nextLease = s.nextLease ∧
      s'.queues.names = s.queues.names := by
  unfold publish at h
  split at h
  · cases h
    exact ⟨fun S => find?_fanOut _ _ _ _, rfl, rfl, names_fanOut _ _ _⟩
  · cases h

theorem lease_changes {name ackId : String} {m : StoredMessage} {s s' : Store}
    (h : s.lease name = some ((ackId, m), s')) : Changes (.leased name ackId m) s s' := by
  unfold lease at h
  split at h
  · cases h
  · next q hq =>
    split at h
    · cases h
    · next m' rest hp =>
      cases h
      refine ⟨fun S => ?_, Nat.le_refl _, rfl, ?_, rfl, q, rest, hq, hp⟩
      swap
      · rw [Table.names_modify]
        exact id
      simp only [Event.onQueue, Table.find?_modify]
      by_cases hS : S = name
      · simp [hS, hq, hp]
      · simp [hS]

theorem settle_changes (name ackId : String) (s : Store) :
    Changes (.acked name ackId) s (s.settle name ackId) :=
  ⟨fun S => by rw [settle, Table.find?_modify]; rfl, Nat.le_refl _, rfl,
    by rw [settle, Table.names_modify]; exact id, trivial⟩

theorem requeue_changes (name ackId : String) (s : Store) :
    Changes (.returned name ackId) s (s.requeue name ackId) :=
  ⟨fun S => by rw [requeue, Table.find?_modify]; rfl, Nat.le_refl _, rfl,
    by rw [requeue, Table.names_modify]; exact id, trivial⟩

end Store

/-! ### What the calls change -/

namespace Emulator

open Store

variable {σ α : Type}

/-- A request is failed by a reactor, and then only what the reactors remember has changed, or it is
served. -/
theorem guarded_cases (request : Request) (serve : Emulator σ → Except BrokerError α × Emulator σ)
    (e : Emulator σ) :
    (e.accepts request = false ∧
        ∃ error world, guarded request serve e = (.error error, { e with world })) ∨
      (e.accepts request = true ∧ ∃ world, guarded request serve e = serve { e with world }) := by
  unfold guarded accepts
  rcases h : Reactor.offer request (Reactor.chain request.method e.reactors) e.world with ⟨r, w⟩
  cases r with
  | none => exact .inr ⟨rfl, w, rfl⟩
  | some error => exact .inl ⟨rfl, error, w, rfl⟩

/-- What does not depend on what the reactors remember holds after a request if it holds before and
serving the request keeps it. -/
theorem guarded_keeps {P : Emulator σ → Prop} {request : Request}
    {serve : Emulator σ → Except BrokerError α × Emulator σ} {e : Emulator σ}
    (he : ∀ world, P { e with world }) (h : ∀ world, P (serve { e with world }).2) :
    P (guarded request serve e).2 := by
  rcases guarded_cases request serve e with ⟨-, error, world, h'⟩ | ⟨-, world, h'⟩
  · rw [h']
    exact he world
  · rw [h']
    exact h world

theorem findTopic_store (id : String) (e : Emulator σ) : (e.findTopic id).2.store = e.store :=
  guarded_keeps (P := (·.store = e.store)) (fun _ => rfl) fun _ => rfl

theorem findSubscription_store (id : String) (e : Emulator σ) :
    (e.findSubscription id).2.store = e.store :=
  guarded_keeps (P := (·.store = e.store)) (fun _ => rfl) fun _ => rfl

theorem schema_store (reference : String) (e : Emulator σ) :
    (e.schema reference).2.store = e.store := by
  refine guarded_keeps (P := (·.store = e.store)) (fun _ => rfl) fun _ => ?_
  split <;> rfl

theorem pull_store (name : String) (e : Emulator σ) : (e.pull name).2.store = e.store := by
  refine guarded_keeps (P := (·.store = e.store)) (fun _ => rfl) fun _ => ?_
  split <;> rfl

theorem stop_store [Log.Journal σ] (handle : Nat) (e : Emulator σ) :
    (e.stop handle).store = e.store := by
  unfold stop
  split
  · rfl
  · split <;> rfl

/-- A request that changes the store either fails, and the store is as before, or has changed it. -/
theorem served_cases (request : Request) (change : Store → Except BrokerError Store)
    (e : Emulator σ) :
    (∃ error, (guarded request (served change) e).1 = .error error ∧
        (guarded request (served change) e).2.store = e.store) ∨
      (guarded request (served change) e).1 = .ok () ∧
        change e.store = .ok (guarded request (served change) e).2.store := by
  rcases guarded_cases request (served change) e with ⟨-, error, world, h⟩ | ⟨-, world, h⟩
  · rw [h]
    exact .inl ⟨error, rfl, rfl⟩
  · rw [h]
    unfold served
    dsimp only
    cases change e.store with
    | error error => exact .inl ⟨error, rfl, rfl⟩
    | ok store => exact .inr ⟨rfl, rfl⟩

theorem createTopic_changes (id : String) (config : TopicConfig) (e : Emulator σ) :
    Changes .quiet e.store (e.createTopic id config).2.store := by
  refine guarded_keeps (P := (Changes .quiet e.store ·.store)) (fun _ => .refl _) fun _ => ?_
  unfold served
  split
  · next store h => exact Store.createTopic_changes h
  · exact .refl _

theorem createSchema_changes (id : String) (config : SchemaConfig) (e : Emulator σ) :
    Changes .quiet e.store (e.createSchema id config).2.store := by
  refine guarded_keeps (P := (Changes .quiet e.store ·.store)) (fun _ => .refl _) fun _ => ?_
  split
  · next created store h => exact Store.createSchema_changes h
  · exact .refl _

theorem createSubscription_changes (id : String) (config : SubscriptionConfig) (e : Emulator σ) :
    Changes (Call.event e (.createSubscription id config)) e.store
      (e.createSubscription id config).2.store := by
  simp only [Call.event]
  rcases served_cases
    (.createSubscription (e.nameOf .subscription id) (e.nameOf .topic config.topic))
    (·.createSubscription (e.nameOf .subscription id) (e.nameOf .topic config.topic) config) e with
    ⟨error, h, hs⟩ | ⟨h, hs⟩
  · rw [createSubscription, h, hs]
    exact .refl _
  · rw [createSubscription, h]
    exact Store.createSubscription_changes hs

/-- A message that is published is given its number first; it counts even if the message fails. -/
theorem publish_changes (topicId : String) (content : OutgoingMessage) (e : Emulator σ) :
    Changes (e.publishEvent topicId content) e.store (e.publish topicId content).2.store := by
  let counted : Emulator σ :=
    { e with store := { e.store with nextMessage := e.store.nextMessage + 1 } }
  have used : Changes .quiet e.store counted.store :=
    .quiet rfl (Nat.le_succ _) rfl
  unfold publishEvent publish guarded
  dsimp only
  rcases Reactor.offer (.publish (e.nameOf .topic topicId) [Text.natural e.store.nextMessage])
    (Reactor.chain (Request.publish (e.nameOf .topic topicId)
      [Text.natural e.store.nextMessage]).method e.reactors) e.world with ⟨_ | error, world⟩
  · unfold served
    dsimp only
    cases hp : Store.publish (e.nameOf .topic topicId) topicId (Text.natural e.store.nextMessage)
      content counted.store with
    | error error => exact used
    | ok store =>
      obtain ⟨hq, hm, hl, hn⟩ := Store.publish_changes hp
      refine ⟨hq, ?_, hl, ?_, rfl, rfl, ?_⟩
      · rw [hm]; exact Nat.le_succ _
      · rw [hn]; exact id
      · rw [hm]; exact Nat.lt_succ_self _
  · exact used

theorem submit_changes (handle : Nat) (content : OutgoingMessage) (e : Emulator σ) :
    Changes (Call.event e (.submit handle content)) e.store (e.submit handle content).2.store := by
  simp only [Call.event, submit]
  cases e.handles[handle]? with
  | none => exact .refl _
  | some h =>
    dsimp only
    by_cases hs : h.stopped
    · rw [if_pos hs]
      exact .refl _
    · rw [if_neg hs]
      by_cases hk : content.orderingKey ≠ "" ∧ !h.ordering
      · rw [if_pos hk]
        exact .refl _
      · rw [if_neg hk]
        have hp := publish_changes h.id content e
        unfold publishEvent at hp
        cases hr : (e.publish h.id content).1 with
        | ok id => rw [hr] at hp; exact hp
        | error error => rw [hr] at hp; exact hp

theorem lease_changes (name : String) (e : Emulator σ) :
    Changes (Call.event e (.lease name)) e.store (e.lease name).2.store := by
  simp only [Call.event, lease]
  cases h : e.store.lease name with
  | none => exact .refl _
  | some r => exact Store.lease_changes h

theorem acknowledge_changes (name ackId : String) (e : Emulator σ) :
    Changes (e.ackEvent name ackId) e.store (e.acknowledge name ackId).store := by
  unfold ackEvent acknowledge
  rcases guarded_cases (.acknowledge name [ackId])
    (served fun s => .ok (s.settle name ackId)) e with ⟨ha, error, world, h⟩ | ⟨ha, world, h⟩
  · rw [h, ha]
    exact .refl _
  · rw [h, ha]
    exact settle_changes name ackId e.store

theorem modifyAckDeadline_changes (name ackId : String) (seconds : Int) (e : Emulator σ) :
    Changes (e.deadlineEvent name ackId seconds) e.store
      (e.modifyAckDeadline name ackId seconds).store := by
  unfold deadlineEvent modifyAckDeadline
  dsimp only
  rcases guarded_cases (.modifyAckDeadline name [ackId] seconds)
    (served fun s => .ok (if seconds = 0 then s.requeue name ackId else s)) e with
    ⟨ha, error, world, h⟩ | ⟨ha, world, h⟩
  · rw [h, ha, if_neg (by simp)]
    exact .refl _
  · rw [h, ha]
    by_cases hs : seconds = 0
    · simp only [hs, and_self, if_true]
      exact requeue_changes name ackId e.store
    · simp only [hs, and_false, if_false]
      exact .refl _

/-- The emulator with a delivery marked as settled. -/
def marked (delivery : Nat) (e : Emulator σ) : Emulator σ :=
  { e with deliveries := e.deliveries.modify delivery fun d => { d with settled := true } }

theorem once_eq (delivery : Nat) (act : Delivery → Emulator σ → Emulator σ) (e : Emulator σ) :
    once delivery act e =
      match e.unsettled? delivery with
      | none => e
      | some d => act d (e.marked delivery) := by
  unfold once unsettled?
  cases e.deliveries[delivery]? with
  | none => rfl
  | some d => cases hd : d.settled <;> simp [Option.filter, hd, marked]

theorem ack_changes (delivery : Nat) (e : Emulator σ) :
    Changes (Call.event e (.ack delivery)) e.store (e.ack delivery).store := by
  simp only [Call.event, ack, once_eq]
  cases e.unsettled? delivery with
  | none => exact .refl _
  | some d => exact acknowledge_changes d.subscription d.ackId (e.marked delivery)

theorem nack_changes (delivery : Nat) (e : Emulator σ) :
    Changes (Call.event e (.nack delivery)) e.store (e.nack delivery).store := by
  simp only [Call.event, nack, once_eq]
  cases e.unsettled? delivery with
  | none => exact .refl _
  | some d => exact modifyAckDeadline_changes d.subscription d.ackId 0 (e.marked delivery)

end Emulator

namespace Call

variable {σ : Type} [Log.Journal σ]

/-- All that a call changes is what its event says. -/
theorem change (e : Emulator σ) (c : Call σ) :
    Store.Changes (c.event e) e.store (c.run e).store := by
  cases c with
  | addReactor r => exact .refl _
  | findTopic id => exact .of_eq (Emulator.findTopic_store id e)
  | createTopic id config => exact Emulator.createTopic_changes id config e
  | findSubscription id => exact .of_eq (Emulator.findSubscription_store id e)
  | createSubscription id config => exact Emulator.createSubscription_changes id config e
  | schema reference => exact .of_eq (Emulator.schema_store reference e)
  | createSchema id config => exact Emulator.createSchema_changes id config e
  | openTopic id => exact .refl _
  | configure handle settings ordering => exact .refl _
  | publish topicId content => exact Emulator.publish_changes topicId content e
  | submit handle content => exact Emulator.submit_changes handle content e
  | stop handle => exact .of_eq (Emulator.stop_store handle e)
  | pull name => exact .of_eq (Emulator.pull_store name e)
  | lease name => exact Emulator.lease_changes name e
  | acknowledge name ackId => exact Emulator.acknowledge_changes name ackId e
  | modifyAckDeadline name ackId seconds =>
    exact Emulator.modifyAckDeadline_changes name ackId seconds e
  | ack delivery => exact Emulator.ack_changes delivery e
  | nack delivery => exact Emulator.nack_changes delivery e

end Call

end Messaging
