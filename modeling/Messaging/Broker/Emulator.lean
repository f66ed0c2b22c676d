import Messaging.Broker.Reactor
import Messaging.Broker.Store
import Messaging.Settings

/-!
# A broker in memory

The emulator serves one project. Every request is offered to the reactors first (`guarded`), so that
a request that one of them fails reaches the store no more. Topics are published to through handles,
which have to allow ordering before a message with an ordering key goes out and accept nothing once
they are stopped. Deliveries are numbered; only the first ack or nack of one counts.
-/

namespace Messaging

/-- A handle for publishing to a topic. -/
structure TopicHandle where
  id : String
  settings : PublishSettings := {}
  ordering : Bool := false
  stopped : Bool := false
  deriving DecidableEq, Repr

/-- A message that has been handed to a receiver. -/
structure Delivery where
  /-- The name of the subscription. -/
  subscription : String
  ackId : String
  message : StoredMessage
  /-- Has it been acked or nacked? -/
  settled : Bool := false
  deriving DecidableEq, Repr

/-- A broker in memory; `world` is what its reactors remember. -/
structure Emulator (σ : Type) where
  project : String
  world : σ
  store : Store := {}
  handles : List TopicHandle := []
  deliveries : List Delivery := []
  reactors : List (Reactor σ) := []

namespace Emulator

variable {σ α : Type}

/-- The name of a resource of the project. -/
def nameOf (e : Emulator σ) (r : Resource) (id : String) : String := r.nameOf e.project id

instance [Log.Journal σ] : Log.Journal (Emulator σ) :=
  ⟨fun entry e => { e with world := Log.note entry e.world }⟩

/-- Registers a reactor behind those that are there. -/
def addReactor (r : Reactor σ) (e : Emulator σ) : Emulator σ :=
  { e with reactors := e.reactors ++ [r] }

/-- Serves a request unless a reactor fails it. -/
def guarded (request : Request) (serve : Emulator σ → Except BrokerError α × Emulator σ)
    (e : Emulator σ) : Except BrokerError α × Emulator σ :=
  match Reactor.offer request (Reactor.chain request.method e.reactors) e.world with
  | (some error, world) => (.error error, { e with world })
  | (none, world) => serve { e with world }

/-- Serves a request that changes the store or fails. -/
def served (change : Store → Except BrokerError Store) (e : Emulator σ) :
    Except BrokerError Unit × Emulator σ :=
  match change e.store with
  | .ok store => (.ok (), { e with store })
  | .error error => (.error error, e)

/-- The emulator of a project is all there is to connect to. -/
def connect (project : String) (e : Emulator σ) : Except BrokerError String :=
  if project = e.project then .ok project
  else .error ⟨.invalidArgument, "project " ++ project ++ " is not served by this emulator"⟩

/-! ### Resources -/

/-- The configuration of a topic, if there is one. -/
def findTopic (id : String) (e : Emulator σ) :
    Except BrokerError (Option TopicConfig) × Emulator σ :=
  let name := e.nameOf .topic id
  guarded (.getTopic name) (fun e => (.ok (e.store.topics.find? name), e)) e

/-- Is there a topic? -/
def topicExists (id : String) (e : Emulator σ) : Except BrokerError Bool × Emulator σ :=
  match e.findTopic id with
  | (found, e) => (found.map Option.isSome, e)

/-- The configuration of a topic. -/
def topicConfig (id : String) (e : Emulator σ) : Except BrokerError TopicConfig × Emulator σ :=
  match e.findTopic id with
  | (.ok none, e) => (.error (.missing .topic (e.nameOf .topic id)), e)
  | (.ok (some config), e) => (.ok config, e)
  | (.error error, e) => (.error error, e)

/-- Creates a topic. -/
def createTopic (id : String) (config : TopicConfig) (e : Emulator σ) :
    Except BrokerError Unit × Emulator σ :=
  let name := e.nameOf .topic id
  guarded (.createTopic name) (served (·.createTopic name config)) e

/-- The configuration of a subscription, if there is one. -/
def findSubscription (id : String) (e : Emulator σ) :
    Except BrokerError (Option SubscriptionConfig) × Emulator σ :=
  let name := e.nameOf .subscription id
  guarded (.getSubscription name)
    (fun e => (.ok ((e.store.queues.find? name).map Queue.config), e)) e

/-- Is there a subscription? -/
def subscriptionExists (id : String) (e : Emulator σ) : Except BrokerError Bool × Emulator σ :=
  match e.findSubscription id with
  | (found, e) => (found.map Option.isSome, e)

/-- The configuration of a subscription. -/
def subscriptionConfig (id : String) (e : Emulator σ) :
    Except BrokerError SubscriptionConfig × Emulator σ :=
  match e.findSubscription id with
  | (.ok none, e) => (.error (.missing .subscription (e.nameOf .subscription id)), e)
  | (.ok (some config), e) => (.ok config, e)
  | (.error error, e) => (.error error, e)

/-- Creates a subscription to the topic that its configuration names by its id. -/
def createSubscription (id : String) (config : SubscriptionConfig) (e : Emulator σ) :
    Except BrokerError Unit × Emulator σ :=
  let name := e.nameOf .subscription id
  let topic := e.nameOf .topic config.topic
  guarded (.createSubscription name topic) (served (·.createSubscription name topic config)) e

/-- The configuration of a schema, by its id or its name. -/
def schema (reference : String) (e : Emulator σ) : Except BrokerError SchemaConfig × Emulator σ :=
  let name := e.nameOf .schema (schemaId reference)
  let look (e : Emulator σ) : Except BrokerError SchemaConfig × Emulator σ :=
    match e.store.schemas.find? name with
    | some config => (.ok config, e)
    | none => (.error (.missing .schema name), e)
  guarded (.getSchema name) look e

/-- Creates a schema; the result has its name. -/
def createSchema (id : String) (config : SchemaConfig) (e : Emulator σ) :
    Except BrokerError SchemaConfig × Emulator σ :=
  let name := e.nameOf .schema id
  let create (e : Emulator σ) : Except BrokerError SchemaConfig × Emulator σ :=
    match e.store.createSchema name config with
    | .ok (created, store) => (.ok created, { e with store })
    | .error error => (.error error, e)
  guarded (.createSchema name) create e

/-! ### Publishing -/

/-- Publishes a message to a topic; the result is its id. A message that fails uses up its id. -/
def publish (topicId : String) (content : OutgoingMessage) (e : Emulator σ) :
    Except BrokerError String × Emulator σ :=
  let name := e.nameOf .topic topicId
  let id := Text.natural e.store.nextMessage
  let counted := { e with store := { e.store with nextMessage := e.store.nextMessage + 1 } }
  let serve (e : Emulator σ) : Except BrokerError String × Emulator σ :=
    match served (·.publish name topicId id content) e with
    | (result, e) => (result.map fun _ => id, e)
  guarded (.publish name [id]) serve counted

/-- Opens a handle for a topic, whether the topic exists or not. -/
def openTopic (id : String) (e : Emulator σ) : Nat × Emulator σ :=
  (e.handles.length, { e with handles := e.handles ++ [{ id }] })

/-- Sets how a handle publishes. -/
def configure (handle : Nat) (settings : PublishSettings) (ordering : Bool) (e : Emulator σ) :
    Emulator σ :=
  { e with handles := e.handles.modify handle fun h => { h with settings, ordering } }

/-- The error of a handle that is stopped. -/
def stoppedError (name : String) : BrokerError :=
  ⟨.unavailable, "topic " ++ name ++ " has been stopped"⟩

/-- The error for an ordering key where there is no ordering. -/
def orderingError : BrokerError :=
  ⟨.invalidArgument, "message ordering is disabled on the topic, but an ordering key was set"⟩

/-- Publishes a message through a handle. -/
def submit (handle : Nat) (content : OutgoingMessage) (e : Emulator σ) :
    Except BrokerError String × Emulator σ :=
  match e.handles[handle]? with
  | none => (.error (.ofText "the handle is not open"), e)
  | some h =>
    if h.stopped then (.error (stoppedError (e.nameOf .topic h.id)), e)
    else if content.orderingKey ≠ "" ∧ !h.ordering then (.error orderingError, e)
    else e.publish h.id content

/-- The entry for a handle that has been stopped. -/
def stoppedEntry (name : String) : Log.Entry :=
  { level := .debug, source := "pubsub_emulator::client", text := "topic stopped"
    fields := [("topic", name)] }

/-- Stops a handle for good. -/
def stop [Log.Journal σ] (handle : Nat) (e : Emulator σ) : Emulator σ :=
  match e.handles[handle]? with
  | none => e
  | some h =>
    if h.stopped then e
    else Log.note (stoppedEntry (e.nameOf .topic h.id))
      { e with handles := e.handles.modify handle fun h => { h with stopped := true } }

/-! ### Receiving -/

/-- Announces a receiver of a subscription by its name. -/
def pull (name : String) (e : Emulator σ) : Except BrokerError Unit × Emulator σ :=
  let look (e : Emulator σ) : Except BrokerError Unit × Emulator σ :=
    if e.store.queues.contains name then (.ok (), e)
    else (.error (.missing .subscription name), e)
  guarded (.pull name) look e

/-- Leases the next message of a subscription by its name; the result is the number of the
delivery. -/
def lease (name : String) (e : Emulator σ) : Option Nat × Emulator σ :=
  match e.store.lease name with
  | none => (none, e)
  | some ((ackId, message), store) =>
    let delivery := { subscription := name, ackId, message }
    (some e.deliveries.length, { e with store, deliveries := e.deliveries ++ [delivery] })

/-- Acknowledges an ack id, which settles its lease. -/
def acknowledge (name ackId : String) (e : Emulator σ) : Emulator σ :=
  (guarded (.acknowledge name [ackId]) (served fun s => .ok (s.settle name ackId)) e).2

/-- Extends the deadline of an ack id; no seconds bring its message back. -/
def modifyAckDeadline (name ackId : String) (seconds : Int) (e : Emulator σ) : Emulator σ :=
  let change (s : Store) : Store := if seconds = 0 then s.requeue name ackId else s
  (guarded (.modifyAckDeadline name [ackId] seconds) (served fun s => .ok (change s)) e).2

/-- Does something with a delivery that has not been settled, and marks it. -/
def once (delivery : Nat) (act : Delivery → Emulator σ → Emulator σ) (e : Emulator σ) :
    Emulator σ :=
  match e.deliveries[delivery]? with
  | none => e
  | some d =>
    if d.settled then e
    else act d { e with
      deliveries := e.deliveries.modify delivery fun d => { d with settled := true } }

/-- Acks a delivery. -/
def ack (delivery : Nat) : Emulator σ → Emulator σ :=
  once delivery fun d => acknowledge d.subscription d.ackId

/-- Nacks a delivery, which brings its message back. -/
def nack (delivery : Nat) : Emulator σ → Emulator σ :=
  once delivery fun d => modifyAckDeadline d.subscription d.ackId 0

/-- The description of an emulator. -/
def describe (e : Emulator σ) : String :=
  "Emulator \x7b project_id: " ++ Text.quoted e.project ++ ", .. \x7d"

end Emulator

end Messaging
