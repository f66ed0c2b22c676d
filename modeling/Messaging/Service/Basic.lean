import Messaging.Configuration
import Messaging.Service.Registry
import Messaging.Service.SchemaCache
import Messaging.Service.Subscription
import Messaging.Service.Topic

/-!
# The service

The service publishes to topics and receives from subscriptions of a broker. A topic or subscription
is created when its id is first used: its configuration is fetched, its schema is looked up in the
cache, and the codec is made; then it is kept in a registry. A creation that fails leaves the
registries as they are.
-/

namespace Messaging

/-- The state of the service over the state of a broker. -/
structure Service (σ : Type) where
  config : Configuration
  schemas : SchemaCache := []
  topics : Registry Topic := ⟨.topic, []⟩
  subscriptions : Registry Subscription := ⟨.subscription, []⟩
  broker : σ

namespace Service

variable {σ : Type} [Log.Journal σ]

instance : Log.Journal (Service σ) :=
  ⟨fun entry s => { s with broker := Log.note entry s.broker }⟩

/-- The configuration of a schema, by way of the cache. -/
def schema (c : Client σ) (reference : String) (s : Service σ) :
    Except ServiceError SchemaConfig × Service σ :=
  let (result, schemas, broker) := s.schemas.get c.schema reference s.broker
  (result, { s with schemas, broker })

/-- The codec for a resource from the schema settings of a topic. -/
def codec (c : Client σ) (r : Resource) (id : String) (settings : Option SchemaSettings)
    (s : Service σ) : Except ServiceError Codec × Service σ :=
  let create (kind : SchemaKind) (encoding : Encoding) (definition : String) :=
    (Codec.create kind encoding definition).mapError (ServiceError.resourceCodec r id)
  match settings.filter fun settings => settings.schema ≠ "" with
  | none => (create .unspecified .unspecified "", s)
  | some settings =>
    match s.schema c settings.schema with
    | (.error e, s) => (.error (.resourceSchema r id e), s)
    | (.ok config, s) => (create config.kind settings.encoding config.definition, s)

/-- The entry of a log for a topic or subscription that is created. -/
def createdEntry (r : Resource) (id : String) (codec : Codec) : Log.Entry :=
  { level := .debug, source := "pubsub_engine::factory", text := "created " ++ r.word
    fields := [(r.word, id), ("codec", Text.quoted codec.name)] }

/-- Creates a topic for publishing. -/
def createTopic (c : Client σ) (id : String) (s : Service σ) :
    Except ServiceError Topic × Service σ :=
  match c.topicConfig id s.broker with
  | (.error e, broker) => (.error (.resourceConfig .topic id e), { s with broker })
  | (.ok config, broker) =>
    match codec c .topic id config.schemaSettings { s with broker } with
    | (.error e, s) => (.error e, s)
    | (.ok codec, s) =>
      let (handle, broker) := c.openTopic id s.broker
      (.ok { id, handle, codec }, Log.note (createdEntry .topic id codec) { s with broker })

/-- Creates a subscription for receiving. Its codec comes from the schema of its topic. -/
def createSubscription (c : Client σ) (id : String) (s : Service σ) :
    Except ServiceError Subscription × Service σ :=
  match c.subscriptionConfig id s.broker with
  | (.error e, broker) => (.error (.resourceConfig .subscription id e), { s with broker })
  | (.ok config, broker) =>
    match c.topicConfig config.topic broker with
    | (.error e, broker) => (.error (.topicConfig id e), { s with broker })
    | (.ok topic, broker) =>
      match codec c .subscription id topic.schemaSettings { s with broker } with
      | (.error e, s) => (.error e, s)
      | (.ok codec, s) =>
        (.ok { id, codec }, Log.note (createdEntry .subscription id codec) s)

/-- Creates a topic and registers it. -/
def newTopic (c : Client σ) (id : String) (s : Service σ) :
    Except ServiceError Topic × Service σ :=
  match s.createTopic c id with
  | (.error e, s) => (.error (.create .topic e), s)
  | (.ok t, s) =>
    (.ok t, Log.note (Registry.addedEntry .topic id) { s with topics := s.topics.add id t })

/-- The topic of an id, created on first use. -/
def topic (c : Client σ) (id : String) (s : Service σ) : Except ServiceError Topic × Service σ :=
  if s.topics.has id then ((s.topics.get id).mapError (.get .topic), s) else s.newTopic c id

/-- Creates a subscription and registers it. -/
def newSubscription (c : Client σ) (id : String) (s : Service σ) :
    Except ServiceError Subscription × Service σ :=
  match s.createSubscription c id with
  | (.error e, s) => (.error (.create .subscription e), s)
  | (.ok sub, s) =>
    (.ok sub, Log.note (Registry.addedEntry .subscription id)
      { s with subscriptions := s.subscriptions.add id sub })

/-- The subscription of an id, created on first use. -/
def subscription (c : Client σ) (id : String) (s : Service σ) :
    Except ServiceError Subscription × Service σ :=
  if s.subscriptions.has id then ((s.subscriptions.get id).mapError (.get .subscription), s)
  else s.newSubscription c id

/-- Publishes a payload to a topic that is registered under an id. -/
def publishOn (c : Client σ) (id : String) (t : Topic) (p : Payload) (o : PublishOptions)
    (s : Service σ) : Except ServiceError (Except BrokerError String) × Service σ :=
  let (result, t, broker) := t.publish c p o s.broker
  (result, { s with topics := s.topics.add id t, broker })

/-- Publishes a payload to a topic. The result is the id of the message or the error of the broker,
unless there is no topic or the payload cannot be encoded. -/
def publish (c : Client σ) (id : String) (p : Payload) (o : PublishOptions) (s : Service σ) :
    Except ServiceError (Except BrokerError String) × Service σ :=
  match s.topic c id with
  | (.error e, s) => (.error e, s)
  | (.ok t, s) => s.publishOn c id t p o

/-- Applies options to a topic that is registered; the result is what its messages carry. -/
def topicOptions (c : Client σ) (id : String) (o : PublishOptions) (s : Service σ) :
    Except ServiceError MessageSettings × Service σ :=
  match s.topics.get id with
  | .error e => (.error e, s)
  | .ok t =>
    let (t, broker) := t.withOptions c o s.broker
    (.ok t.message, { s with topics := s.topics.add id t, broker })

/-- Applies options to a subscription that is registered; the result is its settings. -/
def subscriptionOptions (id : String) (o : ReceiveOptions) (s : Service σ) :
    Except ServiceError ReceiveSettings × Service σ :=
  match s.subscriptions.get id with
  | .error e => (.error e, s)
  | .ok sub =>
    let sub := sub.withOptions o
    (.ok sub.settings, { s with subscriptions := s.subscriptions.add id sub })

/-- Starts to receive from a subscription; the result is what a receive loop has to know. -/
def subscribe (c : Client σ) (id : String) (o : ReceiveOptions) (s : Service σ) :
    Except ServiceError Subscription × Service σ :=
  match s.subscription c id with
  | (.error e, s) => (.error e, s)
  | (.ok sub, s) =>
    let sub := sub.withOptions o
    let (result, broker) := sub.receive c s.broker
    (result.map fun _ => sub,
     { s with subscriptions := s.subscriptions.add id sub, broker })

/-- The entry of a log for a topic that is stopped. -/
def stoppingEntry (id : String) : Log.Entry :=
  { level := .debug, source := "pubsub_engine::publisher", text := "stopping topic"
    fields := [("topic", id)] }

/-- Stops the handles of all topics that are registered. -/
def stop (c : Client σ) (s : Service σ) : Service σ :=
  s.topics.entries.foldl (fun s e =>
    { s with broker := c.stop e.2.handle (Log.note (stoppingEntry e.1) s.broker) }) s

/-- The entry of a log for the end of the service. -/
def shutdownEntry : Log.Entry :=
  { level := .info, source := "pubsub_engine::bootstrap", text := "stopping publisher" }

/-- Ends the service. -/
def shutdown (c : Client σ) (s : Service σ) : Service σ := (Log.note shutdownEntry s).stop c

/-- The description of the service. -/
def describe (c : Client σ) (s : Service σ) : String :=
  Text.record "PubSub"
    [("project", Text.quoted c.project), ("topics", s.topics.describe),
     ("subscriptions", s.subscriptions.describe)]

end Service

end Messaging
