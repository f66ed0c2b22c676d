import Messaging.Client
import Messaging.Configuration

/-!
# Preparing resources

Creates schemas, topics and subscriptions ahead of their use, one by one or all that a configuration
declares. The schema of a declared topic goes by the name that it got when it was created.
-/

namespace Messaging

/-- What to create: a resource with its id and configuration. -/
structure ResourceSpec (κ : Type) where
  id : String
  config : κ

namespace Preparation

variable {σ : Type} [Log.Journal σ]

/-- The entry of a log for a resource that is prepared. -/
def preparedEntry (r : Resource) (fields : List (String × String)) : Log.Entry :=
  { level := .info, source := "pubsub_engine::prepare", text := "prepared " ++ r.word, fields }

/-- Creates a resource of a kind and an id. The log has an entry for what is created. -/
def prepare {α : Type} (r : Resource) (id : String) (fields : α → List (String × String))
    (create : σ → Except BrokerError α × σ) (s : σ) : Except ServiceError α × σ :=
  match create s with
  | (.error e, s) => (.error (.prepare r id e), s)
  | (.ok created, s) => (.ok created, Log.note (preparedEntry r (fields created)) s)

/-- Creates a schema; the result has its name. -/
def schema (c : Client σ) (spec : ResourceSpec SchemaConfig) (s : σ) :
    Except ServiceError SchemaConfig × σ :=
  prepare .schema spec.id (fun created => [("schema", created.name)])
    (c.createSchema spec.id spec.config) s

/-- Creates a topic. -/
def topic (c : Client σ) (spec : ResourceSpec TopicConfig) (s : σ) :
    Except ServiceError Unit × σ :=
  prepare .topic spec.id (fun _ => [("topic", c.nameOf .topic spec.id)])
    (c.createTopic spec.id spec.config) s

/-- Creates a schema and a topic that has it. -/
def topicWithSchema (c : Client σ) (spec : ResourceSpec TopicConfig)
    (schemaSpec : ResourceSpec SchemaConfig) (encoding : Encoding) (s : σ) :
    Except ServiceError Unit × σ :=
  match schema c schemaSpec s with
  | (.error e, s) => (.error e, s)
  | (.ok created, s) =>
    let config := { spec.config with schemaSettings := some ⟨created.name, encoding⟩ }
    topic c { spec with config } s

/-- Creates a subscription to a topic, whatever topic its configuration names. -/
def subscription (c : Client σ) (topicId : String) (spec : ResourceSpec SubscriptionConfig)
    (s : σ) : Except ServiceError Unit × σ :=
  prepare .subscription spec.id
    (fun _ => [("subscription", c.nameOf .subscription spec.id),
      ("topic", c.nameOf .topic topicId)])
    (c.createSubscription spec.id { spec.config with topic := topicId }) s

/-- Creates a topic, perhaps with a schema, and a subscription to it. -/
def pair (c : Client σ) (topicSpec : ResourceSpec TopicConfig)
    (withSchema : Option (ResourceSpec SchemaConfig × Encoding))
    (spec : ResourceSpec SubscriptionConfig) (s : σ) : Except ServiceError Unit × σ :=
  let created := match withSchema with
    | none => topic c topicSpec s
    | some (schemaSpec, encoding) => topicWithSchema c topicSpec schemaSpec encoding s
  match created with
  | (.error e, s) => (.error e, s)
  | (.ok (), s) => subscription c topicSpec.id spec s

/-! ### Configurations -/

/-- Creates the schemas that are declared; the result is their names by their ids. -/
def schemas (c : Client σ) (files : Files) :
    List SchemaEntry → Table String → σ → Except ServiceError (Table String) × σ
  | [], names, s => (.ok names, s)
  | entry :: rest, names, s =>
    match entry.toConfig files with
    | .error e => (.error e, s)
    | .ok config =>
      match schema c { id := entry.id, config } s with
      | (.error e, s) => (.error e, s)
      | (.ok created, s) => schemas c files rest (names.insert entry.id created.name) s

/-- Creates the topics that are declared, with the names of the schemas. -/
def topics (c : Client σ) (names : Table String) :
    List TopicEntry → σ → Except ServiceError Unit × σ
  | [], s => (.ok (), s)
  | entry :: rest, s =>
    let config := entry.toConfig (entry.schema.bind names.find?)
    match topic c { id := entry.id, config } s with
    | (.error e, s) => (.error e, s)
    | (.ok (), s) => topics c names rest s

/-- Creates the subscriptions that are declared, to topics among those of the ids. -/
def subscriptions (c : Client σ) (topicIds : List String) :
    List SubscriptionEntry → σ → Except ServiceError Unit × σ
  | [], s => (.ok (), s)
  | entry :: rest, s =>
    if entry.topic ∈ topicIds then
      match subscription c entry.topic { id := entry.id, config := entry.toConfig } s with
      | (.error e, s) => (.error e, s)
      | (.ok (), s) => subscriptions c topicIds rest s
    else (.error (.config (Configuration.unknownTopic entry)), s)

/-- Creates everything that a configuration declares: the schemas, then the topics, then the
subscriptions. -/
def all (c : Client σ) (files : Files) (config : Configuration) (s : σ) :
    Except ServiceError Unit × σ :=
  match schemas c files config.schemas [] s with
  | (.error e, s) => (.error e, s)
  | (.ok names, s) =>
    match topics c names config.topics s with
    | (.error e, s) => (.error e, s)
    | (.ok (), s) => subscriptions c (config.topics.map (·.id)) config.subscriptions s

end Preparation

end Messaging
