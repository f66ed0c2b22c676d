import Messaging.Broker.Emulator

/-!
# Clients of a broker

What publishing and receiving need of a broker, as operations on a state. Any broker fits; the
emulator is one.
-/

namespace Messaging

/-- The operations of a broker on a state. Handles for publishing go by numbers. -/
structure Client (σ : Type) where
  project : String
  topicConfig : String → σ → Except BrokerError TopicConfig × σ
  topicExists : String → σ → Except BrokerError Bool × σ
  createTopic : String → TopicConfig → σ → Except BrokerError Unit × σ
  subscriptionConfig : String → σ → Except BrokerError SubscriptionConfig × σ
  subscriptionExists : String → σ → Except BrokerError Bool × σ
  createSubscription : String → SubscriptionConfig → σ → Except BrokerError Unit × σ
  schema : String → σ → Except BrokerError SchemaConfig × σ
  createSchema : String → SchemaConfig → σ → Except BrokerError SchemaConfig × σ
  openTopic : String → σ → Nat × σ
  configure : Nat → PublishSettings → Bool → σ → σ
  submit : Nat → OutgoingMessage → σ → Except BrokerError String × σ
  stop : Nat → σ → σ
  /-- Announces a receiver of a subscription by its name. -/
  pull : String → σ → Except BrokerError Unit × σ

/-- The name of a resource of the project. -/
def Client.nameOf {σ : Type} (c : Client σ) (r : Resource) (id : String) : String :=
  r.nameOf c.project id

/-- A client of the emulator of a project. -/
def Emulator.client {σ : Type} [Log.Journal σ] (project : String) : Client (Emulator σ) where
  project := project
  topicConfig := topicConfig
  topicExists := topicExists
  createTopic := createTopic
  subscriptionConfig := subscriptionConfig
  subscriptionExists := subscriptionExists
  createSubscription := createSubscription
  schema := schema
  createSchema := createSchema
  openTopic := openTopic
  configure := configure
  submit := submit
  stop := stop
  pull := pull

end Messaging
