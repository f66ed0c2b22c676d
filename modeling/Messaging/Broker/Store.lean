import Messaging.Broker.Signal
import Messaging.Error
import Messaging.ResourceConfig
import Messaging.Text.Quoted

/-!
# The store of a broker

Topics, subscriptions and schemas by their names. A subscription is a queue: a message that is
published to its topic is appended, the one in front is leased under an ack id of its own, and from
then on it is outstanding until it is settled or comes back behind all others with one attempt more.
Ack ids join the id of the message with the number of the lease, so that none is given twice.
-/

namespace Messaging

/-- A message on its way to a topic. -/
structure OutgoingMessage where
  data : Bytes
  attributes : Table String := []
  orderingKey : String := ""
  deriving DecidableEq, Repr

/-- A message as a subscription keeps it. -/
structure StoredMessage where
  id : String
  content : OutgoingMessage
  /-- How often it has been delivered, with the next delivery. -/
  attempt : Nat := 1
  deriving DecidableEq, Repr

/-- A subscription and its messages. -/
structure Queue where
  config : SubscriptionConfig
  pending : List StoredMessage := []
  /-- The messages that are leased, by their ack ids. -/
  outstanding : List (String × StoredMessage) := []
  signal : Signal := {}
  deriving DecidableEq, Repr

namespace Queue

/-- Appends a message and wakes a receiver. -/
def push (m : StoredMessage) (q : Queue) : Queue :=
  { q with pending := q.pending ++ [m], signal := q.signal.notify }

/-- Takes the lease of an ack id off. -/
def settle (ackId : String) (q : Queue) : Queue :=
  { q with outstanding := q.outstanding.filter fun lease => lease.1 ≠ ackId }

/-- Brings the message of an ack id back, with one attempt more. -/
def requeue (ackId : String) (q : Queue) : Queue :=
  match q.outstanding.lookup ackId with
  | none => q
  | some m => (q.settle ackId).push { m with attempt := m.attempt + 1 }

end Queue

/-- Everything a broker keeps. Topics, queues and schemas go by their names. -/
structure Store where
  topics : Table TopicConfig := []
  queues : Table Queue := []
  schemas : Table SchemaConfig := []
  /-- The number of the next message. -/
  nextMessage : Nat := 1
  /-- The number of the next lease. -/
  nextLease : Nat := 1
  deriving DecidableEq, Repr

/-- The error for a resource that does not exist. -/
def BrokerError.missing (r : Resource) (name : String) : BrokerError :=
  ⟨.notFound, r.word ++ " " ++ name ++ " not found"⟩

/-- The error for a resource that exists already. -/
def BrokerError.taken (r : Resource) (name : String) : BrokerError :=
  ⟨.alreadyExists, r.word ++ " " ++ name ++ " already exists"⟩

namespace Store

/-- Creates a topic. -/
def createTopic (name : String) (config : TopicConfig) (s : Store) : Except BrokerError Store :=
  if s.topics.contains name then .error (.taken .topic name)
  else .ok { s with topics := s.topics.insert name { config with name } }

/-- Creates a subscription to the topic of a name. -/
def createSubscription (name topic : String) (config : SubscriptionConfig) (s : Store) :
    Except BrokerError Store :=
  if !s.topics.contains topic then .error (.missing .topic topic)
  else if s.queues.contains name then .error (.taken .subscription name)
  else .ok { s with queues := s.queues.insert name { config := { config with name } } }

/-- Creates a schema. -/
def createSchema (name : String) (config : SchemaConfig) (s : Store) :
    Except BrokerError (SchemaConfig × Store) :=
  if s.schemas.contains name then .error (.taken .schema name)
  else
    let created := { config with name }
    .ok (created, { s with schemas := s.schemas.insert name created })

/-- Gives a message to the queues that are bound to a topic. -/
def fanOut (topicId : String) (m : StoredMessage) (queues : Table Queue) : Table Queue :=
  queues.map fun e => if e.2.config.topic = topicId then (e.1, e.2.push m) else e

/-- Publishes a message under an id to the topic of a name and id. -/
def publish (name topicId id : String) (content : OutgoingMessage) (s : Store) :
    Except BrokerError Store :=
  if s.topics.contains name then
    .ok { s with queues := fanOut topicId { id, content } s.queues }
  else .error (.missing .topic name)

/-- The ack id of a lease. -/
def ackId (messageId : String) (lease : Nat) : String := messageId ++ "-" ++ Text.natural lease

/-- Leases the message in front of a queue. -/
def lease (name : String) (s : Store) : Option ((String × StoredMessage) × Store) :=
  match s.queues.find? name with
  | none => none
  | some q =>
    match q.pending with
    | [] => none
    | m :: rest =>
      let id := ackId m.id s.nextLease
      let taken (q : Queue) : Queue :=
        { q with pending := rest, outstanding := q.outstanding ++ [(id, m)] }
      some ((id, m), { s with queues := s.queues.modify name taken, nextLease := s.nextLease + 1 })

/-- Settles the lease of an ack id. -/
def settle (name ackId : String) (s : Store) : Store :=
  { s with queues := s.queues.modify name (·.settle ackId) }

/-- Brings the message of an ack id back. -/
def requeue (name ackId : String) (s : Store) : Store :=
  { s with queues := s.queues.modify name (·.requeue ackId) }

/-- How many messages of a queue are pending. -/
def pendingCount (name : String) (s : Store) : Nat :=
  ((s.queues.find? name).map (·.pending.length)).getD 0

/-- How many messages of a queue are outstanding. -/
def outstandingCount (name : String) (s : Store) : Nat :=
  ((s.queues.find? name).map (·.outstanding.length)).getD 0

end Store

end Messaging
