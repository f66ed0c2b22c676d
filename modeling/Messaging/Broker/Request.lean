import Messaging.Number.Shortest
import Messaging.SchemaKind
import Messaging.Text.Quoted

/-!
# Requests

What a broker is asked for, as its interceptors see it. Resources go by their names. A request has
the name of its method, by which interceptors choose what they see, and a description.
-/

namespace Messaging

/-- A request to a broker. -/
inductive Request where
  | createTopic (topic : String)
  | getTopic (topic : String)
  | createSubscription (subscription topic : String)
  | getSubscription (subscription : String)
  | createSchema (schema : String)
  | getSchema (schema : String)
  | publish (topic : String) (messages : List String)
  | pull (subscription : String)
  | acknowledge (subscription : String) (acks : List String)
  /-- With a deadline of no seconds the messages come back at once. -/
  | modifyAckDeadline (subscription : String) (acks : List String) (seconds : Int)
  deriving DecidableEq, Repr

namespace Request

/-- The names of the methods, in the order of the requests. -/
def methods : List String :=
  ["CreateTopic", "GetTopic", "CreateSubscription", "GetSubscription", "CreateSchema", "GetSchema",
   "Publish", "Pull", "Acknowledge", "ModifyAckDeadline"]

/-- The name of the method of a request. -/
def method : Request → String
  | createTopic _ => "CreateTopic"
  | getTopic _ => "GetTopic"
  | createSubscription _ _ => "CreateSubscription"
  | getSubscription _ => "GetSubscription"
  | createSchema _ => "CreateSchema"
  | getSchema _ => "GetSchema"
  | publish _ _ => "Publish"
  | pull _ => "Pull"
  | acknowledge _ _ => "Acknowledge"
  | modifyAckDeadline _ _ _ => "ModifyAckDeadline"

/-- The descriptions of the fields of a request. -/
def describeFields : Request → List (String × String)
  | createTopic topic => [("topic", Text.quoted topic)]
  | getTopic topic => [("topic", Text.quoted topic)]
  | createSubscription subscription topic =>
    [("subscription", Text.quoted subscription), ("topic", Text.quoted topic)]
  | getSubscription subscription => [("subscription", Text.quoted subscription)]
  | createSchema schema => [("schema", Text.quoted schema)]
  | getSchema schema => [("schema", Text.quoted schema)]
  | publish topic messages =>
    [("topic", Text.quoted topic), ("message_ids", Text.quotedList messages)]
  | pull subscription => [("subscription", Text.quoted subscription)]
  | acknowledge subscription acks =>
    [("subscription", Text.quoted subscription), ("ack_ids", Text.quotedList acks)]
  | modifyAckDeadline subscription acks seconds =>
    [("subscription", Text.quoted subscription), ("ack_ids", Text.quotedList acks),
     ("ack_deadline_seconds", integerText seconds)]

/-- The description of a request. -/
def describe (r : Request) : String := Text.record r.method r.describeFields

end Request

end Messaging
