import Messaging.Client
import Messaging.Codec

/-!
# Subscriptions for receiving

A subscription has the codec for the schema of its topic, which decodes the messages that it
receives.
-/

namespace Messaging

/-- A subscription with the settings that were applied last. -/
structure Subscription where
  id : String
  codec : Codec
  settings : ReceiveSettings := {}

namespace Subscription

variable {σ : Type}

/-- Lays options over the defaults. -/
def withOptions (o : ReceiveOptions) (sub : Subscription) : Subscription :=
  { sub with settings := o.resolve }

/-- The entry of a log for a subscription that starts to receive. -/
def receiveEntry (sub : Subscription) : Log.Entry :=
  { level := .debug, source := "pubsub_engine::subscription", text := "starting receive loop"
    fields := [("subscription", sub.id), ("codec", Text.quoted sub.codec.name)] }

/-- Announces a receiver. -/
def receive [Log.Journal σ] (c : Client σ) (sub : Subscription) (s : σ) :
    Except ServiceError Unit × σ :=
  match c.pull (c.nameOf .subscription sub.id) (Log.note sub.receiveEntry s) with
  | (.ok (), s) => (.ok (), s)
  | (.error e, s) => (.error (.receive sub.id e), s)

/-- The description of a subscription. -/
def describe (sub : Subscription) : String :=
  Text.record "Subscription"
    [("id", Text.quoted sub.id), ("codec", Text.quoted sub.codec.name)]

end Subscription

/-- The description of a delivery that is decoded by a codec. -/
def Delivery.describe (codec : Codec) (d : Delivery) : String :=
  Text.record "Message"
    [("id", Text.quoted d.message.id), ("ack_id", Text.quoted d.ackId),
     ("codec", Text.quoted codec.name), ("bytes", Text.natural d.message.content.data.length)]

end Messaging
