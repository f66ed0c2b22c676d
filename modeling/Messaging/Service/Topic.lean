import Messaging.Client
import Messaging.Codec

/-!
# Topics for publishing

A topic is a handle of the broker with the codec for its schema. Publishing encodes the data, then
lays the options of the call over the defaults and sets the handle accordingly, and then submits the
message; data that cannot be encoded leaves the handle and the options as they were.
-/

namespace Messaging

/-- The result of a publish: what it is, and how long it takes to arrive, in milliseconds. -/
structure PublishResult where
  outcome : Except BrokerError String
  delay : Nat := 0

/-- The description of a result, which does not show what it is. -/
def PublishResult.description : String := "PublishResult \x7b .. \x7d"

/-- A topic with the options that were applied last. -/
structure Topic where
  id : String
  handle : Nat
  codec : Codec
  settings : PublishSettings := {}
  message : MessageSettings := {}

namespace Topic

variable {σ : Type}

/-- Lays options over the defaults and applies them to the handle. -/
def withOptions (c : Client σ) (o : PublishOptions) (t : Topic) (s : σ) : Topic × σ :=
  let (settings, message) := o.resolve
  ({ t with settings, message }, c.configure t.handle settings message.ordered s)

/-- The entry of a log for a message that is published. -/
def publishEntry (t : Topic) (size : Nat) : Log.Entry :=
  { level := .debug, source := "pubsub_engine::topic", text := "publishing message"
    fields := [("topic", t.id), ("codec", Text.quoted t.codec.name), ("bytes", Text.natural size)] }

/-- Publishes a payload. The result is the id of the message or the error of the broker, unless the
payload cannot be encoded. -/
def publish [Log.Journal σ] (c : Client σ) (p : Payload) (o : PublishOptions) (t : Topic) (s : σ) :
    Except ServiceError (Except BrokerError String) × Topic × σ :=
  match t.codec.encode p with
  | .error e => (.error (.encode e), t, s)
  | .ok data =>
    let (t, s) := t.withOptions c o s
    let s := Log.note (t.publishEntry data.length) s
    let { orderingKey, attributes } := t.message
    let content := { data, attributes, orderingKey }
    let (result, s) := c.submit t.handle content s
    (.ok result, t, s)

/-- The description of a topic. -/
def describe (t : Topic) : String :=
  Text.record "Topic" [("id", Text.quoted t.id), ("codec", Text.quoted t.codec.name)]

end Topic

end Messaging
