import Messaging.Broker.Request
import Messaging.Error
import Messaging.Log

/-!
# Reactors

A reactor is shown the requests of its methods before the broker serves them, and keeps what it
remembers in a state that all reactors share. The first that handles a request decides: with an
error the request fails, without one it goes on, and in both cases the reactors behind it do not see
the request. `offer` is that rule.
-/

namespace Messaging

/-- What a reactor makes of a request. -/
structure Reaction where
  handled : Bool := false
  error : Option BrokerError := none
  deriving DecidableEq, Repr

namespace Reaction

/-- The request goes on to other reactors. -/
def ignore : Reaction := {}

/-- The request fails. -/
def fail (error : BrokerError) : Reaction := { handled := true, error := some error }

end Reaction

/-- A reactor over a state. It sees a request once for each time that it lists the method. -/
structure Reactor (σ : Type) where
  methods : List String
  react : Request → σ → Reaction × σ

namespace Reactor

variable {σ τ : Type}

/-- The reactor with its state kept as a part of a larger one. -/
def within (get : σ → τ) (set : τ → σ → σ) (r : Reactor τ) : Reactor σ where
  methods := r.methods
  react request s :=
    let (reaction, part) := r.react request (get s)
    (reaction, set part s)

/-- The reactors that see the requests of a method, in the order of their registration. -/
def chain (method : String) (reactors : List (Reactor σ)) : List (Reactor σ) :=
  reactors.flatMap fun r => (r.methods.filter (· = method)).map fun _ => r

/-- Shows a request to reactors in turn until one handles it; the result is the error of that
one. -/
def offer (request : Request) : List (Reactor σ) → σ → Option BrokerError × σ
  | [], s => (none, s)
  | r :: rest, s =>
    match r.react request s with
    | (reaction, s) => if reaction.handled then (reaction.error, s) else offer request rest s

/-- The methods that are worth a line in a log. -/
def loggedMethods : List String :=
  ["GetTopic", "UpdateTopic", "ListTopics", "ListTopicSubscriptions", "DeleteTopic",
   "GetSubscription", "UpdateSubscription", "ListSubscriptions", "DeleteSubscription",
   "DetachSubscription", "CreateSchema", "GetSchema", "ListSchemas", "ListSchemaRevisions",
   "CommitSchema", "RollbackSchema", "DeleteSchemaRevision", "DeleteSchema", "ValidateSchema",
   "Publish", "Acknowledge", "ModifyAckDeadline", "Pull", "Seek", "ValidateMessage"]

/-- The entry for a request. -/
def requestEntry (request : Request) : Log.Entry :=
  { level := .debug, source := "pubsub_reactor::log", text := "request intercepted"
    fields := [("method", Text.quoted request.method), ("request", request.describe)] }

/-- Notes every request that is worth it. -/
def log [Log.Journal σ] : Reactor σ where
  methods := loggedMethods
  react request s := (.ignore, Log.note (requestEntry request) s)

end Reactor

end Messaging
