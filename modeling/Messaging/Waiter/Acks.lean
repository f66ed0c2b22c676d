import Messaging.Broker.Reactor
import Messaging.ResourceName
import Messaging.Waiter.Supervisor

/-!
# Waiting for acks and nacks

Waiters for the acks and nacks of the subscriptions of a project. They are started by the id of a
subscription and resolved by its name with the ack ids; a reactor resolves them when the broker is
asked to acknowledge or to change a deadline, whatever the deadline.
-/

namespace Messaging

/-- The waiters for acks and nacks in a project. -/
structure AckSupervisor where
  project : String
  supervisor : Supervisor (List String) := {}

namespace AckSupervisor

/-- The target for the acks of a subscription by its name. -/
def ackTarget (name : String) : String := "ack::" ++ name

/-- The target for the nacks of a subscription by its name. -/
def nackTarget (name : String) : String := "nack::" ++ name

/-- Starts a waiter on a target. -/
def startOn (target : String) (s : AckSupervisor) : Nat × AckSupervisor :=
  let (n, supervisor) := s.supervisor.start target
  (n, { s with supervisor })

/-- Starts a waiter for an ack on a subscription by its id. -/
def startAck (id : String) (s : AckSupervisor) : Nat × AckSupervisor :=
  s.startOn (ackTarget (Resource.subscription.nameOf s.project id))

/-- Starts a waiter for a nack on a subscription by its id. -/
def startNack (id : String) (s : AckSupervisor) : Nat × AckSupervisor :=
  s.startOn (nackTarget (Resource.subscription.nameOf s.project id))

/-- Resolves the waiter for acks on a subscription by its name. -/
def stopAck (name : String) (o : Outcome (List String)) (s : AckSupervisor) : AckSupervisor :=
  { s with supervisor := s.supervisor.stopTarget (ackTarget name) o }

/-- Resolves the waiter for nacks on a subscription by its name. -/
def stopNack (name : String) (o : Outcome (List String)) (s : AckSupervisor) : AckSupervisor :=
  { s with supervisor := s.supervisor.stopTarget (nackTarget name) o }

/-- What a request says about acks. -/
def observe (request : Request) (s : AckSupervisor) : AckSupervisor :=
  match request with
  | .acknowledge name acks => s.stopAck name { data := acks }
  | .modifyAckDeadline name acks _ => s.stopNack name { data := acks }
  | _ => s

/-- Resolves waiters by the requests that a broker gets, and handles none of them. -/
def reactor : Reactor AckSupervisor where
  methods := ["Acknowledge", "ModifyAckDeadline"]
  react request s := (.ignore, s.observe request)

end AckSupervisor

end Messaging
