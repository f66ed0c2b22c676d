import Messaging.Receiving
import Messaging.Service.Start

/-!
# Sessions

A session is the service over an emulator together with its receive loops. Each loop decodes with
the codec of its subscription, which is kept beside it.
-/

namespace Messaging

/-- The service over an emulator, and its receive loops with their codecs. -/
structure Session (σ : Type) where
  service : Service (Emulator σ)
  loops : List Loop := []
  codecs : List Codec := []

namespace Session

variable {σ : Type} [Log.Journal σ]

/-- The emulator. -/
def emulator (s : Session σ) : Emulator σ := s.service.broker

/-- The session with the emulator changed. -/
def withEmulator (e : Emulator σ) (s : Session σ) : Session σ :=
  { s with service := { s.service with broker := e } }

/-- The client of the service. -/
def client (s : Session σ) : Client (Emulator σ) := Emulator.client s.service.config.project

/-- The session after something has happened to its receive loops. -/
def onLoops (f : Receiving σ → Receiving σ) (s : Session σ) : Session σ :=
  let r := f { emulator := s.emulator, loops := s.loops }
  { s.withEmulator r.emulator with loops := r.loops }

/-- Starts to receive from a subscription; the result is the number of the loop. -/
def subscribe (id : String) (o : ReceiveOptions) (s : Session σ) :
    Except ServiceError Nat × Session σ :=
  match s.service.subscribe s.client id o with
  | (.error e, service) => (.error e, { s with service })
  | (.ok sub, service) =>
    (.ok s.loops.length, { s with service, codecs := s.codecs ++ [sub.codec] }.onLoops
      (Receiving.start id sub.settings))

/-- Lets the loops run until all of them wait; `held` tells the deliveries of a loop whose
handlers are busy. -/
def settle (held : Nat → Nat → Bool) (s : Session σ) : Session σ :=
  s.onLoops (Receiving.settle held)

/-- The number of the loop that got a delivery. -/
def loopOf? (delivery : Nat) (s : Session σ) : Option Nat :=
  s.loops.findIdx? fun l => delivery ∈ l.received

/-- The codec for a delivery. -/
def codecOf (delivery : Nat) (s : Session σ) : Codec :=
  ((s.loopOf? delivery).bind fun n => s.codecs[n]?).getD .raw

/-- The entry of a log for what is done with a delivery. -/
def deliveryEntry (word id : String) : Log.Entry :=
  { level := .debug, source := "pubsub_engine::message", text := word, fields := [("message", id)] }

/-- Does something with a delivery and notes the word for it. -/
def onDelivery (word : String) (act : Emulator σ → Emulator σ) (delivery : Nat) (s : Session σ) :
    Session σ :=
  match s.emulator.deliveries[delivery]? with
  | none => s
  | some d => s.withEmulator (act (Log.note (deliveryEntry word d.message.id) s.emulator))

/-- Acks a delivery. -/
def ack (delivery : Nat) : Session σ → Session σ :=
  onDelivery "ack" (Emulator.ack delivery) delivery

/-- Nacks a delivery. -/
def nack (delivery : Nat) : Session σ → Session σ :=
  onDelivery "nack" (Emulator.nack delivery) delivery

end Session

end Messaging
