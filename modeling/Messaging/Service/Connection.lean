import Messaging.Error
import Messaging.Log
import Messaging.Text.Quoted

/-!
# Connecting to a broker

A broker that cannot be reached is tried again a number of times, with a pause before each new try.
`Connection.retry` tries until it succeeds or no try is left. What a try and a pause do is up to the
state that they act on. `Connection.make` connects where a pause only takes time, and tells how much
time it took.
-/

namespace Messaging

/-- How an attempt to connect ended. -/
structure Connection (κ σ : Type) where
  result : Except ServiceError κ
  state : σ
  /-- The time spent in pauses, in milliseconds. -/
  elapsed : Nat

namespace Connection

variable {κ σ : Type}

/-- The entry of a log for a connection. -/
def openedEntry (project : String) (number : Nat) : Log.Entry :=
  { level := .debug, source := "pubsub_engine::client", text := "pubsub client creation success"
    fields := [("project", project), ("attempt", Text.natural number)] }

/-- The entry of a log for a try that fails; `note` is what comes next. -/
def failedEntry (project : String) (number : Nat) (e : BrokerError) (note : String) : Log.Entry :=
  { level := .warn, source := "pubsub_engine::client"
    text := "pubsub client creation error" ++ note
    fields := [("project", project), ("attempt", Text.natural number), ("error", e.message)] }

/-- What comes after a try that fails while others are left; the interval is in nanoseconds. -/
def againNote (interval : Nat) : String :=
  ", attempting again in " ++ Text.natural (interval / 1000000000) ++ "s"

/-- The number of a try in a log. Attempts count from 0, the numbers from 1, in 32 bits. -/
def tryNumber (attempt : Nat) : Nat := (attempt + 1) % 0x100000000

/-- Tries from an attempt on, in so many rounds. Every try but that of the last attempt is followed
by a pause if it fails. -/
def tryFrom [Log.Journal σ] (connect : String → σ → Except BrokerError κ × σ) (pause : Nat → σ → σ)
    (project : String) (attempts interval : Nat) :
    Nat → Nat → σ → Except ServiceError κ × σ
  | 0, _, s => (.error (.clientCreation attempts), s)
  | rounds + 1, attempt, s =>
    match connect project s with
    | (.ok client, s) => (.ok client, Log.note (openedEntry project (tryNumber attempt)) s)
    | (.error e, s) =>
      if attempt < attempts then
        let s := Log.note (failedEntry project (tryNumber attempt) e (againNote interval)) s
        tryFrom connect pause project attempts interval rounds (attempt + 1) (pause interval s)
      else
        let s := Log.note (failedEntry project (tryNumber attempt) e "") s
        tryFrom connect pause project attempts interval rounds (attempt + 1) s

/-- Connects to the broker of a project, with a number of more tries after the first and a pause
of so many nanoseconds between two. -/
def retry [Log.Journal σ] (connect : String → σ → Except BrokerError κ × σ) (pause : Nat → σ → σ)
    (project : String) (attempts interval : Nat) (s : σ) : Except ServiceError κ × σ :=
  tryFrom connect pause project attempts interval (attempts + 1) 0 s

/-! ### Where a pause takes time -/

/-- A state, and the time that has passed in it, in nanoseconds. -/
structure Timed (σ : Type) where
  state : σ
  time : Nat := 0

namespace Timed

/-- Notes are for the state. -/
instance [Log.Journal σ] : Log.Journal (Timed σ) :=
  ⟨fun entry t => { t with state := Log.note entry t.state }⟩

/-- Asks for a client, which takes no time. -/
def ask (connect : String → σ → Except BrokerError κ × σ) (project : String) (t : Timed σ) :
    Except BrokerError κ × Timed σ :=
  let (answer, state) := connect project t.state
  (answer, { t with state })

/-- Lets time pass. -/
def pause (interval : Nat) (t : Timed σ) : Timed σ := { t with time := t.time + interval }

end Timed

/-- Connects to the broker of a project, with a number of more tries after the first and a pause
of so many milliseconds between two. -/
def make [Log.Journal σ] (connect : String → σ → Except BrokerError κ × σ) (project : String)
    (attempts interval : Nat) (s : σ) : Connection κ σ :=
  let (result, t) :=
    retry (Timed.ask connect) Timed.pause project attempts (1000000 * interval) { state := s }
  { result, state := t.state, elapsed := t.time / 1000000 }

end Connection

end Messaging
