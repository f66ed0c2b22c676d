import Messaging.Service.Basic
import Messaging.Service.Connection
import Messaging.Service.Health
import Messaging.Service.Preparation

/-!
# Starting the service

The service is put together from a configuration once the broker can be reached. Its configuration
says what to prepare and what its health depends on.
-/

namespace Messaging.Service

variable {σ : Type} [Log.Journal σ]

/-- The entry of a log for a service that has started. -/
def startedEntry (project : String) : Log.Entry :=
  { level := .info, source := "pubsub_engine::bootstrap", text := "pubsub bootstrapped"
    fields := [("project", project)] }

/-- Connects to the broker of the configuration's project. -/
def connect {κ : Type} (config : Configuration) (reach : String → σ → Except BrokerError κ × σ)
    (s : σ) : Connection κ σ :=
  Connection.make reach config.project config.attempts (1000 * config.interval) s

/-- The service over a broker that has been reached. -/
def start (config : Configuration) (broker : σ) : Service σ :=
  Log.note (startedEntry config.project) { config, broker }

/-- Creates what the configuration declares. -/
def prepare (c : Client σ) (files : Files) (s : Service σ) :
    Except ServiceError Unit × Service σ :=
  let (result, broker) := Preparation.all c files s.config s.broker
  (result, { s with broker })

/-- Checks what health depends on. -/
def health (c : Client σ) (s : Service σ) : List (String × ProbeResult) × Service σ :=
  let probes := Probe.both s.config.probedTopics s.config.probedSubscriptions
  let (results, broker) := Probe.checkAll c probes s.broker
  (results, { s with broker })

end Messaging.Service
