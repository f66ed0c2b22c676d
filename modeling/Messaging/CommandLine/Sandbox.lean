import Messaging.CommandLine.Arguments
import Messaging.Json.Describe
import Messaging.Json.Document
import Messaging.Log.Filter
import Messaging.Session

/-!
# The sandbox

The sandbox loads a configuration, starts the service over an emulator of its project, prepares what
the configuration declares, checks the health, publishes the messages that it is given, and then
receives. `Sandbox.run` is a whole run: the entries of its log in order, and how it ends. Entries
that the filter does not show are left out.
-/

namespace Messaging.Sandbox

/-- How a run ends. -/
inductive Ending where
  | completed
  /-- Something failed that the rest of the run depends on. -/
  | failed
  /-- The arguments are at fault. -/
  | misused
  /-- A call did not return. -/
  | aborted
  deriving DecidableEq, Repr

/-- The exit status. -/
def Ending.status : Ending → Nat
  | completed => 0
  | failed => 1
  | misused => 2
  | aborted => 101

/-- A run. -/
structure Run where
  ending : Ending
  log : List Log.Entry := []
  deriving DecidableEq, Repr

/-- What is around the program. -/
structure Surroundings where
  files : Files
  /-- The text of the filter. -/
  filter : Option String := none
  /-- The path of the configuration where the arguments give none. -/
  config : Option String := none

/-- The filter in force: without a text that can be read, everything down to `info`. -/
def Surroundings.logFilter (s : Surroundings) : Log.Filter :=
  (s.filter.bind Log.Filter.parse?).getD (.ofLevel .info)

/-- The path of the configuration in force: from the arguments, else from the environment. -/
def configPath (a : Arguments) (environment : Option String) : String :=
  (a.config <|> environment).getD "pubsub.toml"

/-- A session that keeps its log. -/
abbrev Bench := Session (List Log.Entry)

/-- A run that ends with a session. -/
def Run.of (ending : Ending) (b : Bench) : Run := { ending, log := b.emulator.world }

/-- A part of a run: the session after it, unless the run ends there. -/
abbrev Part := Except Run Bench

/-! ### Entries -/

/-- An entry of the sandbox itself. -/
def entry (level : Log.Level) (text : String) (fields : List (String × String)) : Log.Entry :=
  { level, source := "pubsub_sandbox", text, fields }

/-- The session with an entry added to its log. -/
def note (level : Log.Level) (text : String) (fields : List (String × String)) (b : Bench) :
    Bench :=
  { b with service := Log.note (entry level text fields) b.service }

/-- The entry for what a probe found. -/
def noteProbe (b : Bench) (p : String × ProbeResult) : Bench :=
  let fields := [("probe", p.1), ("message", p.2.message)]
  if p.2.success then note .info "healthy" fields b else note .warn "unhealthy" fields b

/-- The description of a payload that holds a record. -/
def describeRecord : Payload → String
  | .record value => Json.ofKind "Record" value.describe
  | _ => ""

/-- The text of data; data that is no text shows in hexadecimal. -/
def textOf (data : Bytes) : String := (Bytes.toString? data).getD (Bytes.toHex data)

/-- The entry for a delivery. -/
def noteDelivery (codec : Codec) (m : StoredMessage) (b : Bench) : Bench :=
  match codec.decode (.record .null) m.content.data with
  | .ok record => note .info "received" [("id", m.id), ("payload", describeRecord record)] b
  | .error .noSchema => note .info "received" [("id", m.id), ("data", textOf m.content.data)] b
  | .error e => note .warn "received undecodable message" [("id", m.id), ("error", e.message)] b

/-! ### Publishing -/

/-- The payload for a text; `none` if it should be JSON and is not. -/
def payload? (json : Bool) (text : String) : Option Payload :=
  if json then (Json.parse? text).map .record else some (.text text)

/-- Publishes a payload. -/
def publishPayload (topic : String) (p : Payload) (b : Bench) : Part :=
  let failed (error : String) := note .error "publish failed" [("topic", topic), ("error", error)]
  match b.service.publish b.client topic p {} with
  | (.ok (.ok id), service) =>
    .ok (note .info "published" [("topic", topic), ("id", id)] { b with service })
  | (.ok (.error e), service) => .ok (failed e.message { b with service })
  | (.error e, service) =>
    if e.isAborted then .error (.of .aborted { b with service })
    else .ok (failed e.message { b with service })

/-- Publishes a text. -/
def publishText (json : Bool) (topic : String) (b : Bench) (text : String) : Part :=
  match payload? json text with
  | some p => publishPayload topic p b
  | none =>
    let fields := [("error", DataFormat.tag .json), ("message", text)]
    .error (.of .failed (note .error "invalid JSON message" fields b))

/-- Publishes the messages if a topic is given. -/
def publish (a : Arguments) (b : Bench) : Part :=
  match a.topic with
  | none => .ok b
  | some topic => a.messages.foldlM (publishText a.json topic) b

/-! ### Receiving -/

/-- Handles a delivery: shows it, and acks it. -/
def handle (b : Bench) (delivery : Nat) : Bench :=
  match b.emulator.deliveries[delivery]? with
  | none => b
  | some d => (noteDelivery (b.codecOf delivery) d.message b).ack delivery

/-- Cancels a loop and lets it come to its end. -/
def endLoop (loop : Nat) (b : Bench) : Bench :=
  (b.onLoops (Receiving.cancel loop)).settle fun _ _ => false

/-- Receives with a loop until as many messages have been handled as should be, or until none comes
and it is told to stop; `handled` counts the messages before. Every round handles what the loop
takes while no handler finishes. -/
def receiveFrom (loop : Nat) (count : Option Nat) : Nat → Nat → Bench → Bench
  | 0, _, b => b
  | rounds + 1, handled, b =>
    let first := b.emulator.deliveries.length
    let b := b.settle fun _ delivery => first ≤ delivery
    match (List.range b.emulator.deliveries.length).drop first with
    | [] => endLoop loop (note .info "shutting down..." [] b)
    | taken =>
      let b := taken.foldl handle b
      let handled := handled + taken.length
      if count.any (· ≤ handled) then endLoop loop b else receiveFrom loop count rounds handled b

/-- Receives if a subscription is given. -/
def receive (a : Arguments) (b : Bench) : Part :=
  match a.subscription with
  | none => .ok b
  | some id =>
    let b := note .info "receiving, press Ctrl+C to stop" [("subscription", id)] b
    match b.subscribe id {} with
    | (.error e, b) =>
      if e.isAborted then .error (.of .aborted b)
      else .ok (note .error "receive failed" [("error", e.message)] b)
    | (.ok loop, b) =>
      let pending := (b.emulator.store.queues.map fun q => q.2.pending.length).foldr (· + ·) 0
      .ok (receiveFrom loop a.count (pending + 1) 0 b)

/-! ### A whole run -/

/-- The entry for a configuration that is loaded. -/
def loadingEntry (path : String) : Log.Entry :=
  entry .info "loading configuration" [("config", path)]

/-- The entry for a configuration that is put to work. -/
def bootstrappingEntry (config : Configuration) : Log.Entry :=
  entry .info "bootstrapping pubsub"
    [("topics", Text.natural config.topics.length),
     ("subscriptions", Text.natural config.subscriptions.length)]

/-- Starts the service over an emulator of the configuration's project that logs requests. -/
def start (config : Configuration) (log : List Log.Entry) : Part :=
  let emulator : Emulator (List Log.Entry) :=
    { project := config.project, world := log ++ [bootstrappingEntry config]
      reactors := [Reactor.log] }
  let connection := Service.connect config (fun project e => (e.connect project, e)) emulator
  match connection.result with
  | .ok _ => .ok { service := Service.start config connection.state }
  | .error e =>
    let failed := entry .error "failed to bootstrap pubsub" [("error", e.message)]
    .error { ending := .failed, log := connection.state.world ++ [failed] }

/-- Prepares what the configuration declares. -/
def prepare (files : Files) (b : Bench) : Part :=
  match b.service.prepare b.client files with
  | (.ok (), service) => .ok { b with service }
  | (.error e, service) =>
    let fields := [("error", e.message)]
    .error (.of .failed (note .error "failed to prepare resources" fields { b with service }))

/-- Checks the health and shows what was found. -/
def checkHealth (b : Bench) : Bench :=
  let (results, service) := b.service.health b.client
  results.foldl noteProbe { b with service }

/-- Ends the service. -/
def shutdown (b : Bench) : Bench := { b with service := b.service.shutdown b.client }

/-- Does what the arguments ask for with a configuration. -/
def perform (a : Arguments) (files : Files) (config : Configuration) (log : List Log.Entry) :
    Part := do
  let b ← prepare files (← start config log)
  let b ← publish a (checkHealth b)
  let b ← receive a b
  pure (shutdown b)

/-- A run with arguments that can be read, with its whole log. -/
def runWith (a : Arguments) (s : Surroundings) : Run :=
  let path := configPath a s.config
  match Configuration.load s.files path with
  | .error e =>
    let failed := entry .error "failed to load config" [("error", e.message)]
    { ending := .failed, log := [loadingEntry path, failed] }
  | .ok config =>
    match perform a s.files config [loadingEntry path] with
    | .ok b => .of .completed b
    | .error run => run

/-- A run. -/
def run (arguments : List String) (s : Surroundings) : Run :=
  match Arguments.read arguments with
  | .error .help => { ending := .completed }
  | .error .misuse => { ending := .misused }
  | .ok a =>
    let run := runWith a s
    { run with log := run.log.filter s.logFilter.shows }

end Messaging.Sandbox
