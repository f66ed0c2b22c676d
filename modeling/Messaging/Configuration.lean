import Messaging.Directory
import Messaging.Error
import Messaging.ResourceConfig
import Messaging.Toml.Fields
import Messaging.Toml.Reader

/-!
# The configuration file

A project declares the schemas, topics and subscriptions that it needs, how often to try to reach
the broker, and what its health depends on. `Configuration.read?` takes a TOML table apart,
`Configuration.fault?` is the first thing wrong with what it says, and `Configuration.parse` does
both. A schema is declared with its definition or with the path of a file that holds it.
-/

namespace Messaging

open Toml (Item)

/-- A declared schema. -/
structure SchemaEntry where
  id : String
  kind : SchemaKind
  definition : Option String := none
  definitionPath : Option String := none
  deriving DecidableEq, Repr

/-- A declared topic, with the id of its schema. -/
structure TopicEntry where
  id : String
  schema : Option String := none
  encoding : Option Encoding := none
  deriving DecidableEq, Repr

/-- A declared subscription; the deadline is in seconds. -/
structure SubscriptionEntry where
  id : String
  topic : String
  ackDeadline : Nat := 10
  deriving DecidableEq, Repr

/-- The configuration of a project. -/
structure Configuration where
  project : String
  /-- How often to try again to reach the broker. -/
  attempts : Nat := 3
  /-- Seconds between two tries. -/
  interval : Nat := 1
  /-- The topics that health depends on. -/
  probedTopics : List String := []
  /-- The subscriptions that health depends on. -/
  probedSubscriptions : List String := []
  schemas : List SchemaEntry := []
  topics : List TopicEntry := []
  subscriptions : List SubscriptionEntry := []
  deriving DecidableEq, Repr

/-! ### What the entries stand for -/

/-- The word for a fault of a file in the text of an error. -/
def fileFault : String := "<io>"

/-- The word for a fault of a TOML text in the text of an error. -/
def tomlFault : String := "<toml>"

namespace SchemaEntry

/-- The text that errors start with. -/
def label (e : SchemaEntry) : String := "schema '" ++ e.id ++ "'"

/-- The configuration of the schema. A definition beats a path. -/
def toConfig (files : Files) (e : SchemaEntry) : Except ServiceError SchemaConfig :=
  match e.definition, e.definitionPath with
  | some definition, _ => .ok { kind := e.kind, definition }
  | none, some path =>
    match files path with
    | some definition => .ok { kind := e.kind, definition }
    | none => .error (.config (e.label ++ ": " ++ path ++ ": " ++ fileFault))
  | none, none => .error (.config (e.label ++ " has no definition"))

end SchemaEntry

namespace TopicEntry

/-- The configuration of the topic; `schema` is the name of its schema. It has one only if it also
has an encoding. -/
def toConfig (schema : Option String) (e : TopicEntry) : TopicConfig :=
  match schema, e.encoding with
  | some name, some encoding => .withSchema name encoding
  | _, _ => {}

end TopicEntry

namespace SubscriptionEntry

/-- The configuration of the subscription. -/
def toConfig (e : SubscriptionEntry) : SubscriptionConfig :=
  { topic := e.topic, ackDeadline := e.ackDeadline }

end SubscriptionEntry

/-! ### Reading -/

/-- The value of an item that may be missing. -/
def optionalItem {α : Type} (read : Item → Option α) (default : α) : Option Item → Option α
  | none => some default
  | some item => read item

/-- The value of an item that may be missing, if it is there. -/
def perhapsItem {α : Type} (read : Item → Option α) : Option Item → Option (Option α) :=
  optionalItem (fun item => (read item).map some) none

/-- The kind of schema that an item names. -/
def SchemaKind.ofItem? (item : Item) : Option SchemaKind := item.word?.bind ofWord?

/-- The encoding that an item names. -/
def Encoding.ofItem? (item : Item) : Option Encoding := item.word?.bind ofWord?

/-- Reads a declared schema. -/
def SchemaEntry.ofItem? (item : Item) : Option SchemaEntry := do
  match ← item.fields? ["id", "type", "definition", "definition_path"] with
  | [some id, some kind, definition, path] =>
    let id ← id.text?
    let kind ← SchemaKind.ofItem? kind
    let definition ← perhapsItem Item.text? definition
    let definitionPath ← perhapsItem Item.text? path
    some { id, kind, definition, definitionPath }
  | _ => none

/-- Reads a declared topic. -/
def TopicEntry.ofItem? (item : Item) : Option TopicEntry := do
  match ← item.fields? ["id", "schema", "encoding"] with
  | [some id, schema, encoding] =>
    let id ← id.text?
    let schema ← perhapsItem Item.text? schema
    let encoding ← perhapsItem Encoding.ofItem? encoding
    some { id, schema, encoding }
  | _ => none

/-- Reads a declared subscription. -/
def SubscriptionEntry.ofItem? (item : Item) : Option SubscriptionEntry := do
  match ← item.fields? ["id", "topic", "ack_deadline_secs"] with
  | [some id, some topic, ackDeadline] =>
    let id ← id.text?
    let topic ← topic.text?
    let ackDeadline ← optionalItem (Item.natural? (0x10000000000000000)) 10 ackDeadline
    some { id, topic, ackDeadline }
  | _ => none

namespace Configuration

/-- Reads the id of the project. -/
def projectOfItem? (item : Item) : Option String := do
  match ← item.fields? ["id"] with
  | [some id] => id.text?
  | _ => none

/-- Reads how often to try again and the seconds between two tries. -/
def retryOfItem? (item : Item) : Option (Nat × Nat) := do
  match ← item.fields? ["attempts", "interval_secs"] with
  | [attempts, interval] =>
    let attempts ← optionalItem (Item.natural? (0x100000000)) 3 attempts
    let interval ← optionalItem (Item.natural? (0x10000000000000000)) 1 interval
    some (attempts, interval)
  | _ => none

/-- Reads the topics and subscriptions that health depends on. -/
def probedOfItem? (item : Item) : Option (List String × List String) := do
  match ← item.fields? ["topics", "subscriptions"] with
  | [topics, subscriptions] =>
    let topics ← optionalItem (Item.list? Item.text?) [] topics
    let subscriptions ← optionalItem (Item.list? Item.text?) [] subscriptions
    some (topics, subscriptions)
  | _ => none

/-- Reads a configuration. -/
def read? (items : Toml.Items) : Option Configuration := do
  let project ← (items.lookup "project").bind projectOfItem?
  let (attempts, interval) ← optionalItem retryOfItem? (3, 1) (items.lookup "factory")
  let (probedTopics, probedSubscriptions) ←
    optionalItem probedOfItem? ([], []) (items.lookup "healthcheck")
  let schemas ← optionalItem (Item.list? SchemaEntry.ofItem?) [] (items.lookup "schemas")
  let topics ← optionalItem (Item.list? TopicEntry.ofItem?) [] (items.lookup "topics")
  let subscriptions ←
    optionalItem (Item.list? SubscriptionEntry.ofItem?) [] (items.lookup "subscriptions")
  some { project, attempts, interval, probedTopics, probedSubscriptions, schemas, topics,
         subscriptions }

/-! ### Checking -/

/-- What is wrong with a declared schema. -/
def schemaFault? (e : SchemaEntry) : Option String :=
  if e.definition.isSome = e.definitionPath.isSome then
    some (e.label ++ " needs exactly one of definition, definition_path")
  else none

/-- What is wrong with a declared topic. -/
def topicFault? (c : Configuration) (e : TopicEntry) : Option String :=
  match e.schema with
  | none => none
  | some schema =>
    if c.schemas.all (·.id ≠ schema) then
      some ("topic '" ++ e.id ++ "' references unknown schema '" ++ schema ++ "'")
    else if e.encoding = none then
      some ("topic '" ++ e.id ++ "' has a schema but no encoding")
    else none

/-- The text for a subscription to a topic that is not declared. -/
def unknownTopic (e : SubscriptionEntry) : String :=
  "subscription '" ++ e.id ++ "' references unknown topic '" ++ e.topic ++ "'"

/-- What is wrong with a declared subscription. -/
def subscriptionFault? (c : Configuration) (e : SubscriptionEntry) : Option String :=
  if c.topics.all (·.id ≠ e.topic) then some (unknownTopic e) else none

/-- The first thing wrong with a configuration: the project, then the schemas, the topics and the
subscriptions in order. -/
def fault? (c : Configuration) : Option String :=
  if c.project = "" then some "project.id must not be empty"
  else c.schemas.findSome? schemaFault? <|> c.topics.findSome? c.topicFault?
    <|> c.subscriptions.findSome? c.subscriptionFault?

/-- Reads a TOML text without checking what it says. -/
def parseUnchecked (text : String) : Except ServiceError Configuration :=
  match (Toml.read? text).bind read? with
  | some c => .ok c
  | none => .error (.config tomlFault)

/-- Reads a TOML text. -/
def parse (text : String) : Except ServiceError Configuration :=
  (parseUnchecked text).bind fun c =>
    match c.fault? with
    | none => .ok c
    | some fault => .error (.config fault)

/-- Reads a file. -/
def load (files : Files) (path : String) : Except ServiceError Configuration :=
  match files path with
  | none => .error (.config (path ++ ": " ++ fileFault))
  | some text => (parse text).mapError (·.withContext path)

/-- The paths that the schemas of a TOML text name. -/
def definitionPaths (text : String) : List String :=
  match parseUnchecked text with
  | .ok c => c.schemas.filterMap SchemaEntry.definitionPath
  | .error _ => []

end Configuration

end Messaging
