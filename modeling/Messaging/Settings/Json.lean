import Messaging.Json.Access
import Messaging.Settings

/-!
# Options and settings as JSON

Options are read from an object, where a missing entry leaves a setting as it is; settings are
written as an object with all of them. An unlimited number is `null`.
-/

namespace Messaging

open Json

/-- A natural number as a JSON value. -/
def Json.natural (n : Nat) : Json := .int n

/-- A value that may be missing as a JSON value. -/
def Json.optional {α : Type} (write : α → Json) : Option α → Json
  | none => .null
  | some a => write a

/-- The entry of an object, if there is one. -/
def Json.find? (j : Json) (name : String) : Option Json :=
  if j.has name then some (j.get name) else none

namespace LimitBehavior

/-- The word for a behavior. -/
def word : LimitBehavior → String
  | ignore => "ignore"
  | block => "block"
  | signalError => "signal-error"

/-- The behavior of a word. -/
def ofWord (word : String) : LimitBehavior :=
  match word with
  | "block" => block
  | "signal-error" => signalError
  | _ => ignore

end LimitBehavior

namespace FlowControl

/-- Reads limits; a missing one is unlimited. -/
def ofJson (j : Json) : FlowControl where
  maxMessages := j.naturalAt? "max_outstanding_messages"
  maxBytes := j.naturalAt? "max_outstanding_bytes"
  behavior := .ofWord (j.textAt "limit_exceeded_behavior")

/-- The JSON form. -/
def toJson (f : FlowControl) : Json :=
  .ofEntries [("max_outstanding_messages", Json.optional Json.natural f.maxMessages),
    ("max_outstanding_bytes", Json.optional Json.natural f.maxBytes),
    ("limit_exceeded_behavior", .string f.behavior.word)]

end FlowControl

/-- Reads options for publishing. -/
def PublishOptions.ofJson (j : Json) : PublishOptions where
  delayThreshold := j.naturalAt? "delay_threshold_ms"
  countThreshold := j.naturalAt? "count_threshold"
  byteThreshold := j.naturalAt? "byte_threshold"
  workers := j.naturalAt? "num_workers"
  timeout := j.naturalAt? "timeout_ms"
  flowControl := (j.find? "flow_control").map FlowControl.ofJson
  compression := (j.get "enable_compression").truth?
  compressionThreshold := j.naturalAt? "compression_bytes_threshold"
  orderingKey := (j.get "ordering_key").text?
  attributes := (j.find? "attributes").map Json.table

/-- The JSON form. -/
def PublishSettings.toJson (s : PublishSettings) : Json :=
  .ofEntries [("delay_threshold_ms", Json.natural s.delayThreshold),
    ("count_threshold", Json.natural s.countThreshold),
    ("byte_threshold", Json.natural s.byteThreshold),
    ("num_workers", (s.workers.map Json.natural).getD (.string "default")),
    ("timeout_ms", Json.natural s.timeout),
    ("enable_compression", .bool s.compression),
    ("compression_bytes_threshold", Json.natural s.compressionThreshold),
    ("flow_control", s.flowControl.toJson)]

/-- The JSON form. -/
def MessageSettings.toJson (m : MessageSettings) : Json :=
  .ofEntries [("ordering_key", .string m.orderingKey),
    ("attributes", .ofEntries (m.attributes.map fun e => (e.1, .string e.2))),
    ("enable_message_ordering", .bool m.ordered)]

/-- Reads options for receiving. -/
def ReceiveOptions.ofJson (j : Json) : ReceiveOptions where
  maxExtension := j.naturalAt? "max_extension_ms"
  maxExtensionPeriod := j.naturalAt? "max_extension_period_ms"
  minExtensionPeriod := j.naturalAt? "min_extension_period_ms"
  maxMessages := j.naturalAt? "max_outstanding_messages"
  maxBytes := j.naturalAt? "max_outstanding_bytes"
  legacyFlowControl := (j.get "use_legacy_flow_control").truth?
  workers := j.naturalAt? "num_workers"

/-- The JSON form. -/
def ReceiveSettings.toJson (s : ReceiveSettings) : Json :=
  .ofEntries [("max_extension_ms", Json.natural s.maxExtension),
    ("max_extension_period_ms", Json.natural s.maxExtensionPeriod),
    ("min_extension_period_ms", Json.natural s.minExtensionPeriod),
    ("max_outstanding_messages", Json.natural s.maxMessages),
    ("max_outstanding_bytes", Json.natural s.maxBytes),
    ("use_legacy_flow_control", .bool s.legacyFlowControl),
    ("num_workers", Json.natural s.workers)]

end Messaging
