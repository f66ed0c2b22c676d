import Messaging.Table

/-!
# Settings of publishers and receivers

A topic publishes under `PublishSettings`, and every message goes out with its `MessageSettings`; a
subscription receives under `ReceiveSettings`. Options are layers: a layer changes the settings it
names and leaves the others, so later layers win field by field. The limits of flow control and the
attributes are each replaced as a whole. Durations are in milliseconds.
-/

namespace Messaging

/-! ### Publishing -/

/-- What happens to a message beyond the limits of flow control. -/
inductive LimitBehavior where
  | ignore
  | block
  | signalError
  deriving DecidableEq, Repr

/-- How much may be under way; `none` is unlimited. -/
structure FlowControl where
  maxMessages : Option Nat := some 1000
  maxBytes : Option Nat := none
  behavior : LimitBehavior := .ignore
  deriving DecidableEq, Repr

/-- The settings of a publisher. -/
structure PublishSettings where
  delayThreshold : Nat := 10
  countThreshold : Nat := 100
  byteThreshold : Nat := 1000000
  /-- `none` is the number that suits the machine. -/
  workers : Option Nat := none
  timeout : Nat := 60000
  flowControl : FlowControl := {}
  compression : Bool := false
  compressionThreshold : Nat := 240
  deriving DecidableEq, Repr

/-- What a message carries besides its data. -/
structure MessageSettings where
  orderingKey : String := ""
  attributes : Table String := []
  deriving DecidableEq, Repr

/-- Messages are ordered once they have a key. -/
def MessageSettings.ordered (m : MessageSettings) : Bool := m.orderingKey ≠ ""

/-- A layer of options for publishing; `none` leaves a setting as it is. -/
structure PublishOptions where
  delayThreshold : Option Nat := none
  countThreshold : Option Nat := none
  byteThreshold : Option Nat := none
  workers : Option Nat := none
  timeout : Option Nat := none
  flowControl : Option FlowControl := none
  compression : Option Bool := none
  compressionThreshold : Option Nat := none
  orderingKey : Option String := none
  attributes : Option (Table String) := none
  deriving DecidableEq, Repr

namespace PublishOptions

/-- The settings of a publisher under the layer. -/
def applyTo (o : PublishOptions) (s : PublishSettings) : PublishSettings :=
  { delayThreshold := o.delayThreshold.getD s.delayThreshold
    countThreshold := o.countThreshold.getD s.countThreshold
    byteThreshold := o.byteThreshold.getD s.byteThreshold
    workers := o.workers <|> s.workers
    timeout := o.timeout.getD s.timeout
    flowControl := o.flowControl.getD s.flowControl
    compression := o.compression.getD s.compression
    compressionThreshold := o.compressionThreshold.getD s.compressionThreshold }

/-- What a message carries under the layer. -/
def applyToMessage (o : PublishOptions) (m : MessageSettings) : MessageSettings :=
  { orderingKey := o.orderingKey.getD m.orderingKey
    attributes := o.attributes.getD m.attributes }

/-- The layer over the defaults. -/
def resolve (o : PublishOptions) : PublishSettings × MessageSettings :=
  (o.applyTo {}, o.applyToMessage {})

end PublishOptions

/-! ### Receiving -/

/-- The settings of a receiver. -/
structure ReceiveSettings where
  maxExtension : Nat := 3600000
  maxExtensionPeriod : Nat := 0
  minExtensionPeriod : Nat := 0
  maxMessages : Nat := 1000
  maxBytes : Nat := 1000000000
  legacyFlowControl : Bool := false
  workers : Nat := 10
  deriving DecidableEq, Repr

/-- A layer of options for receiving; `none` leaves a setting as it is. -/
structure ReceiveOptions where
  maxExtension : Option Nat := none
  maxExtensionPeriod : Option Nat := none
  minExtensionPeriod : Option Nat := none
  maxMessages : Option Nat := none
  maxBytes : Option Nat := none
  legacyFlowControl : Option Bool := none
  workers : Option Nat := none
  deriving DecidableEq, Repr

namespace ReceiveOptions

/-- The settings under the layer. -/
def applyTo (o : ReceiveOptions) (s : ReceiveSettings) : ReceiveSettings :=
  { maxExtension := o.maxExtension.getD s.maxExtension
    maxExtensionPeriod := o.maxExtensionPeriod.getD s.maxExtensionPeriod
    minExtensionPeriod := o.minExtensionPeriod.getD s.minExtensionPeriod
    maxMessages := o.maxMessages.getD s.maxMessages
    maxBytes := o.maxBytes.getD s.maxBytes
    legacyFlowControl := o.legacyFlowControl.getD s.legacyFlowControl
    workers := o.workers.getD s.workers }

/-- The layer over the defaults. -/
def resolve (o : ReceiveOptions) : ReceiveSettings := o.applyTo {}

end ReceiveOptions

end Messaging
