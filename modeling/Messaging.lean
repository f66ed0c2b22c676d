import Messaging.Broker.Script
import Messaging.Main
import Messaging.Proto.File
import Messaging.Settings.Json
import Messaging.Waiter.Acks
import Messaging.Proofs.Broker.Calls
import Messaging.Proofs.Broker.Conservation
import Messaging.Proofs.Broker.Retained
import Messaging.Proofs.Broker.Deliveries
import Messaging.Proofs.Broker.Fifo
import Messaging.Proofs.Broker.Handles
import Messaging.Proofs.Waiter.Acks
import Messaging.Proofs.Service.Stopping
import Messaging.Proofs.ResourceName
import Messaging.Proofs.Service.Prepared
import Messaging.Proofs.Service.Agreement
import Messaging.Proofs.Bytes
import Messaging.Proofs.Number.Varint
import Messaging.Proofs.Number.BigDecimal
import Messaging.Proofs.Text.Uuid
import Messaging.Proofs.Json.Parts
import Messaging.Proofs.Json.Numeral
import Messaging.Proofs.Json.Text
import Messaging.Proofs.Table.Sorted
import Messaging.Proofs.Json.Printing
import Messaging.Proofs.Avro.Parts
import Messaging.Proofs.Avro.Steps
import Messaging.Proofs.Avro.Definition
import Messaging.Proofs.Avro.Conversion
import Messaging.Proofs.Avro.Spelling
import Messaging.Proofs.Avro.Reading
import Messaging.Proofs.Avro.Binary
import Messaging.Proofs.Avro.RoundTrip
import Messaging.Proofs.Avro.BigDecimal
import Messaging.Proofs.Avro.Converted
import Messaging.Proofs.Avro.Encodings
import Messaging.Proofs.Broker.Operations
import Messaging.Proofs.Broker.Rejection
import Messaging.Proofs.Broker.Observers
import Messaging.Proofs.Service.Lookups
import Messaging.Proofs.Service.Publishing
import Messaging.Proofs.Service.Declared
import Messaging.Proofs.Waiter.Routing
import Messaging.Proofs.Avro.Undone
import Messaging.Proofs.Proto.Pieces
import Messaging.Proofs.Proto.Shape
import Messaging.Proofs.Proto.Parts
import Messaging.Proofs.Proto.Reading
import Messaging.Proofs.Proto.Fields
import Messaging.Proofs.Proto.RoundTrip
import Messaging.Proofs.Avro.Conformance
import Messaging.Proofs.Steps.Cycles
import Messaging.Proofs.Avro.Unfolding
import Messaging.Proofs.Avro.Termination
import Messaging.Proofs.Avro.Dialects
import Messaging.Proofs.Avro.Aborts
import Messaging.Proofs.Number.Overflow
import Messaging.Proofs.Avro.Origins
import Messaging.Proofs.Broker.Spared
import Messaging.Proofs.Service.Callers
import Messaging.Proofs.Service.CallerTurns
import Messaging.Proofs.Broker.Watched
import Messaging.Proofs.Receiving.Runs
import Messaging.Proofs.Receiving.Handlers
import Messaging.Proofs.Receiving.Wakeups
import Messaging.Proofs.Waiter.Resolution
import Messaging.Proofs.Broker.WellFormed
import Messaging.Proofs.Service.Created
import Messaging.Proofs.Codec.Target
import Messaging.Proofs.Service.Connection
