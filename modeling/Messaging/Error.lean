import Messaging.Avro.Convert
import Messaging.ResourceName

/-!
# Errors

A broker answers with a `BrokerError`, a codec fails with a `CodecError`, and `ServiceError` says
what a publisher or subscriber was doing when one of them arose. Each is an inductive type by cause,
with one function for its text. A fault in a text or data format is shown by the name of the format.
-/

namespace Messaging

/-! ### Broker errors -/

/-- The kinds of broker error. -/
inductive BrokerErrorKind where
  | notFound
  | alreadyExists
  | invalidArgument
  | unavailable
  | internal
  deriving DecidableEq, Repr

/-- The words for a kind. -/
def BrokerErrorKind.text : BrokerErrorKind → String
  | notFound => "not found"
  | alreadyExists => "already exists"
  | invalidArgument => "invalid argument"
  | unavailable => "unavailable"
  | internal => "internal"

/-- An error of the broker. -/
structure BrokerError where
  kind : BrokerErrorKind
  message : String
  deriving DecidableEq, Repr

namespace BrokerError

/-- The error of a message without a kind. -/
def ofText (message : String) : BrokerError := ⟨.internal, message⟩

/-- Says what was being done. -/
def withContext (e : BrokerError) (context : String) : BrokerError :=
  { e with message := context ++ ": " ++ e.message }

/-- Does the error say that something does not exist? -/
def isNotFound (e : BrokerError) : Bool := e.kind = .notFound

/-- The description of the error. -/
def describe (e : BrokerError) : String := "[" ++ e.kind.text ++ "] " ++ e.message

end BrokerError

/-! ### Codec errors -/

/-- Formats that data may fail to be in. -/
inductive DataFormat where
  | json
  | avro
  | proto
  deriving DecidableEq, Repr

/-- The name of a format in the text of an error. -/
def DataFormat.tag : DataFormat → String
  | json => "<json>"
  | avro => "<avro>"
  | proto => "<proto>"

/-- What a codec error goes back to. -/
inductive CodecCause where
  | text (message : String)
  | format (f : DataFormat)
  | mismatch (m : Avro.Mismatch)

/-- An error of a codec. -/
inductive CodecError where
  | noSchema
  | invalidAvroEncoding
  | invalidProtoEncoding
  | invalidSchemaType
  | invalidProtoMessage
  /-- A step failed for a cause. -/
  | wrapped (context : String) (cause : CodecCause)
  /-- A step failed for another error of a codec. -/
  | nested (context : String) (source : CodecError)
  /-- The call does not return. -/
  | aborted
  deriving Inhabited

/-- The text of a cause. -/
def CodecCause.message : CodecCause → String
  | text message => message
  | format f => f.tag
  | mismatch m => m.message

namespace CodecError

/-- The text of an error. -/
def message : CodecError → String
  | noSchema => "data without schema cannot be decoded"
  | invalidAvroEncoding => "invalid avro encoding"
  | invalidProtoEncoding => "invalid proto encoding"
  | invalidSchemaType => "invalid schema type"
  | invalidProtoMessage => "invalid proto message"
  | wrapped context cause => context ++ ": " ++ cause.message
  | nested context source => context ++ ": " ++ source.message
  | aborted => ""

/-- The step that failed. -/
def context? : CodecError → Option String
  | wrapped context _ => some context
  | nested context _ => some context
  | _ => none

/-- The texts of what the error goes back to, the nearest first. -/
def sources : CodecError → List String
  | wrapped _ cause => [cause.message]
  | nested _ source => source.message :: source.sources
  | _ => []

end CodecError

/-! ### Service errors -/

/-- An error of a publisher or subscriber. -/
inductive ServiceError where
  | config (message : String)
  | schemaConfig (source : BrokerError)
  | resourceConfig (resource : Resource) (id : String) (source : BrokerError)
  | topicConfig (id : String) (source : BrokerError)
  | resourceSchema (resource : Resource) (id : String) (source : ServiceError)
  | resourceCodec (resource : Resource) (id : String) (source : CodecError)
  | notFound (resource : Resource) (id : String)
  | create (resource : Resource) (source : ServiceError)
  | get (resource : Resource) (source : ServiceError)
  | encode (source : CodecError)
  | receive (id : String) (source : BrokerError)
  | prepare (resource : Resource) (id : String) (source : BrokerError)
  | clientCreation (attempts : Nat)
  | broker (source : BrokerError)
  /-- The call does not return. -/
  | aborted
  deriving Inhabited

namespace ServiceError

/-- The text of an error. -/
def message : ServiceError → String
  | config message => "config error: " ++ message
  | schemaConfig source => "cannot get schema configuration: " ++ source.message
  | resourceConfig r id source =>
    "cannot get " ++ r.word ++ " " ++ id ++ " configuration: " ++ source.message
  | topicConfig id source =>
    "cannot get subscription " ++ id ++ " topic configuration: " ++ source.message
  | resourceSchema r id source =>
    "cannot get " ++ r.word ++ " " ++ id ++ " schema configuration: " ++ source.message
  | resourceCodec r id source =>
    "cannot create " ++ r.word ++ " " ++ id ++ " codec: " ++ source.message
  | notFound r id => "cannot find " ++ r.word ++ " " ++ id
  | create r source => "cannot create " ++ r.word ++ ": " ++ source.message
  | get r source => "cannot get " ++ r.word ++ ": " ++ source.message
  | encode source => "cannot encode data: " ++ source.message
  | receive id source => "cannot receive from subscription " ++ id ++ ": " ++ source.message
  | prepare r id source =>
    "failed to prepare " ++ r.word ++ " \"" ++ id ++ "\": " ++ source.message
  | clientCreation attempts =>
    "pubsub client creation error after " ++ (Nat.repr attempts) ++ " attempts"
  | broker source => "broker error: " ++ source.message
  | aborted => ""

/-- Does the error come from a look-up that found nothing, whatever it was done for? -/
def isNotFound : ServiceError → Bool
  | notFound _ _ => true
  | create _ source => source.isNotFound
  | get _ source => source.isNotFound
  | _ => false

/-- Does the call that failed not return at all? -/
def isAborted : ServiceError → Bool
  | aborted | encode .aborted | resourceCodec _ _ .aborted => true
  | create _ source | get _ source | resourceSchema _ _ source => source.isAborted
  | _ => false

/-- Says what a faulty configuration belongs to; other errors name their resource already. -/
def withContext (context : String) : ServiceError → ServiceError
  | config message => config (context ++ ": " ++ message)
  | e => e

/-- The texts of what the error goes back to, the nearest first. -/
def sources : ServiceError → List String
  | schemaConfig source => [source.message]
  | resourceConfig _ _ source => [source.message]
  | topicConfig _ source => [source.message]
  | resourceSchema _ _ source => source.message :: source.sources
  | resourceCodec _ _ source => source.message :: source.sources
  | create _ source => source.message :: source.sources
  | get _ source => source.message :: source.sources
  | encode source => source.message :: source.sources
  | receive _ source => [source.message]
  | prepare _ _ source => [source.message]
  | broker source => [source.message]
  | _ => []

end ServiceError

end Messaging
