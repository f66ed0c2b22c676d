import Messaging.Error
import Messaging.Log
import Messaging.ResourceConfig

/-!
# The cache of schemas

Schemas are looked up by their ids or names. What has been fetched once is kept for good under the
id; a fetch that fails leaves the cache as it is.
-/

namespace Messaging

/-- The schemas that have been fetched, by their ids. -/
abbrev SchemaCache := Table SchemaConfig

namespace SchemaCache

variable {σ : Type}

/-- The entry of a log for a schema that has been fetched. -/
def cachedEntry (id : String) (config : SchemaConfig) : Log.Entry :=
  { level := .debug, source := "pubsub_engine::schema", text := "cached schema configuration"
    fields := [("schema", id), ("schema_type", config.kind.text)] }

/-- Takes in what a fetch has answered: a configuration is kept, an error is not. -/
def answered [Log.Journal σ] (id : String) (answer : Except BrokerError SchemaConfig)
    (cache : SchemaCache) (s : σ) : Except ServiceError SchemaConfig × SchemaCache × σ :=
  match answer with
  | .error e => (.error (.schemaConfig e), cache, s)
  | .ok config => (.ok config, Table.insert id config cache, Log.note (cachedEntry id config) s)

/-- The configuration of a schema, fetched if it is not there. -/
def get [Log.Journal σ] (fetch : String → σ → Except BrokerError SchemaConfig × σ)
    (reference : String) (cache : SchemaCache) (s : σ) :
    Except ServiceError SchemaConfig × SchemaCache × σ :=
  let id := schemaId reference
  match Table.find? cache id with
  | some config => (.ok config, cache, s)
  | none =>
    let (answer, s) := fetch id s
    answered id answer cache s

/-- The description of a cache. -/
def description : String := "SchemaConfigRegistry \x7b .. \x7d"

end SchemaCache

end Messaging
