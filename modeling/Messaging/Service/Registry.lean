import Messaging.Error
import Messaging.Log
import Messaging.Table
import Messaging.Text.Quoted

/-!
# Registries

A registry keeps the topics or subscriptions that have been created, by their ids. An entry that is
added under an id that is there replaces the one before.
-/

namespace Messaging

/-- Entries of a kind of resource by their ids. -/
structure Registry (α : Type) where
  resource : Resource
  entries : Table α := []

namespace Registry

variable {α : Type}

/-- Is there an entry? -/
def has (id : String) (r : Registry α) : Bool := r.entries.contains id

/-- The entry of an id. -/
def get (id : String) (r : Registry α) : Except ServiceError α :=
  match r.entries.find? id with
  | some a => .ok a
  | none => .error (.notFound r.resource id)

/-- The registry with an entry. -/
def add (id : String) (a : α) (r : Registry α) : Registry α :=
  { r with entries := r.entries.insert id a }

/-- The entry of a log for an entry that is added. -/
def addedEntry (resource : Resource) (id : String) : Log.Entry :=
  { level := .info, source := "pubsub_engine::registry", text := "registered"
    fields := [("resource", resource.word), ("id", id)] }

/-- The description of a registry. -/
def describe (r : Registry α) : String :=
  Text.record "Registry" [("resource", r.resource.title), ("ids", Text.quotedList r.entries.names)]

end Registry

end Messaging
