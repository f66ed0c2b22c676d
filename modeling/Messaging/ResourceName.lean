/-!
# Names of resources

A project's topics, subscriptions and schemas have ids; the name of a resource is the path that
says which project it belongs to. A schema may be referred to by its id or by its name, and
`schemaId` gives the id of either.
-/

namespace Messaging

/-- The kinds of resource. -/
inductive Resource where
  | topic
  | subscription
  | schema
  deriving DecidableEq, Repr

namespace Resource

/-- The word for a kind of resource. -/
def word : Resource → String
  | topic => "topic"
  | subscription => "subscription"
  | schema => "schema"

/-- The word for a kind of resource as it stands in a description. -/
def title : Resource → String
  | topic => "Topic"
  | subscription => "Subscription"
  | schema => "Schema"

/-- The name of the resource of a project with an id. -/
def nameOf (r : Resource) (project id : String) : String :=
  "projects/" ++ project ++ "/" ++ r.word ++ "s/" ++ id

end Resource

/-- What follows the last slash. -/
def afterLastSlash (cs : List Char) : List Char :=
  (cs.reverse.takeWhile (· ≠ '/')).reverse

/-- The id of a schema that is referred to by its id or by its name. -/
def schemaId (reference : String) : String := String.ofList (afterLastSlash reference.toList)

end Messaging
