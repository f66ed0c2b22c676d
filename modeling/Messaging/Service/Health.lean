import Messaging.Client

/-!
# Health

A probe asks for each resource of a list whether it exists. It succeeds if all do, and its message
has a part for each.
-/

namespace Messaging

/-- What a probe found. -/
structure ProbeResult where
  success : Bool
  message : String
  deriving DecidableEq, Repr

/-- A check that resources exist. -/
structure Probe where
  name : String
  resource : Resource
  ids : List String
  deriving DecidableEq, Repr

namespace Probe

variable {σ : Type}

/-- The part of a message about a resource. -/
def part (r : Resource) (id : String) (found : Except BrokerError Bool) : String :=
  r.word ++ " " ++ id ++ match found with
    | .ok true => " exists"
    | .ok false => " does not exist"
    | .error e => " error: " ++ e.message

/-- Does a resource exist for certain? -/
def isThere : Except BrokerError Bool → Bool
  | .ok found => found
  | .error _ => false

/-- What was found, from the answers for the resources. -/
def summarize (r : Resource) (found : List (String × Except BrokerError Bool)) : ProbeResult where
  success := found.all fun f => isThere f.2
  message := Text.separated ", " (found.map fun f => part r f.1 f.2)

/-- Asks for resources one after the other. -/
def ask (look : String → σ → Except BrokerError Bool × σ) :
    List String → σ → List (String × Except BrokerError Bool) × σ
  | [], s => ([], s)
  | id :: rest, s =>
    let (found, s) := look id s
    let (others, s) := ask look rest s
    ((id, found) :: others, s)

/-- Makes the check. -/
def check (c : Client σ) (p : Probe) (s : σ) : ProbeResult × σ :=
  let look := match p.resource with
    | .subscription => c.subscriptionExists
    | _ => c.topicExists
  let (found, s) := ask look p.ids s
  (summarize p.resource found, s)

/-- The probes for topics and subscriptions. -/
def both (topics subscriptions : List String) : List Probe :=
  [⟨"gcppubsub-topics", .topic, topics⟩,
   ⟨"gcppubsub-subscriptions", .subscription, subscriptions⟩]

/-- Makes checks in order; each result has the name of its probe. -/
def checkAll (c : Client σ) : List Probe → σ → List (String × ProbeResult) × σ
  | [], s => ([], s)
  | p :: rest, s =>
    let (result, s) := p.check c s
    let (others, s) := checkAll c rest s
    ((p.name, result) :: others, s)

end Probe

end Messaging
