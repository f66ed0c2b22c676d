import Messaging.Broker.Reactor

/-!
# Scripted reactors

A scripted reactor records the requests that it sees and gives one reaction, always or a number of
times; after that it ignores them.
-/

namespace Messaging

/-- What scripted reactors remember. -/
structure Scripts where
  /-- The requests in order, with the name of the reactor that saw them. -/
  seen : List (String × Request) := []
  /-- How often each reactor will still react, where there is a limit. -/
  left : List (Option Nat) := []

namespace Scripts

/-- Makes room for one more reactor. -/
def add (times : Option Nat) (s : Scripts) : Scripts := { s with left := s.left ++ [times] }

/-- The reactor at a place. -/
def reactor (place : Nat) (name : String) (methods : List String) (reaction : Reaction) :
    Reactor Scripts where
  methods := methods
  react request s :=
    let s := { s with seen := s.seen ++ [(name, request)] }
    match (s.left[place]?).join with
    | none => (reaction, s)
    | some 0 => (.ignore, s)
    | some (times + 1) => (reaction, { s with left := s.left.set place (some times) })

end Scripts

end Messaging
