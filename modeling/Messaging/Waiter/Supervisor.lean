import Messaging.Table
import Messaging.Waiter.Basic

/-!
# Waiters by target

A supervisor starts waiters on targets and resolves the current waiter of a target, which it then
forgets. A second start on a target replaces its waiter; the one before can be resolved only by
itself. Waiters go by numbers in the order of their creation.
-/

namespace Messaging

/-- Waiters, and which of them are current. -/
structure Supervisor (α : Type) where
  waiters : List (Waiter α) := []
  /-- The numbers of the current waiters, by target. -/
  targets : Table Nat := []

namespace Supervisor

variable {α : Type}

/-- Creates a waiter without a target. -/
def create (s : Supervisor α) : Nat × Supervisor α :=
  (s.waiters.length, { s with waiters := s.waiters ++ [{}] })

/-- Starts a waiter on a target. -/
def start (target : String) (s : Supervisor α) : Nat × Supervisor α :=
  (s.waiters.length, { waiters := s.waiters ++ [{}]
                       targets := s.targets.insert target s.waiters.length })

/-- The waiter of a number. -/
def waiter (n : Nat) (s : Supervisor α) : Waiter α := (s.waiters[n]?).getD {}

/-- Resolves a waiter by its number. -/
def stop (n : Nat) (o : Outcome α) (s : Supervisor α) : Except WaitError (Supervisor α) :=
  ((s.waiter n).stop o).map fun w => { s with waiters := s.waiters.set n w }

/-- Resolves and forgets the current waiter of a target, if there is one. One that has been resolved
by itself keeps its outcome. -/
def stopTarget (target : String) (o : Outcome α) (s : Supervisor α) : Supervisor α :=
  match s.targets.find? target with
  | none => s
  | some n =>
    let s := { s with targets := s.targets.erase target }
    match s.stop n o with
    | .ok stopped => stopped
    | .error _ => s

/-- Does a target have a current waiter? -/
def has (target : String) (s : Supervisor α) : Bool := s.targets.contains target

/-- The description of a supervisor. -/
def describe (s : Supervisor α) : String :=
  Text.record "WaiterSupervisor" [("targets", Text.quotedList s.targets.names)]

end Supervisor

end Messaging
