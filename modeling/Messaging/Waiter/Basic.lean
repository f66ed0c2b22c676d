import Messaging.Text.Quoted

/-!
# Waiters

A waiter is resolved once, with data and perhaps an error, and keeps that outcome for good. Waiting
ends with the outcome, or without it when the wait is cancelled or has taken too long; `Waiter.wait`
says which of these comes first when their times are known. Times are in milliseconds.
-/

namespace Messaging

/-- What a waiter is resolved with. -/
structure Outcome (α : Type) where
  data : α
  error : Option String := none
  deriving DecidableEq, Repr

/-- The data, unless there is an error. -/
def Outcome.result {α : Type} (o : Outcome α) : Except String α :=
  match o.error with
  | none => .ok o.data
  | some e => .error e

/-- Why a call on a waiter fails. -/
inductive WaitError where
  | cancelled
  | deadlineExceeded
  | alreadyStopped
  deriving DecidableEq, Repr

/-- The text of an error. -/
def WaitError.message : WaitError → String
  | cancelled => "context canceled"
  | deadlineExceeded => "context deadline exceeded"
  | alreadyStopped => "waiter already stopped"

/-- A waiter, pending or resolved. -/
structure Waiter (α : Type) where
  outcome : Option (Outcome α) := none
  deriving DecidableEq, Repr

/-- What happens while somebody waits, and when. -/
structure WaitPlan (α : Type) where
  /-- The wait takes no longer than this. -/
  limit : Option Nat := none
  /-- The wait is cancelled. -/
  cancelled : Option Nat := none
  /-- The waiter is resolved. -/
  stopped : Option (Nat × Outcome α) := none

namespace Waiter

variable {α : Type}

/-- Is the waiter resolved? -/
def isStopped (w : Waiter α) : Bool := w.outcome.isSome

/-- Resolves a waiter that is pending. -/
def stop (o : Outcome α) (w : Waiter α) : Except WaitError (Waiter α) :=
  match w.outcome with
  | none => .ok ⟨some o⟩
  | some _ => .error .alreadyStopped

/-- The description of a waiter. -/
def describe (w : Waiter α) : String :=
  Text.record "Waiter" [("stopped", if w.isStopped then "true" else "false")]

/-- An end of a wait: when it comes, the result, and the waiter then. -/
structure WaitEnd (α : Type) where
  time : Nat
  result : Except WaitError (Outcome α)
  waiter : Waiter α

/-- The earlier of two ends, the first of two at one time. -/
def earlier (a b : WaitEnd α) : WaitEnd α := if b.time < a.time then b else a

/-- The ends that a plan has for a waiter that is pending. At one time the outcome comes before a
cancellation and that before the limit. -/
def ends (plan : WaitPlan α) (w : Waiter α) : List (WaitEnd α) :=
  (plan.stopped.map fun s => ⟨s.1, .ok s.2, ⟨some s.2⟩⟩).toList
    ++ (plan.cancelled.map fun t => ⟨t, .error .cancelled, w⟩).toList
    ++ (plan.limit.map fun t => ⟨t, .error .deadlineExceeded, w⟩).toList

/-- How a wait ends; `none` if it never does. -/
def wait (plan : WaitPlan α) (w : Waiter α) : Option (WaitEnd α) :=
  match w.outcome with
  | some o => some ⟨0, .ok o, w⟩
  | none =>
    match w.ends plan with
    | [] => none
    | e :: rest => some (rest.foldl earlier e)

end Waiter

end Messaging
