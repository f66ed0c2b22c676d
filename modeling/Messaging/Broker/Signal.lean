/-!
# Signals

A signal wakes those who wait for it one at a time. A notification that nobody waits for is kept for
the next who does, but no more than one of them; a waiter who has been woken and leaves without
having run passes the notification on.
-/

namespace Messaging

/-- The state of a signal. Waiters go by numbers. -/
structure Signal where
  /-- Is a notification kept? -/
  kept : Bool := false
  /-- Who waits, the longest first. -/
  waiting : List Nat := []
  /-- Who has been woken and has not run since. -/
  woken : List Nat := []
  deriving DecidableEq, Repr

namespace Signal

/-- Wakes the one who has waited longest, or keeps the notification. -/
def notify (s : Signal) : Signal :=
  match s.waiting with
  | [] => { s with kept := true }
  | n :: rest => { s with waiting := rest, woken := s.woken ++ [n] }

/-- Starts to wait, when no notification is kept. -/
def enter (n : Nat) (s : Signal) : Signal := { s with waiting := s.waiting ++ [n] }

/-- Uses up the notification that is kept. -/
def take (s : Signal) : Signal := { s with kept := false }

/-- Runs after having been woken. -/
def resume (n : Nat) (s : Signal) : Signal := { s with woken := s.woken.erase n }

/-- Leaves, woken or not. -/
def leave (n : Nat) (s : Signal) : Signal :=
  if n ∈ s.woken then notify { s with woken := s.woken.erase n }
  else { s with waiting := s.waiting.erase n }

end Signal

end Messaging
