import Messaging.Broker.Emulator

/-!
# Receive loops

A receive loop hands the messages of a subscription to handlers, at most as many at once as its
limit says. It takes a permit, looks for a message, and waits for the signal of the subscription if
there is none; each message that it leases goes to a handler of its own, which gives the permit back
when it finishes. A loop that is cancelled takes no more messages and closes once all its handlers
have finished. `Receiving.step` says what each move does and when it can be made, in any order;
`Receiving.settle` makes moves until none is left.
-/

namespace Messaging

/-- Where a receive loop stands. -/
inductive LoopPhase where
  /-- Before a permit is taken. -/
  | ready
  /-- With a permit, before it looks for a message. -/
  | seeking
  /-- With a permit, until the signal wakes it. -/
  | waiting
  /-- Cancelled, until all handlers have finished. -/
  | closing
  | closed
  deriving DecidableEq, Repr

/-- A receive loop. -/
structure Loop where
  /-- The name of the subscription. -/
  subscription : String
  limit : Nat
  phase : LoopPhase := .ready
  cancelled : Bool := false
  /-- The deliveries whose handlers are running. -/
  running : List Nat := []
  /-- The deliveries that have been handed to handlers. -/
  received : List Nat := []
  deriving DecidableEq, Repr

namespace Loop

/-- No loop has more permits. -/
def maxPermits : Nat := 0x1fffffffffffffff

/-- How many handlers may run at once under the settings. -/
def limitOf (s : ReceiveSettings) : Nat := min (max 1 (min s.workers s.maxMessages)) maxPermits

end Loop

/-- Something that a loop or one of its handlers does. Loops and deliveries go by numbers. -/
inductive LoopMove where
  | takePermit (loop : Nat)
  | look (loop : Nat)
  | wake (loop : Nat)
  | quit (loop : Nat)
  | finish (loop delivery : Nat)
  | close (loop : Nat)
  deriving DecidableEq, Repr

/-- A broker and the receive loops on it. -/
structure Receiving (σ : Type) where
  emulator : Emulator σ
  loops : List Loop := []

namespace Receiving

variable {σ : Type}

/-- The state with a loop changed. -/
def change (loop : Nat) (f : Loop → Loop) (s : Receiving σ) : Receiving σ :=
  { s with loops := s.loops.modify loop f }

/-- The signal of a subscription by its name. -/
def signal (name : String) (s : Receiving σ) : Signal :=
  ((s.emulator.store.queues.find? name).map Queue.signal).getD {}

/-- The state with the signal of a subscription changed. -/
def onSignal (name : String) (f : Signal → Signal) (s : Receiving σ) : Receiving σ :=
  let store := s.emulator.store
  let queues := store.queues.modify name fun q => { q with signal := f q.signal }
  { s with emulator := { s.emulator with store := { store with queues } } }

/-- The entry for a loop that starts. -/
def startedEntry (l : Loop) : Log.Entry :=
  { level := .debug, source := "pubsub_emulator::client", text := "receive loop started"
    fields := [("subscription", l.subscription), ("concurrency", Text.natural l.limit)] }

/-- The entry for a loop that has closed. -/
def stoppedEntry (l : Loop) : Log.Entry :=
  { level := .debug, source := "pubsub_emulator::client", text := "receive loop stopped"
    fields := [("subscription", l.subscription)] }

/-- Starts a loop on a subscription that has been pulled. -/
def start [Log.Journal σ] (id : String) (settings : ReceiveSettings) (s : Receiving σ) :
    Receiving σ :=
  let l : Loop :=
    { subscription := s.emulator.nameOf .subscription id, limit := Loop.limitOf settings }
  { emulator := Log.note (startedEntry l) s.emulator, loops := s.loops ++ [l] }

/-- Cancels a loop. -/
def cancel (loop : Nat) (s : Receiving σ) : Receiving σ :=
  s.change loop fun l => { l with cancelled := true }

/-- Takes a permit if one is free. -/
def takePermit (loop : Nat) (l : Loop) (s : Receiving σ) : Option (Receiving σ) :=
  if l.phase = .ready ∧ l.running.length < l.limit then
    some (s.change loop fun l => { l with phase := .seeking })
  else none

/-- Leases a message for a handler. Without one it uses up the notification that is kept or starts
to wait. -/
def look (loop : Nat) (l : Loop) (s : Receiving σ) : Option (Receiving σ) :=
  if l.phase = .seeking then
    match s.emulator.lease l.subscription with
    | (some delivery, emulator) =>
      let hand (l : Loop) : Loop :=
        { l with phase := .ready, running := l.running ++ [delivery]
                 received := l.received ++ [delivery] }
      some ({ s with emulator }.change loop hand)
    | (none, _) =>
      if (s.signal l.subscription).kept then some (s.onSignal l.subscription Signal.take)
      else some ((s.onSignal l.subscription (Signal.enter loop)).change loop
        fun l => { l with phase := .waiting })
  else none

/-- Goes on after the signal. -/
def wake (loop : Nat) (l : Loop) (s : Receiving σ) : Option (Receiving σ) :=
  if l.phase = .waiting ∧ loop ∈ (s.signal l.subscription).woken then
    some ((s.onSignal l.subscription (Signal.resume loop)).change loop
      fun l => { l with phase := .seeking })
  else none

/-- Has the subscription of a loop no pending message? -/
def isDry (l : Loop) (s : Receiving σ) : Bool :=
  s.emulator.store.pendingCount l.subscription = 0

/-- Stops taking messages when cancelled: before a permit, or where there is no message. -/
def quit (loop : Nat) (l : Loop) (s : Receiving σ) : Option (Receiving σ) :=
  if l.cancelled then
    let closing (s : Receiving σ) : Receiving σ :=
      s.change loop fun l => { l with phase := .closing }
    match l.phase with
    | .ready => some (closing s)
    | .seeking => if s.isDry l then some (closing s) else none
    | .waiting => some (closing (s.onSignal l.subscription (Signal.leave loop)))
    | _ => none
  else none

/-- Finishes a handler. -/
def finish (loop delivery : Nat) (l : Loop) (s : Receiving σ) : Option (Receiving σ) :=
  if delivery ∈ l.running then
    some (s.change loop fun l => { l with running := l.running.erase delivery })
  else none

/-- Closes a loop whose handlers have all finished. -/
def close [Log.Journal σ] (loop : Nat) (l : Loop) (s : Receiving σ) : Option (Receiving σ) :=
  if l.phase = .closing ∧ l.running = [] then
    let s := { s with emulator := Log.note (stoppedEntry l) s.emulator }
    some (s.change loop fun l => { l with phase := .closed })
  else none

/-- What a move does; `none` if it cannot be made. -/
def step [Log.Journal σ] (m : LoopMove) (s : Receiving σ) : Option (Receiving σ) :=
  let on (loop : Nat) (f : Loop → Receiving σ → Option (Receiving σ)) : Option (Receiving σ) :=
    s.loops[loop]?.bind fun l => f l s
  match m with
  | .takePermit loop => on loop (takePermit loop)
  | .look loop => on loop (look loop)
  | .wake loop => on loop (wake loop)
  | .quit loop => on loop (quit loop)
  | .finish loop delivery => on loop (finish loop delivery)
  | .close loop => on loop (close loop)

/-! ### Running -/

/-- The moves that a loop and its handlers may make, in order of preference; `held` tells the
deliveries of a loop whose handlers are still busy. -/
def movesOf (held : Nat → Nat → Bool) (loop : Nat) (l : Loop) : List LoopMove :=
  (l.running.filter fun d => !held loop d).map (.finish loop)
    ++ [.quit loop, .takePermit loop, .look loop, .wake loop, .close loop]

/-- The first move that can be made, and the state after it. -/
def next? [Log.Journal σ] (held : Nat → Nat → Bool) (s : Receiving σ) : Option (Receiving σ) :=
  (s.loops.mapIdx fun loop l => movesOf held loop l).flatten.findSome? s.step

/-- Makes moves as long as there are any, within a number of them. -/
def settleWithin [Log.Journal σ] (held : Nat → Nat → Bool) : Nat → Receiving σ → Receiving σ
  | 0, s => s
  | fuel + 1, s =>
    match s.next? held with
    | none => s
    | some s => settleWithin held fuel s

/-- A number of moves after which none is left: three for each message, one for each handler that
is running, and some to start, wait, wake and close for each loop. -/
def moveBound (s : Receiving σ) : Nat :=
  (s.emulator.store.queues.map fun e => 3 * e.2.pending.length).foldr (· + ·) 0
    + (s.loops.map fun l => l.running.length + 8).foldr (· + ·) 0

/-- Makes moves until none is left. -/
def settle [Log.Journal σ] (held : Nat → Nat → Bool) (s : Receiving σ) : Receiving σ :=
  settleWithin held s.moveBound s

end Receiving

end Messaging
