import Messaging.Proofs.Broker.Deliveries
import Messaging.Proofs.Broker.Reactors
import Messaging.Waiter.Acks

/-! # What a resolved waiter means

The reactor that resolves the waiters for acks is shown a request before it is served, and the
reactors behind it may still fail it. So a waiter is resolved by an ack as soon as no reactor in
front handles the request, and the delivery is then settled only if none behind fails it
(`ack_resolves_waiter`). -/

namespace Messaging

/-! ### Waiters for acks -/

namespace AckSupervisor

/-- The waiter of a number is the current one for the acks of a subscription, and is pending. -/
def Awaits (name : String) (w : Nat) (s : AckSupervisor) : Prop :=
  s.supervisor.targets.find? (ackTarget name) = some w ∧ s.supervisor.waiters[w]? = some {}

namespace Awaits

variable {name : String} {w : Nat} {s : AckSupervisor}

theorem pending (h : s.Awaits name w) : (s.supervisor.waiter w).outcome = none := by
  simp [Supervisor.waiter, h.2]

/-- A request to acknowledge resolves the current waiter with the ack ids. -/
theorem observe (h : s.Awaits name w) (acks : List String) :
    ((s.observe (.acknowledge name acks)).supervisor.waiter w).outcome = some { data := acks } := by
  obtain ⟨hlt, hpending⟩ := List.getElem?_eq_some_iff.mp h.2
  simp [AckSupervisor.observe, stopAck, Supervisor.stopTarget, h.1, Supervisor.stop,
    Supervisor.waiter, hpending, Waiter.stop, Except.map, hlt]

end Awaits

end AckSupervisor

/-! ### Acks -/

namespace Emulator

variable {σ : Type}

/-- An ack takes the lease off unless a reactor fails the request. -/
theorem acknowledge_eq (name ackId : String) (e : Emulator σ) :
    e.acknowledge name ackId =
      let offered := Reactor.offer (.acknowledge name [ackId])
        (Reactor.chain "Acknowledge" e.reactors) e.world
      { e with
        world := offered.2
        store := if offered.1.isSome then e.store else e.store.settle name ackId } := by
  have hchain : Reactor.chain (Request.acknowledge name [ackId]).method e.reactors =
      Reactor.chain "Acknowledge" e.reactors := rfl
  unfold acknowledge guarded
  rw [hchain]
  rcases Reactor.offer (.acknowledge name [ackId]) (Reactor.chain "Acknowledge" e.reactors)
    e.world with ⟨_ | error, world⟩ <;> rfl

end Emulator

/-- Let an emulator have a reactor that resolves waiters for acks, with any reactors before and
behind it that have no hand in the waiters, and let a delivery that is outstanding be acked while a
waiter waits for an ack of its subscription.

* The waiter is resolved, with the ack id, unless a reactor before handles the request.
* If it is resolved, the delivery is outstanding no more unless a reactor behind fails the
  request. -/
theorem ack_resolves_waiter {σ : Type} (get : σ → AckSupervisor) (set : AckSupervisor → σ → σ)
    (hget : ∀ a s, get (set a s) = a) (before behind : List (Reactor σ))
    (hothers : ∀ r ∈ before ++ behind, ∀ request s, get (r.react request s).2 = get s)
    {e : Emulator σ} (he : e.reactors = before ++ AckSupervisor.reactor.within get set :: behind)
    {n : Nat} {d : Delivery} (hd : e.unsettled? n = some d) {m : StoredMessage}
    (hm : Queue.leasedUnder d.ackId (e.store.queues.find? d.subscription) = some m)
    {w : Nat} (hw : (get e.world).Awaits d.subscription w) :
    let request := Request.acknowledge d.subscription [d.ackId]
    let first := Reactor.chain "Acknowledge" before
    let seen := (Reactor.offer request first e.world).2
    let last := Reactor.chain "Acknowledge" behind
    let e' := e.ack n
    ((get e'.world).supervisor.waiter w).outcome =
        (if Reactor.handled request first e.world then none else some { data := [d.ackId] }) ∧
      (((get e'.world).supervisor.waiter w).isStopped = true →
        Queue.leasedUnder d.ackId (e'.store.queues.find? d.subscription) =
          if (Reactor.offer request last (set ((get seen).observe request) seen)).1.isSome
          then some m else none) := by
  intro request first seen last e'
  have hchain : Reactor.chain "Acknowledge" e.reactors =
      first ++ AckSupervisor.reactor.within get set :: last := by
    rw [he, Reactor.chain_append]
    rfl
  have hfirst : get seen = get e.world := Reactor.offer_keeps (fun r hr =>
    hothers r (List.mem_append_left _ (Reactor.mem_of_mem_chain hr))) e.world
  have hlast (s : σ) : get (Reactor.offer request last s).2 = get s := Reactor.offer_keeps
    (fun r hr => hothers r (List.mem_append_right _ (Reactor.mem_of_mem_chain hr))) s
  have hack : e' = (e.marked n).acknowledge d.subscription d.ackId := by
    simp only [e', Emulator.ack, Emulator.once_eq, hd]
  rw [Emulator.acknowledge_eq] at hack
  change e' = { e.marked n with
    world := (Reactor.offer request (Reactor.chain "Acknowledge" e.reactors) e.world).2
    store := if (Reactor.offer request (Reactor.chain "Acknowledge" e.reactors) e.world).1.isSome
      then e.store else e.store.settle d.subscription d.ackId } at hack
  rw [hchain, Reactor.offer_append] at hack
  by_cases hh : Reactor.handled request first e.world = true
  · -- A reactor in front handles the request, so the waiter is not told.
    rw [if_pos hh] at hack ⊢
    have hpending : ((get e'.world).supervisor.waiter w).outcome = none := by
      rw [hack]
      exact hfirst ▸ hw.pending
    exact ⟨hpending, fun hstopped => by simp [Waiter.isStopped, hpending] at hstopped⟩
  · rw [if_neg hh] at hack ⊢
    change e' = { e.marked n with
      world := (Reactor.offer request last (set ((get seen).observe request) seen)).2
      store := if (Reactor.offer request last (set ((get seen).observe request) seen)).1.isSome
        then e.store else e.store.settle d.subscription d.ackId } at hack
    refine ⟨?_, fun _ => ?_⟩
    · rw [hack]
      change ((get (Reactor.offer request last _).2).supervisor.waiter w).outcome = _
      rw [hlast, hget, hfirst]
      exact hw.observe [d.ackId]
    · rw [hack]
      change Queue.leasedUnder d.ackId ((ite _ e.store
        (e.store.settle d.subscription d.ackId)).queues.find? d.subscription) = _
      split
      · exact hm
      · rw [Store.settle, Table.find?_modify, if_pos rfl]
        cases e.store.queues.find? d.subscription with
        | none => rfl
        | some q => exact Queue.leasedUnder_settle d.ackId q

/-- An emulator with reactors that has leased a message while a waiter waits for its ack. -/
def leasedAndAwaited (reactors : List (Reactor AckSupervisor)) : Emulator AckSupervisor :=
  let e : Emulator AckSupervisor :=
    { project := "p", world := (AckSupervisor.startAck "s" { project := "p" }).2, reactors }
  let e := (e.createTopic "t" {}).2
  let e := (e.createSubscription "s" { topic := "t" }).2
  let e := (e.publish "t" { data := [1] }).2
  (e.lease "projects/p/subscriptions/s").2

theorem ack_resolves_waiter_alone :
    let e := (leasedAndAwaited [AckSupervisor.reactor.within id fun a _ => a]).ack 0
    (e.world.supervisor.waiter 0).outcome = some { data := ["1-1"] } ∧
      Queue.leasedUnder "1-1" (e.store.queues.find? "projects/p/subscriptions/s") = none := by
  intro e
  obtain ⟨hresolved, hsettled⟩ := ack_resolves_waiter id (fun a _ => a) (fun _ _ => rfl) [] []
    (fun r hr => absurd hr List.not_mem_nil)
    (e := leasedAndAwaited [AckSupervisor.reactor.within id fun a _ => a]) rfl
    (n := 0) (d := ⟨"projects/p/subscriptions/s", "1-1", ⟨"1", { data := [1] }, 1⟩, false⟩)
    (by decide +kernel) (m := ⟨"1", { data := [1] }, 1⟩) (by decide +kernel) (w := 0)
    ⟨by decide +kernel, by decide +kernel⟩
  have houtcome : (e.world.supervisor.waiter 0).outcome = some { data := ["1-1"] } := hresolved
  exact ⟨houtcome, hsettled (by rw [Waiter.isStopped]; exact congrArg Option.isSome houtcome)⟩

/-- A reactor that fails every ack. -/
def failingAcks : Reactor AckSupervisor where
  methods := ["Acknowledge"]
  react _ s := (.fail ⟨.unavailable, "injected"⟩, s)

/-- With a reactor behind that fails the ack, the waiter is resolved and the delivery is still
outstanding. -/
theorem ack_resolves_waiter_of_failing :
    let before := leasedAndAwaited [AckSupervisor.reactor.within id fun a _ => a, failingAcks]
    let after := before.ack 0
    (before.world.supervisor.waiter 0).isStopped = false ∧
      before.unsettled? 0 =
        some ⟨"projects/p/subscriptions/s", "1-1", ⟨"1", { data := [1] }, 1⟩, false⟩ ∧
      (after.world.supervisor.waiter 0).outcome = some { data := ["1-1"] } ∧
      Queue.leasedUnder "1-1" (after.store.queues.find? "projects/p/subscriptions/s") =
        some ⟨"1", { data := [1] }, 1⟩ ∧
      after.store.outstandingCount "projects/p/subscriptions/s" = 1 := by
  decide +kernel

end Messaging
