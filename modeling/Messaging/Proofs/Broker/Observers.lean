import Messaging.Proofs.Broker.Operations
import Messaging.Waiter.Acks

/-! # Observers are transparent

An observer is a reactor that handles no request and has a memory of its own
(`Reactor.Observes`). Two emulators run side by side, the second with observers put in anywhere
between the reactors of the first, and with more of them registered as it runs
(`observers_transparent`): every operation answers alike, the reactors of the first are shown the
same requests in the same order, and the emulators differ in nothing but the observers and what
these remember.

The memory `σ` of the first emulator is a `Part` of the memory `ω` of the second. Requests pass
through `Reactor.Watched.offer`, and from there on the proof goes by one lemma for each operation:
`Emulator.Parallel` says that two functions answer alike and keep the emulators alike. -/

namespace Messaging

variable {σ τ ω α : Type}

/-- What some reactors remember, as a part of what all reactors remember. Entries that are noted are
noted in both. -/
structure Part (σ ω : Type) [Log.Journal σ] [Log.Journal ω] where
  get : ω → σ
  set : σ → ω → ω
  get_set : ∀ a w, get (set a w) = a
  get_note : ∀ entry w, get (Log.note entry w) = Log.note entry (get w)

/-- Entries are noted in the first of two states. -/
instance [Log.Journal σ] : Log.Journal (σ × τ) := ⟨fun entry w => (Log.note entry w.1, w.2)⟩

/-- The first of two states. -/
def Part.first [Log.Journal σ] : Part σ (σ × τ) where
  get w := w.1
  set a w := (a, w.2)
  get_set _ _ := rfl
  get_note _ _ := rfl

/-! ### Observers among reactors -/

namespace Reactor

/-- A reactor that handles no request and leaves alone what the others remember. -/
structure Observes (get : ω → σ) (r : Reactor ω) : Prop where
  unhandled : ∀ request w, (r.react request w).1.handled = false
  keeps : ∀ request w, get (r.react request w).2 = get w

/-- A reactor that handles nothing is an observer in any place that the others do not read. -/
theorem Observes.within {r : Reactor τ} (hr : ∀ request t, (r.react request t).1.handled = false)
    {get : ω → σ} {see : ω → τ} {put : τ → ω → ω} (h : ∀ t w, get (put t w) = get w) :
    Observes get (r.within see put) :=
  ⟨fun request w => hr request (see w), fun _ _ => h _ _⟩

theorem log_unhandled [Log.Journal τ] (request : Request) (t : τ) :
    ((log (σ := τ)).react request t).1.handled = false := rfl

theorem ackReactor_unhandled (request : Request) (s : AckSupervisor) :
    (AckSupervisor.reactor.react request s).1.handled = false := rfl

/-- The second list has the reactors of the first in their order, with observers put in
anywhere. -/
inductive Watched (get : ω → σ) (set : σ → ω → ω) : List (Reactor σ) → List (Reactor ω) → Prop
  | nil : Watched get set [] []
  | original (r : Reactor σ) {l : List (Reactor σ)} {l' : List (Reactor ω)}
      (rest : Watched get set l l') : Watched get set (r :: l) (r.within get set :: l')
  | observer {o : Reactor ω} (observes : Observes get o) {l : List (Reactor σ)}
      {l' : List (Reactor ω)} (rest : Watched get set l l') : Watched get set l (o :: l')

namespace Watched

variable {get : ω → σ} {set : σ → ω → ω} {l m : List (Reactor σ)} {l' m' : List (Reactor ω)}

theorem append (h : Watched get set l l') (h' : Watched get set m m') :
    Watched get set (l ++ m) (l' ++ m') := by
  induction h with
  | nil => exact h'
  | original r _ ih => exact .original r ih
  | observer observes _ ih => exact .observer observes ih

/-- An original is watched as often as it is in a row. -/
theorem originals {β : Type} (r : Reactor σ) (times : List β) :
    Watched get set (times.map fun _ => r) (times.map fun _ => r.within get set) := by
  induction times with
  | nil => exact .nil
  | cons _ _ ih => exact .original r ih

theorem observers {β : Type} {o : Reactor ω} (h : Observes get o) (times : List β) :
    Watched get set [] (times.map fun _ => o) := by
  induction times with
  | nil => exact .nil
  | cons _ _ ih => exact .observer h ih

/-- What holds of all reactors holds of those that are registered for a method. -/
theorem chain (h : Watched get set l l') (method : String) :
    Watched get set (chain method l) (chain method l') := by
  induction h with
  | nil => exact .nil
  | original r _ ih => exact (originals r _).append ih
  | observer observes _ ih => exact (observers observes _).append ih

/-- A request comes out of watched reactors as without the observers: it fails with the same error,
the originals remember the same and were shown the same. -/
theorem offer (hset : ∀ a w, get (set a w) = a) (h : Watched get set l l') (request : Request)
    (w : ω) :
    (offer request l' w).1 = (offer request l (get w)).1 ∧
      get (offer request l' w).2 = (offer request l (get w)).2 ∧
      Watched get set (shown request l (get w)) (shown request l' w) := by
  induction h generalizing w with
  | nil => exact ⟨rfl, rfl, .nil⟩
  | original r _ ih =>
    have hget : get ((r.within get set).react request w).2 = (r.react request (get w)).2 :=
      hset _ _
    have hreaction : ((r.within get set).react request w).1 = (r.react request (get w)).1 := rfl
    simp only [offer_cons, shown_cons, hreaction]
    cases hr : (r.react request (get w)).1.handled with
    | true => exact ⟨rfl, hget, .original r .nil⟩
    | false =>
      obtain ⟨herror, hworld, hshown⟩ := ih ((r.within get set).react request w).2
      rw [hget] at herror hworld hshown
      exact ⟨herror, hworld, .original r hshown⟩
  | observer observes _ ih =>
    obtain ⟨herror, hworld, hshown⟩ := ih _
    rw [observes.keeps] at herror hworld hshown
    simp only [offer_cons, shown_cons, observes.unhandled]
    exact ⟨herror, hworld, .observer observes hshown⟩

end Watched

end Reactor

/-! ### Emulators side by side -/

variable [Log.Journal σ] [Log.Journal ω] {P : Part σ ω}

/-- The second emulator is the first with observers. -/
structure Emulator.Watched (P : Part σ ω) (e : Emulator σ) (e' : Emulator ω) : Prop where
  project : e'.project = e.project
  store : e'.store = e.store
  handles : e'.handles = e.handles
  deliveries : e'.deliveries = e.deliveries
  world : P.get e'.world = e.world
  reactors : Reactor.Watched P.get P.set e.reactors e'.reactors

/-- Two functions answer alike on an emulator without and with observers, which stay alike. -/
def Emulator.Parallel (P : Part σ ω) (f : Emulator σ → α × Emulator σ)
    (f' : Emulator ω → α × Emulator ω) : Prop :=
  ∀ ⦃e e'⦄, Watched P e e' → (f' e').1 = (f e).1 ∧ Watched P (f e).2 (f' e').2

namespace Emulator

variable {e : Emulator σ} {e' : Emulator ω}

theorem Watched.nameOf (h : Watched P e e') (r : Resource) (id : String) :
    e'.nameOf r id = e.nameOf r id := by
  rw [Emulator.nameOf, h.project, Emulator.nameOf]

theorem Watched.unsettled? (h : Watched P e e') (n : Nat) : e'.unsettled? n = e.unsettled? n := by
  rw [Emulator.unsettled?, h.deliveries, Emulator.unsettled?]

theorem Watched.publishRequest (h : Watched P e e') (topicId : String) :
    e'.publishRequest topicId = e.publishRequest topicId := by
  rw [Emulator.publishRequest, Emulator.publishRequest, h.nameOf, h.store]

namespace Parallel

/-- Observers have no say in whether a request is served. -/
theorem guarded (request : Request) {serve : Emulator σ → Except BrokerError α × Emulator σ}
    {serve' : Emulator ω → Except BrokerError α × Emulator ω} (h : Parallel P serve serve') :
    Parallel P (Emulator.guarded request serve) (Emulator.guarded request serve') := by
  intro e e' he
  obtain ⟨herror, hworld, -⟩ :=
    (he.reactors.chain request.method).offer P.get_set request e'.world
  rw [he.world] at herror hworld
  unfold Emulator.guarded
  rcases hoffer : Reactor.offer request (Reactor.chain request.method e.reactors) e.world with
    ⟨error, w⟩
  rcases hoffer' : Reactor.offer request (Reactor.chain request.method e'.reactors) e'.world with
    ⟨error', w'⟩
  rw [hoffer, hoffer'] at herror hworld
  obtain rfl : error' = error := herror
  have he₁ : Watched P { e with world := w } { e' with world := w' } := { he with world := hworld }
  cases error' with
  | none => exact h he₁
  | some error => exact ⟨rfl, he₁⟩

theorem look (find : Store → Except BrokerError α) :
    Parallel P (fun e => (find e.store, e)) (fun e => (find e.store, e)) :=
  fun _ _ h => ⟨congrArg find h.store, h⟩

theorem served (change : Store → Except BrokerError Store) :
    Parallel P (Emulator.served change) (Emulator.served change) := by
  intro e e' h
  unfold Emulator.served
  rw [h.store]
  split
  · exact ⟨rfl, { h with store := rfl }⟩
  · exact ⟨rfl, h⟩

/-- What is answered may be told in another way. -/
theorem map {β : Type} {f : Emulator σ → Except BrokerError α × Emulator σ}
    {f' : Emulator ω → Except BrokerError α × Emulator ω} (h : Parallel P f f') (tell : α → β) :
    Parallel P (fun e => ((f e).1.map tell, (f e).2)) (fun e => ((f' e).1.map tell, (f' e).2)) :=
  fun _ _ he => ⟨congrArg (Except.map tell) (h he).1, (h he).2⟩

theorem findTopic (id : String) : Parallel P (Emulator.findTopic id) (Emulator.findTopic id) := by
  intro e e' h
  unfold Emulator.findTopic
  rw [h.nameOf]
  exact guarded _ (look fun s => .ok (s.topics.find? (e.nameOf .topic id))) h

theorem createTopic (id : String) (config : TopicConfig) :
    Parallel P (Emulator.createTopic id config) (Emulator.createTopic id config) := by
  intro e e' h
  unfold Emulator.createTopic
  rw [h.nameOf]
  exact guarded _ (served _) h

theorem findSubscription (id : String) :
    Parallel P (Emulator.findSubscription id) (Emulator.findSubscription id) := by
  intro e e' h
  unfold Emulator.findSubscription
  rw [h.nameOf]
  exact guarded _
    (look fun s => .ok ((s.queues.find? (e.nameOf .subscription id)).map Queue.config)) h

theorem createSubscription (id : String) (config : SubscriptionConfig) :
    Parallel P (Emulator.createSubscription id config) (Emulator.createSubscription id config) := by
  intro e e' h
  unfold Emulator.createSubscription
  rw [h.nameOf, h.nameOf]
  exact guarded _ (served _) h

theorem topicExists (id : String) :
    Parallel P (Emulator.topicExists id) (Emulator.topicExists id) := by
  intro e e' h
  rw [topicExists_eq, topicExists_eq, h.nameOf]
  exact guarded _ (look fun s => .ok (s.topics.find? (e.nameOf .topic id)).isSome) h

theorem topicConfig (id : String) :
    Parallel P (Emulator.topicConfig id) (Emulator.topicConfig id) := by
  intro e e' h
  rw [topicConfig_guarded, topicConfig_guarded, h.nameOf]
  exact guarded _ (look fun s =>
    orMissing .topic (e.nameOf .topic id) (s.topics.find? (e.nameOf .topic id))) h

theorem subscriptionExists (id : String) :
    Parallel P (Emulator.subscriptionExists id) (Emulator.subscriptionExists id) := by
  intro e e' h
  rw [subscriptionExists_eq, subscriptionExists_eq, h.nameOf]
  exact guarded _ (look fun s =>
    .ok ((s.queues.find? (e.nameOf .subscription id)).map Queue.config).isSome) h

theorem subscriptionConfig (id : String) :
    Parallel P (Emulator.subscriptionConfig id) (Emulator.subscriptionConfig id) := by
  intro e e' h
  rw [subscriptionConfig_guarded, subscriptionConfig_guarded, h.nameOf]
  exact guarded _ (look fun s => orMissing .subscription (e.nameOf .subscription id)
    ((s.queues.find? (e.nameOf .subscription id)).map Queue.config)) h

theorem schema (reference : String) :
    Parallel P (Emulator.schema reference) (Emulator.schema reference) := by
  intro e e' h
  unfold Emulator.schema
  rw [h.nameOf]
  refine guarded _ (fun e₁ e₁' h₁ => ?_) h
  rw [h₁.store]
  split
  · exact ⟨rfl, h₁⟩
  · exact ⟨rfl, h₁⟩

theorem createSchema (id : String) (config : SchemaConfig) :
    Parallel P (Emulator.createSchema id config) (Emulator.createSchema id config) := by
  intro e e' h
  unfold Emulator.createSchema
  rw [h.nameOf]
  refine guarded _ (fun e₁ e₁' h₁ => ?_) h
  rw [h₁.store]
  split
  · exact ⟨rfl, { h₁ with store := rfl }⟩
  · exact ⟨rfl, h₁⟩

theorem publish (topicId : String) (content : OutgoingMessage) :
    Parallel P (Emulator.publish topicId content) (Emulator.publish topicId content) := by
  intro e e' h
  unfold Emulator.publish
  rw [h.nameOf, h.store]
  exact guarded _ ((served _).map fun _ => Text.natural e.store.nextMessage)
    { h with store := rfl }

theorem submit (n : Nat) (content : OutgoingMessage) :
    Parallel P (Emulator.submit n content) (Emulator.submit n content) := by
  intro e e' h
  rw [submit_eq, submit_eq, h.handles]
  split
  · exact ⟨rfl, h⟩
  · rw [h.nameOf]
    split
    · exact ⟨rfl, h⟩
    · exact publish _ _ h

theorem pull (name : String) : Parallel P (Emulator.pull name) (Emulator.pull name) := by
  intro e e' h
  refine guarded (.pull name) (fun e₁ e₁' h₁ => ?_) h
  rw [h₁.store]
  split
  · exact ⟨rfl, h₁⟩
  · exact ⟨rfl, h₁⟩

theorem lease (name : String) : Parallel P (Emulator.lease name) (Emulator.lease name) := by
  intro e e' h
  unfold Emulator.lease
  rw [h.store, h.deliveries]
  split
  · exact ⟨rfl, h⟩
  · exact ⟨rfl, { h with store := rfl, deliveries := rfl }⟩

theorem openTopic (id : String) : Parallel P (Emulator.openTopic id) (Emulator.openTopic id) := by
  intro e e' h
  unfold Emulator.openTopic
  rw [h.handles]
  exact ⟨rfl, { h with handles := rfl }⟩

end Parallel

namespace Watched

variable (h : Watched P e e')
include h

/-- A reactor may be registered, as itself without observers and in its part with them. -/
theorem addReactor (r : Reactor σ) :
    Watched P (e.addReactor r) (e'.addReactor (r.within P.get P.set)) :=
  { h with reactors := h.reactors.append (.original r .nil) }

theorem configure (n : Nat) (settings : PublishSettings) (ordering : Bool) :
    Watched P (e.configure n settings ordering) (e'.configure n settings ordering) :=
  { h with handles := by rw [Emulator.configure, Emulator.configure, h.handles] }

theorem stop (n : Nat) : Watched P (e.stop n) (e'.stop n) := by
  unfold Emulator.stop
  rw [h.handles]
  split
  · exact h
  · split
    · exact h
    · rw [h.nameOf]
      refine { h with handles := rfl, world := ?_ }
      exact (P.get_note _ _).trans (congrArg (Log.note _) h.world)

theorem acknowledge (name ackId : String) :
    Watched P (e.acknowledge name ackId) (e'.acknowledge name ackId) :=
  (Parallel.guarded _ (.served _) h).2

theorem modifyAckDeadline (name ackId : String) (seconds : Int) :
    Watched P (e.modifyAckDeadline name ackId seconds) (e'.modifyAckDeadline name ackId seconds) :=
  (Parallel.guarded _ (.served _) h).2

theorem marked (n : Nat) : Watched P (e.marked n) (e'.marked n) :=
  { h with deliveries := congrArg (List.modify · n _) h.deliveries }

theorem ack (n : Nat) : Watched P (e.ack n) (e'.ack n) := by
  unfold Emulator.ack
  rw [once_eq, once_eq, h.unsettled?]
  split
  · exact h
  · exact (h.marked n).acknowledge _ _

theorem nack (n : Nat) : Watched P (e.nack n) (e'.nack n) := by
  unfold Emulator.nack
  rw [once_eq, once_eq, h.unsettled?]
  split
  · exact h
  · exact (h.marked n).modifyAckDeadline _ _ _

end Watched

end Emulator

/-! ### Operations side by side -/

/-- A call as it is made with observers: a reactor is registered in its part of the memory. -/
def Call.within (get : ω → σ) (set : σ → ω → ω) : Call σ → Call ω
  | addReactor r => addReactor (r.within get set)
  | findTopic id => findTopic id
  | createTopic id config => createTopic id config
  | findSubscription id => findSubscription id
  | createSubscription id config => createSubscription id config
  | schema reference => schema reference
  | createSchema id config => createSchema id config
  | openTopic id => openTopic id
  | configure handle settings ordering => configure handle settings ordering
  | publish topicId content => publish topicId content
  | submit handle content => submit handle content
  | stop handle => stop handle
  | pull name => pull name
  | lease name => lease name
  | acknowledge name ackId => acknowledge name ackId
  | modifyAckDeadline name ackId seconds => modifyAckDeadline name ackId seconds
  | ack delivery => ack delivery
  | nack delivery => nack delivery

/-- An operation as it is made with observers. -/
def Operation.within (get : ω → σ) (set : σ → ω → ω) : Operation σ → Operation ω
  | call c => call (c.within get set)
  | topicExists id => topicExists id
  | topicConfig id => topicConfig id
  | subscriptionExists id => subscriptionExists id
  | subscriptionConfig id => subscriptionConfig id

/-- What can be seen of an operation: what it gives back, the request that it makes, if any, and the
reactors that are shown the request, one after the other. -/
structure Exchange (σ : Type) where
  answer : Except BrokerError Reply
  request : Option Request
  shown : List (Reactor σ)

omit [Log.Journal σ] in
/-- What can be seen of an operation on an emulator. -/
def Operation.exchange (e : Emulator σ) (op : Operation σ) : Exchange σ where
  answer := op.answer e
  request := op.request? e
  shown := match op.request? e with
    | none => []
    | some request => Reactor.shown request (Reactor.chain request.method e.reactors) e.world

/-- The two exchanges differ only in that observers were shown the request, too. -/
structure Exchange.Watched (P : Part σ ω) (x : Exchange σ) (x' : Exchange ω) : Prop where
  answer : x'.answer = x.answer
  request : x'.request = x.request
  shown : Reactor.Watched P.get P.set x.shown x'.shown

section Operations

variable {e : Emulator σ} {e' : Emulator ω} (h : Emulator.Watched P e e')
include h

theorem Call.answer_within (c : Call σ) : (c.within P.get P.set).answer e' = c.answer e := by
  cases c with
  | findTopic id => exact congrArg (Except.map _) (Emulator.Parallel.findTopic id h).1
  | createTopic id config =>
    exact congrArg (Except.map _) (Emulator.Parallel.createTopic id config h).1
  | findSubscription id => exact congrArg (Except.map _) (Emulator.Parallel.findSubscription id h).1
  | createSubscription id config =>
    exact congrArg (Except.map _) (Emulator.Parallel.createSubscription id config h).1
  | schema reference => exact congrArg (Except.map _) (Emulator.Parallel.schema reference h).1
  | createSchema id config =>
    exact congrArg (Except.map _) (Emulator.Parallel.createSchema id config h).1
  | openTopic id =>
    exact congrArg (Except.ok <| Reply.handle ·) (Emulator.Parallel.openTopic id h).1
  | publish topicId content =>
    exact congrArg (Except.map _) (Emulator.Parallel.publish topicId content h).1
  | submit n content => exact congrArg (Except.map _) (Emulator.Parallel.submit n content h).1
  | pull name => exact congrArg (Except.map _) (Emulator.Parallel.pull name h).1
  | lease name => exact congrArg (Except.ok <| Reply.delivery ·) (Emulator.Parallel.lease name h).1
  | addReactor r => rfl
  | configure n settings ordering => rfl
  | stop n => rfl
  | acknowledge name ackId => rfl
  | modifyAckDeadline name ackId seconds => rfl
  | ack n => rfl
  | nack n => rfl

theorem Call.run_within (c : Call σ) :
    Emulator.Watched P (c.run e) ((c.within P.get P.set).run e') := by
  cases c with
  | addReactor r => exact h.addReactor r
  | findTopic id => exact (Emulator.Parallel.findTopic id h).2
  | createTopic id config => exact (Emulator.Parallel.createTopic id config h).2
  | findSubscription id => exact (Emulator.Parallel.findSubscription id h).2
  | createSubscription id config => exact (Emulator.Parallel.createSubscription id config h).2
  | schema reference => exact (Emulator.Parallel.schema reference h).2
  | createSchema id config => exact (Emulator.Parallel.createSchema id config h).2
  | openTopic id => exact (Emulator.Parallel.openTopic id h).2
  | configure n settings ordering => exact h.configure n settings ordering
  | publish topicId content => exact (Emulator.Parallel.publish topicId content h).2
  | submit n content => exact (Emulator.Parallel.submit n content h).2
  | stop n => exact h.stop n
  | pull name => exact (Emulator.Parallel.pull name h).2
  | lease name => exact (Emulator.Parallel.lease name h).2
  | acknowledge name ackId => exact h.acknowledge name ackId
  | modifyAckDeadline name ackId seconds => exact h.modifyAckDeadline name ackId seconds
  | ack n => exact h.ack n
  | nack n => exact h.nack n

theorem Call.request?_within (c : Call σ) : (c.within P.get P.set).request? e' = c.request? e := by
  cases c <;> simp only [within, request?, h.nameOf, h.publishRequest, h.handles, h.unsettled?]

/-- Observers change nothing that can be seen of an operation, and nothing that it does. -/
theorem Operation.exchange_within (op : Operation σ) :
    Exchange.Watched P (op.exchange e) ((op.within P.get P.set).exchange e') ∧
      Emulator.Watched P (op.run e) ((op.within P.get P.set).run e') := by
  have hrequest : (op.within P.get P.set).request? e' = op.request? e := by
    cases op with
    | call c => exact c.request?_within h
    | _ => simp only [within, request?, h.nameOf]
  have hdone : (op.within P.get P.set).answer e' = op.answer e ∧
      Emulator.Watched P (op.run e) ((op.within P.get P.set).run e') := by
    cases op with
    | call c => exact ⟨c.answer_within h, c.run_within h⟩
    | topicExists id => exact (Emulator.Parallel.topicExists id).map Reply.found h
    | topicConfig id =>
      exact (Emulator.Parallel.topicConfig id).map (fun config => Reply.topic (some config)) h
    | subscriptionExists id => exact (Emulator.Parallel.subscriptionExists id).map Reply.found h
    | subscriptionConfig id =>
      exact (Emulator.Parallel.subscriptionConfig id).map
        (fun config => Reply.subscription (some config)) h
  refine ⟨⟨hdone.1, hrequest, ?_⟩, hdone.2⟩
  simp only [exchange, hrequest]
  split
  · exact .nil
  · next request _ =>
    have hoffer := (h.reactors.chain request.method).offer P.get_set request e'.world
    rw [h.world] at hoffer
    exact hoffer.2.2

end Operations

/-! ### Runs side by side -/

/-- A step of two runs, without and with observers: an operation in both, a change of what the
reactors of both remember, or something that happens with observers only, who may be registered at
any time and use their memory as they like. -/
inductive SideStep (P : Part σ ω) where
  | operate (op : Operation σ)
  | change (f : σ → σ)
  | watch (o : Reactor ω) (observes : Reactor.Observes P.get o)
  | unseen (f : ω → ω) (keeps : ∀ w, P.get (f w) = P.get w)

namespace SideStep

/-- A step of the run without observers: what can be seen of it and what it does. -/
def plain (e : Emulator σ) : SideStep P → Option (Exchange σ) × Emulator σ
  | operate op => (some (op.exchange e), op.run e)
  | change f => (none, { e with world := f e.world })
  | watch _ _ | unseen _ _ => (none, e)

/-- A step of the run with observers. -/
def watched (e : Emulator ω) : SideStep P → Option (Exchange ω) × Emulator ω
  | operate op =>
    (some ((op.within P.get P.set).exchange e), (op.within P.get P.set).run e)
  | change f => (none, { e with world := P.set (f (P.get e.world)) e.world })
  | watch o _ => (none, e.addReactor o)
  | unseen f _ => (none, { e with world := f e.world })

/-- A run without observers: what can be seen of it and what it does. -/
def plainRun : List (SideStep P) → Emulator σ → List (Exchange σ) × Emulator σ
  | [], e => ([], e)
  | step :: rest, e =>
    let (seen, e) := step.plain e
    let (more, e) := plainRun rest e
    (seen.toList ++ more, e)

/-- A run with observers. -/
def watchedRun : List (SideStep P) → Emulator ω → List (Exchange ω) × Emulator ω
  | [], e => ([], e)
  | step :: rest, e =>
    let (seen, e) := step.watched e
    let (more, e) := watchedRun rest e
    (seen.toList ++ more, e)

/-- One step without and with observers. -/
theorem plain_watched {e : Emulator σ} {e' : Emulator ω} (h : Emulator.Watched P e e')
    (step : SideStep P) :
    List.Forall₂ (Exchange.Watched P) (step.plain e).1.toList (step.watched e').1.toList ∧
      Emulator.Watched P (step.plain e).2 (step.watched e').2 := by
  cases step with
  | operate op =>
    obtain ⟨hseen, hrun⟩ := op.exchange_within h
    exact ⟨.cons hseen .nil, hrun⟩
  | change f =>
    refine ⟨.nil, { h with world := ?_ }⟩
    exact (P.get_set _ _).trans (congrArg f h.world)
  | watch o observes =>
    refine ⟨.nil, { h with reactors := ?_ }⟩
    have happ := h.reactors.append (.observer observes .nil)
    rwa [List.append_nil] at happ
  | unseen f keeps => exact ⟨.nil, { h with world := (keeps _).trans h.world }⟩

end SideStep

/-- **Observers are transparent.** Let an emulator run with any reactors, and beside it the same
emulator with any observers put in between the reactors, where further observers may be registered
at any time. Then one by one the operations of the two runs give the same answer and make the same
request, which is shown to the same reactors in the same order, not counting the observers; and the
emulators are alike in the end, with the same store, the same deliveries and handles, and reactors
that remember the same. -/
theorem observers_transparent {σ ω : Type} [Log.Journal σ] [Log.Journal ω] {P : Part σ ω}
    {e : Emulator σ} {e' : Emulator ω} (h : Emulator.Watched P e e') (steps : List (SideStep P)) :
    List.Forall₂ (Exchange.Watched P) (SideStep.plainRun steps e).1
        (SideStep.watchedRun steps e').1 ∧
      Emulator.Watched P (SideStep.plainRun steps e).2 (SideStep.watchedRun steps e').2 := by
  induction steps generalizing e e' with
  | nil => exact ⟨.nil, h⟩
  | cons step rest ih =>
    obtain ⟨hseen, hnext⟩ := step.plain_watched h
    obtain ⟨hmore, hend⟩ := ih hnext
    exact ⟨List.rel_append hseen hmore, hend⟩

/-- What all reactors remember in the example: a log of its own for the original, and waiters and a
log for the observers. -/
abbrev LogsAndWaiters : Type := List Log.Entry × AckSupervisor × List Log.Entry

/-- A reactor that sees to every ack itself: those behind it are not shown the request. -/
def coveredAcks : Reactor (List Log.Entry) where
  methods := ["Acknowledge"]
  react request log := ({ handled := true }, Log.note (Reactor.requestEntry request) log)

/-- An observer that logs what it is shown. -/
def logObserver : Reactor LogsAndWaiters :=
  Reactor.log.within (·.2.2) fun log w => (w.1, w.2.1, log)

theorem logObserver_observes : Reactor.Observes Part.first.get logObserver :=
  .within Reactor.log_unhandled fun _ _ => rfl

/-- An observer that resolves waiters for acks. -/
def ackObserver : Reactor LogsAndWaiters :=
  AckSupervisor.reactor.within (·.2.1) fun a w => (w.1, a, w.2.2)

theorem ackObserver_observes : Reactor.Observes Part.first.get ackObserver :=
  .within Reactor.ackReactor_unhandled fun _ _ => rfl

/-- An emulator whose only reactor covers the acks. -/
def covered : Emulator (List Log.Entry) where
  project := "p"
  world := []
  reactors := [coveredAcks]

/-- The same with an observer in front and one behind. -/
def coveredAndWatched : Emulator LogsAndWaiters where
  project := "p"
  world := ([], { project := "p" }, [])
  reactors := [ackObserver, coveredAcks.within Part.first.get Part.first.set, logObserver]

/-- A message is published, leased and acked while a waiter waits for the ack, which the observer
behind does not see; with another observer, a publish fails. -/
def sideSteps : List (SideStep (Part.first : Part (List Log.Entry) LogsAndWaiters)) :=
  [.operate (.call (.createTopic "t" {})),
   .operate (.call (.createSubscription "s" { topic := "t" })),
   .operate (.call (.publish "t" { data := [1] })),
   .operate (.call (.lease "projects/p/subscriptions/s")),
   .unseen (fun w => (w.1, (AckSupervisor.startAck "s" w.2.1).2, w.2.2)) fun _ => rfl,
   .operate (.call (.ack 0)),
   .watch logObserver logObserver_observes,
   .operate (.call (.publish "u" { data := [2] }))]

theorem observers_transparent_ack :
    let plain := SideStep.plainRun sideSteps covered
    let watched := SideStep.watchedRun sideSteps coveredAndWatched
    Emulator.Watched Part.first covered coveredAndWatched ∧
      watched.1.length = plain.1.length ∧
      plain.2.store.outstandingCount "projects/p/subscriptions/s" = 0 ∧
      watched.2.store = plain.2.store ∧ watched.2.deliveries = plain.2.deliveries ∧
      watched.2.world.1 = plain.2.world ∧
      (watched.2.world.2.1.supervisor.waiter 0).outcome = some { data := ["1-1"] } ∧
      watched.2.world.2.2.map (·.fields.head?) =
        [some ("method", "\"Publish\""), some ("method", "\"Publish\""),
          some ("method", "\"Publish\"")] := by
  intro plain watched
  have hstart : Emulator.Watched Part.first covered coveredAndWatched :=
    { project := rfl, store := rfl, handles := rfl, deliveries := rfl, world := rfl
      reactors := .observer ackObserver_observes
        (.original coveredAcks (.observer logObserver_observes .nil)) }
  obtain ⟨hseen, hend⟩ := observers_transparent hstart sideSteps
  exact ⟨hstart, hseen.length_eq.symm, by decide +kernel, hend.store, hend.deliveries, hend.world,
    by decide +kernel, by decide +kernel⟩

end Messaging
