import Messaging.Proofs.Broker.Operations

/-! # Operations that fail

A request is rejected if the first reactor that handles it gives an error (`Emulator.Rejects`). An
operation whose request is rejected gives that error back; any other does what it would do without
reactors. Whenever an operation is rejected or fails, the store is as before, but for the number of
a message that was to be published (`failed_operations_change_nothing`).

`Emulator.Treated` is what becomes of one request. `Treated.of_guarded` shows it for every request
that is served with care, so an operation only has to be seen to be such a request
(`Operation.treated`). Operations that make no request do not fail, except that a handle may refuse
a message by itself (`Operation.unasked`). -/

namespace Messaging

/-- How many messages a request publishes. -/
def Request.messages : Request → Nat
  | .publish _ ids => ids.length
  | _ => 0

namespace Emulator

variable {σ α : Type} {e : Emulator σ} {request : Request}

/-- A request is rejected with an error: of the reactors that are registered for its method, in the
order of their registration, the first that handles it gives the error. The reactors remember
`world` then; those behind are not shown the request. -/
def Rejects (e : Emulator σ) (request : Request) (error : BrokerError) (world : σ) : Prop :=
  Reactor.Decides request (Reactor.chain request.method e.reactors) e.world (.fail error) world

/-- Nothing has changed but what the reactors remember, which deliveries have been acked or nacked
and the number of the next message. -/
def Untouched (e e' : Emulator σ) : Prop :=
  e' = { e with
    world := e'.world
    deliveries := e'.deliveries
    store := { e.store with nextMessage := e'.store.nextMessage } }

/-- What becomes of an operation that makes a request; `answer₀` and `e₀'` are what would become of
it without any reactors. -/
structure Treated (e : Emulator σ) (request : Request) (reports : Bool)
    (answer answer₀ : Except BrokerError Reply) (e' e₀' : Emulator σ) : Prop where
  world : e'.world =
    (Reactor.offer request (Reactor.chain request.method e.reactors) e.world).2
  rejected : ∀ error world, e.Rejects request error world →
    answer = if reports then .error error else .ok .done
  served : (∀ error world, ¬ e.Rejects request error world) →
    answer = answer₀ ∧ e'.store = e₀'.store
  failed : ((∃ error world, e.Rejects request error world) ∨ ∃ error, answer = .error error) →
    e.Untouched e'
  counted : e'.store.nextMessage = e.store.nextMessage + request.messages

/-- A request that is served with care is treated so, if it starts with its messages counted. -/
theorem Treated.of_guarded (e : Emulator σ) (request : Request)
    {serve : Emulator σ → Except BrokerError α × Emulator σ} (hserve : Careful serve)
    (reports : Bool) (report : Except BrokerError α → Except BrokerError Reply)
    (hreports : ∀ error, report (.error error) = if reports then .error error else .ok .done)
    (hok : ∀ a, ∃ reply, report (.ok a) = .ok reply) (deliveries : List Delivery) :
    let e₁ : Emulator σ := { e with
      deliveries
      store := { e.store with nextMessage := e.store.nextMessage + request.messages } }
    Treated e request reports (report (guarded request serve e₁).1)
      (report (guarded request serve e₁.withoutReactors).1)
      (guarded request serve e₁).2 (guarded request serve e₁.withoutReactors).2 := by
  intro e₁
  have hguarded₀ : guarded request serve e₁.withoutReactors = serve e₁.withoutReactors := rfl
  rcases hoffer : Reactor.offer request (Reactor.chain request.method e.reactors) e.world with
    ⟨_ | error, world⟩
  · -- No reactor rejects the request, so it is served.
    have hguarded : guarded request serve e₁ = serve { e₁ with world } := by
      unfold guarded
      rw [show Reactor.offer request (Reactor.chain request.method e₁.reactors) e₁.world =
        (none, world) from hoffer]
    have hnot : ∀ error world, ¬ e.Rejects request error world := by
      intro error world' h
      rw [Rejects, ← Reactor.offer_eq_some_iff, hoffer] at h
      cases h
    have hanswer : (serve { e₁ with world }).1 = (serve e₁.withoutReactors).1 :=
      hserve.answer rfl
    have hstore : (serve { e₁ with world }).2.store = (serve e₁.withoutReactors).2.store :=
      hserve.store rfl
    rw [hguarded, hguarded₀]
    refine ⟨?_, fun error world' h => absurd h (hnot error world'), fun _ => ?_, ?_, ?_⟩
    · rw [hserve.restocked]
      exact (congrArg Prod.snd hoffer).symm
    · rw [hanswer]
      exact ⟨rfl, hstore⟩
    · rintro (⟨error, world', h⟩ | ⟨error, h⟩)
      · exact absurd h (hnot error world')
      · cases hs : (serve { e₁ with world }).1 with
        | error error' =>
          rw [hserve.failed hs]
          rfl
        | ok a =>
          obtain ⟨reply, hreply⟩ := hok a
          rw [hs, hreply] at h
          cases h
    · exact hserve.nextMessage _
  · -- The request is rejected, and nothing is done but to count its messages.
    have hguarded : guarded request serve e₁ = (.error error, { e₁ with world }) := by
      unfold guarded
      rw [show Reactor.offer request (Reactor.chain request.method e₁.reactors) e₁.world =
        (some error, world) from hoffer]
    have hrejects : e.Rejects request error world := Reactor.offer_eq_some_iff.mp hoffer
    rw [hguarded]
    refine ⟨(congrArg Prod.snd hoffer).symm, fun error' world' h => ?_,
      fun h => absurd hrejects (h error world), fun _ => rfl, rfl⟩
    rw [Rejects, ← Reactor.offer_eq_some_iff, hoffer, Prod.mk.injEq, Option.some.injEq] at h
    rw [hreports, h.1]

section Requests

variable {serve : Emulator σ → Except BrokerError α × Emulator σ}

/-- A request that publishes nothing and whose answer is given back. -/
theorem Treated.of_told (hserve : Careful serve) (tell : α → Reply) (hm : request.messages = 0) :
    Treated e request true ((guarded request serve e).1.map tell)
      ((guarded request serve e.withoutReactors).1.map tell)
      (guarded request serve e).2 (guarded request serve e.withoutReactors).2 := by
  have h := Treated.of_guarded e request hserve true (Except.map tell) (fun _ => rfl)
    (fun a => ⟨tell a, rfl⟩) e.deliveries
  rwa [hm] at h

/-- A request that publishes nothing and whose answer is kept back. -/
theorem Treated.of_silent (hserve : Careful serve) (deliveries : List Delivery)
    (hm : request.messages = 0) :
    Treated e request false (.ok .done) (.ok .done)
      (guarded request serve { e with deliveries }).2
      (guarded request serve (withoutReactors { e with deliveries })).2 := by
  have h := Treated.of_guarded e request hserve false (fun _ => .ok .done) (fun _ => rfl)
    (fun _ => ⟨.done, rfl⟩) deliveries
  rwa [hm] at h

end Requests

/-- A handle that is stopped, or does not allow the ordering key of a message, refuses it by itself:
no reactor is shown anything, and nothing changes. -/
theorem submit_of_refuses {n : Nat} {h : TopicHandle} (hh : e.handles[n]? = some h)
    {content : OutgoingMessage} (hr : refuses h content = true) :
    e.submit n content =
      (.error (if h.stopped then stoppedError (e.nameOf .topic h.id) else orderingError), e) := by
  simp only [submit_eq, hh, hr, if_true]

theorem once_of_settled {n : Nat} (h : e.unsettled? n = none)
    (act : Delivery → Emulator σ → Emulator σ) : once n act e = e := by
  rw [once_eq, h]

theorem publish_treated (topicId : String) (content : OutgoingMessage) (e : Emulator σ) :
    Treated e (e.publishRequest topicId) true ((e.publish topicId content).1.map .message)
      ((e.withoutReactors.publish topicId content).1.map .message)
      (e.publish topicId content).2 (e.withoutReactors.publish topicId content).2 :=
  Treated.of_guarded e (e.publishRequest topicId)
    ((Careful.publish (e.nameOf .topic topicId) topicId (Text.natural e.store.nextMessage)
      content).map fun _ => Text.natural e.store.nextMessage)
    true (Except.map .message) (fun _ => rfl) (fun a => ⟨.message a, rfl⟩) e.deliveries

theorem submit_treated {n : Nat} {h : TopicHandle} (hh : e.handles[n]? = some h)
    {content : OutgoingMessage} (hr : refuses h content = false) :
    Treated e (e.publishRequest h.id) true ((e.submit n content).1.map .message)
      ((e.withoutReactors.submit n content).1.map .message)
      (e.submit n content).2 (e.withoutReactors.submit n content).2 := by
  have hsubmit : e.submit n content = e.publish h.id content := by
    simp only [submit_eq, hh, hr, Bool.false_eq_true, if_false]
  have hsubmit₀ : e.withoutReactors.submit n content =
      e.withoutReactors.publish h.id content := by
    have hh₀ : e.withoutReactors.handles[n]? = some h := hh
    simp only [submit_eq, hh₀, hr, Bool.false_eq_true, if_false]
  rw [hsubmit, hsubmit₀]
  exact publish_treated h.id content e

theorem acknowledge_treated (name ackId : String) (deliveries : List Delivery) (e : Emulator σ) :
    Treated e (.acknowledge name [ackId]) false (.ok .done) (.ok .done)
      (acknowledge name ackId { e with deliveries })
      (acknowledge name ackId (withoutReactors { e with deliveries })) :=
  .of_silent (Careful.settle name ackId) deliveries rfl

theorem modifyAckDeadline_treated (name ackId : String) (seconds : Int)
    (deliveries : List Delivery) (e : Emulator σ) :
    Treated e (.modifyAckDeadline name [ackId] seconds) false (.ok .done) (.ok .done)
      (modifyAckDeadline name ackId seconds { e with deliveries })
      (modifyAckDeadline name ackId seconds (withoutReactors { e with deliveries })) :=
  .of_silent (Careful.deadline name ackId seconds) deliveries rfl

end Emulator

open Emulator

namespace Call

variable {σ : Type} [Log.Journal σ] {e : Emulator σ} {request : Request}

/-- A call that makes a request is treated like any request. -/
theorem treated {c : Call σ} (h : c.request? e = some request) :
    Treated e request c.reports (c.answer e) (c.answer e.withoutReactors) (c.run e)
      (c.run e.withoutReactors) := by
  cases c with
  | addReactor r => cases h
  | openTopic id => cases h
  | configure handle settings ordering => cases h
  | stop handle => cases h
  | lease name => cases h
  | findTopic id =>
    cases h
    exact .of_told (.look fun s => .ok (s.topics.find? (e.nameOf .topic id))) .topic rfl
  | createTopic id config =>
    cases h
    exact .of_told (.createTopic (e.nameOf .topic id) config) (fun _ => .done) rfl
  | findSubscription id =>
    cases h
    exact .of_told (.look fun s =>
      .ok ((s.queues.find? (e.nameOf .subscription id)).map Queue.config)) .subscription rfl
  | createSubscription id config =>
    cases h
    exact .of_told (.createSubscription (e.nameOf .subscription id) (e.nameOf .topic config.topic)
      config) (fun _ => .done) rfl
  | schema reference =>
    cases h
    exact .of_told (.schema (e.nameOf .schema (schemaId reference))) .schema rfl
  | createSchema id config =>
    cases h
    exact .of_told (.createSchema (e.nameOf .schema id) config) .schema rfl
  | publish topicId content =>
    cases h
    exact publish_treated topicId content e
  | submit n content =>
    simp only [request?] at h
    split at h
    · cases h
    · next a ha =>
      split at h
      · cases h
      · next hr =>
        cases h
        exact submit_treated ha (by simpa using hr)
  | pull name =>
    cases h
    exact .of_told (.pull name) (fun _ => .done) rfl
  | acknowledge name ackId =>
    cases h
    exact acknowledge_treated name ackId e.deliveries e
  | modifyAckDeadline name ackId seconds =>
    cases h
    exact modifyAckDeadline_treated name ackId seconds e.deliveries e
  | ack n =>
    obtain ⟨d, hd, rfl⟩ := Option.map_eq_some_iff.mp h
    have hd₀ : e.withoutReactors.unsettled? n = some d := hd
    simp only [answer, run, Emulator.ack, once_eq, hd, hd₀, reports]
    exact acknowledge_treated d.subscription d.ackId (e.marked n).deliveries e
  | nack n =>
    obtain ⟨d, hd, rfl⟩ := Option.map_eq_some_iff.mp h
    have hd₀ : e.withoutReactors.unsettled? n = some d := hd
    simp only [answer, run, Emulator.nack, once_eq, hd, hd₀, reports]
    exact modifyAckDeadline_treated d.subscription d.ackId 0 (e.marked n).deliveries e

omit [Log.Journal σ] in
/-- A message that is not even shown to the reactors is refused by the handle, which may not be
open. -/
theorem submit_of_unasked {n : Nat} {content : OutgoingMessage}
    (h : (Call.submit n content).request? e = none) :
    ∃ error, e.submit n content = (.error error, e) ∧
      e.withoutReactors.submit n content = (.error error, e.withoutReactors) := by
  have hh₀ : e.withoutReactors.handles = e.handles := rfl
  simp only [request?] at h
  cases hh : e.handles[n]? with
  | none =>
    refine ⟨.ofText "the handle is not open", ?_, ?_⟩
    · simp only [submit_eq, hh]
    · simp only [submit_eq, hh₀, hh]
  | some a =>
    have hr : refuses a content = true := by
      by_contra hr
      simp [hh, hr] at h
    exact ⟨_, submit_of_refuses hh hr, submit_of_refuses (hh₀ ▸ hh) hr⟩

/-- A call that makes no request does what it would do without reactors. It counts no message, and
if it fails it does nothing. -/
theorem unasked {c : Call σ} (h : c.request? e = none) :
    c.answer e = c.answer e.withoutReactors ∧ (c.run e).store = (c.run e.withoutReactors).store ∧
      (c.run e).world = (c.run e.withoutReactors).world ∧
      (c.run e).store.nextMessage = e.store.nextMessage ∧
      ∀ error, c.answer e = .error error → c.run e = e := by
  cases c with
  | addReactor r => exact ⟨rfl, rfl, rfl, rfl, fun _ h => by cases h⟩
  | openTopic id => exact ⟨rfl, rfl, rfl, rfl, fun _ h => by cases h⟩
  | configure handle settings ordering => exact ⟨rfl, rfl, rfl, rfl, fun _ h => by cases h⟩
  | stop n =>
    refine ⟨rfl, ?_, ?_, ?_, fun _ h => by cases h⟩
    · exact (stop_store n e).trans (stop_store n e.withoutReactors).symm
    · change (e.stop n).world = (e.withoutReactors.stop n).world
      unfold Emulator.stop
      have hh : e.withoutReactors.handles = e.handles := rfl
      rw [hh]
      split
      · rfl
      · split <;> rfl
    · exact congrArg Store.nextMessage (stop_store n e)
  | lease name =>
    have hs : e.withoutReactors.store = e.store := rfl
    simp only [answer, run, Emulator.lease, hs]
    cases hl : e.store.lease name with
    | none => exact ⟨rfl, rfl, rfl, rfl, fun _ h => by cases h⟩
    | some r =>
      obtain ⟨⟨ackId, m⟩, s⟩ := r
      refine ⟨rfl, rfl, rfl, ?_, fun _ h => by cases h⟩
      unfold Store.lease at hl
      split at hl
      · cases hl
      · split at hl <;> cases hl
        rfl
  | submit n content =>
    obtain ⟨error, hs, hs₀⟩ : ∃ error, e.submit n content = (.error error, e) ∧
        e.withoutReactors.submit n content = (.error error, e.withoutReactors) :=
      submit_of_unasked h
    have hrun : (Call.submit n content).run e = e := congrArg Prod.snd hs
    have hrun₀ : (Call.submit n content).run e.withoutReactors = e.withoutReactors :=
      congrArg Prod.snd hs₀
    rw [hrun, hrun₀, answer, answer, hs, hs₀]
    exact ⟨rfl, rfl, rfl, rfl, fun _ _ => rfl⟩
  | ack n =>
    have hd : e.unsettled? n = none := Option.map_eq_none_iff.mp h
    have hd₀ : e.withoutReactors.unsettled? n = none := hd
    have hrun : (Call.ack n).run e = e := once_of_settled hd _
    have hrun₀ : (Call.ack n).run e.withoutReactors = e.withoutReactors := once_of_settled hd₀ _
    rw [hrun, hrun₀]
    exact ⟨rfl, rfl, rfl, rfl, fun _ h => by cases h⟩
  | nack n =>
    have hd : e.unsettled? n = none := Option.map_eq_none_iff.mp h
    have hd₀ : e.withoutReactors.unsettled? n = none := hd
    have hrun : (Call.nack n).run e = e := once_of_settled hd _
    have hrun₀ : (Call.nack n).run e.withoutReactors = e.withoutReactors := once_of_settled hd₀ _
    rw [hrun, hrun₀]
    exact ⟨rfl, rfl, rfl, rfl, fun _ h => by cases h⟩
  | findTopic id => cases h
  | createTopic id config => cases h
  | findSubscription id => cases h
  | createSubscription id config => cases h
  | schema reference => cases h
  | createSchema id config => cases h
  | publish topicId content => cases h
  | pull name => cases h
  | acknowledge name ackId => cases h
  | modifyAckDeadline name ackId seconds => cases h

end Call

namespace Operation

variable {σ : Type} [Log.Journal σ] {e : Emulator σ} {request : Request}

/-- An operation that makes a request is treated like any request. -/
theorem treated {op : Operation σ} (h : op.request? e = some request) :
    Treated e request op.reports (op.answer e) (op.answer e.withoutReactors) (op.run e)
      (op.run e.withoutReactors) := by
  cases op with
  | call c => exact Call.treated h
  | topicExists id =>
    cases h
    simp only [answer, run, topicExists_eq]
    exact .of_told (.look fun s => .ok (s.topics.find? (e.nameOf .topic id)).isSome) .found rfl
  | topicConfig id =>
    cases h
    simp only [answer, run, topicConfig_guarded]
    exact .of_told (.look fun s =>
        orMissing .topic (e.nameOf .topic id) (s.topics.find? (e.nameOf .topic id)))
      (fun config => .topic (some config)) rfl
  | subscriptionExists id =>
    cases h
    simp only [answer, run, subscriptionExists_eq]
    exact .of_told (.look fun s => .ok ((s.queues.find? (e.nameOf .subscription id)).map
      Queue.config).isSome) .found rfl
  | subscriptionConfig id =>
    cases h
    simp only [answer, run, subscriptionConfig_guarded]
    exact .of_told (.look fun s => orMissing .subscription (e.nameOf .subscription id)
        ((s.queues.find? (e.nameOf .subscription id)).map Queue.config))
      (fun config => .subscription (some config)) rfl

/-- An operation that makes no request does what it would do without reactors. It counts no message,
and if it fails it does nothing. -/
theorem unasked {op : Operation σ} (h : op.request? e = none) :
    op.answer e = op.answer e.withoutReactors ∧
      (op.run e).store = (op.run e.withoutReactors).store ∧
      (op.run e).world = (op.run e.withoutReactors).world ∧
      (op.run e).store.nextMessage = e.store.nextMessage ∧
      ∀ error, op.answer e = .error error → op.run e = e := by
  cases op with
  | call c => exact Call.unasked h
  | topicExists id => cases h
  | topicConfig id => cases h
  | subscriptionExists id => cases h
  | subscriptionConfig id => cases h

end Operation

/-- **Operations that fail change nothing.** Let any reactors be registered with the emulator.

* An operation that makes a request shows it to the reactors that are registered for the method, in
  the order of their registration, until one handles it. If that one gives an error, the operation
  is rejected with this error; otherwise it does what it does without any reactors, as does an
  operation that makes no request.
* If it is rejected or fails, the topics, the subscriptions with their messages, the schemas and the
  number of the next lease are as before.
* A message that is published uses up its id as soon as the request is made, and nothing else does:
  a message that the handle refuses is not shown to the reactors and uses up none. -/
theorem failed_operations_change_nothing {σ : Type} [Log.Journal σ] (e : Emulator σ)
    (op : Operation σ) :
    (∀ request, op.request? e = some request →
      (∀ reaction world, Reactor.Decides request (Reactor.chain request.method e.reactors) e.world
        reaction world → (op.run e).world = world) ∧
      (∀ world, Reactor.Passes request (Reactor.chain request.method e.reactors) e.world world →
        (op.run e).world = world) ∧
      (∀ error world, e.Rejects request error world →
        op.answer e = if op.reports then .error error else .ok .done) ∧
      ((∀ error world, ¬ e.Rejects request error world) →
        op.answer e = op.answer e.withoutReactors ∧
          (op.run e).store = (op.run e.withoutReactors).store)) ∧
    (op.request? e = none →
      op.answer e = op.answer e.withoutReactors ∧
        (op.run e).store = (op.run e.withoutReactors).store ∧
        (op.run e).world = (op.run e.withoutReactors).world) ∧
    (((∃ request ∈ op.request? e, ∃ error world, e.Rejects request error world) ∨
        ∃ error, op.answer e = .error error) →
      op.run e = { e with
        world := (op.run e).world
        deliveries := (op.run e).deliveries
        store := { e.store with nextMessage := (op.run e).store.nextMessage } }) ∧
    (op.run e).store.nextMessage =
      e.store.nextMessage + ((op.request? e).map Request.messages).getD 0 ∧
    ∀ n content h, op = .call (.submit n content) → e.handles[n]? = some h →
      h.stopped = true ∨ content.orderingKey ≠ "" ∧ h.ordering = false →
      op.request? e = none ∧ op.run e = e ∧
        op.answer e =
          .error (if h.stopped then stoppedError (e.nameOf .topic h.id) else orderingError) := by
  refine ⟨fun request hrequest => ?_, fun hnone => ?_, ?_, ?_, ?_⟩
  · have ht := Operation.treated hrequest
    refine ⟨fun reaction world hd => ?_, fun world hp => ?_, ht.rejected, ht.served⟩
    · rw [ht.world, hd.offer]
    · rw [ht.world, hp.offer]
  · obtain ⟨hanswer, hstore, hworld, -, -⟩ := Operation.unasked hnone
    exact ⟨hanswer, hstore, hworld⟩
  · intro hfails
    cases hrequest : op.request? e with
    | some request =>
      refine (Operation.treated hrequest).failed (hfails.imp_left ?_)
      rintro ⟨request', hmem, hrejects⟩
      rw [hrequest, Option.mem_def, Option.some.injEq] at hmem
      exact hmem ▸ hrejects
    | none =>
      obtain ⟨-, -, -, -, hsame⟩ := Operation.unasked hrequest
      rcases hfails with ⟨request, hmem, -⟩ | ⟨error, herror⟩
      · rw [hrequest] at hmem
        cases hmem
      · rw [hsame error herror]
  · cases hrequest : op.request? e with
    | some request => exact (Operation.treated hrequest).counted
    | none =>
      obtain ⟨-, -, -, hnext, -⟩ := Operation.unasked hrequest
      exact hnext
  · rintro n content h rfl hh hr
    have hrefuses : refuses h content = true := by simpa [refuses] using hr
    have hsubmit := submit_of_refuses hh hrefuses
    refine ⟨?_, ?_, ?_⟩
    · simp only [Operation.request?, Call.request?, hh, hrefuses, if_true]
    · simp only [Operation.run, Call.run, hsubmit]
    · simp only [Operation.answer, Call.answer, hsubmit, Except.map]

/-- A reactor that fails every publish. -/
def failingPublishes : Reactor (List Log.Entry) where
  methods := ["Publish"]
  react _ s := (.fail ⟨.unavailable, "injected"⟩, s)

/-- An emulator with a topic, whose publishes are logged, failed and would be logged again. -/
def refusedTopic : Emulator (List Log.Entry) :=
  Call.run { project := "p", world := [], reactors := [.log, failingPublishes, .log] }
    (.createTopic "t" {})

/-- A publish that is failed by the second of three reactors: the third does not see it, and only
the id of the message is used up. -/
theorem failed_operations_change_nothing_publish :
    refusedTopic.Rejects (refusedTopic.publishRequest "t") ⟨.unavailable, "injected"⟩
      [Reactor.requestEntry (.publish "projects/p/topics/t" ["1"])] ∧
    (refusedTopic.publish "t" { data := [1] }).1 = .error ⟨.unavailable, "injected"⟩ ∧
    (refusedTopic.publish "t" { data := [1] }).2.world =
      [Reactor.requestEntry (.publish "projects/p/topics/t" ["1"])] ∧
    (refusedTopic.publish "t" { data := [1] }).2.store =
      { refusedTopic.store with nextMessage := 2 } := by
  have hrejects : refusedTopic.Rejects (refusedTopic.publishRequest "t")
      ⟨.unavailable, "injected"⟩
      [Reactor.requestEntry (.publish "projects/p/topics/t" ["1"])] :=
    ⟨[.log], failingPublishes, [.log], _, rfl, .cons rfl (.nil _), rfl, rfl⟩
  obtain ⟨hrequest, -, hkept, hcounted, -⟩ :=
    failed_operations_change_nothing refusedTopic (.call (.publish "t" { data := [1] }))
  obtain ⟨hworld, -, hanswer, -⟩ := hrequest (refusedTopic.publishRequest "t") rfl
  refine ⟨hrejects, ?_, hworld _ _ hrejects, ?_⟩
  · have h := hanswer _ _ hrejects
    simp only [Operation.answer, Call.answer, Operation.reports, Call.reports, if_true] at h
    cases hp : (refusedTopic.publish "t" { data := [1] }).1 with
    | error error =>
      rw [hp] at h
      cases h
      rfl
    | ok id =>
      rw [hp] at h
      cases h
  · have h := congrArg Emulator.store (hkept (.inl ⟨_, rfl, _, _, hrejects⟩))
    rw [hcounted] at h
    exact h

end Messaging
