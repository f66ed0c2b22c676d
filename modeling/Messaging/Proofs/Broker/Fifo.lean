import Messaging.Proofs.Broker.Deliveries
import Messaging.Proofs.Broker.Retained

/-! # A subscription is a queue of its own

`Fifo` is a queue with nothing around it: it knows messages by what they are and deliveries by the
order in which it hands them out. `Call.operation` says which operation on the queue of one
subscription a call of the emulator stands for, going by the call, its answer and the deliveries
that have been handed out; a call that has nothing to do with the subscription stands for none.

As long as no reactor fails a request to settle a delivery, the deliveries that are leased from a
subscription are those of the queue on which the operations are done one after the other
(`subscription_fifo`), whatever else is done with the emulator in between. The queue of the
emulator has the same content at all times: `Follows` is that relation, with ack ids in the
emulator for numbers in the queue, `Tracks` adds what the deliveries of the emulator have to be
like, and `Tracks.step` is the simulation of one call. -/

namespace Messaging

/-! ### The queue -/

/-- A queue that redelivers what is returned. -/
structure Fifo where
  waiting : List StoredMessage := []
  /-- Everything that has been handed out, in order. -/
  leased : List StoredMessage := []
  /-- What has been handed out and not settled, by the number in that order. -/
  outstanding : List (Nat × StoredMessage) := []
  deriving DecidableEq

namespace Fifo

/-- What is done to a queue. -/
inductive Operation where
  | publish (id : String) (content : OutgoingMessage)
  | lease
  | ack (delivery : Nat)
  | nack (delivery : Nat)
  deriving DecidableEq

/-- The queue after an operation. -/
def apply (f : Fifo) : Operation → Fifo
  | .publish id content => { f with waiting := f.waiting ++ [{ id, content, attempt := 1 }] }
  | .lease =>
    match f.waiting with
    | [] => f
    | m :: rest =>
      { waiting := rest, leased := f.leased ++ [m]
        outstanding := f.outstanding ++ [(f.leased.length, m)] }
  | .ack n => { f with outstanding := f.outstanding.filter fun d => d.1 ≠ n }
  | .nack n =>
    match f.outstanding.lookup n with
    | none => f
    | some m =>
      { f with
        waiting := f.waiting ++ [{ m with attempt := m.attempt + 1 }]
        outstanding := f.outstanding.filter fun d => d.1 ≠ n }

/-- The queue after operations, one after the other. -/
def run (f : Fifo) (operations : List Operation) : Fifo := operations.foldl apply f

end Fifo

/-! ### What a call means for one subscription -/

namespace Call

variable {σ : Type}

/-- The delivery that a call hands out of a subscription. -/
def delivery? (S : String) (e : Emulator σ) : Call σ → Option Delivery
  | lease name =>
    if name = S then (e.lease name).1.bind fun n => (e.lease name).2.deliveries[n]? else none
  | _ => none

/-- The number of a delivery by its ack id, among those that have been handed out. -/
def numberOf? (handed : List Delivery) (ackId : String) : Option Nat :=
  if ackId ∈ handed.map (·.ackId) then some ((handed.map (·.ackId)).idxOf ackId) else none

/-- The operation on the queue of a subscription to a topic that a call stands for, when these
deliveries have been handed out of it. -/
def operation (S topic : String) (handed : List Delivery) (e : Emulator σ) :
    Call σ → Option Fifo.Operation
  | publish topicId content =>
    match (e.publish topicId content).1 with
    | .ok id => if topicId = topic then some (.publish id content) else none
    | .error _ => none
  | submit handle content =>
    match e.handles[handle]?, (e.submit handle content).1 with
    | some h, .ok id => if h.id = topic then some (.publish id content) else none
    | _, _ => none
  | lease name => if name = S then some .lease else none
  | acknowledge name ackId => if name = S then (numberOf? handed ackId).map .ack else none
  | modifyAckDeadline name ackId seconds =>
    if name = S ∧ seconds = 0 then (numberOf? handed ackId).map .nack else none
  | ack n =>
    (e.deliveries[n]?).bind fun d =>
      if d.subscription = S then (numberOf? handed d.ackId).map .ack else none
  | nack n =>
    (e.deliveries[n]?).bind fun d =>
      if d.subscription = S then (numberOf? handed d.ackId).map .nack else none
  | _ => none

variable [Log.Journal σ]

/-- The deliveries that calls hand out of a subscription, in order. -/
def handedOut (S : String) : List (Call σ) → Emulator σ → List Delivery
  | [], _ => []
  | c :: rest, e => (c.delivery? S e).toList ++ handedOut S rest (c.run e)

/-- The operations on the queue of a subscription that calls stand for, after deliveries that have
been handed out. -/
def operations (S topic : String) : List (Call σ) → Emulator σ → List Delivery →
    List Fifo.Operation
  | [], _, _ => []
  | c :: rest, e, handed =>
    (c.operation S topic handed e).toList ++
      operations S topic rest (c.run e) (handed ++ (c.delivery? S e).toList)

/-- No reactor fails a request of these calls to settle a delivery. -/
def AllSettle : List (Call σ) → Emulator σ → Prop
  | [], _ => True
  | c :: rest, e => c.Settles e ∧ AllSettle rest (c.run e)

instance decidableAllSettle : ∀ (calls : List (Call σ)) (e : Emulator σ),
    Decidable (AllSettle calls e)
  | [], _ => isTrue trivial
  | c :: rest, e =>
    have := decidableAllSettle rest (c.run e)
    inferInstanceAs (Decidable (c.Settles e ∧ AllSettle rest (c.run e)))

theorem AllSettle.of_append {calls more : List (Call σ)} {e : Emulator σ}
    (h : AllSettle (calls ++ more) e) : AllSettle calls e ∧ AllSettle more (runs calls e) := by
  induction calls generalizing e with
  | nil => exact ⟨trivial, h⟩
  | cons c rest ih =>
    obtain ⟨hrest, hmore⟩ := ih h.2
    exact ⟨⟨h.1, hrest⟩, hmore⟩

end Call

namespace AckKind

/-- What an ack or nack does to the delivery of a number. -/
def operation : AckKind → Nat → Fifo.Operation
  | ack => .ack
  | nack => .nack

theorem operation_call {σ : Type} (k : AckKind) (n : Nat) (S topic : String)
    (handed : List Delivery) (e : Emulator σ) :
    (k.call n).operation S topic handed e =
      (e.deliveries[n]?).bind fun d =>
        if d.subscription = S then (Call.numberOf? handed d.ackId).map k.operation else none := by
  cases k <;> rfl

theorem act_config (k : AckKind) (ackId : String) (q : Queue) :
    (k.act ackId q).config = q.config := by
  cases k with
  | ack => rfl
  | nack => exact Queue.requeue_config ackId q

end AckKind

/-! ### The same content -/

theorem lookup_map_key {α β γ : Type} [BEq α] [LawfulBEq α] [BEq β] [LawfulBEq β] {f : α → β}
    {k : α} {l : List (α × γ)} (h : ∀ e ∈ l, f e.1 = f k → e.1 = k) :
    (l.map fun e => (f e.1, e.2)).lookup (f k) = l.lookup k := by
  induction l with
  | nil => rfl
  | cons e rest ih =>
    obtain ⟨a, v⟩ := e
    rw [List.map_cons, List.lookup_cons, List.lookup_cons,
      ih fun e he => h e (List.mem_cons_of_mem _ he)]
    by_cases ha : a = k
    · simp [ha]
    · have hf : f a ≠ f k := fun hf => ha (h _ List.mem_cons_self hf)
      rw [beq_eq_false_iff_ne.mpr (Ne.symm ha), beq_eq_false_iff_ne.mpr (Ne.symm hf)]

/-- The queue of a subscription has the content of a reference queue, when these deliveries have
been handed out of it. -/
structure Fifo.Follows (f : Fifo) (handed : List Delivery) (q : Queue) : Prop where
  waiting : f.waiting = q.pending
  leased : f.leased = handed.map (·.message)
  outstanding : f.outstanding =
    q.outstanding.map fun l => ((handed.map (·.ackId)).idxOf l.1, l.2)
  known : ∀ l ∈ q.outstanding, l.1 ∈ handed.map (·.ackId)

namespace Fifo.Follows

variable {f : Fifo} {handed : List Delivery} {q : Queue} {ackId : String} {n : Nat}

theorem empty (config : SubscriptionConfig) : Follows {} [] { config } where
  waiting := rfl
  leased := rfl
  outstanding := rfl
  known _ h := nomatch h

theorem push (h : f.Follows handed q) (id : String) (content : OutgoingMessage) :
    (f.apply (.publish id content)).Follows handed (q.push { id, content }) where
  waiting := by simp only [apply, Queue.push, h.waiting]
  leased := h.leased
  outstanding := h.outstanding
  known := h.known

/-- The delivery that is handed out is the one in front, if its ack id is new. -/
theorem lease (h : f.Follows handed q) {d : Delivery} {rest : List StoredMessage}
    (hp : q.pending = d.message :: rest) (hnew : d.ackId ∉ handed.map (·.ackId)) :
    (f.apply .lease).Follows (handed ++ [d])
      { q with pending := q.pending.tail, outstanding := q.outstanding ++ [(d.ackId, d.message)] } := by
  have happly : f.apply .lease =
      { waiting := rest, leased := f.leased ++ [d.message],
        outstanding := f.outstanding ++ [(f.leased.length, d.message)] } := by
    simp only [apply, h.waiting, hp]
  rw [happly]
  refine ⟨by rw [hp, List.tail_cons], by simp [h.leased], ?_, fun l hl => ?_⟩
  · have hidx : ((handed ++ [d]).map (·.ackId)).idxOf d.ackId = f.leased.length := by
      rw [List.map_append, List.idxOf_append_of_notMem hnew, h.leased]
      simp
    have hold : f.outstanding = q.outstanding.map fun l =>
        (((handed ++ [d]).map (·.ackId)).idxOf l.1, l.2) := by
      rw [h.outstanding]
      refine List.map_congr_left fun l hl => ?_
      rw [List.map_append, List.idxOf_append_of_mem (h.known l hl)]
    rw [List.map_append, List.map_cons, List.map_nil, hidx, ← hold]
  · rw [List.map_append, List.mem_append]
    rcases List.mem_append.mp hl with hl | hl
    · exact .inl (h.known l hl)
    · rw [List.mem_singleton.mp hl]
      simp

/-- Nothing is handed out when nothing waits. -/
theorem lease_nil (h : f.Follows handed q) (hp : q.pending = []) : f.apply .lease = f := by
  simp only [apply, h.waiting, hp]

/-- An ack id that has not been handed out is not outstanding. -/
theorem lookup_eq_none (h : f.Follows handed q) (hk : ackId ∉ handed.map (·.ackId)) :
    q.outstanding.lookup ackId = none := by
  rw [List.lookup_eq_none_iff]
  intro l hl
  have hne : ackId ≠ l.1 := fun heq => hk (heq ▸ h.known l hl)
  simpa using hne

/-- Two ack ids that have been handed out have two numbers. -/
theorem eq_of_idxOf (h : f.Follows handed q) {l : String × StoredMessage} (hl : l ∈ q.outstanding)
    (heq : (handed.map (·.ackId)).idxOf l.1 = (handed.map (·.ackId)).idxOf ackId) : l.1 = ackId :=
  (List.idxOf_inj (h.known l hl)).mp heq

theorem filter_outstanding (h : f.Follows handed q) (ackId : String) :
    (f.outstanding.filter fun d => d.1 ≠ (handed.map (·.ackId)).idxOf ackId) =
      (q.settle ackId).outstanding.map fun l => ((handed.map (·.ackId)).idxOf l.1, l.2) := by
  rw [h.outstanding, List.filter_map]
  congr 1
  refine List.filter_congr fun l hl => ?_
  have hiff : (handed.map (·.ackId)).idxOf l.1 = (handed.map (·.ackId)).idxOf ackId ↔
      l.1 = ackId :=
    ⟨h.eq_of_idxOf hl, fun heq => by rw [heq]⟩
  simp only [Function.comp_apply, ne_eq, hiff]

theorem lookup_outstanding (h : f.Follows handed q) (ackId : String) :
    f.outstanding.lookup ((handed.map (·.ackId)).idxOf ackId) = q.outstanding.lookup ackId := by
  rw [h.outstanding]
  exact lookup_map_key (f := fun a => (handed.map (·.ackId)).idxOf a) fun l hl heq =>
    h.eq_of_idxOf hl heq

theorem settle (h : f.Follows handed q) (ackId : String) :
    (f.apply (.ack ((handed.map (·.ackId)).idxOf ackId))).Follows handed (q.settle ackId) where
  waiting := h.waiting
  leased := h.leased
  outstanding := h.filter_outstanding ackId
  known l hl := h.known l (List.mem_of_mem_filter hl)

theorem requeue (h : f.Follows handed q) (ackId : String) :
    (f.apply (.nack ((handed.map (·.ackId)).idxOf ackId))).Follows handed (q.requeue ackId) := by
  have hlookup := h.lookup_outstanding ackId
  simp only [apply, Queue.requeue, hlookup]
  cases q.outstanding.lookup ackId with
  | none => exact h
  | some m =>
    exact ⟨by simp only [Queue.push, Queue.settle, h.waiting], h.leased,
      h.filter_outstanding ackId, fun l hl => h.known l (List.mem_of_mem_filter hl)⟩

theorem act (k : AckKind) (h : f.Follows handed q) (ackId : String) :
    (f.apply (k.operation ((handed.map (·.ackId)).idxOf ackId))).Follows handed
      (k.act ackId q) := by
  cases k with
  | ack => exact h.settle ackId
  | nack => exact h.requeue ackId

end Fifo.Follows

/-! ### The simulation -/

/-- The queue after the operation that a call stands for, if it stands for one. -/
def Fifo.after (f : Fifo) (operation : Option Operation) : Fifo := f.run operation.toList

/-- An event does to the queue of a subscription what the operation does to a queue that it follows;
without an operation it does nothing. -/
def Fifo.Simulates (f : Fifo) (handed : List Delivery) (operation : Option Operation)
    (q q' : Queue) : Prop :=
  q'.config = q.config ∧ (f.after operation).Follows handed q' ∧ (operation = none → q' = q)

namespace Fifo.Simulates

variable {f : Fifo} {handed : List Delivery} {q : Queue}

theorem quiet (h : f.Follows handed q) : f.Simulates handed none q q := ⟨rfl, h, fun _ => rfl⟩

theorem publish (h : f.Follows handed q) (topic id : String) (content : OutgoingMessage) :
    f.Simulates handed (if topic = q.config.topic then some (.publish id content) else none) q
      (if q.config.topic = topic then q.push { id, content } else q) := by
  by_cases ht : topic = q.config.topic
  · rw [if_pos ht, if_pos ht.symm]
    exact ⟨rfl, h.push id content, fun hnone => by cases hnone⟩
  · rw [if_neg ht, if_neg (Ne.symm ht)]
    exact quiet h

theorem act (k : AckKind) (h : f.Follows handed q) (ackId : String) :
    f.Simulates handed ((Call.numberOf? handed ackId).map k.operation) q (k.act ackId q) := by
  unfold Call.numberOf?
  by_cases hk : ackId ∈ handed.map (·.ackId)
  · rw [if_pos hk]
    exact ⟨k.act_config ackId q, h.act k ackId, fun hnone => by cases hnone⟩
  · rw [if_neg hk, Queue.act_eq_self k (h.lookup_eq_none hk)]
    exact quiet h

end Fifo.Simulates

/-! ### What the calls do -/

/-- The queue of a subscription of the emulator follows a queue, and the deliveries that have been
handed out have ack ids that have been used up; those that have been settled are not outstanding. -/
structure Fifo.Tracks {σ : Type} (f : Fifo) (handed : List Delivery) (S : String)
    (e : Emulator σ) (q : Queue) : Prop where
  queue : e.store.queues.find? S = some q
  follows : f.Follows handed q
  handed : ∀ d ∈ handed, d.Numbered e.store.nextLease
  deliveries : ∀ d ∈ e.deliveries, d.Numbered e.store.nextLease
  flagged : e.Flagged S

namespace Fifo.Tracks

variable {σ : Type} [Log.Journal σ] {f : Fifo} {handed : List Delivery} {S : String}
  {e : Emulator σ} {q : Queue}

omit [Log.Journal σ] in
/-- The ack id of the next lease is new. -/
theorem notMem_handed (h : f.Tracks handed S e q) (id : String) :
    Store.ackId id e.store.nextLease ∉ handed.map (·.ackId) := by
  intro hmem
  obtain ⟨d, hd, hack⟩ := List.mem_map.mp hmem
  obtain ⟨n, hn, hd'⟩ := h.handed d hd
  have := (ackId_inj (hd'.symm.trans hack)).2
  omega

/-- A call that acks or nacks a delivery does the same to the queue whether the delivery has been
settled before or not: in that case it is not outstanding. -/
theorem find?_once (h : f.Tracks handed S e q) {k : AckKind} {n : Nat}
    (hs : (k.call n).Settles e) {d : Delivery} (hd : e.deliveries[n]? = some d) :
    ((k.call n).run e).store.queues.find? S =
      some (if d.subscription = S then k.act d.ackId q else q) := by
  rw [(Call.change e (k.call n)).queue, h.queue]
  cases hsettled : d.settled with
  | false =>
    have hu := Emulator.unsettled?_eq_some.mpr ⟨hd, hsettled⟩
    rw [AckKind.event_call hu, if_pos (hs.accepts hu), AckKind.onQueue_event]
    simp only [Option.map_some, eq_comm (a := S)]
    split <;> rfl
  | true =>
    rw [AckKind.event_call_of_settled (by simp [Emulator.unsettled?, hd, hsettled, Option.filter])]
    change some q = _
    split
    · next hS =>
      have hstale := h.flagged d (List.mem_of_getElem? hd) hS hsettled
      rw [h.queue] at hstale
      rw [Queue.act_eq_self k hstale]
    · rfl

/-- A call that acks or nacks a delivery does to the queue what the operation that it stands for
does. -/
theorem simulates_once (h : f.Tracks handed S e q) {k : AckKind} {n : Nat}
    (hs : (k.call n).Settles e) (topic : String) :
    ∃ q', ((k.call n).run e).store.queues.find? S = some q' ∧
      f.Simulates handed ((k.call n).operation S topic handed e) q q' := by
  rw [k.operation_call]
  cases hd : e.deliveries[n]? with
  | none =>
    refine ⟨q, ?_, .quiet h.follows⟩
    rw [(Call.change e (k.call n)).queue, h.queue,
      AckKind.event_call_of_settled (by simp [Emulator.unsettled?, hd])]
    rfl
  | some d =>
    refine ⟨_, h.find?_once hs hd, ?_⟩
    rw [Option.bind_some]
    split
    · exact .act k h.follows d.ackId
    · exact .quiet h.follows

/-- A call other than a lease of the subscription does to its queue what the operation that it
stands for does. -/
theorem simulates (h : f.Tracks handed S e q) {c : Call σ} (hs : c.Settles e)
    (hc : c ≠ .lease S) :
    ∃ q', (c.run e).store.queues.find? S = some q' ∧
      f.Simulates handed (c.operation S q.config.topic handed e) q q' := by
  have hchange := Call.change e c
  have hqueue := hchange.queue S
  rw [h.queue] at hqueue
  have hquiet : f.Simulates handed none q q := .quiet h.follows
  cases c with
  | createSubscription id config =>
    refine ⟨q, ?_, hquiet⟩
    have hallowed := hchange.allowed
    rw [hqueue]
    simp only [Call.event] at hallowed ⊢
    split at hallowed
    · -- A subscription that exists is not created.
      simp only [Event.onQueue]
      rw [if_neg fun hS => ?_]
      rw [← hS] at hallowed
      exact absurd (h.queue.symm.trans hallowed) (by simp)
    · rfl
  | publish topicId content =>
    simp only [Call.event, Emulator.publishEvent, Call.operation] at hqueue ⊢
    cases hr : (e.publish topicId content).1 with
    | error error =>
      rw [hr] at hqueue
      exact ⟨q, hqueue, hquiet⟩
    | ok id =>
      rw [hr] at hqueue
      exact ⟨_, hqueue, .publish h.follows topicId id content⟩
  | submit handle content =>
    simp only [Call.event, Call.operation] at hqueue ⊢
    cases ha : e.handles[handle]? with
    | none =>
      rw [ha] at hqueue
      exact ⟨q, hqueue, hquiet⟩
    | some a =>
      rw [ha] at hqueue
      cases hr : (e.submit handle content).1 with
      | error error =>
        rw [hr] at hqueue
        exact ⟨q, hqueue, hquiet⟩
      | ok id =>
        rw [hr] at hqueue
        exact ⟨_, hqueue, .publish h.follows a.id id content⟩
  | lease name =>
    have hname : name ≠ S := fun hname => hc (hname ▸ rfl)
    refine ⟨q, ?_, by simpa only [Call.operation, if_neg hname] using hquiet⟩
    rw [hqueue]
    simp only [Call.event]
    split
    · simp only [Event.onQueue, if_neg (Ne.symm hname)]
    · rfl
  | acknowledge name ackId =>
    have ha := hs _ rfl
    simp only [Call.event, Emulator.ackEvent, ha, if_pos, Event.onQueue, Option.map_some] at hqueue
    simp only [Call.operation]
    by_cases hS : name = S
    · rw [if_pos hS.symm] at hqueue
      rw [if_pos hS]
      exact ⟨_, hqueue, .act .ack h.follows ackId⟩
    · rw [if_neg (Ne.symm hS)] at hqueue
      rw [if_neg hS]
      exact ⟨q, hqueue, hquiet⟩
  | modifyAckDeadline name ackId seconds =>
    have ha := hs _ rfl
    simp only [Call.event, Emulator.deadlineEvent, ha, true_and] at hqueue
    simp only [Call.operation]
    by_cases hS : name = S ∧ seconds = 0
    · rw [if_pos hS.2, Event.onQueue, if_pos hS.1.symm] at hqueue
      rw [if_pos hS]
      exact ⟨_, hqueue, .act .nack h.follows ackId⟩
    · rw [if_neg hS]
      refine ⟨q, hqueue.trans ?_, hquiet⟩
      split
      · next hsec => exact if_neg fun hname : S = name => hS ⟨hname.symm, hsec⟩
      · rfl
  | ack n => exact h.simulates_once (k := .ack) hs _
  | nack n => exact h.simulates_once (k := .nack) hs _
  | _ => exact ⟨q, hqueue, hquiet⟩

/-- A lease of the subscription hands out what the lease of the queue hands out. -/
theorem lease (h : f.Tracks handed S e q) :
    ∃ q', ((Call.lease S).run e).store.queues.find? S = some q' ∧ q'.config = q.config ∧
      (f.apply .lease).Follows (handed ++ ((Call.lease S).delivery? S e).toList) q' ∧
      ∀ d ∈ (Call.lease S).delivery? S e, d.Numbered ((Call.lease S).run e).store.nextLease := by
  have hqueue := (Call.change e (.lease S)).queue S
  rw [h.queue] at hqueue
  cases hp : q.pending with
  | nil =>
    have hl : e.store.lease S = none := by simp only [Store.lease, h.queue, hp]
    have hd : (Call.lease S).delivery? S e = none := by
      simp only [Call.delivery?, if_pos, Emulator.lease, hl, Option.bind_none]
    simp only [Call.event, hl, Event.onQueue] at hqueue
    rw [hd, h.follows.lease_nil hp, Option.toList_none, List.append_nil]
    exact ⟨q, hqueue, rfl, h.follows, fun d hd => by cases hd⟩
  | cons m rest =>
    obtain ⟨s, hl⟩ : ∃ s, e.store.lease S = some ((Store.ackId m.id e.store.nextLease, m), s) := by
      simp only [Store.lease, h.queue, hp]
      exact ⟨_, rfl⟩
    obtain ⟨hn, hdeliveries⟩ := Emulator.lease_deliveries hl
    have hd : (Call.lease S).delivery? S e =
        some ⟨S, Store.ackId m.id e.store.nextLease, m, false⟩ := by
      simp [Call.delivery?, hn, hdeliveries]
    simp only [Call.event, hl, Event.onQueue, if_pos, Option.map_some] at hqueue
    rw [hd]
    refine ⟨_, hqueue, rfl, h.follows.lease (d := ⟨S, _, m, false⟩) hp (h.notMem_handed m.id),
      fun d hd => ?_⟩
    cases hd
    rw [(Call.lease_numbered hl).2]
    exact ⟨_, Nat.lt_succ_self _, rfl⟩

/-- **The simulation of one call.** Afterwards the queue of the subscription follows the queue on
which the operation that the call stands for has been done; if it stands for none, the queue of the
subscription has not changed. -/
theorem step (h : f.Tracks handed S e q) {c : Call σ} (hs : c.Settles e) :
    ∃ q', (f.after (c.operation S q.config.topic handed e)).Tracks
        (handed ++ (c.delivery? S e).toList) S (c.run e) q' ∧ q'.config = q.config ∧
      (c.operation S q.config.topic handed e = none → q' = q) := by
  have hold : ∀ d ∈ handed, d.Numbered (c.run e).store.nextLease := fun d hd =>
    (h.handed d hd).mono (Call.nextLease_le e c)
  have hdeliveries := Call.numbered_run h.deliveries c
  have hflagged := h.flagged.run h.deliveries hs
  by_cases hc : c = .lease S
  · subst hc
    obtain ⟨q', hqueue, hconfig, hfollows, hnew⟩ := h.lease
    have hop : (Call.lease S : Call σ).operation S q.config.topic handed e = some .lease := by
      simp only [Call.operation, if_pos]
    rw [hop]
    refine ⟨q', ⟨hqueue, hfollows, fun d hd => ?_, hdeliveries, hflagged⟩, hconfig,
      fun hnone => by cases hnone⟩
    rcases List.mem_append.mp hd with hd | hd
    · exact hold d hd
    · exact hnew d (Option.mem_toList.mp hd)
  · obtain ⟨q', hqueue, hconfig, hfollows, hsame⟩ := h.simulates hs hc
    have hd : c.delivery? S e = none := by
      cases c with
      | lease name => exact if_neg fun hname : name = S => hc (hname ▸ rfl)
      | _ => rfl
    rw [hd, Option.toList_none, List.append_nil]
    exact ⟨q', ⟨hqueue, hfollows, hold, hdeliveries, hflagged⟩, hconfig, hsame⟩

theorem runs (h : f.Tracks handed S e q) {calls : List (Call σ)} (hs : Call.AllSettle calls e) :
    ∃ q', (f.run (Call.operations S q.config.topic calls e handed)).Tracks
        (handed ++ Call.handedOut S calls e) S (Call.runs calls e) q' ∧ q'.config = q.config := by
  induction calls generalizing f handed e q with
  | nil => exact ⟨q, by rw [Call.handedOut, List.append_nil]; exact h, rfl⟩
  | cons c rest ih =>
    obtain ⟨q₁, h₁, hconfig₁, -⟩ := h.step hs.1
    obtain ⟨q', h', hconfig'⟩ := ih h₁ hs.2
    rw [hconfig₁, List.append_assoc] at h'
    refine ⟨q', ?_, hconfig'.trans hconfig₁⟩
    rw [Call.operations, Fifo.run, List.foldl_append]
    exact h'

/-- A subscription that is created in a run has an empty queue. -/
theorem created {project : String} {world : σ} {reactors : List (Reactor σ)}
    {before : List (Call σ)} {id : String} {config : SubscriptionConfig}
    (he : e = Call.runs before { project, world, reactors })
    (hcreated : (e.createSubscription id config).1 = .ok ()) :
    ∃ q, Fifo.Tracks {} [] (e.nameOf .subscription id) (e.createSubscription id config).2 q ∧
      q.config.topic = config.topic := by
  have hqueue := (Call.change e (.createSubscription id config)).queue (e.nameOf .subscription id)
  simp only [Call.event, hcreated, Event.onQueue, if_pos] at hqueue
  have hdeliveries := Call.numbered_runs before (e := { project, world, reactors })
    fun d hd => absurd hd List.not_mem_nil
  rw [← he] at hdeliveries
  refine ⟨_, ⟨hqueue, .empty _, fun d hd => absurd hd List.not_mem_nil,
    Call.numbered_run hdeliveries (.createSubscription id config), fun d _ _ _ => ?_⟩, rfl⟩
  change Queue.leasedUnder d.ackId
    (((Call.createSubscription id config).run e).store.queues.find? _) = none
  rw [hqueue]
  rfl

end Fifo.Tracks

/-- **Each subscription is a queue of its own.** Let a subscription be created at some time in a run
of the emulator, and let no reactor fail a request to settle a delivery from then on. Take a new
queue and do on it the operations that concern the subscription, as they come:

* the deliveries that are leased from the subscription are those that the queue hands out, with the
  same ids, contents and attempts in the same order;
* in the end the same messages are waiting and outstanding in both;
* a call that stands for no operation, be it for another subscription or topic or one that fails,
  leaves the queue of the subscription as it is. -/
theorem subscription_fifo {σ : Type} [Log.Journal σ] (project : String) (world : σ)
    (reactors : List (Reactor σ)) (before : List (Call σ)) (id : String)
    (config : SubscriptionConfig) (after : List (Call σ)) :
    let e := Call.runs before { project, world, reactors }
    let S := e.nameOf .subscription id
    let created := (e.createSubscription id config).2
    (e.createSubscription id config).1 = .ok () → Call.AllSettle after created →
    let queue := Fifo.run {} (Call.operations S config.topic after created [])
    (Call.handedOut S after created).map (·.message) = queue.leased ∧
    (∃ q, (Call.runs after created).store.queues.find? S = some q ∧ q.pending = queue.waiting ∧
      q.outstanding.map Prod.snd = queue.outstanding.map Prod.snd) ∧
    ∀ past c future, after = past ++ c :: future →
      c.operation S config.topic (Call.handedOut S past created) (Call.runs past created) = none →
      (Call.runs (past ++ [c]) created).store.queues.find? S =
        (Call.runs past created).store.queues.find? S := by
  intro e S created hcreated hsettle queue
  obtain ⟨q₀, hstart, htopic⟩ := Fifo.Tracks.created (e := e) rfl hcreated
  refine ⟨?_, ?_, fun past c future hafter hnone => ?_⟩
  · obtain ⟨q, hq, -⟩ := hstart.runs hsettle
    rw [htopic] at hq
    exact hq.follows.leased.symm
  · obtain ⟨q, hq, -⟩ := hstart.runs hsettle
    rw [htopic] at hq
    refine ⟨q, hq.queue, hq.follows.waiting.symm, ?_⟩
    rw [hq.follows.outstanding, List.map_map]
    rfl
  · rw [hafter] at hsettle
    obtain ⟨hpast, hc, -⟩ := hsettle.of_append
    obtain ⟨q, hq, hconfig⟩ := hstart.runs hpast
    obtain ⟨q', hq', -, hsame⟩ := hq.step hc
    rw [hconfig, htopic] at hsame
    rw [Call.runs, List.foldl_append]
    change ((c.run (Call.runs past created)).store.queues.find? S) = _
    rw [hq'.queue, hq.queue, hsame hnone]

/-- Two subscriptions to two topics: messages are leased from both, one comes back. -/
def twoQueues : List (Call Unit) :=
  [.publish "t" { data := [1] }, .publish "u" { data := [9] },
   .publish "t" { data := [2], orderingKey := "k" }, .lease "projects/p/subscriptions/s",
   .lease "projects/p/subscriptions/v", .lease "projects/p/subscriptions/s", .nack 0, .ack 1,
   .ack 2, .ack 0, .lease "projects/p/subscriptions/s"]

/-- The calls before the subscription to `t` is created. -/
def otherQueue : List (Call Unit) :=
  [.createTopic "t" {}, .createTopic "u" {}, .createSubscription "v" { topic := "u" }]

/-- The emulator when the subscription to `t` has been created. -/
def bothQueues : Emulator Unit :=
  ((Call.runs otherQueue { project := "p", world := (), reactors := [.log] }).createSubscription
    "s" { topic := "t" }).2

theorem subscription_fifo_redelivery :
    (Call.handedOut "projects/p/subscriptions/s" twoQueues bothQueues).map (·.message) =
      [⟨"1", { data := [1] }, 1⟩, ⟨"3", { data := [2], orderingKey := "k" }, 1⟩,
        ⟨"1", { data := [1] }, 2⟩] ∧
    ∃ q, (Call.runs twoQueues bothQueues).store.queues.find? "projects/p/subscriptions/s" =
        some q ∧ q.pending = [] ∧ q.outstanding.map Prod.snd = [⟨"1", { data := [1] }, 2⟩] := by
  have hoperations : Fifo.run {} (Call.operations "projects/p/subscriptions/s" "t" twoQueues
      bothQueues []) =
        { leased := [⟨"1", { data := [1] }, 1⟩, ⟨"3", { data := [2], orderingKey := "k" }, 1⟩,
            ⟨"1", { data := [1] }, 2⟩]
          outstanding := [(2, ⟨"1", { data := [1] }, 2⟩)] } := by
    decide +kernel
  have key := subscription_fifo "p" () [.log] otherQueue "s" { topic := "t" } twoQueues rfl
    (by decide +kernel)
  simp only [← bothQueues.eq_1] at key
  rw [show Emulator.nameOf _ .subscription "s" = "projects/p/subscriptions/s" from rfl,
    hoperations] at key
  exact ⟨key.1, key.2.1⟩

end Messaging
