import Messaging.Proofs.Broker.Observers
import Messaging.Proofs.Broker.Rejection
import Messaging.Proofs.Broker.Spared
import Messaging.Proofs.Waiter.Supervisor

/-! # Which waiter an ack resolves

A waiter for the acks of a subscription is resolved by the first ack of that subscription that
counts, and by nothing else, as long as nobody replaces it or resolves it by hand; the same holds of
nacks (`waiter_routed`).

A request that is shown to all reactors resolves the waiter if it tells of what the waiter waits for
(`Reactor.Routes.offer`). `Call.settlement?` says which calls make such a request, and
`WaitStep.settled_runs` that these are the first acks and nacks of their deliveries. A run is
followed step by step (`WaitStep.run_stands`, `runs_stands`). -/

namespace Messaging

/-! ### Requests that are shown to reactors -/

namespace Reactor

variable {σ : Type}

/-- A reactor lets acks and nacks pass: it handles none of the requests for them that it is
shown. -/
def LetsSettle (r : Reactor σ) : Prop :=
  ∀ request s, request.method ∈ r.methods →
    request.method = "Acknowledge" ∨ request.method = "ModifyAckDeadline" →
    (r.react request s).1.handled = false

/-- What a reactor does to a supervisor it does by actions. -/
def Acts (get : σ → AckSupervisor) (r : Reactor σ) : Prop :=
  ∀ request s, ∃ actions : List AckSupervisor.Action,
    get (r.react request s).2 = actions.foldl AckSupervisor.Action.run (get s)

/-- While a waiter waits, a reactor neither replaces nor resolves it, except that it may tell of a
request as the reactor for acks does. -/
def Spares (get : σ → AckSupervisor) (a : Awaited) (r : Reactor σ) : Prop :=
  ∀ request s, ∃ actions : List AckSupervisor.Action,
    get (r.react request s).2 = actions.foldl AckSupervisor.Action.run (get s) ∧
      ((get s).supervisor.Awaits a.target a.waiter → ∀ action ∈ actions,
        action.Spares a ∨ action ∈ AckSupervisor.Action.observed? request)

variable {get : σ → AckSupervisor} {set : AckSupervisor → σ → σ} {a : Awaited} {r : Reactor σ}
  {outcome : Option (Outcome (List String))} {request : Request}

/-- A reactor that has no hand in the waiters spares them all. -/
theorem Spares.of_keeps (h : ∀ request s, get (r.react request s).2 = get s) : r.Spares get a :=
  fun request s => ⟨[], h request s, fun _ _ hmem => absurd hmem List.not_mem_nil⟩

theorem Spares.acts (h : r.Spares get a) : r.Acts get := fun request s =>
  let ⟨actions, hactions, _⟩ := h request s
  ⟨actions, hactions⟩

/-- Any reactor for acks does no more than to tell of requests. -/
theorem Spares.reactor (hget : ∀ a s, get (set a s) = a) (a : Awaited) :
    (AckSupervisor.reactor.within get set).Spares get a := by
  intro request s
  refine ⟨(AckSupervisor.Action.observed? request).toList, ?_, fun _ action haction => ?_⟩
  · rw [← AckSupervisor.Action.observe_eq]
    exact hget _ _
  · exact .inr (Option.mem_toList.mp haction)

theorem Spares.stands (h : r.Spares get a) (request : Request) {s : σ} (hs : a.Stands outcome (get s)) :
    ∃ outcome', (outcome' = outcome ∨ outcome' = outcome.or (a.told? request)) ∧
      a.Stands outcome' (get (r.react request s).2) := by
  obtain ⟨actions, hactions, hspares⟩ := h request s
  rw [hactions]
  refine hs.runs actions fun hnone => hspares ?_
  subst hnone
  exact hs.2

/-- Reactors that spare the waiter leave it as it is or resolve it with what the request tells. -/
theorem offer_stands (request : Request) {l : List (Reactor σ)} (h : ∀ r ∈ l, r.Spares get a) {s : σ}
    (hs : a.Stands outcome (get s)) :
    ∃ outcome', (outcome' = outcome ∨ outcome' = outcome.or (a.told? request)) ∧
      a.Stands outcome' (get (offer request l s).2) := by
  induction l generalizing outcome s with
  | nil => exact ⟨outcome, .inl rfl, hs⟩
  | cons r rest ih =>
    obtain ⟨outcome₁, hnext, h₁⟩ := (h r List.mem_cons_self).stands request hs
    rw [offer_cons]
    split
    · exact ⟨outcome₁, hnext, h₁⟩
    · obtain ⟨outcome₂, hnext₂, h₂⟩ := ih (fun r' hr' => h r' (List.mem_cons_of_mem _ hr')) h₁
      refine ⟨outcome₂, ?_, h₂⟩
      rcases hnext with rfl | rfl
      · exact hnext₂
      · rw [Option.or_assoc, Option.or_self, or_self] at hnext₂
        exact .inr hnext₂

/-- Reactors that do no more than their actions let a waiter keep its outcome. -/
theorem offer_resolved {l : List (Reactor σ)} (h : ∀ r ∈ l, r.Acts get) {s : σ} {w : Nat}
    {o : Outcome (List String)} (hs : (get s).supervisor.Resolved w o) :
    (get (offer request l s).2).supervisor.Resolved w o := by
  induction l generalizing s with
  | nil => exact hs
  | cons r rest ih =>
    have hr : (get (r.react request s).2).supervisor.Resolved w o := by
      obtain ⟨actions, hactions⟩ := h r List.mem_cons_self request s
      rw [hactions]
      exact AckSupervisor.Action.foldl_resolved actions hs
    rw [offer_cons]
    split
    · exact hr
    · exact ih (fun r' hr' => h r' (List.mem_cons_of_mem _ hr')) hr

theorem mem_methods_of_mem_chain {method : String} {l : List (Reactor σ)}
    (h : r ∈ chain method l) : method ∈ r.methods := by
  obtain ⟨r', -, h⟩ := List.mem_flatMap.mp h
  obtain ⟨m, hm, rfl⟩ := List.mem_map.mp h
  obtain ⟨hmem, hmethod⟩ := List.mem_filter.mp hm
  rwa [of_decide_eq_true hmethod] at hmem

theorem handled_eq_false {l : List (Reactor σ)}
    (h : ∀ r ∈ l, ∀ s, (r.react request s).1.handled = false) (s : σ) :
    handled request l s = false := by
  induction l generalizing s with
  | nil => rfl
  | cons r rest ih =>
    rw [handled, h r List.mem_cons_self, ih fun r' hr' => h r' (List.mem_cons_of_mem _ hr')]
    rfl

/-- Reactors tell a waiter of the requests that it waits for: one of them is the
reactor for acks, those in front let acks and nacks pass, and all spare the waiter. -/
structure Routes (get : σ → AckSupervisor) (set : AckSupervisor → σ → σ) (a : Awaited)
    (reactors : List (Reactor σ)) : Prop where
  routes : ∃ before behind, reactors = before ++ AckSupervisor.reactor.within get set :: behind ∧
    ∀ r ∈ before, r.LetsSettle
  spares : ∀ r ∈ reactors, r.Spares get a

namespace Routes

variable {reactors : List (Reactor σ)}

theorem addReactor (h : Routes get set a reactors) {r : Reactor σ} (hr : r.Spares get a) :
    Routes get set a (reactors ++ [r]) where
  routes := by
    obtain ⟨before, behind, heq, hbefore⟩ := h.routes
    exact ⟨before, behind ++ [r], by rw [heq, List.append_assoc, List.cons_append], hbefore⟩
  spares r' hr' := by
    rcases List.mem_append.mp hr' with hr' | hr'
    · exact h.spares r' hr'
    · exact List.mem_singleton.mp hr' ▸ hr

/-- A request that is shown to the reactors resolves the waiter if it has not been resolved and the
request tells of what it waits for, and otherwise leaves it as it is. -/
theorem offer (hget : ∀ a s, get (set a s) = a) (h : Routes get set a reactors)
    (request : Request) {s : σ} (hs : a.Stands outcome (get s)) :
    a.Stands (outcome.or (a.told? request))
      (get (Reactor.offer request (Reactor.chain request.method reactors) s).2) := by
  have hspares : ∀ r ∈ Reactor.chain request.method reactors, r.Spares get a :=
    fun r hr => h.spares r (Reactor.mem_of_mem_chain hr)
  by_cases htold : a.told? request = none
  · obtain ⟨outcome', hnext, hstands⟩ := Reactor.offer_stands request hspares hs
    rw [htold, Option.or_none] at hnext ⊢
    rwa [or_self_iff.mp hnext] at hstands
  -- The request comes to the reactor for acks, which tells of it unless one in front has.
  obtain ⟨before, behind, rfl, hbefore⟩ := h.routes
  have hmethod := Request.method_of_settles? fun hnone => htold (by rw [Awaited.told?, hnone]; rfl)
  have hchain : Reactor.chain request.method
      (before ++ AckSupervisor.reactor.within get set :: behind) =
      Reactor.chain request.method before ++
        AckSupervisor.reactor.within get set :: Reactor.chain request.method behind := by
    rw [Reactor.chain_append]
    rcases hmethod with hm | hm <;> rw [hm] <;> rfl
  have hpasses (s : σ) : Reactor.handled request (Reactor.chain request.method before) s = false :=
    Reactor.handled_eq_false (fun r hr s => hbefore r (Reactor.mem_of_mem_chain hr) request s
      (Reactor.mem_methods_of_mem_chain hr) hmethod) s
  rw [hchain] at hspares ⊢
  rw [Reactor.offer_append, hpasses, if_neg Bool.false_ne_true]
  obtain ⟨outcome₁, hnext₁, h₁⟩ := Reactor.offer_stands request
    (fun r hr => hspares r (List.mem_append_left _ hr)) hs
  have h₂ : a.Stands (outcome.or (a.told? request)) (get (set ((get (Reactor.offer request
      (Reactor.chain request.method before) s).2).observe request) (Reactor.offer request
      (Reactor.chain request.method before) s).2)) := by
    have hor : outcome₁.or (a.told? request) = outcome.or (a.told? request) := by
      rcases hnext₁ with rfl | rfl
      · rfl
      · rw [Option.or_assoc, Option.or_self]
    rw [hget, ← hor]
    exact h₁.observe request
  obtain ⟨outcome₃, hnext₃, h₃⟩ := Reactor.offer_stands request
    (fun r hr => hspares r (List.mem_append_right _ (List.mem_cons_of_mem _ hr))) h₂
  rw [Option.or_assoc, Option.or_self, or_self] at hnext₃
  exact hnext₃ ▸ h₃

end Routes

end Reactor

/-! ### Runs -/

/-- An ack or a nack that counts: the delivery had not been acked or nacked before. -/
structure Settlement where
  kind : AckKind
  subscription : String
  ackId : String
  deriving DecidableEq, Repr

/-- The outcome of a waiter that is resolved by a settlement. -/
def Settlement.outcome (s : Settlement) : Outcome (List String) := { data := [s.ackId] }

/-- A settlement is one that a waiter waits for. -/
def Awaited.awaits (a : Awaited) (s : Settlement) : Bool :=
  s.kind = a.kind ∧ s.subscription = a.name

/-- The settlement that a call is, if it is one. -/
def Call.settlement? {σ : Type} (e : Emulator σ) : Call σ → Option Settlement
  | ack n => (e.unsettled? n).map fun d => ⟨.ack, d.subscription, d.ackId⟩
  | nack n => (e.unsettled? n).map fun d => ⟨.nack, d.subscription, d.ackId⟩
  | acknowledge name ackId => some ⟨.ack, name, ackId⟩
  | modifyAckDeadline name ackId _ => some ⟨.nack, name, ackId⟩
  | _ => none

/-- A delivery has been acked or nacked. -/
def Emulator.IsSettled {σ : Type} (n : Nat) (e : Emulator σ) : Prop :=
  ∃ d, e.deliveries[n]? = some d ∧ d.settled = true

namespace Emulator

variable {σ : Type} {e : Emulator σ}

theorem isSettled_of_lt {n : Nat} (h : e.unsettled? n = none) (hn : n < e.deliveries.length) :
    e.IsSettled n := by
  refine ⟨e.deliveries[n], List.getElem?_eq_getElem hn, ?_⟩
  simpa [unsettled?, List.getElem?_eq_getElem hn, Option.filter_eq_none_iff] using h

theorem isSettled_marked (e : Emulator σ) (m n : Nat) :
    (e.marked m).IsSettled n ↔ e.IsSettled n ∨ m = n ∧ n < e.deliveries.length := by
  simp only [IsSettled, marked, List.getElem?_modify, Option.map_eq_map, Option.map_eq_some_iff]
  by_cases hmn : m = n
  · subst hmn
    simp only [if_pos, true_and]
    constructor
    · rintro ⟨_, ⟨d, hd, rfl⟩, -⟩
      exact .inr (List.getElem?_eq_some_iff.mp hd).1
    · rintro (⟨d, hd, -⟩ | hlt)
      · exact ⟨_, ⟨d, hd, rfl⟩, rfl⟩
      · exact ⟨_, ⟨_, List.getElem?_eq_getElem hlt, rfl⟩, rfl⟩
  · simp [hmn]

end Emulator

namespace Call

variable {σ : Type} {e : Emulator σ}

/-- The settlements are the requests that ack or nack. -/
theorem settles?_request? (e : Emulator σ) (c : Call σ) :
    (c.request? e).bind Request.settles? =
      (c.settlement? e).map fun s => (s.kind, s.subscription, [s.ackId]) := by
  cases c with
  | submit n content =>
    simp only [request?, settlement?]
    cases e.handles[n]? with
    | none => rfl
    | some h => cases hr : Emulator.refuses h content <;> simp [hr, Request.settles?,
        Emulator.publishRequest]
  | ack n => cases hd : e.unsettled? n <;> simp [request?, settlement?, hd, Request.settles?]
  | nack n => cases hd : e.unsettled? n <;> simp [request?, settlement?, hd, Request.settles?]
  | _ => rfl

variable [Log.Journal σ]

/-- A call that makes no request may note an entry; the reactors are shown nothing. -/
theorem world_run_of_unasked {τ : Type} {get : σ → τ}
    (hnote : ∀ entry s, get (Log.note entry s) = get s) {c : Call σ} (h : c.request? e = none) :
    get (c.run e).world = get e.world := by
  cases c with
  | addReactor r => rfl
  | openTopic id => rfl
  | configure handle settings ordering => rfl
  | stop n =>
    simp only [run, Emulator.stop]
    split
    · rfl
    · split
      · rfl
      · exact hnote _ _
  | lease name =>
    simp only [run, Emulator.lease]
    split <;> rfl
  | submit n content =>
    obtain ⟨error, hs, -⟩ := submit_of_unasked h
    rw [run, hs]
  | ack n => rw [run, Emulator.ack, Emulator.once_of_settled (Option.map_eq_none_iff.mp h)]
  | nack n => rw [run, Emulator.nack, Emulator.once_of_settled (Option.map_eq_none_iff.mp h)]
  | findTopic id => cases h
  | createTopic id config => cases h
  | findSubscription id => cases h
  | createSubscription id config => cases h
  | schema reference => cases h
  | createSchema id config => cases h
  | publish topicId content => cases h
  | pull name => cases h
  | acknowledge name ackId => cases h
  | modifyAckDeadline name ackId seconds => cases h

theorem settled_run (e : Emulator σ) (c : Call σ) (n : Nat) :
    (c.run e).IsSettled n ↔
      e.IsSettled n ∨ (c = .ack n ∨ c = .nack n) ∧ n < e.deliveries.length := by
  by_cases hc : ∃ (k : AckKind) (m : Nat), c = k.call m
  · -- Either the delivery of the call is marked, or there was nothing to mark.
    obtain ⟨k, m, rfl⟩ := hc
    have htouches : ((k.call m : Call σ) = .ack n ∨ (k.call m : Call σ) = .nack n) ↔ m = n := by
      cases k <;> simp [AckKind.call]
    rw [htouches]
    rcases k.run_cases m e with ⟨hu, hrun⟩ | ⟨d, hu, hrun⟩
    · rw [hrun]
      refine ⟨.inl, fun h => h.elim id ?_⟩
      rintro ⟨rfl, hlt⟩
      exact Emulator.isSettled_of_lt hu hlt
    · rw [Emulator.IsSettled, hrun.deliveries]
      exact Emulator.isSettled_marked e m n
  · have htouches : ∀ m, ¬(c = .ack m ∨ c = .nack m) := fun m h =>
      hc (h.elim (fun h => ⟨.ack, m, h⟩) fun h => ⟨.nack, m, h⟩)
    rcases deliveries_cases e c with hsame | ⟨name, ackId, m, s, rfl, hl, hnew⟩ |
      ⟨m, d, htouch, -, -⟩
    · simp [Emulator.IsSettled, hsame, htouches]
    · rw [Emulator.IsSettled, hnew]
      simp only [htouches, false_and, or_false, Emulator.IsSettled]
      refine exists_congr fun d => and_congr_left fun hd => ?_
      rw [List.getElem?_append]
      split
      · rfl
      · next hlt =>
        rw [List.getElem?_eq_none (Nat.not_lt.mp hlt), List.getElem?_singleton]
        refine iff_of_false (fun h => ?_) (by simp)
        split at h
        · cases h
          cases hd
        · cases h
    · exact absurd htouch (htouches m)

/-- What a call tells the waiter, through the reactors that are shown its request. -/
theorem run_stands {get : σ → AckSupervisor} {set : AckSupervisor → σ → σ} {a : Awaited}
    {outcome : Option (Outcome (List String))} (hget : ∀ a s, get (set a s) = a)
    (hnote : ∀ entry s, get (Log.note entry s) = get s)
    (h : Reactor.Routes get set a e.reactors) (c : Call σ)
    (ho : a.Stands outcome (get e.world)) :
    a.Stands (outcome.or (((c.settlement? e).filter a.awaits).map Settlement.outcome))
      (get (c.run e).world) := by
  have hsettles := settles?_request? e c
  cases hrequest : c.request? e with
  | none =>
    rw [hrequest, Option.bind_none, eq_comm, Option.map_eq_none_iff] at hsettles
    rw [hsettles, world_run_of_unasked hnote hrequest]
    simpa using ho
  | some request =>
    have htold : ((c.settlement? e).filter a.awaits).map Settlement.outcome = a.told? request := by
      rw [hrequest, Option.bind_some] at hsettles
      rw [Awaited.told?, hsettles]
      cases c.settlement? e with
      | none => rfl
      | some s => simp [Option.filter, Awaited.awaits, Settlement.outcome, apply_ite]
    rw [htold, (Call.treated hrequest).world]
    exact h.offer hget request ho

end Call

namespace Operation

variable {σ : Type} [Log.Journal σ]

/-- The call that does to the emulator what an operation does. -/
def asCall : Operation σ → Call σ
  | call c => c
  | topicExists id | topicConfig id => .findTopic id
  | subscriptionExists id | subscriptionConfig id => .findSubscription id

theorem run_asCall (e : Emulator σ) (op : Operation σ) : op.run e = op.asCall.run e := by
  cases op with
  | call c => rfl
  | topicExists id => rfl
  | subscriptionExists id => rfl
  | topicConfig id =>
    change (e.topicConfig id).2 = (e.findTopic id).2
    unfold Emulator.topicConfig
    split <;> next h => rw [h]
  | subscriptionConfig id =>
    change (e.subscriptionConfig id).2 = (e.findSubscription id).2
    unfold Emulator.subscriptionConfig
    split <;> next h => rw [h]

end Operation

/-- A step of a run: an operation, or what somebody does to the supervisor by hand. -/
inductive WaitStep (σ : Type) where
  | operation (op : Operation σ)
  | byHand (action : AckSupervisor.Action)

namespace WaitStep

variable {σ : Type}

/-- The call that a step is, if it is an operation. -/
def call? : WaitStep σ → Option (Call σ)
  | operation op => some op.asCall
  | byHand _ => none

/-- The settlement that a step is, if it is one. -/
def settlement? (e : Emulator σ) (step : WaitStep σ) : Option Settlement :=
  step.call?.bind (Call.settlement? e)

/-- A step acks or nacks a delivery. -/
def Touches (n : Nat) (step : WaitStep σ) : Prop :=
  step.call? = some (.ack n) ∨ step.call? = some (.nack n)

/-- A step neither replaces a waiter nor resolves it by hand, and adds no reactor that does. -/
structure Spares (get : σ → AckSupervisor) (a : Awaited) (step : WaitStep σ) : Prop where
  byHand : ∀ action, step = .byHand action → action.Spares a
  added : ∀ r ∈ step.call?.bind Call.added?, r.Spares get a

variable [Log.Journal σ] (get : σ → AckSupervisor) (set : AckSupervisor → σ → σ)

/-- The emulator after a step. -/
def run (e : Emulator σ) : WaitStep σ → Emulator σ
  | operation op => op.run e
  | byHand action => { e with world := set (action.run (get e.world)) e.world }

/-- The emulator after steps, one after the other. -/
def runs (steps : List (WaitStep σ)) (e : Emulator σ) : Emulator σ := steps.foldl (run get set) e

/-- The settlements of a run, in their order. -/
def settlements : List (WaitStep σ) → Emulator σ → List Settlement
  | [], _ => []
  | step :: rest, e =>
    (step.settlement? e).toList ++ settlements rest (step.run get set e)

variable {get set} {e : Emulator σ} {a : Awaited} {outcome : Option (Outcome (List String))}

theorem reactors_run (e : Emulator σ) (step : WaitStep σ) :
    (step.run get set e).reactors = e.reactors ++ (step.call?.bind Call.added?).toList := by
  cases step with
  | byHand action => exact (List.append_nil _).symm
  | operation op =>
    rw [run, op.run_asCall]
    exact op.asCall.reactors_run e

/-- A step that spares the waiter resolves it if it is a settlement that the waiter waits for, and
otherwise leaves it as it is. -/
theorem run_stands (hget : ∀ a s, get (set a s) = a)
    (hnote : ∀ entry s, get (Log.note entry s) = get s)
    (h : Reactor.Routes get set a e.reactors) {step : WaitStep σ} (hs : step.Spares get a)
    (ho : a.Stands outcome (get e.world)) :
    Reactor.Routes get set a (step.run get set e).reactors ∧
      a.Stands (outcome.or (((step.settlement? e).filter a.awaits).map Settlement.outcome))
        (get (step.run get set e).world) := by
  constructor
  · rw [reactors_run]
    cases hadded : step.call?.bind Call.added? with
    | none => simpa using h
    | some r => exact h.addReactor (hs.added r hadded)
  · cases step with
    | operation op =>
      rw [run, op.run_asCall]
      exact op.asCall.run_stands hget hnote h ho
    | byHand action =>
      have hstands := ho.spared fun _ => hs.byHand action rfl
      simpa [run, hget, settlement?, call?] using hstands

/-- In a run that spares the waiter the first settlement that it waits for resolves it. -/
theorem runs_stands (hget : ∀ a s, get (set a s) = a)
    (hnote : ∀ entry s, get (Log.note entry s) = get s) (steps : List (WaitStep σ))
    (hs : ∀ step ∈ steps, step.Spares get a) {e : Emulator σ}
    (h : Reactor.Routes get set a e.reactors) (ho : a.Stands outcome (get e.world)) :
    Reactor.Routes get set a (runs get set steps e).reactors ∧
      a.Stands (outcome.or
        (((settlements get set steps e).find? a.awaits).map Settlement.outcome))
        (get (runs get set steps e).world) := by
  induction steps generalizing e outcome with
  | nil => simpa [settlements, runs] using ⟨h, ho⟩
  | cons step rest ih =>
    obtain ⟨h₁, ho₁⟩ := run_stands hget hnote h (hs step List.mem_cons_self) ho
    obtain ⟨h₂, ho₂⟩ := ih (fun step' hstep' => hs step' (List.mem_cons_of_mem _ hstep')) h₁ ho₁
    refine ⟨h₂, ?_⟩
    have hfirst : (step.settlement? e).toList.find? a.awaits =
        (step.settlement? e).filter a.awaits := by
      cases step.settlement? e with
      | none => rfl
      | some s => cases hs : a.awaits s <;> simp [Option.filter, hs]
    rw [settlements, List.find?_append, hfirst, Option.map_or, ← Option.or_assoc]
    exact ho₂

/-- A waiter that has been resolved keeps its outcome, whatever is done. -/
theorem runs_resolved (hget : ∀ a s, get (set a s) = a)
    (hnote : ∀ entry s, get (Log.note entry s) = get s) (steps : List (WaitStep σ))
    {e : Emulator σ} (hreactors : ∀ r ∈ e.reactors, r.Acts get)
    (hs : ∀ step ∈ steps, ∀ r ∈ step.call?.bind Call.added?, r.Acts get) {w : Nat}
    {o : Outcome (List String)} (h : (get e.world).supervisor.Resolved w o) :
    (get (runs get set steps e).world).supervisor.Resolved w o := by
  induction steps generalizing e with
  | nil => exact h
  | cons step rest ih =>
    refine ih ?_ (fun step' hstep' => hs step' (List.mem_cons_of_mem _ hstep')) ?_
    · intro r hr
      rw [reactors_run] at hr
      rcases List.mem_append.mp hr with hr | hr
      · exact hreactors r hr
      · exact hs step List.mem_cons_self r (Option.mem_toList.mp hr)
    · cases step with
      | byHand action =>
        rw [run, hget]
        exact action.run_resolved h
      | operation op =>
        rw [run, op.run_asCall]
        cases hrequest : op.asCall.request? e with
        | none =>
          rw [Call.world_run_of_unasked hnote hrequest]
          exact h
        | some request =>
          rw [(Call.treated hrequest).world]
          exact Reactor.offer_resolved
            (fun r hr => hreactors r (Reactor.mem_of_mem_chain hr)) h

/-! #### Which acks count -/

/-- A delivery is settled after a step if it was before, or if the step acks or nacks it. -/
theorem settled_run (e : Emulator σ) (step : WaitStep σ) (n : Nat) :
    (step.run get set e).IsSettled n ↔
      e.IsSettled n ∨ step.Touches n ∧ n < e.deliveries.length := by
  cases step with
  | byHand action => simp [run, Touches, call?, Emulator.IsSettled]
  | operation op =>
    simp only [run, op.run_asCall, Touches, call?, Option.some.injEq]
    exact op.asCall.settled_run e n

/-- **Only the first ack or nack of a delivery counts.** If no delivery had been settled before a
run, one is settled after it just in case a step has acked or nacked it since it was handed out. -/
theorem settled_runs (steps : List (WaitStep σ)) {e : Emulator σ} (n : Nat) :
    (runs get set steps e).IsSettled n ↔ e.IsSettled n ∨
      ∃ front step back, steps = front ++ step :: back ∧ step.Touches n ∧
        n < (runs get set front e).deliveries.length := by
  induction steps generalizing e with
  | nil => simp [runs]
  | cons step rest ih =>
    rw [runs, List.foldl_cons]
    refine ih.trans ?_
    rw [settled_run, or_assoc]
    refine or_congr_right ?_
    constructor
    · rintro (⟨htouches, hn⟩ | ⟨front, step', back, rfl, htouches, hn⟩)
      · exact ⟨[], step, rest, rfl, htouches, hn⟩
      · exact ⟨step :: front, step', back, rfl, htouches, hn⟩
    · rintro ⟨_ | ⟨step₀, front⟩, step', back, hsplit, htouches, hn⟩
      · obtain ⟨rfl, rfl⟩ := List.cons.inj hsplit
        exact .inl ⟨htouches, hn⟩
      · obtain ⟨rfl, rfl⟩ := List.cons.inj hsplit
        exact .inr ⟨front, step', back, rfl, htouches, hn⟩

end WaitStep

/-- **Acks and nacks go to their waiters.** Let an emulator have the reactor for acks, with the
emulator's project in its supervisor, and no reactor in front that handles an ack or a nack. Let a
waiter be started for the acks, or the nacks, of a subscription.

* In every run in which nobody starts another on the subscription and nobody resolves this one by
  hand, it is pending until the first ack, or nack, of a delivery of the subscription that counts,
  and is then resolved with the ack id of the delivery and without an error.
* Once it has been resolved it keeps its outcome, whatever is done.

An ack or nack counts if it is the first of its delivery (`WaitStep.settled_runs`). -/
theorem waiter_routed {σ : Type} [Log.Journal σ] {get : σ → AckSupervisor}
    {set : AckSupervisor → σ → σ} (hget : ∀ a s, get (set a s) = a)
    (hnote : ∀ entry s, get (Log.note entry s) = get s) {e : Emulator σ}
    (hproject : (get e.world).project = e.project) (hsound : (get e.world).supervisor.Sound)
    {before behind : List (Reactor σ)}
    (he : e.reactors = before ++ AckSupervisor.reactor.within get set :: behind)
    (hbefore : ∀ r ∈ before, r.LetsSettle) (k : AckKind) (id : String) :
    let w := (k.start id (get e.world)).1
    let a : Awaited := ⟨k, e.project, id, w⟩
    let started := { e with world := set (k.start id (get e.world)).2 e.world }
    (∀ r ∈ before ++ behind, r.Spares get a) →
    ∀ steps : List (WaitStep σ), (∀ step ∈ steps, step.Spares get a) →
      let e' := WaitStep.runs get set steps started
      ((get e'.world).supervisor.waiter w).outcome =
          ((WaitStep.settlements get set steps started).find? fun s =>
            s.kind = k ∧ s.subscription = Resource.subscription.nameOf e.project id).map
            (fun s => { data := [s.ackId] }) ∧
        ∀ later : List (WaitStep σ),
          (∀ step ∈ later, ∀ r ∈ step.call?.bind Call.added?, r.Acts get) →
          ∀ o, ((get e'.world).supervisor.waiter w).outcome = some o →
            ((get (WaitStep.runs get set later e').world).supervisor.waiter w).outcome = some o := by
  intro w a started hothers steps hsteps e'
  have hroutes : Reactor.Routes get set a started.reactors := by
    refine ⟨⟨before, behind, he, hbefore⟩, fun r hr => ?_⟩
    rw [show started.reactors = _ from he] at hr
    rcases List.mem_append.mp hr with hr | hr
    · exact hothers r (List.mem_append_left _ hr)
    rcases List.mem_cons.mp hr with rfl | hr
    · exact .reactor hget a
    · exact hothers r (List.mem_append_right _ hr)
  have hstart : a.Stands none (get started.world) := by
    have h := AckSupervisor.start_stands hsound k id
    rw [hproject] at h
    rw [show get started.world = _ from hget _ _]
    exact h
  obtain ⟨hroutes', hstands⟩ := WaitStep.runs_stands hget hnote steps hsteps hroutes hstart
  rw [Option.none_or] at hstands
  refine ⟨hstands.2.outcome, fun later hlater o ho => ?_⟩
  exact Supervisor.Resolved.outcome (WaitStep.runs_resolved hget hnote later
    (fun r hr => (hroutes'.spares r hr).acts) hlater (Supervisor.resolved_of_outcome ho))

/-- A log and a supervisor. -/
abbrev LogAndWaiters : Type := List Log.Entry × AckSupervisor

namespace LogAndWaiters

def get (w : LogAndWaiters) : AckSupervisor := w.2

def set (a : AckSupervisor) (w : LogAndWaiters) : LogAndWaiters := (w.1, a)

end LogAndWaiters

/-- A reactor that logs requests. -/
def loggedRequests : Reactor LogAndWaiters := Reactor.log.within (·.1) fun log w => (log, w.2)

/-- A reactor that fails every nack. -/
def refusedNacks : Reactor LogAndWaiters where
  methods := ["ModifyAckDeadline"]
  react _ w := (.fail ⟨.unavailable, "injected"⟩, w)

/-- A new emulator with a reactor in front of the one for acks and one behind. -/
def acksWatched : Emulator LogAndWaiters where
  project := "p"
  world := ([], { project := "p" })
  reactors := [loggedRequests, AckSupervisor.reactor.within LogAndWaiters.get LogAndWaiters.set,
    refusedNacks]

/-- The same when a waiter for the acks of a subscription has been started. -/
def acksAwaited : Emulator LogAndWaiters :=
  let started := AckKind.ack.start "s" acksWatched.world.get
  { acksWatched with world := LogAndWaiters.set started.2 acksWatched.world }

/-- Two messages are leased from a subscription and one from another. The first is nacked, and acked
when that counts no more; then the one of the other subscription is acked and last the second. -/
def acksAndNacks : List (WaitStep LogAndWaiters) :=
  [.operation (.call (.createTopic "t" {})),
   .operation (.call (.createSubscription "s" { topic := "t" })),
   .operation (.call (.createSubscription "s2" { topic := "t" })),
   .operation (.call (.publish "t" { data := [1] })),
   .operation (.call (.publish "t" { data := [2] })),
   .operation (.call (.lease "projects/p/subscriptions/s")),
   .operation (.call (.lease "projects/p/subscriptions/s")),
   .operation (.call (.lease "projects/p/subscriptions/s2")),
   .operation (.call (.nack 0)), .operation (.call (.ack 0)), .operation (.topicExists "t"),
   .operation (.call (.ack 2)), .byHand (.start .nack "s"), .operation (.call (.ack 1))]

theorem acksAndNacks_spare : ∀ step ∈ acksAndNacks,
    step.Spares LogAndWaiters.get ⟨.ack, "p", "s", 0⟩ := by
  intro step hstep
  simp only [acksAndNacks, List.mem_cons, List.not_mem_nil, or_false] at hstep
  rcases hstep with rfl | rfl | rfl | rfl | rfl | rfl | rfl | rfl | rfl | rfl | rfl | rfl | rfl | rfl
  all_goals
    refine ⟨fun action haction => ?_, fun r hr => absurd hr (by simp [WaitStep.call?,
      Operation.asCall, Call.added?])⟩
    cases haction
  exact fun hk => absurd hk AckKind.noConfusion

theorem acksAndNacks_settlements :
    WaitStep.settlements LogAndWaiters.get LogAndWaiters.set acksAndNacks acksAwaited =
      [⟨.nack, "projects/p/subscriptions/s", "1-1"⟩, ⟨.ack, "projects/p/subscriptions/s2", "1-3"⟩,
        ⟨.ack, "projects/p/subscriptions/s", "2-2"⟩] := by
  decide +kernel

theorem waiter_routed_ack :
    let e' := WaitStep.runs LogAndWaiters.get LogAndWaiters.set acksAndNacks acksAwaited
    (e'.world.get.supervisor.waiter 0).outcome = some { data := ["2-2"] } ∧
      ((WaitStep.runs LogAndWaiters.get LogAndWaiters.set [.byHand (.start .ack "s")]
        e').world.get.supervisor.waiter 0).outcome = some { data := ["2-2"] } := by
  intro e'
  have hreactors : acksWatched.reactors = [loggedRequests] ++
      AckSupervisor.reactor.within LogAndWaiters.get LogAndWaiters.set :: [refusedNacks] := rfl
  have hsettle : ∀ r ∈ [loggedRequests], r.LetsSettle := fun r hr request s _ _ => by
    rw [List.mem_singleton.mp hr]
    rfl
  have hspare : ∀ r ∈ [loggedRequests] ++ [refusedNacks],
      r.Spares LogAndWaiters.get ⟨.ack, "p", "s", 0⟩ := by
    simp only [List.cons_append, List.nil_append, List.mem_cons, List.not_mem_nil, or_false,
      forall_eq_or_imp, forall_eq]
    exact ⟨.of_keeps fun _ _ => rfl, .of_keeps fun _ _ => rfl⟩
  obtain ⟨houtcome, hkept⟩ := waiter_routed (fun _ _ => rfl) (fun _ _ => rfl) rfl
    (AckSupervisor.Action.sound_of_new "p" []) hreactors hsettle .ack "s" hspare acksAndNacks acksAndNacks_spare
  have hresolved : (e'.world.get.supervisor.waiter 0).outcome = some { data := ["2-2"] } := by
    refine houtcome.trans ?_
    change ((WaitStep.settlements LogAndWaiters.get LogAndWaiters.set acksAndNacks
      acksAwaited).find? _).map _ = _
    rw [acksAndNacks_settlements]
    rfl
  refine ⟨hresolved, hkept [.byHand (.start .ack "s")] (fun step hstep r hr => ?_) _ hresolved⟩
  rw [List.mem_singleton.mp hstep] at hr
  cases hr

end Messaging
