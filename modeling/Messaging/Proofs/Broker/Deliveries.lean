import Messaging.Proofs.Broker.Conservation

/-! # The deliveries that have been handed out

Every delivery has the ack id of its lease, which is made with a number that has been used up
(`Call.numbered_runs`). A lease that has been taken off never comes back under its ack id
(`Store.Changes.stale`). So a delivery that has been acked or nacked is not outstanding any more, as
long as no reactor has failed the request to settle it (`Emulator.Flagged.run`). -/

namespace Messaging

/-! ### Leases that are gone -/

namespace Queue

variable {q : Queue} {ackId : String}

theorem lookup_filter_ne {α : Type} (k a : String) (l : List (String × α)) :
    (l.filter fun e => e.1 ≠ k).lookup a = if a = k then none else l.lookup a :=
  Table.find?_erase k a l

theorem leasedUnder_settle (ackId : String) (q : Queue) :
    leasedUnder ackId (some (q.settle ackId)) = none := by
  simp only [leasedUnder, Option.bind_some, settle, lookup_filter_ne, if_pos]

theorem leasedUnder_requeue (ackId : String) (q : Queue) :
    leasedUnder ackId (some (q.requeue ackId)) = none := by
  unfold requeue
  split
  · next h => exact h
  · exact leasedUnder_settle ackId q

theorem leasedUnder_act (k : AckKind) (ackId : String) (q : Queue) :
    leasedUnder ackId (some (k.act ackId q)) = none := by
  cases k with
  | ack => exact leasedUnder_settle ackId q
  | nack => exact leasedUnder_requeue ackId q

theorem leasedUnder_settle_of_stale {a : String} (h : leasedUnder a (some q) = none) :
    leasedUnder a (some (q.settle ackId)) = none := by
  simp only [leasedUnder, Option.bind_some, settle, lookup_filter_ne] at h ⊢
  rw [h, ite_self]

theorem leasedUnder_requeue_of_stale {a : String} (h : leasedUnder a (some q) = none) :
    leasedUnder a (some (q.requeue ackId)) = none := by
  unfold requeue
  split
  · exact h
  · exact leasedUnder_settle_of_stale h

end Queue

/-- An ack id that has been used and is not outstanding will never be. -/
theorem Store.Changes.stale {ev : Event} {s s' : Store} (hc : Changes ev s s') {S id : String}
    {n : Nat} (hn : n < s.nextLease)
    (h : Queue.leasedUnder (Store.ackId id n) (s.queues.find? S) = none) :
    Queue.leasedUnder (Store.ackId id n) (s'.queues.find? S) = none := by
  have hallowed := hc.allowed
  rw [hc.queue S]
  cases hq : s.queues.find? S with
  | none =>
    cases ev with
    | created name config =>
      simp only [Event.onQueue]
      split <;> rfl
    | _ => simp [Event.onQueue, Queue.leasedUnder]
  | some q =>
    rw [hq] at h
    cases ev with
    | quiet => exact h
    | created name config =>
      simp only [Event.onQueue]
      split
      · rfl
      · exact h
    | published topicId m =>
      simp only [Event.onQueue, Option.map_some]
      split <;> exact h
    | leased name ackId m =>
      simp only [Event.onQueue, Option.map_some]
      split
      · have hne : Store.ackId id n ≠ ackId := by
          rw [hallowed.1]
          intro heq
          have := (ackId_inj heq).2
          omega
        simp only [Queue.leasedUnder, Option.bind_some] at h ⊢
        rw [List.lookup_append, h, Option.none_or, List.lookup_cons, beq_eq_false_iff_ne.mpr hne]
        rfl
      · exact h
    | acked name ackId =>
      simp only [Event.onQueue, Option.map_some]
      split
      · exact Queue.leasedUnder_settle_of_stale h
      · exact h
    | returned name ackId =>
      simp only [Event.onQueue, Option.map_some]
      split
      · exact Queue.leasedUnder_requeue_of_stale h
      · exact h

/-! ### What calls do to the deliveries -/

namespace Emulator

variable {σ α : Type}

/-- Two states that differ in the store and in what the reactors remember. -/
def Restocked (e e' : Emulator σ) : Prop := ∃ world store, e' = { e with world, store }

theorem Restocked.refl (e : Emulator σ) : Restocked e e := ⟨e.world, e.store, rfl⟩

theorem guarded_restocked {request : Request}
    {serve : Emulator σ → Except BrokerError α × Emulator σ}
    (h : ∀ e, Restocked e (serve e).2) (e : Emulator σ) :
    Restocked e (guarded request serve e).2 := by
  refine guarded_keeps (P := Restocked e) (fun world => ⟨world, e.store, rfl⟩) fun world => ?_
  obtain ⟨world', store, he⟩ := h { e with world }
  exact ⟨world', store, he⟩

theorem served_restocked (change : Store → Except BrokerError Store) (e : Emulator σ) :
    Restocked e (served change e).2 := by
  unfold served
  split
  · next store _ => exact ⟨e.world, store, rfl⟩
  · exact .refl e

theorem publish_restocked (topicId : String) (content : OutgoingMessage) (e : Emulator σ) :
    Restocked e (e.publish topicId content).2 := by
  refine guarded_keeps (P := Restocked e) (fun world => ⟨world, _, rfl⟩) fun world => ?_
  obtain ⟨world', store, he⟩ := served_restocked
    (·.publish (e.nameOf .topic topicId) topicId (Text.natural e.store.nextMessage) content)
    { e with world, store := { e.store with nextMessage := e.store.nextMessage + 1 } }
  exact ⟨world', store, he⟩

theorem submit_restocked (handle : Nat) (content : OutgoingMessage) (e : Emulator σ) :
    Restocked e (e.submit handle content).2 := by
  unfold submit
  split
  · exact .refl e
  · split
    · exact .refl e
    · split
      · exact .refl e
      · exact publish_restocked _ _ e

theorem acknowledge_restocked (name ackId : String) (e : Emulator σ) :
    Restocked e (e.acknowledge name ackId) :=
  guarded_restocked (served_restocked _) e

theorem modifyAckDeadline_restocked (name ackId : String) (seconds : Int) (e : Emulator σ) :
    Restocked e (e.modifyAckDeadline name ackId seconds) :=
  guarded_restocked (served_restocked _) e

theorem Restocked.deliveries {e e' : Emulator σ} (h : Restocked e e') :
    e'.deliveries = e.deliveries := by
  obtain ⟨world, store, rfl⟩ := h
  rfl

/-- Leasing hands a delivery out unless there is nothing to lease. -/
theorem lease_deliveries {e : Emulator σ} {name ackId : String} {m : StoredMessage} {s : Store}
    (h : e.store.lease name = some ((ackId, m), s)) :
    (e.lease name).1 = some e.deliveries.length ∧
      (e.lease name).2.deliveries =
        e.deliveries ++ [{ subscription := name, ackId, message := m }] := by
  simp only [lease, h, and_self]

theorem stop_deliveries [Log.Journal σ] (handle : Nat) (e : Emulator σ) :
    (e.stop handle).deliveries = e.deliveries := by
  unfold stop
  split
  · rfl
  · split <;> rfl

/-- The deliveries with one more marked as settled. -/
theorem mem_marked {e : Emulator σ} {n : Nat} {d d' : Delivery} (hd : e.deliveries[n]? = some d)
    (h : d' ∈ (e.marked n).deliveries) : d' ∈ e.deliveries ∨ d' = { d with settled := true } := by
  obtain ⟨k, hk⟩ := List.mem_iff_getElem?.mp h
  simp only [marked, List.getElem?_modify] at hk
  by_cases hn : n = k
  · subst hn
    simp only [hd, if_pos, Option.map_eq_map, Option.map_some, Option.some.injEq] at hk
    exact .inr hk.symm
  · simp only [if_neg hn, Option.map_eq_map, Option.map_id_fun', id_eq] at hk
    exact .inl (List.mem_of_getElem? hk)

theorem unsettled?_eq_some {e : Emulator σ} {n : Nat} {d : Delivery} :
    e.unsettled? n = some d ↔ e.deliveries[n]? = some d ∧ d.settled = false := by
  simp [unsettled?, Option.filter_eq_some_iff]

end Emulator

/-- An ack or nack of a delivery marks it, and changes no more than the request does; if it has been
settled, nothing happens. -/
theorem AckKind.run_cases {σ : Type} [Log.Journal σ] (k : AckKind) (n : Nat) (e : Emulator σ) :
    e.unsettled? n = none ∧ (k.call n).run e = e ∨
      ∃ d, e.unsettled? n = some d ∧ (e.marked n).Restocked ((k.call n).run e) := by
  cases hu : e.unsettled? n with
  | none =>
    refine .inl ⟨rfl, ?_⟩
    cases k <;> simp only [call, Call.run, Emulator.ack, Emulator.nack, Emulator.once_eq, hu]
  | some d =>
    refine .inr ⟨d, rfl, ?_⟩
    cases k with
    | ack =>
      simp only [call, Call.run, Emulator.ack, Emulator.once_eq, hu]
      exact Emulator.acknowledge_restocked d.subscription d.ackId (e.marked n)
    | nack =>
      simp only [call, Call.run, Emulator.nack, Emulator.once_eq, hu]
      exact Emulator.modifyAckDeadline_restocked d.subscription d.ackId 0 (e.marked n)

namespace Call

variable {σ : Type} [Log.Journal σ]

/-- A call hands a delivery out, or marks one as settled, or leaves the deliveries as they are. -/
theorem deliveries_cases (e : Emulator σ) (c : Call σ) :
    (c.run e).deliveries = e.deliveries ∨
      (∃ name ackId m s, c = .lease name ∧ e.store.lease name = some ((ackId, m), s) ∧
        (c.run e).deliveries =
          e.deliveries ++ [{ subscription := name, ackId, message := m }]) ∨
      ∃ n d, (c = .ack n ∨ c = .nack n) ∧ e.unsettled? n = some d ∧
        (c.run e).deliveries = (e.marked n).deliveries := by
  cases c with
  | lease name =>
    cases hl : e.store.lease name with
    | none => exact .inl (by simp only [run, Emulator.lease, hl])
    | some r => exact .inr (.inl ⟨name, _, _, _, rfl, hl, (Emulator.lease_deliveries hl).2⟩)
  | ack n =>
    rcases AckKind.run_cases .ack n e with ⟨-, hrun⟩ | ⟨d, hu, hrun⟩
    · exact .inl (congrArg Emulator.deliveries hrun)
    · exact .inr (.inr ⟨n, d, .inl rfl, hu, hrun.deliveries⟩)
  | nack n =>
    rcases AckKind.run_cases .nack n e with ⟨-, hrun⟩ | ⟨d, hu, hrun⟩
    · exact .inl (congrArg Emulator.deliveries hrun)
    · exact .inr (.inr ⟨n, d, .inr rfl, hu, hrun.deliveries⟩)
  | addReactor r => exact .inl rfl
  | findTopic id => exact .inl (Emulator.guarded_restocked (fun e => .refl e) e).deliveries
  | createTopic id config =>
    exact .inl (Emulator.guarded_restocked (Emulator.served_restocked _) e).deliveries
  | findSubscription id => exact .inl (Emulator.guarded_restocked (fun e => .refl e) e).deliveries
  | createSubscription id config =>
    exact .inl (Emulator.guarded_restocked (Emulator.served_restocked _) e).deliveries
  | schema reference =>
    exact .inl (Emulator.guarded_restocked
      (fun e => by split <;> exact .refl e) e).deliveries
  | createSchema id config =>
    refine .inl (Emulator.guarded_restocked (fun e => ?_) e).deliveries
    split
    · next created store _ => exact ⟨e.world, store, rfl⟩
    · exact .refl e
  | openTopic id => exact .inl rfl
  | configure handle settings ordering => exact .inl rfl
  | publish topicId content => exact .inl (Emulator.publish_restocked topicId content e).deliveries
  | submit handle content => exact .inl (Emulator.submit_restocked handle content e).deliveries
  | stop handle => exact .inl (Emulator.stop_deliveries handle e)
  | pull name =>
    exact .inl (Emulator.guarded_restocked (fun e => by split <;> exact .refl e) e).deliveries
  | acknowledge name ackId => exact .inl (Emulator.acknowledge_restocked name ackId e).deliveries
  | modifyAckDeadline name ackId seconds =>
    exact .inl (Emulator.modifyAckDeadline_restocked name ackId seconds e).deliveries

end Call

/-! ### The ack ids of deliveries -/

/-- The ack id of a delivery is made with a number that has been used up. -/
def Delivery.Numbered (nextLease : Nat) (d : Delivery) : Prop :=
  ∃ n < nextLease, d.ackId = Store.ackId d.message.id n

theorem Delivery.Numbered.mono {n n' : Nat} {d : Delivery} (h : d.Numbered n) (hn : n ≤ n') :
    d.Numbered n' := by
  obtain ⟨k, hk, hd⟩ := h
  exact ⟨k, by omega, hd⟩

namespace Call

variable {σ : Type} [Log.Journal σ]

theorem nextLease_le (e : Emulator σ) (c : Call σ) :
    e.store.nextLease ≤ (c.run e).store.nextLease := by
  rw [(change e c).nextLease]
  omega

/-- The delivery that is handed out has the number that is used up. -/
theorem lease_numbered {e : Emulator σ} {name ackId : String} {m : StoredMessage} {s : Store}
    (h : e.store.lease name = some ((ackId, m), s)) :
    ackId = Store.ackId m.id e.store.nextLease ∧
      ((Call.lease name).run e).store.nextLease = e.store.nextLease + 1 := by
  have hc := change e (.lease name)
  have hev : (Call.lease name).event e = .leased name ackId m := by simp only [event, h]
  rw [hev] at hc
  exact ⟨hc.allowed.1, hc.nextLease⟩

theorem numbered_run {e : Emulator σ} (h : ∀ d ∈ e.deliveries, d.Numbered e.store.nextLease)
    (c : Call σ) : ∀ d ∈ (c.run e).deliveries, d.Numbered (c.run e).store.nextLease := by
  intro d hd
  have hle := nextLease_le e c
  rcases deliveries_cases e c with hsame | ⟨name, ackId, m, s, rfl, hl, hnew⟩ |
    ⟨n, d₀, -, hu, hmarked⟩
  · exact (h d (hsame ▸ hd)).mono hle
  · rw [hnew] at hd
    obtain ⟨hack, hnext⟩ := lease_numbered hl
    rcases List.mem_append.mp hd with hd | hd
    · exact (h d hd).mono hle
    · rw [List.mem_singleton.mp hd, hnext]
      exact ⟨_, Nat.lt_succ_self _, hack⟩
  · have hd₀ := (Emulator.unsettled?_eq_some.mp hu).1
    rcases Emulator.mem_marked hd₀ (hmarked ▸ hd) with hd | rfl
    · exact (h d hd).mono hle
    · exact (h d₀ (List.mem_of_getElem? hd₀)).mono hle

/-- In every run the deliveries have ack ids that have been used up. -/
theorem numbered_runs (calls : List (Call σ)) {e : Emulator σ}
    (h : ∀ d ∈ e.deliveries, d.Numbered e.store.nextLease) :
    ∀ d ∈ (runs calls e).deliveries, d.Numbered (runs calls e).store.nextLease := by
  induction calls generalizing e with
  | nil => exact h
  | cons c rest ih => exact ih (numbered_run h c)

end Call

/-! ### Deliveries that have been settled -/

namespace Call

variable {σ : Type}

/-- The request to settle a delivery that a call makes, if it makes one. -/
def settling? (e : Emulator σ) : Call σ → Option Request
  | acknowledge name ackId => some (.acknowledge name [ackId])
  | modifyAckDeadline name ackId seconds => some (.modifyAckDeadline name [ackId] seconds)
  | ack n => (e.unsettled? n).map fun d => .acknowledge d.subscription [d.ackId]
  | nack n => (e.unsettled? n).map fun d => .modifyAckDeadline d.subscription [d.ackId] 0
  | _ => none

/-- No reactor fails the request to settle a delivery that a call makes. -/
def Settles (e : Emulator σ) (c : Call σ) : Prop :=
  ∀ request ∈ c.settling? e, e.accepts request = true

instance (e : Emulator σ) (c : Call σ) : Decidable (c.Settles e) :=
  inferInstanceAs (Decidable (∀ request ∈ c.settling? e, e.accepts request = true))

/-- No reactor fails the request of an ack or nack that settles its delivery. -/
theorem Settles.accepts {e : Emulator σ} {n : Nat} {d : Delivery} {k : AckKind}
    (h : (k.call n).Settles e) (hu : e.unsettled? n = some d) :
    e.accepts (k.request d.subscription d.ackId) = true := by
  cases k <;> exact h _ (by rw [AckKind.call, settling?, hu]; rfl)

end Call

namespace Emulator

variable {σ : Type} [Log.Journal σ] {S : String} {e : Emulator σ}

omit [Log.Journal σ] in
/-- Deliveries of a subscription that have been acked or nacked are not outstanding. -/
def Flagged (S : String) (e : Emulator σ) : Prop :=
  ∀ d ∈ e.deliveries, d.subscription = S → d.settled = true →
    Queue.leasedUnder d.ackId (e.store.queues.find? S) = none

/-- A delivery that is acked or nacked is not outstanding any more. -/
theorem leasedUnder_settled {n : Nat} {d : Delivery} (hu : e.unsettled? n = some d) {k : AckKind}
    (hs : (k.call n).Settles e) :
    Queue.leasedUnder d.ackId (((k.call n).run e).store.queues.find? d.subscription) = none := by
  rw [(Call.change e (k.call n)).queue, AckKind.event_call hu, if_pos (hs.accepts hu),
    AckKind.onQueue_event, if_pos rfl]
  cases e.store.queues.find? d.subscription with
  | none => rfl
  | some q => exact Queue.leasedUnder_act k d.ackId q

theorem Flagged.run (h : e.Flagged S) (hn : ∀ d ∈ e.deliveries, d.Numbered e.store.nextLease)
    {c : Call σ} (hs : c.Settles e) : (c.run e).Flagged S := by
  have hold : ∀ d ∈ e.deliveries, d.subscription = S → d.settled = true →
      Queue.leasedUnder d.ackId ((c.run e).store.queues.find? S) = none := by
    intro d hd hS hsettled
    obtain ⟨n, hlt, hack⟩ := hn d hd
    have hstale := h d hd hS hsettled
    rw [hack] at hstale ⊢
    exact (Call.change e c).stale hlt hstale
  intro d hd hS hsettled
  rcases Call.deliveries_cases e c with hsame | ⟨name, ackId, m, s, rfl, hl, hnew⟩ |
    ⟨n, d₀, hc, hu, hmarked⟩
  · exact hold d (hsame ▸ hd) hS hsettled
  · rw [hnew] at hd
    rcases List.mem_append.mp hd with hd | hd
    · exact hold d hd hS hsettled
    · rw [List.mem_singleton.mp hd] at hsettled
      cases hsettled
  · rcases mem_marked (unsettled?_eq_some.mp hu).1 (hmarked ▸ hd) with hd | rfl
    · exact hold d hd hS hsettled
    · rw [← hS]
      rcases hc with rfl | rfl
      · exact leasedUnder_settled (k := .ack) hu hs
      · exact leasedUnder_settled (k := .nack) hu hs

end Emulator

end Messaging
