import Messaging.Proofs.Broker.Calls

/-! # What calls do to the resources

All that a call can do to the topics, subscriptions and schemas of the emulator is to create one of
them under a name that is free (`Call.provides`). Whatever else a call changes, the configurations
are the same as before (`Store.SameResources`).

An invariant of the resources is shown to be kept by these four cases (`Store.Provides`), and nobody
has to look at the calls again. -/

namespace Messaging

theorem Queue.requeue_config (ackId : String) (q : Queue) :
    (q.requeue ackId).config = q.config := by
  unfold requeue
  split <;> rfl

namespace Store

/-- The configuration of the subscription of a name. -/
def subscription? (s : Store) (name : String) : Option SubscriptionConfig :=
  (s.queues.find? name).map (·.config)

/-- Two stores have the same topics, subscriptions and schemas. -/
structure SameResources (s s' : Store) : Prop where
  topics : s'.topics = s.topics
  subscriptions : ∀ name, s'.subscription? name = s.subscription? name
  schemas : s'.schemas = s.schemas

/-- What can become of the resources of a project in one go: they stay as they are, or one is
created under a name that is free. The topic of a subscription has to exist. -/
inductive Provides (project : String) (s : Store) : Store → Prop
  | same {s' : Store} (h : s.SameResources s') : Provides project s s'
  | topic (id : String) (config : TopicConfig)
      (free : s.topics.find? (Resource.topic.nameOf project id) = none) :
      Provides project s { s with
        topics := s.topics.insert (Resource.topic.nameOf project id)
          { config with name := Resource.topic.nameOf project id } }
  | subscription (id : String) (config : SubscriptionConfig)
      (bound : s.topics.contains (Resource.topic.nameOf project config.topic) = true)
      (free : s.queues.find? (Resource.subscription.nameOf project id) = none) :
      Provides project s { s with
        queues := s.queues.insert (Resource.subscription.nameOf project id)
          { config := { config with name := Resource.subscription.nameOf project id } } }
  | schema (id : String) (config : SchemaConfig)
      (free : s.schemas.find? (Resource.schema.nameOf project id) = none) :
      Provides project s { s with
        schemas := s.schemas.insert (Resource.schema.nameOf project id)
          { config with name := Resource.schema.nameOf project id } }

variable {s s' : Store} {project id name : String}

theorem SameResources.refl (s : Store) : s.SameResources s := ⟨rfl, fun _ => rfl, rfl⟩

theorem contains_eq_false {α : Type} {table : Table α} (h : ¬ table.contains name = true) :
    table.find? name = none := by
  simpa [Table.contains] using h

/-- Changing a queue changes no resource, if its configuration stays. -/
theorem same_modify (name : String) (change : Queue → Queue) (s : Store)
    (h : ∀ q, (change q).config = q.config) :
    s.SameResources { s with queues := s.queues.modify name change } := by
  refine ⟨rfl, fun key => ?_, rfl⟩
  unfold subscription?
  rw [Table.find?_modify]
  split
  · cases s.queues.find? key with
    | none => rfl
    | some q => exact congrArg some (h q)
  · rfl

theorem createTopic_provides {config : TopicConfig}
    (h : s.createTopic (Resource.topic.nameOf project id) config = .ok s') :
    s.Provides project s' := by
  unfold createTopic at h
  split at h
  · cases h
  · next hfree =>
    cases h
    exact .topic id config (contains_eq_false hfree)

theorem createSubscription_provides {config : SubscriptionConfig}
    (h : s.createSubscription (Resource.subscription.nameOf project id)
      (Resource.topic.nameOf project config.topic) config = .ok s') : s.Provides project s' := by
  unfold createSubscription at h
  split at h
  · cases h
  · next hbound =>
    split at h
    · cases h
    · next hfree =>
      cases h
      exact .subscription id config (by simpa using hbound) (contains_eq_false hfree)

theorem createSchema_provides {config created : SchemaConfig}
    (h : s.createSchema (Resource.schema.nameOf project id) config = .ok (created, s')) :
    s.Provides project s' := by
  unfold createSchema at h
  split at h
  · cases h
  · next hfree =>
    cases h
    exact .schema id config (contains_eq_false hfree)

theorem publish_same {topicId messageId : String} {content : OutgoingMessage}
    (h : s.publish name topicId messageId content = .ok s') : s.SameResources s' := by
  unfold publish at h
  split at h
  · cases h
    refine ⟨rfl, fun key => ?_, rfl⟩
    unfold subscription?
    rw [find?_fanOut]
    cases s.queues.find? key with
    | none => rfl
    | some q =>
      simp only [Option.map_some]
      split <;> rfl
  · cases h

theorem lease_same {leased : String × StoredMessage} (h : s.lease name = some (leased, s')) :
    s.SameResources s' := by
  unfold lease at h
  split at h
  · cases h
  · next q hq =>
    split at h
    · cases h
    · next m rest hp =>
      cases h
      have hmodify := same_modify name (fun q =>
        { q with pending := rest, outstanding := q.outstanding ++ [(ackId m.id s.nextLease, m)] }) s
        fun _ => rfl
      exact ⟨rfl, hmodify.subscriptions, rfl⟩

theorem settle_same (name ackId : String) (s : Store) : s.SameResources (s.settle name ackId) :=
  same_modify name (·.settle ackId) s fun _ => rfl

theorem requeue_same (name ackId : String) (s : Store) : s.SameResources (s.requeue name ackId) :=
  same_modify name (·.requeue ackId) s (Queue.requeue_config ackId)

end Store

namespace Emulator

open Store

variable {σ α : Type} {e e' : Emulator σ}

/-- The project stays, and of its resources no more than one is new. -/
def Provides (e e' : Emulator σ) : Prop :=
  e'.project = e.project ∧ e.store.Provides e.project e'.store

theorem Provides.same (hproject : e'.project = e.project) (h : e.store.SameResources e'.store) :
    Provides e e' :=
  ⟨hproject, .same h⟩

theorem Provides.of_eq (hproject : e'.project = e.project) (hstore : e'.store = e.store) :
    Provides e e' :=
  .same hproject (by rw [hstore]; exact .refl _)

theorem guarded_provides {request : Request}
    {serve : Emulator σ → Except BrokerError α × Emulator σ}
    (h : ∀ world, Provides e (serve { e with world }).2) :
    Provides e (guarded request serve e).2 :=
  guarded_keeps (P := Provides e) (fun _ => .of_eq rfl rfl) h

/-- A request that only looks something up. -/
theorem look_provides {request : Request} {serve : Emulator σ → Except BrokerError α × Emulator σ}
    (h : ∀ e, (serve e).2 = e) : Provides e (guarded request serve e).2 :=
  guarded_provides fun world => by
    rw [h]
    exact .of_eq rfl rfl

theorem served_provides {change : Store → Except BrokerError Store}
    (h : ∀ s', change e.store = .ok s' → e.store.Provides e.project s') :
    Provides e (served change e).2 := by
  unfold served
  split
  · next s' hs => exact ⟨rfl, h s' hs⟩
  · exact .of_eq rfl rfl

theorem publish_provides (topicId : String) (content : OutgoingMessage) (e : Emulator σ) :
    Provides e (e.publish topicId content).2 := by
  -- The number of the message is used up before the request is shown to anybody.
  refine guarded_keeps (P := Provides e) (fun _ => .same rfl ⟨rfl, fun _ => rfl, rfl⟩)
    fun world => ?_
  unfold served
  dsimp only
  split
  · next store hstore =>
    obtain ⟨htopics, hsubscriptions, hschemas⟩ := publish_same hstore
    exact .same rfl ⟨htopics, hsubscriptions, hschemas⟩
  · exact .same rfl ⟨rfl, fun _ => rfl, rfl⟩

theorem submit_provides (handle : Nat) (content : OutgoingMessage) (e : Emulator σ) :
    Provides e (e.submit handle content).2 := by
  unfold submit
  split
  · exact .of_eq rfl rfl
  · split
    · exact .of_eq rfl rfl
    · split
      · exact .of_eq rfl rfl
      · exact publish_provides _ _ e

theorem lease_provides (name : String) (e : Emulator σ) : Provides e (e.lease name).2 := by
  unfold lease
  split
  · exact .of_eq rfl rfl
  · next ackId m store h => exact .same rfl (lease_same h)

theorem acknowledge_provides (name ackId : String) (e : Emulator σ) :
    Provides e (e.acknowledge name ackId) := by
  refine guarded_provides fun world => served_provides fun s' h => ?_
  cases h
  exact .same (settle_same name ackId e.store)

theorem modifyAckDeadline_provides (name ackId : String) (seconds : Int) (e : Emulator σ) :
    Provides e (e.modifyAckDeadline name ackId seconds) := by
  refine guarded_provides fun world => served_provides fun s' h => ?_
  cases h
  split
  · exact .same (requeue_same name ackId e.store)
  · exact .same (.refl _)

theorem once_provides {act : Delivery → Emulator σ → Emulator σ} (h : ∀ d e, Provides e (act d e))
    (delivery : Nat) (e : Emulator σ) : Provides e (once delivery act e) := by
  rw [once_eq]
  split
  · exact .of_eq rfl rfl
  · next d _ => exact h d (e.marked delivery)

theorem stop_provides [Log.Journal σ] (handle : Nat) (e : Emulator σ) :
    Provides e (e.stop handle) := by
  unfold stop
  split
  · exact .of_eq rfl rfl
  · split <;> exact .of_eq rfl rfl

end Emulator

namespace Call

open Store

variable {σ : Type} [Log.Journal σ]

/-- **A call creates one resource at the most, under a name that is free, and changes none.** -/
theorem provides (e : Emulator σ) (c : Call σ) : Emulator.Provides e (c.run e) := by
  cases c with
  | addReactor r => exact .of_eq rfl rfl
  | findTopic id => exact Emulator.look_provides fun _ => rfl
  | createTopic id config =>
    exact Emulator.guarded_provides fun world =>
      Emulator.served_provides fun s' h => createTopic_provides h
  | findSubscription id => exact Emulator.look_provides fun _ => rfl
  | createSubscription id config =>
    exact Emulator.guarded_provides fun world =>
      Emulator.served_provides fun s' h => createSubscription_provides h
  | schema reference => exact Emulator.look_provides fun _ => by split <;> rfl
  | createSchema id config =>
    refine Emulator.guarded_provides fun world => ?_
    dsimp only
    split
    · next created store h => exact ⟨rfl, createSchema_provides h⟩
    · exact .of_eq rfl rfl
  | openTopic id => exact .of_eq rfl rfl
  | configure handle settings ordering => exact .of_eq rfl rfl
  | publish topicId content => exact Emulator.publish_provides topicId content e
  | submit handle content => exact Emulator.submit_provides handle content e
  | stop handle => exact Emulator.stop_provides handle e
  | pull name => exact Emulator.look_provides fun _ => by split <;> rfl
  | lease name => exact Emulator.lease_provides name e
  | acknowledge name ackId => exact Emulator.acknowledge_provides name ackId e
  | modifyAckDeadline name ackId seconds =>
    exact Emulator.modifyAckDeadline_provides name ackId seconds e
  | ack delivery => exact Emulator.once_provides (fun _ => Emulator.acknowledge_provides _ _) _ e
  | nack delivery =>
    exact Emulator.once_provides (fun _ => Emulator.modifyAckDeadline_provides _ _ 0) _ e

end Call

end Messaging
