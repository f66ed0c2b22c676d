import Messaging.Service.Start

/-! # What the service does to its broker

The service reaches its broker by the operations of a client only. So a relation on the states of
the broker that the operations keep to holds between the states before and after everything that the
service does. `Client.Within` is about the operations that create topics and subscriptions and
receive; submitting messages and stopping handles are assumptions of their own where they are
needed, since they do more. `Client.WithinAll` is about every operation, those for preparing
resources and for checking health included. The creation of a topic opens its handle
(`createTopic_opens`) and, like that of a subscription, leaves the registries as they are
(`Service.SameRegistries`); a topic that is registered keeps its handle (`Registry.handle?`). What
is in the registries is found there by every client (`topic_of_registered`,
`subscription_of_registered`). -/

namespace Messaging

variable {σ : Type} [Log.Journal σ]

/-- The operations of a client that the service uses keep to a relation on states. -/
structure Client.Within (c : Client σ) (R : σ → σ → Prop) : Prop where
  refl : ∀ s, R s s
  trans : ∀ {s s' s''}, R s s' → R s' s'' → R s s''
  note : ∀ entry s, R s (Log.note entry s)
  topicConfig : ∀ id s, R s (c.topicConfig id s).2
  subscriptionConfig : ∀ id s, R s (c.subscriptionConfig id s).2
  schema : ∀ reference s, R s (c.schema reference s).2
  openTopic : ∀ id s, R s (c.openTopic id s).2
  configure : ∀ handle settings ordering s, R s (c.configure handle settings ordering s)
  pull : ∀ name s, R s (c.pull name s).2

/-- All operations of a client keep to a relation on states. -/
structure Client.WithinAll (c : Client σ) (R : σ → σ → Prop) : Prop extends c.Within R where
  topicExists : ∀ id s, R s (c.topicExists id s).2
  createTopic : ∀ id config s, R s (c.createTopic id config s).2
  subscriptionExists : ∀ id s, R s (c.subscriptionExists id s).2
  createSubscription : ∀ id config s, R s (c.createSubscription id config s).2
  createSchema : ∀ id config s, R s (c.createSchema id config s).2
  submit : ∀ handle content s, R s (c.submit handle content s).2
  stop : ∀ handle s, R s (c.stop handle s)

namespace SchemaCache

variable {fetch : String → σ → Except BrokerError SchemaConfig × σ} {reference : String}
  {cache : SchemaCache} {s : σ}

theorem get_of_some {config : SchemaConfig}
    (h : Table.find? cache (schemaId reference) = some config) :
    cache.get fetch reference s = (.ok config, cache, s) := by
  simp only [get, h]

theorem get_of_none (h : Table.find? cache (schemaId reference) = none) :
    cache.get fetch reference s =
      answered (schemaId reference) (fetch (schemaId reference) s).1 cache
        (fetch (schemaId reference) s).2 := by
  simp only [get, h]

end SchemaCache

namespace Registry

variable {α : Type} {r : Registry α} {id : String}

theorem has_of_some {a : α} (h : r.entries.find? id = some a) : r.has id = true := by
  rw [has, Table.contains, h, Option.isSome_some]

theorem has_of_none (h : r.entries.find? id = none) : r.has id = false := by
  rw [has, Table.contains, h, Option.isSome_none]

/-! ### The handles of topics -/

/-- The number of the handle of the topic that is registered under an id. -/
def handle? (id : String) (r : Registry Topic) : Option Nat := (r.entries.find? id).map Topic.handle

variable {topics : Registry Topic} {key : String} {n : Nat}

theorem handle?_eq_some :
    topics.handle? id = some n ↔ ∃ t, topics.entries.find? id = some t ∧ t.handle = n :=
  Option.map_eq_some_iff

theorem has_iff_handle? : topics.has id = true ↔ ∃ n, topics.handle? id = some n := by
  rw [← Option.isSome_iff_exists, handle?, Option.isSome_map]
  rfl

theorem has_eq_false_iff_handle? : topics.has id = false ↔ topics.handle? id = none := by
  simp [has, Table.contains, handle?]

theorem handle?_add (t : Topic) :
    (topics.add key t).handle? id = if id = key then some t.handle else topics.handle? id := by
  by_cases hk : id = key <;> simp [handle?, add, Table.find?_insert, hk]

/-- Registering a topic again that has the handle of the one before changes no handle. -/
theorem handle?_add_again {t : Topic} (h : topics.handle? key = some t.handle) :
    (topics.add key t).handle? id = topics.handle? id := by
  rw [handle?_add]
  split
  · next hk => rw [hk, h]
  · rfl

end Registry

namespace Service

variable {c : Client σ} {R : σ → σ → Prop} {s : Service σ} {id : String}

theorem cache_within (hc : c.Within R) (reference : String) (cache : SchemaCache) (s : σ) :
    R s (cache.get c.schema reference s).2.2 := by
  cases hf : Table.find? cache (schemaId reference) with
  | some config =>
    rw [SchemaCache.get_of_some hf]
    exact hc.refl s
  | none =>
    rw [SchemaCache.get_of_none hf]
    have h := hc.schema (schemaId reference) s
    cases (c.schema (schemaId reference) s).1 with
    | error e => exact h
    | ok config => exact hc.trans h (hc.note _ _)

theorem schema_within (hc : c.Within R) (reference : String) (s : Service σ) :
    R s.broker (s.schema c reference).2.broker :=
  cache_within hc reference s.schemas s.broker

theorem codec_within (hc : c.Within R) (r : Resource) (id : String)
    (settings : Option SchemaSettings) (s : Service σ) :
    R s.broker (s.codec c r id settings).2.broker := by
  unfold codec
  dsimp only
  split
  · exact hc.refl _
  · next settings _ =>
    have h := schema_within hc settings.schema s
    rcases hr : s.schema c settings.schema with ⟨_ | config, s'⟩ <;> rw [hr] at h <;> exact h

/-- Two states of the service have the same topics and subscriptions in their registries. -/
structure SameRegistries (s s' : Service σ) : Prop where
  topics : s'.topics = s.topics
  subscriptions : s'.subscriptions = s.subscriptions

theorem codec_same (r : Resource) (id : String) (settings : Option SchemaSettings)
    (s : Service σ) : s.SameRegistries (s.codec c r id settings).2 := by
  unfold codec
  dsimp only
  split
  · exact ⟨rfl, rfl⟩
  · next settings _ =>
    have h : s.SameRegistries (s.schema c settings.schema).2 := ⟨rfl, rfl⟩
    rcases hr : s.schema c settings.schema with ⟨_ | config, s'⟩ <;> rw [hr] at h <;> exact h

/-! ### Topics -/

theorem createTopic_within (hc : c.Within R) (id : String) (s : Service σ) :
    R s.broker (s.createTopic c id).2.broker := by
  unfold createTopic
  have ht := hc.topicConfig id s.broker
  rcases hr : c.topicConfig id s.broker with ⟨_ | config, broker⟩ <;> rw [hr] at ht
  · exact ht
  · have h := codec_within hc .topic id config.schemaSettings { s with broker }
    dsimp only
    rcases hr' : codec c .topic id config.schemaSettings { s with broker } with
      ⟨_ | codec, s'⟩ <;> rw [hr'] at h
    · exact hc.trans ht h
    · exact hc.trans ht (hc.trans h (hc.trans (hc.openTopic id s'.broker) (hc.note _ _)))

theorem createTopic_same (id : String) (s : Service σ) :
    s.SameRegistries (s.createTopic c id).2 := by
  unfold createTopic
  rcases c.topicConfig id s.broker with ⟨_ | config, broker⟩
  · exact ⟨rfl, rfl⟩
  · have h := codec_same (c := c) .topic id config.schemaSettings { s with broker }
    dsimp only
    rcases hr : codec c .topic id config.schemaSettings { s with broker } with
      ⟨_ | codec, s'⟩ <;> rw [hr] at h <;> exact ⟨h.topics, h.subscriptions⟩

/-- A topic that is created has the number of a handle that was opened for it on the way. -/
theorem createTopic_opens (hc : c.Within R) {id : String} {s s' : Service σ} {t : Topic}
    (h : s.createTopic c id = (.ok t, s')) :
    ∃ b, R s.broker b ∧ t.handle = (c.openTopic id b).1 ∧ R (c.openTopic id b).2 s'.broker := by
  unfold createTopic at h
  have ht := hc.topicConfig id s.broker
  rcases hr : c.topicConfig id s.broker with ⟨_ | config, broker⟩ <;> rw [hr] at ht h
  · cases h
  · have hcodec := codec_within hc .topic id config.schemaSettings { s with broker }
    dsimp only at h
    rcases hr' : codec c .topic id config.schemaSettings { s with broker } with
      ⟨_ | codec, s₁⟩ <;> rw [hr'] at hcodec h
    · cases h
    · cases h
      exact ⟨s₁.broker, hc.trans ht hcodec, rfl, hc.note _ _⟩

theorem topic_of_registered {t : Topic} (h : s.topics.entries.find? id = some t) (c : Client σ) :
    s.topic c id = (.ok t, s) := by
  rw [topic, if_pos (Registry.has_of_some h), Registry.get, h]
  rfl

theorem publish_of_registered {t : Topic} (h : s.topics.entries.find? id = some t) (c : Client σ)
    (p : Payload) (o : PublishOptions) : s.publish c id p o = s.publishOn c id t p o := by
  rw [publish, topic_of_registered h]

theorem topic_of_new (h : s.topics.entries.find? id = none) : s.topic c id = s.newTopic c id := by
  rw [topic, Registry.has_of_none h, if_neg Bool.false_ne_true]

theorem newTopic_within (hc : c.Within R) (id : String) (s : Service σ) :
    R s.broker (s.newTopic c id).2.broker := by
  unfold newTopic
  have h := createTopic_within hc id s
  rcases hr : s.createTopic c id with ⟨_ | t, s'⟩ <;> rw [hr] at h
  · exact h
  · exact hc.trans h (hc.note _ _)

theorem topic_within (hc : c.Within R) (id : String) (s : Service σ) :
    R s.broker (s.topic c id).2.broker := by
  unfold topic
  split
  · exact hc.refl _
  · exact newTopic_within hc id s

theorem withOptions_within (hc : c.Within R) (o : PublishOptions) (t : Topic) (s : σ) :
    R s (t.withOptions c o s).2 :=
  hc.configure _ _ _ _

/-! ### Publishing -/

section Publishing

variable (hsubmit : ∀ handle content s, R s (c.submit handle content s).2)
include hsubmit

theorem topicPublish_within (hc : c.Within R) (p : Payload) (o : PublishOptions) (t : Topic)
    (s : σ) : R s (t.publish c p o s).2.2 := by
  unfold Topic.publish
  split
  · exact hc.refl s
  · exact hc.trans (withOptions_within hc o t s) (hc.trans (hc.note _ _) (hsubmit _ _ _))

theorem publishOn_within (hc : c.Within R) (id : String) (t : Topic) (p : Payload)
    (o : PublishOptions) (s : Service σ) : R s.broker (s.publishOn c id t p o).2.broker :=
  topicPublish_within hsubmit hc p o t s.broker

theorem publish_within (hc : c.Within R) (id : String) (p : Payload) (o : PublishOptions)
    (s : Service σ) : R s.broker (s.publish c id p o).2.broker := by
  unfold publish
  have h := topic_within hc id s
  rcases hr : s.topic c id with ⟨_ | t, s'⟩ <;> rw [hr] at h
  · exact h
  · exact hc.trans h (publishOn_within hsubmit hc id t p o s')

end Publishing

theorem topicOptions_within (hc : c.Within R) (id : String) (o : PublishOptions) (s : Service σ) :
    R s.broker (s.topicOptions c id o).2.broker := by
  unfold topicOptions
  split
  · exact hc.refl _
  · exact withOptions_within hc o _ s.broker

theorem stop_within (hc : c.Within R) (hstop : ∀ handle s, R s (c.stop handle s))
    (s : Service σ) : R s.broker (s.stop c).broker := by
  unfold stop
  generalize s.topics.entries = entries
  induction entries generalizing s with
  | nil => exact hc.refl _
  | cons e rest ih =>
    rw [List.foldl_cons]
    exact hc.trans (hc.trans (hc.note (stoppingEntry e.1) s.broker) (hstop e.2.handle _))
      (ih { s with broker := c.stop e.2.handle (Log.note (stoppingEntry e.1) s.broker) })

theorem stop_topics (s : Service σ) : (s.stop c).topics = s.topics := by
  unfold stop
  generalize s.topics.entries = entries
  induction entries generalizing s with
  | nil => rfl
  | cons e rest ih =>
    rw [List.foldl_cons, ih { s with
      broker := c.stop e.2.handle (Log.note (stoppingEntry e.1) s.broker) }]

/-! ### Receiving -/

theorem createSubscription_within (hc : c.Within R) (id : String) (s : Service σ) :
    R s.broker (s.createSubscription c id).2.broker := by
  unfold createSubscription
  have hs := hc.subscriptionConfig id s.broker
  rcases hr : c.subscriptionConfig id s.broker with ⟨_ | config, broker⟩ <;> rw [hr] at hs
  · exact hs
  · dsimp only
    have ht := hc.topicConfig config.topic broker
    rcases hr' : c.topicConfig config.topic broker with ⟨_ | topic, broker'⟩ <;> rw [hr'] at ht
    · exact hc.trans hs ht
    · dsimp only
      have h := codec_within hc .subscription id topic.schemaSettings { s with broker := broker' }
      rcases hr'' : codec c .subscription id topic.schemaSettings { s with broker := broker' } with
        ⟨_ | codec, s'⟩ <;> rw [hr''] at h
      · exact hc.trans hs (hc.trans ht h)
      · exact hc.trans hs (hc.trans ht (hc.trans h (hc.note _ _)))

theorem createSubscription_same (id : String) (s : Service σ) :
    s.SameRegistries (s.createSubscription c id).2 := by
  unfold createSubscription
  rcases c.subscriptionConfig id s.broker with ⟨_ | config, broker⟩
  · exact ⟨rfl, rfl⟩
  · dsimp only
    rcases c.topicConfig config.topic broker with ⟨_ | topic, broker'⟩
    · exact ⟨rfl, rfl⟩
    · dsimp only
      have h := codec_same (c := c) .subscription id topic.schemaSettings
        { s with broker := broker' }
      rcases hr : codec c .subscription id topic.schemaSettings { s with broker := broker' } with
        ⟨_ | codec, s'⟩ <;> rw [hr] at h <;> exact ⟨h.topics, h.subscriptions⟩

theorem subscription_of_registered {sub : Subscription}
    (h : s.subscriptions.entries.find? id = some sub) (c : Client σ) :
    s.subscription c id = (.ok sub, s) := by
  rw [subscription, if_pos (Registry.has_of_some h), Registry.get, h]
  rfl

theorem subscription_of_new (h : s.subscriptions.entries.find? id = none) :
    s.subscription c id = s.newSubscription c id := by
  rw [subscription, Registry.has_of_none h, if_neg Bool.false_ne_true]

theorem subscription_within (hc : c.Within R) (id : String) (s : Service σ) :
    R s.broker (s.subscription c id).2.broker := by
  unfold subscription
  split
  · exact hc.refl _
  · unfold newSubscription
    have h := createSubscription_within hc id s
    rcases hr : s.createSubscription c id with ⟨_ | sub, s'⟩ <;> rw [hr] at h
    · exact h
    · exact hc.trans h (hc.note _ _)

theorem subscription_topics (id : String) (s : Service σ) :
    (s.subscription c id).2.topics = s.topics := by
  unfold subscription
  split
  · rfl
  · unfold newSubscription
    have h := (createSubscription_same (c := c) id s).topics
    rcases hr : s.createSubscription c id with ⟨_ | sub, s'⟩ <;> rw [hr] at h <;> exact h

theorem receive_within (hc : c.Within R) (sub : Subscription) (s : σ) :
    R s (sub.receive c s).2 := by
  unfold Subscription.receive
  have hn := hc.note sub.receiveEntry s
  have hp := hc.pull (c.nameOf .subscription sub.id) (Log.note sub.receiveEntry s)
  rcases hr : c.pull (c.nameOf .subscription sub.id) (Log.note sub.receiveEntry s) with
    ⟨_ | _, s'⟩ <;> rw [hr] at hp <;> exact hc.trans hn hp

theorem subscribe_within (hc : c.Within R) (id : String) (o : ReceiveOptions) (s : Service σ) :
    R s.broker (s.subscribe c id o).2.broker := by
  unfold subscribe
  have h := subscription_within hc id s
  rcases hr : s.subscription c id with ⟨_ | sub, s'⟩ <;> rw [hr] at h
  · exact h
  · exact hc.trans h (receive_within hc (sub.withOptions o) s'.broker)

theorem subscribe_topics (id : String) (o : ReceiveOptions) (s : Service σ) :
    (s.subscribe c id o).2.topics = s.topics := by
  unfold subscribe
  have h := subscription_topics (c := c) id s
  rcases hr : s.subscription c id with ⟨_ | sub, s'⟩ <;> rw [hr] at h <;> exact h

end Service

/-! ### Preparation -/

namespace Preparation

variable {c : Client σ} {R : σ → σ → Prop}

theorem prepare_within (hc : c.WithinAll R) {α : Type} (r : Resource) (id : String)
    (fields : α → List (String × String)) {create : σ → Except BrokerError α × σ} {s : σ}
    (h : R s (create s).2) : R s (prepare r id fields create s).2 := by
  unfold prepare
  rcases hr : create s with ⟨_ | created, s'⟩ <;> rw [hr] at h
  · exact h
  · exact hc.trans h (hc.note _ _)

theorem schema_within (hc : c.WithinAll R) (spec : ResourceSpec SchemaConfig) (s : σ) :
    R s (schema c spec s).2 :=
  prepare_within hc _ _ _ (hc.createSchema _ _ s)

theorem topic_within (hc : c.WithinAll R) (spec : ResourceSpec TopicConfig) (s : σ) :
    R s (topic c spec s).2 :=
  prepare_within hc _ _ _ (hc.createTopic _ _ s)

theorem subscription_within (hc : c.WithinAll R) (topicId : String)
    (spec : ResourceSpec SubscriptionConfig) (s : σ) : R s (subscription c topicId spec s).2 :=
  prepare_within hc _ _ _ (hc.createSubscription _ _ s)

theorem schemas_within (hc : c.WithinAll R) (files : Files) (entries : List SchemaEntry)
    (names : Table String) (s : σ) : R s (schemas c files entries names s).2 := by
  induction entries generalizing names s with
  | nil => exact hc.refl s
  | cons entry rest ih =>
    unfold schemas
    cases entry.toConfig files with
    | error e => exact hc.refl s
    | ok config =>
      have h := schema_within hc { id := entry.id, config } s
      dsimp only
      rcases hr : schema c { id := entry.id, config } s with ⟨_ | created, s'⟩ <;> rw [hr] at h
      · exact h
      · exact hc.trans h (ih _ s')

theorem topics_within (hc : c.WithinAll R) (names : Table String) (entries : List TopicEntry)
    (s : σ) : R s (topics c names entries s).2 := by
  induction entries generalizing s with
  | nil => exact hc.refl s
  | cons entry rest ih =>
    unfold topics
    have h := topic_within hc
      { id := entry.id, config := entry.toConfig (entry.schema.bind names.find?) } s
    dsimp only
    rcases hr : topic c
      { id := entry.id, config := entry.toConfig (entry.schema.bind names.find?) } s with
      ⟨_ | _, s'⟩ <;> rw [hr] at h
    · exact h
    · exact hc.trans h (ih s')

theorem subscriptions_within (hc : c.WithinAll R) (topicIds : List String)
    (entries : List SubscriptionEntry) (s : σ) : R s (subscriptions c topicIds entries s).2 := by
  induction entries generalizing s with
  | nil => exact hc.refl s
  | cons entry rest ih =>
    unfold subscriptions
    split
    · have h := subscription_within hc entry.topic { id := entry.id, config := entry.toConfig } s
      rcases hr : subscription c entry.topic { id := entry.id, config := entry.toConfig } s with
        ⟨_ | _, s'⟩ <;> rw [hr] at h
      · exact h
      · exact hc.trans h (ih s')
    · exact hc.refl s

theorem all_within (hc : c.WithinAll R) (files : Files) (config : Configuration) (s : σ) :
    R s (all c files config s).2 := by
  unfold all
  have hs := schemas_within hc files config.schemas [] s
  rcases hr : schemas c files config.schemas [] s with ⟨_ | names, s'⟩ <;> rw [hr] at hs
  · exact hs
  · have ht := topics_within hc names config.topics s'
    dsimp only
    rcases hr' : topics c names config.topics s' with ⟨_ | _, s''⟩ <;> rw [hr'] at ht
    · exact hc.trans hs ht
    · exact hc.trans hs (hc.trans ht (subscriptions_within hc _ _ s''))

end Preparation

/-! ### Health -/

namespace Probe

variable {c : Client σ} {R : σ → σ → Prop}

theorem ask_within (hc : c.Within R) {look : String → σ → Except BrokerError Bool × σ}
    (hlook : ∀ id s, R s (look id s).2) (ids : List String) (s : σ) :
    R s (ask look ids s).2 := by
  induction ids generalizing s with
  | nil => exact hc.refl s
  | cons id rest ih => exact hc.trans (hlook id s) (ih _)

theorem check_within (hc : c.WithinAll R) (p : Probe) (s : σ) : R s (p.check c s).2 := by
  unfold check
  cases p.resource with
  | subscription => exact ask_within hc.toWithin hc.subscriptionExists _ s
  | topic => exact ask_within hc.toWithin hc.topicExists _ s
  | schema => exact ask_within hc.toWithin hc.topicExists _ s

theorem checkAll_within (hc : c.WithinAll R) (probes : List Probe) (s : σ) :
    R s (checkAll c probes s).2 := by
  induction probes generalizing s with
  | nil => exact hc.refl s
  | cons p rest ih => exact hc.trans (check_within hc p s) (ih _)

end Probe

end Messaging
