import Messaging.Proofs.Broker.Operations
import Messaging.Proofs.Broker.Retained
import Messaging.Proofs.Service.Stopping

/-! # Publishers and subscribers agree on the codec

The codec of a topic and the codec of a subscription to it are made at different times, each when it
is first used, from the schema settings of the topic and the schema that they name. The emulator
retains the settings, and the cache of the service retains the schema that it was given first, so
both codecs are made from the same things (`codecs_agree`), even if the schema service never answers
twice alike.

`Service.Agreed` is the invariant: what is registered has the codec that the topic's settings and
the cache ask for now (`Service.IsCodecOf`). That they ask for it still after whatever is done next
is `IsCodecOf.retains`. -/

namespace Messaging

open Emulator

variable {σ : Type}

/-! ### Any schema service -/

/-- A schema service that answers as it likes, each time anew. Before it does, others may make calls
of the emulator; it does nothing else to it but remember something. -/
structure SchemaService (σ : Type) [Log.Journal σ] where
  fetch : String → Emulator σ → Except BrokerError SchemaConfig × Emulator σ
  create : String → SchemaConfig → Emulator σ → Except BrokerError SchemaConfig × Emulator σ
  fetch_calls : ∀ id e, ∃ calls world, (fetch id e).2 = { Call.runs calls e with world }
  create_calls : ∀ id config e, ∃ calls world,
    (create id config e).2 = { Call.runs calls e with world }

/-- A client of the emulator that has its schemas from elsewhere. -/
def SchemaService.client [Log.Journal σ] (service : SchemaService σ) (project : String) :
    Client (Emulator σ) :=
  { Emulator.client project with schema := service.fetch, createSchema := service.create }

/-- Something that is done with the service or, by others, to the emulator. -/
inductive Action (σ : Type) where
  | use (u : Use σ)
  | receiveOptions (id : String) (o : ReceiveOptions)
  | schema (reference : String)
  | prepare (files : Files)
  | health
  | shutdown

namespace Action

variable [Log.Journal σ]

/-- The service after an action. -/
def run (c : Client (Emulator σ)) (s : Service (Emulator σ)) : Action σ → Service (Emulator σ)
  | use u => u.run c s
  | receiveOptions id o => (s.subscriptionOptions id o).2
  | schema reference => (s.schema c reference).2
  | prepare files => (s.prepare c files).2
  | health => (s.health c).2
  | shutdown => s.shutdown c

/-- The service after actions, one after the other. -/
def runs (c : Client (Emulator σ)) (actions : List (Action σ)) (s : Service (Emulator σ)) :
    Service (Emulator σ) :=
  actions.foldl (run c) s

end Action

theorem mapError_eq_ok {ε ε' α : Type} {f : ε → ε'} {r : Except ε α} {a : α} :
    r.mapError f = .ok a ↔ r = .ok a := by
  cases r <;> simp [Except.mapError]

/-! ### What the broker retains -/

namespace Emulator

theorem Retains.of_guarded {α : Type} {request : Request}
    {serve : Emulator σ → Except BrokerError α × Emulator σ}
    (h : ∀ e, (serve e).2 = e) (e : Emulator σ) : Retains e (guarded request serve e).2 :=
  guarded_keeps (P := Retains e) (fun _ => .of_eq rfl rfl) fun _ => by
    rw [h]
    exact .of_eq rfl rfl

theorem topicConfig_retains (id : String) (e : Emulator σ) : Retains e (e.topicConfig id).2 := by
  rw [topicConfig_eq]
  exact .of_guarded (fun _ => rfl) e

theorem subscriptionConfig_retains (id : String) (e : Emulator σ) :
    Retains e (e.subscriptionConfig id).2 := by
  rw [subscriptionConfig_eq]
  exact .of_guarded (fun _ => rfl) e

theorem topicExists_retains (id : String) (e : Emulator σ) : Retains e (e.topicExists id).2 := by
  change Retains e (e.findTopic id).2
  exact .of_guarded (fun _ => rfl) e

theorem subscriptionExists_retains (id : String) (e : Emulator σ) :
    Retains e (e.subscriptionExists id).2 := by
  change Retains e (e.findSubscription id).2
  exact .of_guarded (fun _ => rfl) e

theorem Retains.of_calls [Log.Journal σ] {e e' : Emulator σ}
    (h : ∃ calls world, e' = { Call.runs calls e with world }) : Retains e e' := by
  obtain ⟨calls, world, rfl⟩ := h
  exact (Call.retains_runs calls e).trans (.of_eq rfl rfl)

/-- What a request finds under a name is stored. -/
theorem stored_of_found {α : Type} {r : Resource} {request : Request} {name : String}
    (find : Store → Option α) {e e' : Emulator σ} {a : α}
    (h : guarded request (fun e => (orMissing r name (find e.store), e)) e = (.ok a, e')) :
    find e'.store = some a ∧ e'.project = e.project := by
  rcases guarded_cases request (fun e => (orMissing r name (find e.store), e)) e with
    ⟨-, error, world, hg⟩ | ⟨-, world, hg⟩ <;> rw [hg] at h
  · cases h
  · cases hf : find e.store with
    | none =>
      simp only [hf, orMissing] at h
      cases h
    | some found =>
      simp only [hf, orMissing] at h
      cases h
      exact ⟨hf, rfl⟩

/-- The configuration that a topic is said to have is stored. -/
theorem topicConfig_ok {id : String} {e e' : Emulator σ} {config : TopicConfig}
    (h : e.topicConfig id = (.ok config, e')) :
    e'.store.topics.find? (e'.nameOf .topic id) = some config := by
  rw [topicConfig_guarded] at h
  obtain ⟨hstored, hproject⟩ := stored_of_found (·.topics.find? (e.nameOf .topic id)) h
  rwa [nameOf, hproject]

/-- The configuration that a subscription is said to have is stored. -/
theorem subscriptionConfig_ok {id : String} {e e' : Emulator σ} {config : SubscriptionConfig}
    (h : e.subscriptionConfig id = (.ok config, e')) :
    e'.store.subscription? (e'.nameOf .subscription id) = some config := by
  rw [subscriptionConfig_guarded] at h
  obtain ⟨hstored, hproject⟩ := stored_of_found (·.subscription? (e.nameOf .subscription id)) h
  rwa [nameOf, hproject]

end Emulator

theorem SchemaService.retains [Log.Journal σ] (service : SchemaService σ) (project : String) :
    (service.client project).WithinAll Retains where
  refl := .refl
  trans h h' := h.trans h'
  note _ _ := .of_eq rfl rfl
  topicConfig := topicConfig_retains
  subscriptionConfig := subscriptionConfig_retains
  schema id e := .of_calls (service.fetch_calls id e)
  openTopic id e := (Call.openTopic id).retains e
  configure handle settings ordering e := (Call.configure handle settings ordering).retains e
  pull name e := (Call.pull name).retains e
  topicExists := topicExists_retains
  createTopic id config e := (Call.createTopic id config).retains e
  subscriptionExists := subscriptionExists_retains
  createSubscription id config e := (Call.createSubscription id config).retains e
  createSchema id config e := .of_calls (service.create_calls id config e)
  submit handle content e := (Call.submit handle content).retains e
  stop handle e := (Call.stop handle).retains e

/-! ### What the cache retains -/

namespace SchemaCache

variable [Log.Journal σ] {fetch : String → σ → Except BrokerError SchemaConfig × σ}

/-- A schema that is looked up is added only if it is not there. -/
theorem get_extends (reference : String) (cache : SchemaCache) (s : σ) :
    Table.Extends cache (cache.get fetch reference s).2.1 := by
  cases hf : Table.find? cache (schemaId reference) with
  | some config =>
    rw [get_of_some hf]
    exact .refl cache
  | none =>
    rw [get_of_none hf]
    cases (fetch (schemaId reference) s).1 with
    | error e => exact .refl cache
    | ok config => exact .insert hf config

/-- A schema that has been looked up is there. -/
theorem get_found {reference : String} {cache : SchemaCache} {s : σ} {config : SchemaConfig}
    (h : (cache.get fetch reference s).1 = .ok config) :
    Table.find? (cache.get fetch reference s).2.1 (schemaId reference) = some config := by
  cases hf : Table.find? cache (schemaId reference) with
  | some config' =>
    rw [get_of_some hf] at h ⊢
    cases h
    exact hf
  | none =>
    rw [get_of_none hf] at h ⊢
    cases hr : (fetch (schemaId reference) s).1 with
    | error e => simp [answered, hr] at h
    | ok config' =>
      simp only [answered, hr, Except.ok.injEq] at h ⊢
      rw [Table.find?_insert, if_pos rfl, h]

/-- What a codec is made from by the schema settings of a topic, if their schema is in the cache. -/
def source? (cache : SchemaCache) (settings : Option SchemaSettings) :
    Option (SchemaKind × Encoding × String) :=
  match settings.filter fun settings => settings.schema ≠ "" with
  | none => some (.unspecified, .unspecified, "")
  | some settings =>
    (Table.find? cache (schemaId settings.schema)).map fun config =>
      (config.kind, settings.encoding, config.definition)

theorem source?_extends {cache cache' : SchemaCache} (h : Table.Extends cache cache')
    {settings : Option SchemaSettings} {source : SchemaKind × Encoding × String}
    (hs : cache.source? settings = some source) : cache'.source? settings = some source := by
  unfold source? at hs ⊢
  split <;> rename_i hst <;> rw [hst] at hs
  · exact hs
  · obtain ⟨config, hc, hsource⟩ := Option.map_eq_some_iff.mp hs
    exact Option.map_eq_some_iff.mpr ⟨config, h _ _ hc, hsource⟩

end SchemaCache

/-! ### What the service retains -/

namespace Service

variable {s s' s'' : Service (Emulator σ)} {id : String} {codec codec' : Codec}

/-- The topics and subscriptions of the broker and the schemas in the cache stay as they are. -/
structure Retains (s s' : Service (Emulator σ)) : Prop where
  broker : s.broker.Retains s'.broker
  schemas : Table.Extends s.schemas s'.schemas

/-- The service retains what it has, and its registries are as before. -/
structure Advances (s s' : Service (Emulator σ)) : Prop extends Retains s s' where
  topics : s'.topics = s.topics
  subscriptions : s'.subscriptions = s.subscriptions

theorem Retains.trans (h : Retains s s') (h' : Retains s' s'') : Retains s s'' :=
  ⟨h.broker.trans h'.broker, h.schemas.trans h'.schemas⟩

theorem Advances.trans (h : Advances s s') (h' : Advances s' s'') : Advances s s'' :=
  ⟨h.toRetains.trans h'.toRetains, h'.topics.trans h.topics,
    h'.subscriptions.trans h.subscriptions⟩

theorem Retains.of_broker {broker : Emulator σ} (h : s.broker.Retains broker) :
    Retains s { s with broker } :=
  ⟨h, .refl _⟩

theorem Advances.of_broker {broker : Emulator σ} (h : s.broker.Retains broker) :
    Advances s { s with broker } :=
  ⟨.of_broker h, rfl, rfl⟩

theorem Advances.refl (s : Service (Emulator σ)) : Advances s s := .of_broker (.refl _)

/-- The codec is the one that is made for the topic of an id, whose schema is in the cache. -/
def IsCodecOf (id : String) (codec : Codec) (s : Service (Emulator σ)) : Prop :=
  ∃ config kind encoding definition,
    s.broker.store.topics.find? (s.broker.nameOf .topic id) = some config ∧
    s.schemas.source? config.schemaSettings = some (kind, encoding, definition) ∧
    Codec.create kind encoding definition = .ok codec

theorem IsCodecOf.retains (h : s.IsCodecOf id codec) (hr : Retains s s') :
    s'.IsCodecOf id codec := by
  obtain ⟨config, kind, encoding, definition, hconfig, hsource, hcodec⟩ := h
  refine ⟨config, kind, encoding, definition, ?_, SchemaCache.source?_extends hr.schemas hsource,
    hcodec⟩
  rw [hr.broker.nameOf]
  exact hr.broker.topics _ _ hconfig

/-- Two codecs of one topic are made from the same things. -/
theorem IsCodecOf.same_source (h : s.IsCodecOf id codec) (h' : s.IsCodecOf id codec') :
    ∃ kind encoding definition, Codec.create kind encoding definition = .ok codec ∧
      Codec.create kind encoding definition = .ok codec' := by
  obtain ⟨config, kind, encoding, definition, hconfig, hsource, hcodec⟩ := h
  obtain ⟨config', kind', encoding', definition', hconfig', hsource', hcodec'⟩ := h'
  cases hconfig.symm.trans hconfig'
  cases hsource.symm.trans hsource'
  exact ⟨kind, encoding, definition, hcodec, hcodec'⟩

/-- A subscription is bound to a topic, and the codec is the one of that topic. -/
def IsCodecOfSubscription (id : String) (codec : Codec) (s : Service (Emulator σ)) : Prop :=
  ∃ config, s.broker.store.subscription? (s.broker.nameOf .subscription id) = some config ∧
    s.IsCodecOf config.topic codec

theorem IsCodecOfSubscription.retains (h : s.IsCodecOfSubscription id codec) (hr : Retains s s') :
    s'.IsCodecOfSubscription id codec := by
  obtain ⟨config, hconfig, hcodec⟩ := h
  refine ⟨config, ?_, hcodec.retains hr⟩
  rw [hr.broker.nameOf]
  exact hr.broker.subscriptions _ _ hconfig

/-- What is registered has the codec of its topic. -/
structure Agreed (s : Service (Emulator σ)) : Prop where
  topics : ∀ id t, s.topics.entries.find? id = some t → s.IsCodecOf id t.codec
  subscriptions : ∀ id sub, s.subscriptions.entries.find? id = some sub →
    s.IsCodecOfSubscription id sub.codec

namespace Agreed

theorem advances (h : s.Agreed) (ha : Advances s s') : s'.Agreed where
  topics id t ht := (h.topics id t (ha.topics ▸ ht)).retains ha.toRetains
  subscriptions id sub hs :=
    (h.subscriptions id sub (ha.subscriptions ▸ hs)).retains ha.toRetains

theorem addTopic (h : s.Agreed) {t : Topic} (ht : s.IsCodecOf id t.codec) :
    Agreed { s with topics := s.topics.add id t } where
  topics key t' ht' := by
    simp only [Registry.add, Table.find?_insert] at ht'
    split at ht'
    · next hk =>
      cases ht'
      exact hk ▸ ht
    · exact h.topics key t' ht'
  subscriptions := h.subscriptions

theorem addSubscription (h : s.Agreed) {sub : Subscription}
    (hs : s.IsCodecOfSubscription id sub.codec) :
    Agreed { s with subscriptions := s.subscriptions.add id sub } where
  topics := h.topics
  subscriptions key sub' hs' := by
    simp only [Registry.add, Table.find?_insert] at hs'
    split at hs'
    · next hk =>
      cases hs'
      exact hk ▸ hs
    · exact h.subscriptions key sub' hs'

end Agreed

/-! ### What the operations make -/

variable [Log.Journal σ] (service : SchemaService σ) (project : String)

theorem schema_advances (reference : String) (s : Service (Emulator σ)) :
    Advances s (s.schema (service.client project) reference).2 :=
  ⟨⟨schema_within (service.retains project).toWithin reference s,
    SchemaCache.get_extends reference s.schemas s.broker⟩, rfl, rfl⟩

theorem codec_advances (r : Resource) (id : String) (settings : Option SchemaSettings)
    (s : Service (Emulator σ)) :
    Advances s (s.codec (service.client project) r id settings).2 := by
  unfold Service.codec
  dsimp only
  split
  · exact .refl s
  · next settings _ =>
    have h := schema_advances service project settings.schema s
    rcases hr : s.schema (service.client project) settings.schema with ⟨_ | config, s'⟩ <;>
      rw [hr] at h <;> exact h

/-- A schema that is looked up for a topic is in the cache afterwards. -/
theorem schema_found {c : Client (Emulator σ)} {reference : String} {config : SchemaConfig}
    (h : s.schema c reference = (.ok config, s')) :
    Table.find? s'.schemas (schemaId reference) = some config := by
  obtain ⟨hr, rfl⟩ := Prod.mk.inj h
  exact SchemaCache.get_found hr

/-- A codec is made from what the cache has afterwards. -/
theorem codec_source {c : Client (Emulator σ)} {r : Resource} {settings : Option SchemaSettings}
    (h : s.codec c r id settings = (.ok codec, s')) :
    ∃ kind encoding definition, s'.schemas.source? settings = some (kind, encoding, definition) ∧
      Codec.create kind encoding definition = .ok codec := by
  unfold Service.codec at h
  unfold SchemaCache.source?
  dsimp only at h
  cases hst : settings.filter fun settings => settings.schema ≠ "" with
  | none =>
    rw [hst] at h
    exact ⟨_, _, _, rfl, mapError_eq_ok.mp (Prod.mk.inj h).1⟩
  | some st =>
    rw [hst] at h
    dsimp only at h
    rcases hr : s.schema c st.schema with ⟨e | config, s₁⟩ <;> rw [hr] at h
    · cases h
    · obtain ⟨hmade, rfl⟩ := Prod.mk.inj h
      have hfound := schema_found hr
      exact ⟨_, _, _, Option.map_eq_some_iff.mpr ⟨config, hfound, rfl⟩, mapError_eq_ok.mp hmade⟩

theorem createTopic_advances (id : String) (s : Service (Emulator σ)) :
    Advances s (s.createTopic (service.client project) id).2 := by
  have hc := (service.retains project).toWithin
  unfold createTopic
  have ht := hc.topicConfig id s.broker
  rcases hr : (service.client project).topicConfig id s.broker with ⟨_ | config, broker⟩ <;>
    rw [hr] at ht
  · exact .of_broker ht
  · have h := codec_advances service project .topic id
      config.schemaSettings { s with broker }
    dsimp only
    rcases hr' : codec (service.client project) .topic id config.schemaSettings
      { s with broker } with ⟨_ | codec, s'⟩ <;> rw [hr'] at h
    · exact (Advances.of_broker ht).trans h
    · exact (Advances.of_broker ht).trans (h.trans
        (.of_broker (hc.trans (hc.openTopic id s'.broker) (hc.note _ _))))

/-- A topic that is created has its codec. -/
theorem createTopic_codecOf {t : Topic} (h : s.createTopic (service.client project) id = (.ok t, s')) :
    s'.IsCodecOf id t.codec := by
  unfold createTopic at h
  rcases hr : (service.client project).topicConfig id s.broker with ⟨_ | config, broker⟩ <;>
    rw [hr] at h
  · cases h
  · have hconfig := topicConfig_ok hr
    have hadvances := codec_advances service project .topic id
      config.schemaSettings { s with broker }
    dsimp only at h
    rcases hr' : codec (service.client project) .topic id config.schemaSettings
      { s with broker } with ⟨_ | codec, s₁⟩ <;> rw [hr'] at hadvances h
    · cases h
    · obtain ⟨kind, encoding, definition, hsource, hcodec⟩ := codec_source hr'
      cases h
      refine ⟨config, kind, encoding, definition, ?_, hsource, hcodec⟩
      change s₁.broker.store.topics.find? (s₁.broker.nameOf .topic id) = some config
      rw [hadvances.broker.nameOf]
      exact hadvances.broker.topics _ _ hconfig

theorem createSubscription_advances (id : String) (s : Service (Emulator σ)) :
    Advances s (s.createSubscription (service.client project) id).2 := by
  have hc := (service.retains project).toWithin
  unfold createSubscription
  have hs := hc.subscriptionConfig id s.broker
  rcases hr : (service.client project).subscriptionConfig id s.broker with ⟨_ | config, broker⟩ <;>
    rw [hr] at hs
  · exact .of_broker hs
  · have ht := hc.topicConfig config.topic broker
    dsimp only
    rcases hr' : (service.client project).topicConfig config.topic broker with
      ⟨_ | topic, broker'⟩ <;> rw [hr'] at ht
    · exact .of_broker (hs.trans ht)
    · have h := codec_advances service project .subscription id
        topic.schemaSettings { s with broker := broker' }
      dsimp only
      rcases hr'' : codec (service.client project) .subscription id topic.schemaSettings
        { s with broker := broker' } with ⟨_ | codec, s'⟩ <;> rw [hr''] at h
      · exact (Advances.of_broker (hs.trans ht)).trans h
      · exact (Advances.of_broker (hs.trans ht)).trans (h.trans (.of_broker (hc.note _ _)))

/-- A subscription that is created has the codec of its topic. -/
theorem createSubscription_codecOf {sub : Subscription}
    (h : s.createSubscription (service.client project) id = (.ok sub, s')) :
    s'.IsCodecOfSubscription id sub.codec := by
  have hc := (service.retains project).toWithin
  unfold createSubscription at h
  rcases hr : (service.client project).subscriptionConfig id s.broker with ⟨_ | config, broker⟩ <;>
    rw [hr] at h
  · cases h
  · dsimp only at h
    have ht := hc.topicConfig config.topic broker
    rcases hr' : (service.client project).topicConfig config.topic broker with
      ⟨_ | topic, broker'⟩ <;> rw [hr'] at h ht
    · cases h
    · have hadvances := codec_advances service project .subscription id
        topic.schemaSettings { s with broker := broker' }
      dsimp only at h
      rcases hr'' : codec (service.client project) .subscription id topic.schemaSettings
        { s with broker := broker' } with ⟨_ | codec, s₁⟩ <;> rw [hr''] at hadvances h
      · cases h
      · obtain ⟨kind, encoding, definition, hsource, hcodec⟩ := codec_source hr''
        cases h
        have hretains : broker.Retains s₁.broker := ht.trans hadvances.broker
        refine ⟨config, ?_, topic, kind, encoding, definition, ?_, hsource, hcodec⟩
        · change s₁.broker.store.subscription? (s₁.broker.nameOf .subscription id) = some config
          rw [hretains.nameOf]
          exact hretains.subscriptions _ _ (subscriptionConfig_ok hr)
        · change s₁.broker.store.topics.find? (s₁.broker.nameOf .topic config.topic) = some topic
          rw [hadvances.broker.nameOf]
          exact hadvances.broker.topics _ _ (topicConfig_ok hr')

/-! ### What every action keeps -/

namespace Agreed

theorem noted (h : s.Agreed) (entry : Log.Entry) : Agreed (Log.note entry s) :=
  h.advances (.of_broker (.of_eq rfl rfl))

/-- The topic that is found or created has its codec. -/
theorem topic (h : s.Agreed) (id : String) :
    (s.topic (service.client project) id).2.Agreed ∧
      ∀ t, (s.topic (service.client project) id).1 = .ok t →
        (s.topic (service.client project) id).2.IsCodecOf id t.codec := by
  cases hf : s.topics.entries.find? id with
  | some t =>
    rw [topic_of_registered hf]
    refine ⟨h, fun t' ht => ?_⟩
    cases ht
    exact h.topics id t hf
  | none =>
    rw [topic_of_new hf]
    unfold newTopic
    have ha := createTopic_advances service project id s
    rcases hr : s.createTopic (service.client project) id with ⟨e | t, s'⟩ <;> rw [hr] at ha
    · exact ⟨h.advances ha, fun t ht => by cases ht⟩
    · have ht := createTopic_codecOf service project hr
      refine ⟨((h.advances ha).addTopic ht).noted _, fun t' ht' => ?_⟩
      cases ht'
      exact ht

/-- The subscription that is found or created has the codec of its topic. -/
theorem subscription (h : s.Agreed) (id : String) :
    (s.subscription (service.client project) id).2.Agreed ∧
      ∀ sub, (s.subscription (service.client project) id).1 = .ok sub →
        (s.subscription (service.client project) id).2.IsCodecOfSubscription id sub.codec := by
  cases hf : s.subscriptions.entries.find? id with
  | some sub =>
    rw [subscription_of_registered hf]
    refine ⟨h, fun sub' hs => ?_⟩
    cases hs
    exact h.subscriptions id sub hf
  | none =>
    rw [subscription_of_new hf]
    unfold newSubscription
    have ha := createSubscription_advances service project id s
    rcases hr : s.createSubscription (service.client project) id with ⟨e | sub, s'⟩ <;>
      rw [hr] at ha
    · exact ⟨h.advances ha, fun sub hs => by cases hs⟩
    · have hs := createSubscription_codecOf service project hr
      refine ⟨((h.advances ha).addSubscription hs).noted _, fun sub' hs' => ?_⟩
      cases hs'
      exact hs

omit [Log.Journal σ] in
theorem publish_codec [Log.Journal σ] (c : Client σ) (p : Payload) (o : PublishOptions) (t : Topic)
    (b : σ) : (t.publish c p o b).2.1.codec = t.codec := by
  unfold Topic.publish
  split <;> rfl

theorem publish (h : s.Agreed) (id : String) (p : Payload) (o : PublishOptions) :
    (s.publish (service.client project) id p o).2.Agreed := by
  unfold Service.publish
  have ht := h.topic service project id
  rcases hr : s.topic (service.client project) id with ⟨e | t, s'⟩ <;> rw [hr] at ht
  · exact ht.1
  · have hc := service.retains project
    have hb := topicPublish_within hc.submit hc.toWithin p o t s'.broker
    have hcodec := ht.2 t rfl
    rw [← publish_codec (service.client project) p o t s'.broker] at hcodec
    exact (ht.1.advances (.of_broker hb)).addTopic (hcodec.retains (.of_broker hb))

theorem topicOptions (h : s.Agreed) (id : String) (o : PublishOptions) :
    (s.topicOptions (service.client project) id o).2.Agreed := by
  unfold Service.topicOptions
  cases hg : s.topics.entries.find? id with
  | none =>
    simp only [Registry.get, hg]
    exact h
  | some t =>
    simp only [Registry.get, hg]
    have hb := withOptions_within (service.retains project).toWithin o t s.broker
    exact (h.advances (.of_broker hb)).addTopic (t := (t.withOptions _ o s.broker).1)
      ((h.topics id t hg).retains (.of_broker hb))

theorem subscribe (h : s.Agreed) (id : String) (o : ReceiveOptions) :
    (s.subscribe (service.client project) id o).2.Agreed := by
  unfold Service.subscribe
  have hs := h.subscription service project id
  rcases hr : s.subscription (service.client project) id with ⟨e | sub, s'⟩ <;> rw [hr] at hs
  · exact hs.1
  · have hb := receive_within (service.retains project).toWithin (sub.withOptions o) s'.broker
    exact (hs.1.advances (.of_broker hb)).addSubscription
      ((hs.2 sub rfl).retains (.of_broker hb))

omit [Log.Journal σ] in
theorem subscriptionOptions (h : s.Agreed) (id : String) (o : ReceiveOptions) :
    (s.subscriptionOptions id o).2.Agreed := by
  unfold Service.subscriptionOptions
  cases hg : s.subscriptions.entries.find? id with
  | none =>
    simp only [Registry.get, hg]
    exact h
  | some sub =>
    simp only [Registry.get, hg]
    exact h.addSubscription (h.subscriptions id sub hg)

theorem stop (h : s.Agreed) : (s.stop (service.client project)).Agreed := by
  have hc := service.retains project
  unfold Service.stop
  generalize s.topics.entries = entries
  induction entries generalizing s with
  | nil => exact h
  | cons e rest ih =>
    rw [List.foldl_cons]
    exact ih (h.advances (.of_broker (hc.trans (hc.note _ _) (hc.stop _ _))))

theorem use (h : s.Agreed) (u : Use σ) : (u.run (service.client project) s).Agreed := by
  cases u with
  | publish id p o => exact h.publish service project id p o
  | topicOptions id o => exact h.topicOptions service project id o
  | subscribe id o => exact h.subscribe service project id o
  | stop => exact h.stop service project
  | broker call => exact h.advances (.of_broker (call.retains s.broker))

theorem run (h : s.Agreed) (a : Action σ) : (a.run (service.client project) s).Agreed := by
  have hc := service.retains project
  cases a with
  | use u => exact h.use service project u
  | receiveOptions id o => exact h.subscriptionOptions id o
  | schema reference => exact h.advances (schema_advances service project reference s)
  | prepare files =>
    exact h.advances (.of_broker (Preparation.all_within hc files s.config s.broker))
  | health =>
    have hb := Probe.checkAll_within hc
      (Probe.both s.config.probedTopics s.config.probedSubscriptions) s.broker
    exact h.advances (.of_broker hb)
  | shutdown => exact (h.noted shutdownEntry).stop service project

theorem runs (h : s.Agreed) (actions : List (Action σ)) :
    (Action.runs (service.client project) actions s).Agreed := by
  induction actions generalizing s with
  | nil => exact h
  | cons a rest ih => exact ih (h.run service project a)

/-- Nothing is registered with a service that starts. -/
theorem start (config : Configuration) (e : Emulator σ) : Agreed (Service.start config e) where
  topics id t ht := by simp [Service.start, Log.note, Table.find?_nil] at ht
  subscriptions id sub hs := by simp [Service.start, Log.note, Table.find?_nil] at hs

end Agreed

end Service

/-- **Publishers and subscribers agree on the codec.** Whatever has been done since the service was
started over an emulator, and whatever a schema service has answered: a subscription that is
registered is bound to a topic, and if that topic is registered as well, in whatever order, then the
codecs of the two were made from the same kind of schema, encoding and definition. -/
theorem codecs_agree [Log.Journal σ] (service : SchemaService σ) (project : String)
    (config : Configuration) (e : Emulator σ) (actions : List (Action σ)) :
    let s := Action.runs (service.client project) actions (Service.start config e)
    ∀ subId sub, s.subscriptions.entries.find? subId = some sub →
      ∃ q, s.broker.store.queues.find? (s.broker.nameOf .subscription subId) = some q ∧
        ∀ t, s.topics.entries.find? q.config.topic = some t →
          ∃ kind encoding definition, Codec.create kind encoding definition = .ok t.codec ∧
            Codec.create kind encoding definition = .ok sub.codec := by
  intro s subId sub hsub
  have hagreed : s.Agreed := (Service.Agreed.start config e).runs service project actions
  obtain ⟨config, hbound, hcodec⟩ := hagreed.subscriptions subId sub hsub
  obtain ⟨q, hq, rfl⟩ := Option.map_eq_some_iff.mp hbound
  exact ⟨q, hq, fun t ht => (hagreed.topics _ t ht).same_source hcodec⟩

/-- A schema service that forgets the kind of its schemas once a topic has been opened. -/
def forgetful : SchemaService Unit where
  fetch _ e :=
    (.ok { kind := if e.handles = [] then .protocolBuffer else .unspecified, definition := "" }, e)
  create _ config e := (.ok config, e)
  fetch_calls _ e := ⟨[], e.world, rfl⟩
  create_calls _ _ e := ⟨[], e.world, rfl⟩

/-- A topic is used first and then a subscription to it. -/
def topicFirst : List (Action Unit) :=
  [.use (.broker (.createTopic "t" { schemaSettings := some ⟨"s", .json⟩ })),
    .use (.broker (.createSubscription "v" { topic := "t" })),
    .use (.publish "t" (.bytes [1]) {}), .use (.subscribe "v" {})]

/-- The service after `topicFirst`. -/
def usedBoth : Service (Emulator Unit) :=
  Action.runs (forgetful.client "p") topicFirst
    (Service.start { project := "p" } { project := "p", world := () })

theorem codecs_agree_forgetful :
    (forgetful.fetch "s" usedBoth.broker).1 = .ok { kind := .unspecified, definition := "" } ∧
    ∃ t sub kind encoding definition, usedBoth.topics.entries.find? "t" = some t ∧
      usedBoth.subscriptions.entries.find? "v" = some sub ∧ t.codec.name = "proto-json" ∧
      Codec.create kind encoding definition = .ok t.codec ∧
      Codec.create kind encoding definition = .ok sub.codec := by
  have key := codecs_agree forgetful "p" { project := "p" } { project := "p", world := () }
    topicFirst
  simp only [← usedBoth.eq_1] at key
  obtain ⟨t, ht, hname⟩ : ∃ t, usedBoth.topics.entries.find? "t" = some t ∧
      t.codec.name = "proto-json" :=
    Option.map_eq_some_iff.mp (by decide +kernel)
  obtain ⟨sub, hsub⟩ : ∃ sub, usedBoth.subscriptions.entries.find? "v" = some sub :=
    Option.isSome_iff_exists.mp (by decide +kernel)
  have hbound : (usedBoth.broker.store.queues.find?
      (usedBoth.broker.nameOf .subscription "v")).map (·.config.topic) = some "t" := by
    decide +kernel
  obtain ⟨q, hq, hagree⟩ := key "v" sub hsub
  rw [hq, Option.map_some, Option.some.injEq] at hbound
  obtain ⟨kind, encoding, definition, hmade⟩ := hagree t (hbound ▸ ht)
  exact ⟨rfl, t, sub, kind, encoding, definition, ht, hsub, hname, hmade⟩

end Messaging
