import Messaging.Proofs.ResourceName
import Messaging.Proofs.Service.Within
import Messaging.Proofs.Table
import Messaging.Service.Preparation

/-! # Topics that are prepared from a configuration

Preparing a configuration creates each schema under the name of its id, and each topic with the name
of the schema that its entry names. The service looks that schema up by the id that the name refers
to: what follows the last slash of the id in the entry. So the codec of a prepared topic is the one
for the schema of that id (`prepared_topic_codec`), which is the schema that the entry names as long
as its id has no slash. -/

namespace Messaging

open Emulator

variable {σ : Type}

/-- A request that there are no reactors for is served. -/
theorem Emulator.guarded_of_nil {α : Type} {e : Emulator σ} (h : e.reactors = [])
    (request : Request) (serve : Emulator σ → Except BrokerError α × Emulator σ) :
    guarded request serve e = serve e := by
  obtain ⟨project, world, store, handles, deliveries, reactors⟩ := e
  cases h
  rfl

/-! ### What is created -/

/-- The definition of a declared schema. -/
def SchemaEntry.text (files : Files) (e : SchemaEntry) : String :=
  e.definition.getD ((e.definitionPath.bind files).getD "")

theorem SchemaEntry.toConfig_ok {files : Files} {e : SchemaEntry} {config : SchemaConfig}
    (h : e.toConfig files = .ok config) :
    config = { kind := e.kind, definition := e.text files } := by
  unfold toConfig at h
  split at h
  · next hd => cases h; simp [text, hd]
  · next hd hp =>
    split at h
    · next hf => cases h; simp [text, hd, hp, hf]
    · cases h
  · cases h

/-- The name and the schema that a declared schema is created as. -/
def SchemaEntry.created (files : Files) (project : String) (e : SchemaEntry) :
    String × SchemaConfig :=
  let name := Resource.schema.nameOf project e.id
  (name, { name, kind := e.kind, definition := e.text files })

/-- The name and the topic that a declared topic is created as, by the names of the schemas. -/
def TopicEntry.created (names : Table String) (project : String) (e : TopicEntry) :
    String × TopicConfig :=
  let name := Resource.topic.nameOf project e.id
  (name, { e.toConfig (e.schema.bind names.find?) with name })

namespace Preparation

variable [Log.Journal σ] {project : String} {e e' : Emulator σ}

theorem schema_created {spec : ResourceSpec SchemaConfig} {created : SchemaConfig}
    (hr : e.reactors = []) (h : schema (client project) spec e = (.ok created, e')) :
    created = { spec.config with name := e.nameOf .schema spec.id } ∧
      e.store.schemas.find? (e.nameOf .schema spec.id) = none ∧
      e'.store.schemas = e.store.schemas.insert (e.nameOf .schema spec.id) created ∧
      e'.store.topics = e.store.topics ∧ e'.reactors = [] ∧ e'.project = e.project := by
  unfold schema prepare at h
  rw [show (client project).createSchema spec.id spec.config e = e.createSchema spec.id spec.config
    from rfl, createSchema, guarded_of_nil hr] at h
  unfold Store.createSchema at h
  cases hnew : e.store.schemas.find? (e.nameOf .schema spec.id) with
  | some config => simp [Table.contains, hnew] at h
  | none =>
    simp only [Table.contains, hnew, Option.isSome_none, Bool.false_eq_true, if_false] at h
    obtain ⟨hcreated, he⟩ := Prod.mk.inj h
    cases hcreated
    rw [← he]
    exact ⟨rfl, rfl, rfl, rfl, hr, rfl⟩

theorem topic_created {spec : ResourceSpec TopicConfig} (hr : e.reactors = [])
    (h : topic (client project) spec e = (.ok (), e')) :
    e.store.topics.find? (e.nameOf .topic spec.id) = none ∧
      e'.store.topics = e.store.topics.insert (e.nameOf .topic spec.id)
        { spec.config with name := e.nameOf .topic spec.id } ∧
      e'.store.schemas = e.store.schemas ∧ e'.reactors = [] ∧ e'.project = e.project := by
  unfold topic prepare at h
  rw [show (client project).createTopic spec.id spec.config e = e.createTopic spec.id spec.config
    from rfl, createTopic, guarded_of_nil hr] at h
  unfold served Store.createTopic at h
  cases hnew : e.store.topics.find? (e.nameOf .topic spec.id) with
  | some config => simp [Table.contains, hnew] at h
  | none =>
    simp only [Table.contains, hnew, Option.isSome_none, Bool.false_eq_true, if_false] at h
    rw [← (Prod.mk.inj h).2]
    exact ⟨rfl, rfl, rfl, hr, rfl⟩

theorem subscription_created {topicId : String} {spec : ResourceSpec SubscriptionConfig}
    (hr : e.reactors = []) (h : subscription (client project) topicId spec e = (.ok (), e')) :
    e'.store.topics = e.store.topics ∧ e'.store.schemas = e.store.schemas ∧ e'.reactors = [] ∧
      e'.project = e.project := by
  unfold subscription prepare at h
  rw [show (client project).createSubscription spec.id { spec.config with topic := topicId } e =
      e.createSubscription spec.id { spec.config with topic := topicId } from rfl,
    createSubscription, guarded_of_nil hr] at h
  unfold served at h
  cases hs : e.store.createSubscription (e.nameOf .subscription spec.id) (e.nameOf .topic topicId)
      { spec.config with topic := topicId } with
  | error error => simp [hs] at h
  | ok store =>
    simp only [hs] at h
    rw [← (Prod.mk.inj h).2]
    unfold Store.createSubscription at hs
    split at hs
    · cases hs
    · split at hs
      · cases hs
      · cases hs
        exact ⟨rfl, rfl, hr, rfl⟩

/-- The schemas of all entries are created; the names are those of the ids. -/
theorem schemas_created {files : Files} {entries : List SchemaEntry} {names names' : Table String}
    (hr : e.reactors = []) (h : schemas (client project) files entries names e = (.ok names', e')) :
    Table.Added (entries.map (SchemaEntry.created files e.project)) e.store.schemas
        e'.store.schemas ∧
      (∀ id, names'.find? id =
        if id ∈ entries.map (·.id) then some (e.nameOf .schema id) else names.find? id) ∧
      e'.store.topics = e.store.topics ∧ e'.reactors = [] ∧ e'.project = e.project := by
  induction entries generalizing names e with
  | nil =>
    cases h
    exact ⟨.nil _, fun id => by simp, rfl, hr, rfl⟩
  | cons entry rest ih =>
    unfold schemas at h
    cases hc : entry.toConfig files with
    | error error => simp [hc] at h
    | ok config =>
      simp only [hc] at h
      rcases hs : schema (client project) { id := entry.id, config } e with ⟨error | created, e₁⟩
      · simp [hs] at h
      · simp only [hs] at h
        obtain ⟨hcreated, hnew, hschemas, htopics, hr₁, hp₁⟩ := schema_created hr hs
        obtain ⟨hadded, hnames, htopics', hr', hp'⟩ := ih hr₁ h
        rw [hschemas, hp₁] at hadded
        rw [SchemaEntry.toConfig_ok hc] at hcreated
        have hentry : (e.nameOf .schema entry.id, created) = entry.created files e.project := by
          rw [hcreated]
          rfl
        refine ⟨?_, fun id => ?_, htopics'.trans htopics, hr', hp'.trans hp₁⟩
        · rw [List.map_cons, ← hentry]
          exact .cons hnew hadded
        · have hname : e₁.nameOf .schema id = e.nameOf .schema id := by
            rw [nameOf, nameOf, hp₁]
          rw [hnames, Table.find?_insert, hcreated, hname]
          by_cases hid : id = entry.id <;> simp [hid]

/-- The topics of all entries are created. -/
theorem topics_created {entries : List TopicEntry} {names : Table String} (hr : e.reactors = [])
    (h : topics (client project) names entries e = (.ok (), e')) :
    Table.Added (entries.map (TopicEntry.created names e.project)) e.store.topics
        e'.store.topics ∧
      e'.store.schemas = e.store.schemas ∧ e'.reactors = [] ∧ e'.project = e.project := by
  induction entries generalizing e with
  | nil =>
    cases h
    exact ⟨.nil _, rfl, hr, rfl⟩
  | cons entry rest ih =>
    unfold topics at h
    rcases ht : topic (client project)
      { id := entry.id, config := entry.toConfig (entry.schema.bind names.find?) } e with
      ⟨error | _, e₁⟩
    · simp [ht] at h
    · simp only [ht] at h
      obtain ⟨hnew, htopics, hschemas, hr₁, hp₁⟩ := topic_created hr ht
      obtain ⟨hadded, hschemas', hr', hp'⟩ := ih hr₁ h
      rw [htopics, hp₁] at hadded
      exact ⟨.cons hnew hadded, hschemas'.trans hschemas, hr', hp'.trans hp₁⟩

/-- Subscriptions change nothing about topics and schemas. -/
theorem subscriptions_created {topicIds : List String} {entries : List SubscriptionEntry}
    (hr : e.reactors = [])
    (h : subscriptions (client project) topicIds entries e = (.ok (), e')) :
    e'.store.topics = e.store.topics ∧ e'.store.schemas = e.store.schemas ∧ e'.reactors = [] ∧
      e'.project = e.project := by
  induction entries generalizing e with
  | nil =>
    cases h
    exact ⟨rfl, rfl, hr, rfl⟩
  | cons entry rest ih =>
    unfold subscriptions at h
    split at h
    · rcases hs : subscription (client project) entry.topic
        { id := entry.id, config := entry.toConfig } e with ⟨error | _, e₁⟩
      · simp [hs] at h
      · simp only [hs] at h
        obtain ⟨ht₁, hs₁, hr₁, hp₁⟩ := subscription_created hr hs
        obtain ⟨ht', hs', hr', hp'⟩ := ih hr₁ h
        exact ⟨ht'.trans ht₁, hs'.trans hs₁, hr', hp'.trans hp₁⟩
    · cases h

/-- What an emulator holds after a configuration has been prepared on it when it was new. -/
theorem all_created {files : Files} {config : Configuration} {world : σ}
    (h : all (client project) files config { project, world } = (.ok (), e')) :
    ∃ names : Table String,
      (∀ id, names.find? id = if id ∈ config.schemas.map (·.id)
        then some (Resource.schema.nameOf project id) else none) ∧
      Table.Added (config.schemas.map (SchemaEntry.created files project)) [] e'.store.schemas ∧
      Table.Added (config.topics.map (TopicEntry.created names project)) [] e'.store.topics ∧
      e'.reactors = [] ∧ e'.project = project := by
  unfold all at h
  rcases hs : schemas (client project) files config.schemas [] { project, world } with
    ⟨error | names, e₁⟩
  · simp [hs] at h
  simp only [hs] at h
  rcases ht : topics (client project) names config.topics e₁ with ⟨error | _, e₂⟩
  · simp [ht] at h
  simp only [ht] at h
  obtain ⟨hschemas, hnames, htopics, hr₁, hp₁⟩ := schemas_created rfl hs
  obtain ⟨htopics₂, hschemas₂, hr₂, hp₂⟩ := topics_created hr₁ ht
  obtain ⟨htopics₃, hschemas₃, hr₃, hp₃⟩ := subscriptions_created hr₂ h
  rw [hp₁, htopics, ← htopics₃] at htopics₂
  rw [← hschemas₂, ← hschemas₃] at hschemas
  exact ⟨names, hnames, hschemas, htopics₂, hr₃, hp₃.trans (hp₂.trans hp₁)⟩

end Preparation

/-! ### What a configuration that is accepted says -/

namespace Configuration

variable {text : String} {c : Configuration}

theorem fault?_of_parse (h : parse text = .ok c) : c.fault? = none := by
  unfold parse at h
  cases hp : parseUnchecked text with
  | error e => simp [hp, Except.bind] at h
  | ok c' =>
    simp only [hp, Except.bind] at h
    split at h
    · next hf => exact Except.ok.inj h ▸ hf
    · cases h

/-- A declared topic names a schema that is declared. -/
theorem mem_ids_of_parse (h : parse text = .ok c) {topic : TopicEntry} (ht : topic ∈ c.topics)
    {s : String} (hs : topic.schema = some s) : s ∈ c.schemas.map (·.id) := by
  have hf := fault?_of_parse h
  unfold fault? at hf
  split at hf
  · cases hf
  · simp only [Option.orElse_eq_orElse, Option.orElse_eq_or, Option.or_eq_none_iff,
      List.findSome?_eq_none_iff] at hf
    have htopic := hf.2.1 topic ht
    unfold topicFault? at htopic
    rw [hs] at htopic
    dsimp only at htopic
    split at htopic
    · cases htopic
    · next hall => simpa using hall

end Configuration

/-! ### What the service makes of it -/

namespace Service

variable [Log.Journal σ] {project id name : String} {e : Emulator σ}

omit [Log.Journal σ] in
/-- The schema of an id, which is looked up by what follows its last slash. -/
theorem schema_fst (hr : e.reactors = []) (reference : String) :
    (e.schema reference).1 =
      ((e.store.schemas.find? (e.nameOf .schema (schemaId reference))).elim
        (.error (.missing .schema (e.nameOf .schema (schemaId reference)))) .ok) := by
  unfold Emulator.schema
  rw [guarded_of_nil hr]
  cases e.store.schemas.find? (e.nameOf .schema (schemaId reference)) <;> rfl

theorem topicConfig_found (hr : e.reactors = []) {topic : TopicConfig}
    (ht : e.store.topics.find? (e.nameOf .topic id) = some topic) :
    (client project).topicConfig id e = (.ok topic, e) := by
  change e.topicConfig id = _
  unfold topicConfig findTopic
  rw [guarded_of_nil hr, ht]

/-- What is not in the cache is what the broker answers for the id. -/
theorem schema_of_fetch {s : Service (Emulator σ)} (hcache : s.schemas = [])
    {answer : Except BrokerError SchemaConfig}
    (hfetch : ((client project).schema (schemaId name) s.broker).1 = answer) :
    (s.schema (client project) name).1 = answer.mapError .schemaConfig := by
  change (s.schemas.get (client project).schema name s.broker).1 = _
  rw [SchemaCache.get_of_none (by rw [hcache, Table.find?_nil]), hfetch]
  cases answer <;> rfl

/-- The codec of a topic that is created first is the one for the schema that is looked up. -/
theorem createTopic_codec (hr : e.reactors = []) {topic : TopicConfig} {encoding : Encoding}
    (ht : e.store.topics.find? (e.nameOf .topic id) = some topic)
    (hsettings : topic.schemaSettings = some ⟨name, encoding⟩) (hname : name ≠ "")
    (config : Configuration) :
    (createTopic (client project) id { config, broker := e }).1.map Topic.codec =
      (((schema (client project) name { config, broker := e }).1.mapError
        (ServiceError.resourceSchema .topic id)).bind fun schema =>
          (Codec.create schema.kind encoding schema.definition).mapError
            (ServiceError.resourceCodec .topic id)) := by
  unfold createTopic
  rw [topicConfig_found hr ht]
  dsimp only
  unfold codec
  rw [hsettings, Option.filter_some, if_pos (by simpa using hname)]
  dsimp only
  rcases schema (client project) name { config, broker := e } with ⟨error | schema, s⟩
  · rfl
  · dsimp only
    change _ = (Codec.create schema.kind encoding schema.definition).mapError _
    generalize Codec.create schema.kind encoding schema.definition = made
    cases made <;> rfl

end Service

/-- The codec that a topic gets when it is created by a new service, or why it gets none. -/
def codecOfNew [Log.Journal σ] (config : Configuration) (id : String) (e : Emulator σ) :
    Except ServiceError Codec :=
  (Service.createTopic (client config.project) id { config, broker := e }).1.map Topic.codec

/-- Let a configuration be accepted and prepared on a new emulator, and then a topic of it that
names a schema be created. It gets the codec of the declared schema whose id is what follows the
last slash in the name of the schema, or the error of that codec; if no declared schema has that id,
none is found. -/
theorem prepared_topic_codec [Log.Journal σ] {text : String} {files : Files}
    {config : Configuration} {world : σ} {e : Emulator σ}
    (hparse : Configuration.parse text = .ok config)
    (hprepare : Preparation.all (client config.project) files config
      { project := config.project, world } = (.ok (), e))
    {topic : TopicEntry} (htopic : topic ∈ config.topics) {s : String} {encoding : Encoding}
    (hs : topic.schema = some s) (hencoding : topic.encoding = some encoding) :
    (∀ schema ∈ config.schemas, schema.id = schemaId s →
      ∀ definition, schema.definition = some definition →
        codecOfNew config topic.id e = (Codec.create schema.kind encoding definition).mapError
          (.resourceCodec .topic topic.id)) ∧
    ((∀ schema ∈ config.schemas, schema.id ≠ schemaId s) →
      codecOfNew config topic.id e = .error (.resourceSchema .topic topic.id (.schemaConfig
        (.missing .schema (Resource.schema.nameOf config.project (schemaId s)))))) := by
  obtain ⟨names, hnames, hschemas, htopics, hr, hproject⟩ := Preparation.all_created hprepare
  have hname : names.find? s = some (Resource.schema.nameOf config.project s) := by
    rw [hnames, if_pos (Configuration.mem_ids_of_parse hparse htopic hs)]
  have hfound : e.store.topics.find? (e.nameOf .topic topic.id) = some (topic.created names
      config.project).2 := by
    rw [nameOf, hproject]
    exact htopics.find?_of_mem (List.mem_map_of_mem htopic)
  have hsettings : (topic.created names config.project).2.schemaSettings =
      some ⟨Resource.schema.nameOf config.project s, encoding⟩ := by
    simp [TopicEntry.created, TopicEntry.toConfig, hs, hname, hencoding, TopicConfig.withSchema]
  have hschema : (Service.schema (client config.project)
      (Resource.schema.nameOf config.project s) { config, broker := e }).1 = _ :=
    Service.schema_of_fetch rfl (Service.schema_fst hr _)
  rw [schemaId_schemaId, Resource.schemaId_nameOf, nameOf, hproject] at hschema
  unfold codecOfNew
  rw [Service.createTopic_codec hr hfound hsettings (Resource.nameOf_ne_empty _ _ _), hschema]
  refine ⟨fun schema hmem hid definition hdefinition => ?_, fun hnone => ?_⟩
  · have hcreated : e.store.schemas.find? (Resource.schema.nameOf config.project (schemaId s)) =
        some (schema.created files config.project).2 := by
      rw [← hid]
      exact hschemas.find?_of_mem (List.mem_map_of_mem hmem)
    have htext : (schema.created files config.project).2.definition = definition := by
      simp [SchemaEntry.created, SchemaEntry.text, hdefinition]
    rw [hcreated, ← htext]
    rfl
  · have hmissing : e.store.schemas.find? (Resource.schema.nameOf config.project (schemaId s)) =
        none := by
      rw [hschemas.find?_of_forall_ne fun entry hentry hname' => ?_, Table.find?_nil]
      obtain ⟨schema, hmem, rfl⟩ := List.mem_map.mp hentry
      exact hnone schema hmem (Resource.nameOf_inj hname')
    rw [hmissing]
    rfl

/-- Two schemas, the id of one being the last part of the id of the other, and a topic that has the
one with the longer id. -/
def nestedIds : Configuration :=
  { project := "p"
    schemas := [{ id := "a/b", kind := .protocolBuffer, definition := some "" },
      { id := "b", kind := .unspecified, definition := some "" }]
    topics := [{ id := "t", schema := some "a/b", encoding := some .json }] }

/-- The TOML text of `nestedIds`. -/
def nestedIdsText : String :=
  "[project]\nid='p'\n[[schemas]]\nid='a/b'\ntype='protocol-buffer'\ndefinition=''\n" ++
  "[[schemas]]\nid='b'\ntype='unspecified'\ndefinition=''\n" ++
  "[[topics]]\nid='t'\nschema='a/b'\nencoding='json'\n"

/-- The emulator on which `nestedIds` has been prepared. -/
def nestedIdsPrepared : Emulator Unit :=
  (Preparation.all (client "p") (fun _ => none) nestedIds { project := "p", world := () }).2

theorem nestedIds_accepted : Configuration.parse nestedIdsText = .ok nestedIds := by
  have h : (Configuration.parse nestedIdsText).toOption = some nestedIds := by decide +kernel
  cases hp : Configuration.parse nestedIdsText <;> simp_all [Except.toOption]

theorem nestedIds_prepared :
    Preparation.all (client nestedIds.project) (fun _ => none) nestedIds
      { project := nestedIds.project, world := () } = (.ok (), nestedIdsPrepared) :=
  Prod.ext rfl rfl

theorem prepared_topic_codec_nested :
    codecOfNew nestedIds "t" nestedIdsPrepared = .ok .raw := by
  have htopic : ({ id := "t", schema := some "a/b", encoding := some .json } : TopicEntry) ∈
      nestedIds.topics := by decide
  have hschema : ({ id := "b", kind := .unspecified, definition := some "" } : SchemaEntry) ∈
      nestedIds.schemas := by decide
  obtain ⟨hfound, -⟩ :=
    prepared_topic_codec nestedIds_accepted nestedIds_prepared htopic rfl rfl
  exact hfound _ hschema (by decide) _ rfl

/-- The schema with the longer id is not the one that its topic is created with. -/
theorem prepared_topic_codec_of_slash :
    Configuration.parse nestedIdsText = .ok nestedIds ∧
      Preparation.all (client nestedIds.project) (fun _ => none) nestedIds
        { project := nestedIds.project, world := () } = (.ok (), nestedIdsPrepared) ∧
      ∃ topic ∈ nestedIds.topics, ∃ schema ∈ nestedIds.schemas, topic.schema = some schema.id ∧
        topic.encoding = some .json ∧ schema.definition = some "" ∧
        (codecOfNew nestedIds topic.id nestedIdsPrepared).toOption.map Codec.name = some "raw" ∧
        (Codec.create schema.kind .json "").toOption.map Codec.name = some "proto-json" :=
  ⟨nestedIds_accepted, nestedIds_prepared, _, .head _, _, .head _, rfl, rfl, rfl, rfl, rfl⟩

end Messaging
