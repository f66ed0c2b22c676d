import Messaging.Proofs.Broker.Operations
import Messaging.Proofs.Service.Prepared
import Messaging.Service.Health

/-! # What is declared is what is prepared

A configuration that is accepted can be prepared on a new emulator, whatever its reactors observe,
unless two schemas, two topics or two subscriptions have one id, and then the first entry that is
repeated is named in the error (`configuration_prepared`). Each of the three loops either adds all
its entries to a table of the store or stops at the first one whose name is taken
(`Preparation.Creates`, for which `Creates.cons` is the step of all three); that no subscription
lacks its topic is what the check of the configuration has seen to. A probe finds what the tables
hold (`Probe.check_topics`, `check_subscriptions`), and that is what has been declared
(`Configuration.HeldIn`). -/

namespace Messaging

open Emulator

variable {σ : Type}

/-! ### Ids that are repeated -/

/-- The id is the first of a list that has stood in it before. -/
def FirstRepeated (ids : List String) (id : String) : Prop :=
  ∃ front back, ids = front ++ id :: back ∧ front.Nodup ∧ id ∈ front

theorem FirstRepeated.not_nodup {ids : List String} {id : String} (h : FirstRepeated ids id) :
    ¬ids.Nodup := by
  obtain ⟨front, back, rfl, -, hid⟩ := h
  exact fun hnodup => (List.nodup_append.mp hnodup).2.2 id hid id List.mem_cons_self rfl

/-- Names that clash in a table that was empty belong to ids that are repeated. -/
theorem Table.Clashes.firstRepeated {α : Type} {r : Resource} {project id : String}
    {ids : List String} {entries : List (String × α)}
    (hnames : entries.map Prod.fst = ids.map (r.nameOf project))
    (h : Table.Clashes entries [] (r.nameOf project id)) : FirstRepeated ids id := by
  obtain ⟨front, back, hsplit, hnodup, -, htaken⟩ := h.split
  rw [hnames] at hsplit
  obtain ⟨ids₁, ids₂, rfl, rfl, hrest⟩ := List.map_eq_append_iff.mp hsplit
  obtain ⟨id', back', rfl, hid, -⟩ := List.map_eq_cons_iff.mp hrest
  obtain rfl := Resource.nameOf_inj hid
  refine ⟨ids₁, back', rfl, hnodup.of_map _, ?_⟩
  obtain ⟨id'', hmem, heq⟩ := List.mem_map.mp (htaken.resolve_right fun h => h (find?_nil _))
  exact Resource.nameOf_inj heq ▸ hmem

/-- Ids whose names have all been added are different from each other. -/
theorem Table.Added.nodup_ids {α : Type} {r : Resource} {project : String} {ids : List String}
    {entries : List (String × α)} {table table' : Table α}
    (hnames : entries.map Prod.fst = ids.map (r.nameOf project))
    (h : Table.Added entries table table') : ids.Nodup :=
  (hnames ▸ h.nodup).of_map _

namespace Configuration

/-- The ids of the declared resources of a kind. -/
def ids (c : Configuration) : Resource → List String
  | .schema => c.schemas.map (·.id)
  | .topic => c.topics.map (·.id)
  | .subscription => c.subscriptions.map (·.id)

/-- The entry of a kind and id is the first that is repeated, schemas coming before topics and these
before subscriptions. -/
def FirstRepeats (c : Configuration) (id : String) : Resource → Prop
  | .schema => FirstRepeated (c.ids .schema) id
  | .topic => (c.ids .schema).Nodup ∧ FirstRepeated (c.ids .topic) id
  | .subscription =>
    (c.ids .schema).Nodup ∧ (c.ids .topic).Nodup ∧ FirstRepeated (c.ids .subscription) id

theorem FirstRepeats.not_nodup {c : Configuration} {id : String} {r : Resource}
    (h : c.FirstRepeats id r) : ¬(c.ids r).Nodup := by
  cases r with
  | schema => exact FirstRepeated.not_nodup h
  | topic => exact h.2.not_nodup
  | subscription => exact h.2.2.not_nodup

/-- The schema of a topic as it is declared, with its encoding. -/
def settingsOf (c : Configuration) (entry : TopicEntry) : Option SchemaSettings :=
  entry.schema.bind fun id =>
    entry.encoding.map fun encoding => ⟨Resource.schema.nameOf c.project id, encoding⟩

/-- A store holds the declared resources and no others. -/
structure HeldIn (c : Configuration) (store : Store) : Prop where
  schemas : ∀ name schema, store.schemas.find? name = some schema ↔
    ∃ entry ∈ c.schemas, ∃ definition, entry.definition = some definition ∧
      name = Resource.schema.nameOf c.project entry.id ∧
      schema = { name, kind := entry.kind, definition }
  topics : ∀ name topic, store.topics.find? name = some topic ↔
    ∃ entry ∈ c.topics, name = Resource.topic.nameOf c.project entry.id ∧
      topic = { name, schemaSettings := c.settingsOf entry }
  queues : ∀ name queue, store.queues.find? name = some queue ↔
    ∃ entry ∈ c.subscriptions, name = Resource.subscription.nameOf c.project entry.id ∧
      queue = { config := { name, topic := entry.topic, ackDeadline := entry.ackDeadline } }

/-- A table that has what entries declare has a name just if an entry has its id. -/
theorem isSome_find?_iff {α β : Type} {r : Resource} {project : String} {entries : List α}
    {key : α → String} {value : String → α → β} {table : Table β}
    (h : ∀ name b, table.find? name = some b ↔
      ∃ a ∈ entries, name = r.nameOf project (key a) ∧ b = value name a) (id : String) :
    (table.find? (r.nameOf project id)).isSome = true ↔ id ∈ entries.map key := by
  rw [Option.isSome_iff_exists, List.mem_map]
  constructor
  · rintro ⟨b, hfound⟩
    obtain ⟨a, ha, hname, -⟩ := (h _ _).mp hfound
    exact ⟨a, ha, (Resource.nameOf_inj hname).symm⟩
  · rintro ⟨a, ha, rfl⟩
    exact ⟨_, (h _ _).mpr ⟨a, ha, rfl, rfl⟩⟩

/-- A subscription that is accepted is to a declared topic. -/
theorem mem_topicIds_of_parse {text : String} {c : Configuration} (h : parse text = .ok c)
    {entry : SubscriptionEntry} (hentry : entry ∈ c.subscriptions) :
    entry.topic ∈ c.topics.map (·.id) := by
  have hf := fault?_of_parse h
  unfold fault? at hf
  split at hf
  · cases hf
  · simp only [Option.orElse_eq_orElse, Option.orElse_eq_or, Option.or_eq_none_iff,
      List.findSome?_eq_none_iff] at hf
    have hsubscription := hf.2.2 entry hentry
    unfold subscriptionFault? at hsubscription
    split at hsubscription
    · cases hsubscription
    · next hall => simpa using hall

end Configuration

/-! ### Reactors that reject nothing -/

/-- A reactor that fails no request, though it may keep others from seeing it. -/
def Reactor.Lenient (r : Reactor σ) : Prop :=
  ∀ request s, (r.react request s).1.handled = true → (r.react request s).1.error = none

theorem Reactor.offer_of_lenient {request : Request} {l : List (Reactor σ)}
    (h : ∀ r ∈ l, r.Lenient) (s : σ) : (offer request l s).1 = none := by
  induction l generalizing s with
  | nil => rfl
  | cons r rest ih =>
    rw [offer_cons]
    split
    · next hhandled => exact h r List.mem_cons_self request s hhandled
    · exact ih (fun r' hr' => h r' (List.mem_cons_of_mem _ hr')) _

namespace Emulator

/-- An emulator of a project whose reactors reject nothing. -/
structure Serves (project : String) (e : Emulator σ) : Prop where
  project : e.project = project
  lenient : ∀ r ∈ e.reactors, r.Lenient

/-- Where no reactor rejects anything, all requests are served. -/
theorem Serves.guarded {α : Type} {project : String} {e : Emulator σ} (h : e.Serves project)
    (request : Request) (serve : Emulator σ → Except BrokerError α × Emulator σ) :
    ∃ world, Emulator.guarded request serve e = serve { e with world } := by
  rcases guarded_cases request serve e with ⟨ha, -⟩ | ⟨-, hworld⟩
  · rw [accepts, Reactor.offer_of_lenient fun r hr =>
      h.lenient r (Reactor.mem_of_mem_chain hr)] at ha
    cases ha
  · exact hworld

/-- A change that is refused for one reason only. -/
theorem served_ite {change : Store → Except BrokerError Store} {e : Emulator σ} {refused : Prop}
    [Decidable refused] {error : BrokerError} {store : Store}
    (h : change e.store = if refused then .error error else .ok store) :
    served change e = if refused then (.error error, e) else (.ok (), { e with store }) := by
  by_cases hrefused : refused <;> simp only [served, h, hrefused, if_true, if_false]

theorem Serves.nameOf {project : String} {e : Emulator σ} (h : e.Serves project) (r : Resource)
    (id : String) : e.nameOf r id = r.nameOf project id := by
  rw [Emulator.nameOf, h.project]

end Emulator

namespace Emulator.Serves

variable {project : String} {e : Emulator σ} (h : e.Serves project)
include h

theorem createSchema (id : String) (config : SchemaConfig) :
    let name := Resource.schema.nameOf project id
    ∃ world, e.createSchema id config = if e.store.schemas.contains name
      then (.error (.taken .schema name), { e with world })
      else (.ok { config with name }, { e with
        world
        store := { e.store with schemas := e.store.schemas.insert name { config with name } } }) := by
  intro name
  unfold Emulator.createSchema
  refine (h.guarded _ _).imp fun world hserve => hserve.trans ?_
  rw [h.nameOf]
  by_cases htaken : e.store.schemas.contains name = true <;>
    simp only [Store.createSchema, name, htaken, if_true, Bool.false_eq_true, if_false]

theorem createTopic (id : String) (config : TopicConfig) :
    let name := Resource.topic.nameOf project id
    ∃ world, e.createTopic id config = if e.store.topics.contains name
      then (.error (.taken .topic name), { e with world })
      else (.ok (), { e with
        world
        store := { e.store with topics := e.store.topics.insert name { config with name } } }) := by
  intro name
  obtain ⟨world, hserve⟩ := h.guarded (.createTopic (e.nameOf .topic id))
    (served (·.createTopic (e.nameOf .topic id) config))
  refine ⟨world, hserve.trans ?_⟩
  rw [h.nameOf]
  exact served_ite rfl

theorem createSubscription (id : String) {config : SubscriptionConfig}
    (htopic : e.store.topics.find? (Resource.topic.nameOf project config.topic) ≠ none) :
    let name := Resource.subscription.nameOf project id
    ∃ world, e.createSubscription id config = if e.store.queues.contains name
      then (.error (.taken .subscription name), { e with world })
      else (.ok (), { e with
        world
        store := { e.store with
          queues := e.store.queues.insert name { config := { config with name } } } }) := by
  intro name
  obtain ⟨world, hserve⟩ := h.guarded
    (.createSubscription (e.nameOf .subscription id) (e.nameOf .topic config.topic))
    (served (·.createSubscription (e.nameOf .subscription id) (e.nameOf .topic config.topic)
      config))
  have hthere : e.store.topics.contains (Resource.topic.nameOf project config.topic) = true :=
    Option.isSome_iff_ne_none.mpr htopic
  refine ⟨world, hserve.trans ?_⟩
  rw [h.nameOf, h.nameOf]
  exact served_ite (by rw [Store.createSubscription, hthere]; rfl)

end Emulator.Serves

/-! ### What becomes of an entry -/

/-- The name and the queue that a declared subscription is created as. -/
def SubscriptionEntry.created (project : String) (e : SubscriptionEntry) : String × Queue :=
  let name := Resource.subscription.nameOf project e.id
  (name, { config := { e.toConfig with name } })

/-- The error for a resource that cannot be prepared because its name is taken. -/
def ServiceError.repeated (r : Resource) (project id : String) : ServiceError :=
  .prepare r id (.taken r (r.nameOf project id))

/-! ### Tables of a store -/

/-- A table of a store, which resources of one kind are put into. -/
structure Store.Shelf (β : Type) where
  table : Store → Table β
  put : Table β → Store → Store
  table_put (t : Table β) (s : Store) : table (put t s) = t
  put_table (s : Store) : put (table s) s = s
  put_put (t t' : Table β) (s : Store) : put t (put t' s) = put t s

namespace Store.Shelf

def schemas : Shelf SchemaConfig where
  table := Store.schemas
  put t s := { s with schemas := t }
  table_put _ _ := rfl
  put_table _ := rfl
  put_put _ _ _ := rfl

def topics : Shelf TopicConfig where
  table := Store.topics
  put t s := { s with topics := t }
  table_put _ _ := rfl
  put_table _ := rfl
  put_put _ _ _ := rfl

def queues : Shelf Queue where
  table := Store.queues
  put t s := { s with queues := t }
  table_put _ _ := rfl
  put_table _ := rfl
  put_put _ _ _ := rfl

end Store.Shelf

namespace Preparation

variable [Log.Journal σ] {project : String} {e : Emulator σ}

/-! ### What becomes of resources in turn -/

/-- What preparing resources of a kind one after the other comes to: all of them are put on a shelf
under their names, with an answer that is good, or one of them has a name that is taken. -/
def Creates {α β : Type} (r : Resource) (project : String) (shelf : Store.Shelf β) (good : α → Prop)
    (created : List (String × β)) (e : Emulator σ) (outcome : Except ServiceError α × Emulator σ) :
    Prop :=
  (∃ id, Table.Clashes created (shelf.table e.store) (r.nameOf project id) ∧
    outcome.1 = .error (.repeated r project id)) ∨
  ∃ answer world table,
    outcome = (.ok answer, { e with world, store := shelf.put table e.store }) ∧
      Table.Added created (shelf.table e.store) table ∧ good answer

namespace Creates

variable {α β : Type} {r : Resource} {shelf : Store.Shelf β} {good : α → Prop}
  {created : List (String × β)} {outcome : Except ServiceError α × Emulator σ}

omit [Log.Journal σ] in
theorem nil {answer : α} (h : good answer) : Creates r project shelf good [] e (.ok answer, e) :=
  .inr ⟨answer, e.world, shelf.table e.store, by rw [shelf.put_table], .nil _, h⟩

omit [Log.Journal σ] in
theorem imp {good' : α → Prop} (h : Creates r project shelf good created e outcome)
    (himp : ∀ answer, good answer → good' answer) :
    Creates r project shelf good' created e outcome := by
  rcases h with h | ⟨answer, world, table, houtcome, hadded, hgood⟩
  · exact .inl h
  · exact .inr ⟨answer, world, table, houtcome, hadded, himp answer hgood⟩

/-- The first resource is prepared if its name is new, and then the rest; else its name is taken and
the outcome is that error. -/
theorem cons {κ : Type} {id : String} {value : β} {answer : κ}
    {fields : κ → List (String × String)} {create : Emulator σ → Except BrokerError κ × Emulator σ}
    {prepared : Except ServiceError κ × Emulator σ}
    (hprepared : prepared = prepare r id fields create e)
    (hcreate : ∃ world, create e = if (shelf.table e.store).contains (r.nameOf project id)
      then (.error (.taken r (r.nameOf project id)), { e with world })
      else (.ok answer, { e with
        world
        store := shelf.put ((shelf.table e.store).insert (r.nameOf project id) value) e.store }))
    (hfails : ∀ error s, prepared = (.error error, s) → outcome = (.error error, s))
    (hgoes : ∀ world e', e' = { e with
        world
        store := shelf.put ((shelf.table e.store).insert (r.nameOf project id) value) e.store } →
      prepared = (.ok answer, e') → Creates r project shelf good created e' outcome) :
    Creates r project shelf good ((r.nameOf project id, value) :: created) e outcome := by
  obtain ⟨world, hcreate⟩ := hcreate
  rw [prepare, hcreate] at hprepared
  cases hnew : (shelf.table e.store).find? (r.nameOf project id) with
  | some old =>
    rw [if_pos (by rw [Table.contains, hnew]; rfl)] at hprepared
    refine .inl ⟨id, .here (hnew ▸ Option.some_ne_none old), ?_⟩
    rw [hfails _ _ hprepared]
    rfl
  | none =>
    rw [if_neg (by rw [Table.contains, hnew]; exact Bool.false_ne_true)] at hprepared
    rcases hgoes _ _ rfl hprepared with
      ⟨id', hclashes, herror⟩ | ⟨a, world', table, hrest, hadded, ha⟩
    · rw [shelf.table_put] at hclashes
      exact .inl ⟨id', .later hnew hclashes, herror⟩
    · rw [shelf.table_put] at hadded
      rw [shelf.put_put] at hrest
      exact .inr ⟨a, world', table, hrest, .cons hnew hadded, ha⟩

end Creates

/-! ### What becomes of all entries -/

omit [Log.Journal σ] in
/-- An answer with the emulator that it leaves. -/
theorem eq_of_fst_eq {α : Type} {p : α × Emulator σ} {a : α} (h : p.1 = a) : p = (a, p.2) :=
  Prod.ext h rfl

/-- The schemas are created; the answer has their names by their ids. -/
theorem schemas_outcome (h : e.Serves project) (files : Files) {entries : List SchemaEntry}
    (hinline : ∀ entry ∈ entries, entry.definition.isSome) (names : Table String) :
    Creates .schema project .schemas
      (fun names' => ∀ id, names'.find? id =
        if id ∈ entries.map (·.id) then some (Resource.schema.nameOf project id)
        else names.find? id)
      (entries.map (SchemaEntry.created files project)) e
      (schemas (client project) files entries names e) := by
  induction entries generalizing e names with
  | nil => exact .nil fun id => by simp
  | cons entry rest ih =>
    obtain ⟨definition, hdefinition⟩ := Option.isSome_iff_exists.mp
      (hinline entry List.mem_cons_self)
    have hconfig : entry.toConfig files = .ok { kind := entry.kind, definition } := by
      unfold SchemaEntry.toConfig
      rw [hdefinition]
    have hcreated : entry.created files project = (Resource.schema.nameOf project entry.id,
        { name := Resource.schema.nameOf project entry.id, kind := entry.kind, definition }) := by
      rw [SchemaEntry.created, SchemaEntry.text, hdefinition, Option.getD_some]
    unfold schemas
    rw [hconfig, List.map_cons, List.map_cons, hcreated]
    dsimp only
    refine .cons (Eq.refl (schema (client project)
        { id := entry.id, config := { kind := entry.kind, definition } } e))
      (h.createSchema entry.id _) (fun error s hprepared => by rw [hprepared])
      fun world e' he hprepared => ?_
    subst he
    rw [hprepared]
    have hserves : ∀ store, Serves project { e with world, store } :=
      fun _ => ⟨h.project, h.lenient⟩
    refine .imp (ih (hserves _)
      (fun entry' he => hinline entry' (List.mem_cons_of_mem _ he)) _) fun names' hnames id => ?_
    rw [hnames, Table.find?_insert]
    by_cases hid : id = entry.id <;> simp [hid]

theorem topics_outcome (h : e.Serves project) (names : Table String) (entries : List TopicEntry) :
    Creates .topic project .topics (fun _ => True)
      (entries.map (TopicEntry.created names project)) e
      (topics (client project) names entries e) := by
  induction entries generalizing e with
  | nil => exact .nil trivial
  | cons entry rest ih =>
    unfold topics
    dsimp only
    refine .cons (Eq.refl (topic (client project)
        { id := entry.id, config := entry.toConfig (entry.schema.bind names.find?) } e))
      (h.createTopic entry.id _) (fun error s hprepared => by rw [hprepared])
      fun world e' he hprepared => ?_
    subst he
    rw [hprepared]
    exact ih ⟨h.project, h.lenient⟩

/-- The subscriptions are created if their topics are there. -/
theorem subscriptions_outcome (h : e.Serves project) {topicIds : List String}
    {entries : List SubscriptionEntry}
    (htopics : ∀ entry ∈ entries, entry.topic ∈ topicIds ∧
      e.store.topics.find? (Resource.topic.nameOf project entry.topic) ≠ none) :
    Creates .subscription project .queues (fun _ => True)
      (entries.map (SubscriptionEntry.created project)) e
      (subscriptions (client project) topicIds entries e) := by
  induction entries generalizing e with
  | nil => exact .nil trivial
  | cons entry rest ih =>
    obtain ⟨hmem, hthere⟩ := htopics entry List.mem_cons_self
    unfold subscriptions
    rw [if_pos hmem]
    refine .cons (Eq.refl (subscription (client project) entry.topic
        { id := entry.id, config := entry.toConfig } e))
      (h.createSubscription entry.id hthere) (fun error s hprepared => by rw [hprepared])
      fun world e' he hprepared => ?_
    subst he
    rw [hprepared]
    exact ih ⟨h.project, h.lenient⟩
      fun entry' he => htopics entry' (List.mem_cons_of_mem _ he)

end Preparation

/-! ### Probes -/

namespace Probe

/-- A probe of resources that are looked up without an error has an answer for each. -/
theorem ask_fst {e : Emulator σ} {look : String → Emulator σ → Except BrokerError Bool × Emulator σ}
    {there : String → Bool} (h : ∀ id world, ∃ world',
      look id { e with world } = (.ok (there id), { e with world := world' }))
    (ids : List String) (world : σ) :
    (ask look ids { e with world }).1 = ids.map fun id => (id, .ok (there id)) := by
  induction ids generalizing world with
  | nil => rfl
  | cons id rest ih =>
    obtain ⟨world', hlook⟩ := h id world
    rw [ask, hlook]
    exact congrArg _ (ih world')

/-- A probe succeeds just if everything that it asks for is there. -/
theorem summarize_ask {look : String → Emulator σ → Except BrokerError Bool × Emulator σ}
    {there : String → Bool} {e : Emulator σ}
    (h : ∀ id world, ∃ world', look id { e with world } =
      (.ok (there id), { e with world := world' })) (r : Resource) (ids : List String) :
    (summarize r (ask look ids e).1).success = true ↔ ∀ id ∈ ids, there id = true := by
  have hfound : (ask look ids e).1 = ids.map fun id => (id, .ok (there id)) := ask_fst h ids e.world
  rw [hfound]
  simp [summarize, isThere]

variable [Log.Journal σ] {project : String} {e : Emulator σ}

theorem check_topics (h : e.Serves project) (name : String) (ids : List String) :
    (check (client project) ⟨name, .topic, ids⟩ e).1.success = true ↔
      ∀ id ∈ ids, (e.store.topics.find? (Resource.topic.nameOf project id)).isSome = true := by
  have hlook : ∀ id world, ∃ world', Emulator.topicExists id { e with world } =
      (.ok (e.store.topics.find? (Resource.topic.nameOf project id)).isSome,
        { e with world := world' }) := fun id world => by
    have hserves : Serves project { e with world } := ⟨h.project, h.lenient⟩
    rw [topicExists_eq, hserves.nameOf]
    exact hserves.guarded _ _
  exact summarize_ask hlook .topic ids

theorem check_subscriptions (h : e.Serves project) (name : String) (ids : List String) :
    (check (client project) ⟨name, .subscription, ids⟩ e).1.success = true ↔
      ∀ id ∈ ids, (e.store.queues.find? (Resource.subscription.nameOf project id)).isSome = true := by
  have hlook : ∀ id world, ∃ world', Emulator.subscriptionExists id { e with world } =
      (.ok ((e.store.queues.find? (Resource.subscription.nameOf project id)).map
        Queue.config).isSome, { e with world := world' }) := fun id world => by
    have hserves : Serves project { e with world } := ⟨h.project, h.lenient⟩
    rw [subscriptionExists_eq, hserves.nameOf]
    exact hserves.guarded _ _
  simp only [Option.isSome_map] at hlook
  exact summarize_ask hlook .subscription ids

end Probe

/-! ### Whole configurations -/

namespace Configuration

/-- What has been created from the entries of an accepted configuration is what they declare. -/
theorem heldIn {files : Files} {config : Configuration} {names : Table String} {store : Store}
    (hinline : ∀ entry ∈ config.schemas, entry.definition.isSome)
    (hnames : ∀ id, names.find? id = if id ∈ config.schemas.map (·.id)
      then some (Resource.schema.nameOf config.project id) else none)
    (hdeclared : ∀ entry ∈ config.topics, ∀ id, entry.schema = some id →
      id ∈ config.schemas.map (·.id))
    (hschemas : Table.Added (config.schemas.map (SchemaEntry.created files config.project)) []
      store.schemas)
    (htopics : Table.Added (config.topics.map (TopicEntry.created names config.project)) []
      store.topics)
    (hqueues : Table.Added (config.subscriptions.map (SubscriptionEntry.created config.project)) []
      store.queues) : config.HeldIn store where
  schemas name schema := by
    rw [hschemas.find?_eq_some_iff, List.mem_map]
    refine exists_congr fun entry => and_congr_right fun hentry => ?_
    obtain ⟨definition, hdefinition⟩ := Option.isSome_iff_exists.mp (hinline entry hentry)
    simp only [SchemaEntry.created, SchemaEntry.text, hdefinition, Option.getD_some, Prod.mk.injEq,
      Option.some.injEq, exists_eq_left']
    constructor
    · rintro ⟨rfl, rfl⟩
      exact ⟨rfl, rfl⟩
    · rintro ⟨rfl, rfl⟩
      exact ⟨rfl, rfl⟩
  topics name topic := by
    rw [htopics.find?_eq_some_iff, List.mem_map]
    refine exists_congr fun entry => and_congr_right fun hentry => ?_
    have hconfig : entry.toConfig (entry.schema.bind names.find?) =
        { schemaSettings := config.settingsOf entry } := by
      unfold TopicEntry.toConfig settingsOf
      cases hschema : entry.schema with
      | none => rfl
      | some id =>
        rw [Option.bind_some, hnames, if_pos (hdeclared entry hentry id hschema)]
        cases entry.encoding <;> rfl
    rw [TopicEntry.created, hconfig, Prod.mk.injEq]
    constructor
    · rintro ⟨rfl, rfl⟩
      exact ⟨rfl, rfl⟩
    · rintro ⟨rfl, rfl⟩
      exact ⟨rfl, rfl⟩
  queues name queue := by
    rw [hqueues.find?_eq_some_iff, List.mem_map]
    refine exists_congr fun entry => and_congr_right fun _ => ?_
    rw [SubscriptionEntry.created, SubscriptionEntry.toConfig, Prod.mk.injEq]
    constructor
    · rintro ⟨rfl, rfl⟩
      exact ⟨rfl, rfl⟩
    · rintro ⟨rfl, rfl⟩
      exact ⟨rfl, rfl⟩

end Configuration

namespace Preparation

/-! The names that entries are created under are those of their ids. -/

theorem names_schemas (files : Files) (c : Configuration) :
    (c.schemas.map (SchemaEntry.created files c.project)).map Prod.fst =
      (c.ids .schema).map (Resource.schema.nameOf c.project) := by
  simp [Configuration.ids, SchemaEntry.created]

theorem names_topics (names : Table String) (c : Configuration) :
    (c.topics.map (TopicEntry.created names c.project)).map Prod.fst =
      (c.ids .topic).map (Resource.topic.nameOf c.project) := by
  simp [Configuration.ids, TopicEntry.created]

theorem names_subscriptions (c : Configuration) :
    (c.subscriptions.map (SubscriptionEntry.created c.project)).map Prod.fst =
      (c.ids .subscription).map (Resource.subscription.nameOf c.project) := by
  simp [Configuration.ids, SubscriptionEntry.created]

/-- Preparing an accepted configuration on a new emulator stops at the first entry that is repeated,
or comes to an end with everything that is declared. -/
theorem all_outcome [Log.Journal σ] {text : String} {config : Configuration}
    (hparse : Configuration.parse text = .ok config)
    (hinline : ∀ entry ∈ config.schemas, entry.definition.isSome) (files : Files) (world : σ)
    {reactors : List (Reactor σ)} (hreactors : ∀ r ∈ reactors, r.Lenient) :
    let start : Emulator σ := { project := config.project, world, reactors }
    (∃ r id, config.FirstRepeats id r ∧ (all (client config.project) files config start).1 =
      .error (.repeated r config.project id)) ∨
    ∃ world' store, all (client config.project) files config start =
        (.ok (), { start with world := world', store }) ∧
      (∀ r, (config.ids r).Nodup) ∧ config.HeldIn store := by
  intro start
  have hserves : ∀ world store, Serves config.project { start with world, store } :=
    fun _ _ => ⟨rfl, hreactors⟩
  unfold all
  rcases schemas_outcome (hserves world start.store) files hinline [] with
    ⟨id, hclashes, herror⟩ | ⟨names, world₁, schemaTable, hok, hschemas, hnames⟩
  · refine .inl ⟨.schema, id, Table.Clashes.firstRepeated (names_schemas files config) hclashes, ?_⟩
    rw [eq_of_fst_eq herror]
  have hnodup₁ : (config.ids .schema).Nodup := hschemas.nodup_ids (names_schemas files config)
  rw [hok]
  dsimp only
  rcases topics_outcome (hserves world₁ (Store.Shelf.schemas.put schemaTable start.store)) names
    config.topics with ⟨id, hclashes, herror⟩ | ⟨⟨⟩, world₂, topicTable, hok, htopics, -⟩
  · refine .inl ⟨.topic, id, ⟨hnodup₁, hclashes.firstRepeated (names_topics names config)⟩, ?_⟩
    rw [eq_of_fst_eq herror]
  have hnodup₂ : (config.ids .topic).Nodup := htopics.nodup_ids (names_topics names config)
  rw [hok]
  dsimp only
  have hthere : ∀ entry ∈ config.subscriptions, entry.topic ∈ config.topics.map (·.id) ∧
      topicTable.find? (Resource.topic.nameOf config.project entry.topic) ≠ none := by
    intro entry hentry
    have hmem := Configuration.mem_topicIds_of_parse hparse hentry
    obtain ⟨topic, htopic, hid⟩ := List.mem_map.mp hmem
    have hfound := htopics.find?_of_mem
      (List.mem_map_of_mem (f := TopicEntry.created names config.project) htopic)
    rw [hid] at hfound
    exact ⟨hmem, hfound ▸ Option.some_ne_none _⟩
  rcases subscriptions_outcome (hserves world₂ (Store.Shelf.topics.put topicTable
    (Store.Shelf.schemas.put schemaTable start.store))) hthere with
    ⟨id, hclashes, herror⟩ | ⟨⟨⟩, world₃, queueTable, hok, hqueues, -⟩
  · exact .inl ⟨.subscription, id,
      ⟨hnodup₁, hnodup₂, hclashes.firstRepeated (names_subscriptions config)⟩, herror⟩
  refine .inr ⟨world₃, _, hok, fun r => ?_, Configuration.heldIn hinline hnames
    (fun topic htopic id => Configuration.mem_ids_of_parse hparse htopic) hschemas htopics hqueues⟩
  cases r with
  | schema => exact hnodup₁
  | topic => exact hnodup₂
  | subscription => exact hqueues.nodup_ids (names_subscriptions config)

end Preparation

/-- **What is declared is what is prepared.** Let a configuration with inline definitions be
accepted and then be prepared on a new emulator of its project, whose reactors reject nothing.

* It succeeds if and only if no two schemas, no two topics and no two subscriptions have one id.
* Otherwise the error names the first entry that is repeated, schemas coming before topics and these
  before subscriptions.
* After it has succeeded the store holds the declared resources and no others, each topic with the
  schema and encoding that it declares if it declares a schema; and whatever the reactors remember
  by then, a probe succeeds if and only if all its resources have been declared. -/
theorem configuration_prepared [Log.Journal σ] {text : String} {config : Configuration}
    (hparse : Configuration.parse text = .ok config)
    (hinline : ∀ entry ∈ config.schemas, entry.definition.isSome) (files : Files) (world : σ)
    {reactors : List (Reactor σ)} (hreactors : ∀ r ∈ reactors, r.Lenient) :
    let prepared := Preparation.all (client config.project) files config
      { project := config.project, world, reactors }
    (prepared.1 = .ok () ↔ ∀ r, (config.ids r).Nodup) ∧
    (prepared.1 ≠ .ok () → ∃ r id, config.FirstRepeats id r ∧
      prepared.1 = .error (.prepare r id (.taken r (r.nameOf config.project id)))) ∧
    (prepared.1 = .ok () → config.HeldIn prepared.2.store ∧
      ∀ topics subscriptions, ∀ p ∈ Probe.both topics subscriptions, ∀ world,
        (p.check (client config.project) { prepared.2 with world }).1.success = true ↔
          ∀ id ∈ p.ids, id ∈ config.ids p.resource) := by
  intro prepared
  rcases Preparation.all_outcome hparse hinline files world hreactors with
    ⟨r, id, hrepeats, herror⟩ | ⟨world', store, hok, hnodup, hheld⟩
  · have hne : prepared.1 ≠ .ok () := fun h => by
      rw [show prepared.1 = _ from herror] at h
      cases h
    exact ⟨iff_of_false hne fun h => hrepeats.not_nodup (h r), fun _ => ⟨r, id, hrepeats, herror⟩,
      fun h => absurd h hne⟩
  have hstate : prepared.2 = _ := congrArg Prod.snd hok
  have hstore : prepared.2.store = store := by rw [hstate]
  have hserves : ∀ world, Serves config.project { prepared.2 with world } := fun _ =>
    ⟨by rw [hstate], by rw [hstate]; exact hreactors⟩
  have hresult : prepared.1 = .ok () := congrArg Prod.fst hok
  refine ⟨iff_of_true hresult hnodup, fun h => absurd hresult h,
    fun _ => ⟨hstore ▸ hheld, fun topics subscriptions p hp world => ?_⟩⟩
  rcases List.mem_cons.mp hp with rfl | hp
  · refine (Probe.check_topics (hserves world) _ topics).trans (forall₂_congr fun id _ => ?_)
    rw [hstore]
    exact Configuration.isSome_find?_iff hheld.topics id
  · rw [List.mem_singleton.mp hp]
    refine (Probe.check_subscriptions (hserves world) _ subscriptions).trans
      (forall₂_congr fun id _ => ?_)
    rw [hstore]
    exact Configuration.isSome_find?_iff hheld.queues id

/-- A topic with a schema, a topic with no more than an encoding, and a subscription. -/
def bareEncoding : Configuration :=
  { project := "p"
    schemas := [{ id := "s", kind := .avro, definition := some "\"string\"" }]
    topics := [{ id := "t", schema := some "s", encoding := some .binary },
      { id := "u", encoding := some .json }]
    subscriptions := [{ id := "v", topic := "u" }] }

/-- The TOML text of `bareEncoding`. -/
def bareEncodingText : String :=
  "[project]\nid='p'\n[[schemas]]\nid='s'\ntype='avro'\ndefinition='\"string\"'\n" ++
  "[[topics]]\nid='t'\nschema='s'\nencoding='binary'\n" ++
  "[[topics]]\nid='u'\nencoding='json'\n[[subscriptions]]\nid='v'\ntopic='u'\n"

theorem bareEncoding_accepted : Configuration.parse bareEncodingText = .ok bareEncoding := by
  have h : (Configuration.parse bareEncodingText).toOption = some bareEncoding := by decide +kernel
  cases hp : Configuration.parse bareEncodingText <;> simp_all [Except.toOption]

/-- A reactor that takes every request to itself and lets it go on. -/
def Reactor.swallow : Reactor Unit where
  methods := ["CreateTopic", "GetTopic"]
  react _ s := ({ handled := true }, s)

/-- The emulator on which `bareEncoding` is prepared. -/
def bareEncodingStart : Emulator Unit :=
  { project := "p", world := (), reactors := [.swallow, .log] }

theorem lenient_of_mem_reactors : ∀ r ∈ bareEncodingStart.reactors, r.Lenient := by
  simp only [bareEncodingStart, List.mem_cons, List.not_mem_nil, or_false, forall_eq_or_imp,
    forall_eq]
  exact ⟨fun _ _ _ => rfl, fun _ _ _ => rfl⟩

theorem configuration_prepared_bare_encoding :
    let prepared := Preparation.all (client "p") (fun _ => none) bareEncoding bareEncodingStart
    prepared.1 = .ok () ∧ bareEncoding.HeldIn prepared.2.store ∧
      (Probe.check (client "p") ⟨"gcppubsub-topics", .topic, ["t", "u"]⟩ prepared.2).1.success =
        true ∧
      (Probe.check (client "p") ⟨"gcppubsub-topics", .topic, ["t", "v"]⟩ prepared.2).1.success ≠
        true := by
  intro prepared
  obtain ⟨hiff, -, hheld⟩ := configuration_prepared bareEncoding_accepted (by decide)
    (fun _ => none) () lenient_of_mem_reactors
  have hok : prepared.1 = .ok () := hiff.mpr (by intro r; cases r <;> decide)
  obtain ⟨hstore, hprobe⟩ := hheld hok
  refine ⟨hok, hstore, ?_, ?_⟩
  · exact (hprobe ["t", "u"] [] _ List.mem_cons_self ()).mpr (by decide)
  · exact fun h => absurd ((hprobe ["t", "v"] [] _ List.mem_cons_self ()).mp h) (by decide)

/-- The encoding of a topic without a schema is not kept. -/
theorem encoding_not_kept :
    let prepared := Preparation.all (client "p") (fun _ => none) bareEncoding bareEncodingStart
    Configuration.parse bareEncodingText = .ok bareEncoding ∧ prepared.1 = .ok () ∧
      ∃ entry ∈ bareEncoding.topics, entry.encoding = some .json ∧
        ∃ topic, prepared.2.store.topics.find? (Resource.topic.nameOf "p" entry.id) = some topic ∧
          topic.schemaSettings.map (·.encoding) ≠ entry.encoding :=
  ⟨bareEncoding_accepted, rfl, _, .tail _ (.head _), rfl, _, rfl, by decide⟩

end Messaging
