import Messaging.Proofs.Service.Within

/-! # Topics and subscriptions are created once

The first publish to a topic has the factory create it, and so has the first subscribe to a
subscription. The creation may fail for many reasons, and then the next access of the id tries
again. What has been created is kept for good: nothing of it changes but the options that were
applied last, so an `Entity` is the rest of it.

`Access.creation?` is what an access asks of the factory, and what the answer is. An access does one
of three things to the registries (`Access.Does`): it asks for nothing and keeps what is there, it
gets an error and leaves the registries as they are, or it registers what it gets under a new id.
So the answers for one id are errors up to the first success, which is the last answer
(`created_once`). That nothing is asked for afterwards means that the operations of the client that
the factory needs may be any others: it makes no difference (`Service.Kept`). -/

namespace Messaging

/-- A topic or subscription without the options that were applied last. -/
structure Entity where
  id : String
  codec : Codec
  /-- The handle of a topic. -/
  handle : Option Nat := none

def Topic.entity (t : Topic) : Entity := { id := t.id, codec := t.codec, handle := some t.handle }

def Subscription.entity (sub : Subscription) : Entity := { id := sub.id, codec := sub.codec }

/-- Something that a factory has been asked for, and the answer. -/
structure Creation where
  resource : Resource
  id : String
  answer : Except ServiceError Entity

/-- The answers for an id, one after the other. -/
def Creation.answers (r : Resource) (id : String) (creations : List Creation) :
    List (Except ServiceError Entity) :=
  creations.filterMap fun a => if a.resource = r ∧ a.id = id then some a.answer else none

/-- A publish, a subscribe, or something that others do to the broker in between. -/
inductive Access (σ : Type) where
  | publish (id : String) (p : Payload) (o : PublishOptions)
  | subscribe (id : String) (o : ReceiveOptions)
  | outside (change : σ → σ)

/-- What an access is told. -/
inductive AccessAnswer where
  | published (answer : Except ServiceError (Except BrokerError String))
  | subscribed (answer : Except ServiceError Subscription)
  | nothing

/-- The error of the service that an access is told. -/
def AccessAnswer.error? : AccessAnswer → Option ServiceError
  | published (.error e) => some e
  | subscribed (.error e) => some e
  | _ => none

/-- Two clients that publish and receive alike. They may have different operations for creating
topics and subscriptions. -/
structure Client.DeliversAs {σ : Type} (c c' : Client σ) : Prop where
  project : c'.project = c.project
  configure : c'.configure = c.configure
  submit : c'.submit = c.submit
  pull : c'.pull = c.pull

variable {σ : Type} [Log.Journal σ]

namespace Access

/-- The topic or subscription that an access is about. -/
def target? : Access σ → Option (Resource × String)
  | publish id _ _ => some (.topic, id)
  | subscribe id _ => some (.subscription, id)
  | outside _ => none

/-- An access: what it is told, and the service after it. -/
def perform (c : Client σ) (s : Service σ) : Access σ → AccessAnswer × Service σ
  | publish id p o => (.published (s.publish c id p o).1, (s.publish c id p o).2)
  | subscribe id o => (.subscribed (s.subscribe c id o).1, (s.subscribe c id o).2)
  | outside change => (.nothing, { s with broker := change s.broker })

/-- The service after an access. -/
def run (c : Client σ) (s : Service σ) (a : Access σ) : Service σ := (a.perform c s).2

/-- The service after accesses, one after the other. -/
def runs (c : Client σ) (accesses : List (Access σ)) (s : Service σ) : Service σ :=
  accesses.foldl (run c) s

/-- What an access asks of the factory: it creates what is not in the registry. -/
def creation? (c : Client σ) (s : Service σ) : Access σ → Option Creation
  | publish id _ _ =>
    if s.topics.has id then none
    else some ⟨.topic, id, (s.createTopic c id).1.map Topic.entity⟩
  | subscribe id _ =>
    if s.subscriptions.has id then none
    else some ⟨.subscription, id, (s.createSubscription c id).1.map Subscription.entity⟩
  | outside _ => none

/-- What accesses ask of the factory, one after the other. -/
def creations (c : Client σ) : List (Access σ) → Service σ → List Creation
  | [], _ => []
  | a :: rest, s => (a.creation? c s).toList ++ creations c rest (a.run c s)

end Access

namespace Service

/-- What is registered under an id. -/
def entity? (r : Resource) (id : String) (s : Service σ) : Option Entity :=
  match r with
  | .topic => (s.topics.entries.find? id).map Topic.entity
  | .subscription => (s.subscriptions.entries.find? id).map Subscription.entity
  | .schema => none

/-- Receives from a subscription that has been found or created. -/
def receiveOn (c : Client σ) (id : String) (sub : Subscription) (o : ReceiveOptions)
    (s : Service σ) : Except ServiceError Subscription × Service σ :=
  (((sub.withOptions o).receive c s.broker).1.map fun _ => sub.withOptions o,
    { s with
      subscriptions := s.subscriptions.add id (sub.withOptions o)
      broker := ((sub.withOptions o).receive c s.broker).2 })

/-- An access goes on with an entity that is there. -/
def Uses (c : Client σ) (e : Entity) (s : Service σ) : Access σ → Prop
  | .publish id p o =>
    ∃ t : Topic, t.entity = e ∧ s.publish c id p o = s.publishOn c id t p o
  | .subscribe id o =>
    ∃ sub : Subscription, sub.entity = e ∧ s.subscribe c id o = s.receiveOn c id sub o
  | .outside _ => False

/-- An entity is registered under an id, and every access of that id goes on with it: no factory is
asked, so it does not matter what any client would do to create it. -/
structure Kept (c : Client σ) (r : Resource) (id : String) (e : Entity) (s : Service σ) : Prop where
  registered : s.entity? r id = some e
  unasked : ∀ a : Access σ, a.target? = some (r, id) → a.creation? c s = none
  used : ∀ a : Access σ, a.target? = some (r, id) → s.Uses c e a
  regardless : ∀ a : Access σ, a.target? = some (r, id) →
    ∀ c', c.DeliversAs c' → a.perform c' s = a.perform c s

/-- An entity is registered under an id, and nothing else has changed in the registries. -/
def Registers (r : Resource) (id : String) (e : Entity) (s s' : Service σ) : Prop :=
  ∀ r' id', s'.entity? r' id' = if r' = r ∧ id' = id then some e else s.entity? r' id'

/-! ### Registering -/

variable {c : Client σ} {s s' s'' : Service σ} {r : Resource} {id : String} {e : Entity}

section

omit [Log.Journal σ]

theorem SameRegistries.entity? (h : s.SameRegistries s') (r : Resource) (id : String) :
    s'.entity? r id = s.entity? r id := by
  unfold Service.entity?
  rw [h.topics, h.subscriptions]

theorem Registers.of_same (h : s.SameRegistries s') (h' : s'.Registers r id e s'') :
    s.Registers r id e s'' := by
  intro r' id'
  rw [h', h.entity?]

theorem Registers.again (h : s.Registers r id e s') (h' : s'.Registers r id e s'') :
    s.Registers r id e s'' := by
  intro r' id'
  rw [h', h]
  split <;> rfl

/-- Registering what is registered changes nothing. -/
theorem Registers.entity?_eq (h : s.Registers r id e s') (hs : s.entity? r id = some e)
    (r' : Resource) (id' : String) : s'.entity? r' id' = s.entity? r' id' := by
  rw [h]
  split
  · next hsame => rw [hsame.1, hsame.2, hs]
  · rfl

theorem addTopic_registers (t : Topic) (broker : σ) (s : Service σ) :
    s.Registers .topic id t.entity { s with topics := s.topics.add id t, broker } := by
  intro r' id'
  cases r' with
  | topic => by_cases hk : id' = id <;> simp [entity?, Registry.add, Table.find?_insert, hk]
  | subscription => simp [entity?]
  | schema => simp [entity?]

theorem addSubscription_registers (sub : Subscription) (broker : σ) (s : Service σ) :
    s.Registers .subscription id sub.entity
      { s with subscriptions := s.subscriptions.add id sub, broker } := by
  intro r' id'
  cases r' with
  | topic => simp [entity?]
  | subscription => by_cases hk : id' = id <;> simp [entity?, Registry.add, Table.find?_insert, hk]
  | schema => simp [entity?]

end

/-! ### Topics -/

theorem createTopic_id {t : Topic} (h : s.createTopic c id = (.ok t, s')) : t.id = id := by
  unfold createTopic at h
  split at h
  · cases h
  · split at h
    · cases h
    · cases h
      rfl

theorem newTopic_registers {t : Topic} (h : s.createTopic c id = (.ok t, s')) :
    s.newTopic c id = (.ok t, (s.newTopic c id).2) ∧
      s.Registers .topic id t.entity (s.newTopic c id).2 := by
  have hsame := createTopic_same (c := c) id s
  rw [h] at hsame
  rw [newTopic, h]
  exact ⟨rfl, .of_same hsame (addTopic_registers t _ s')⟩

/-- Publishing through a topic changes its options at the most. -/
theorem publish_entity (p : Payload) (o : PublishOptions) (t : Topic) (broker : σ) :
    (t.publish c p o broker).2.1.entity = t.entity := by
  unfold Topic.publish
  split <;> rfl

theorem publishOn_registers (t : Topic) (p : Payload) (o : PublishOptions) (s : Service σ) :
    s.Registers .topic id t.entity (s.publishOn c id t p o).2 := by
  have h : s.Registers .topic id (t.publish c p o s.broker).2.1.entity
      (s.publishOn c id t p o).2 := addTopic_registers _ _ s
  rwa [publish_entity] at h

/-! ### Subscriptions -/

theorem createSubscription_id {sub : Subscription}
    (h : s.createSubscription c id = (.ok sub, s')) : sub.id = id := by
  unfold createSubscription at h
  split at h
  · cases h
  · split at h
    · cases h
    · split at h
      · cases h
      · cases h
        rfl

theorem subscribe_of_registered {sub : Subscription}
    (h : s.subscriptions.entries.find? id = some sub) (c : Client σ) (o : ReceiveOptions) :
    s.subscribe c id o = s.receiveOn c id sub o := by
  rw [subscribe, subscription_of_registered h]
  rfl

theorem newSubscription_registers {sub : Subscription}
    (h : s.createSubscription c id = (.ok sub, s')) :
    s.newSubscription c id = (.ok sub, (s.newSubscription c id).2) ∧
      s.Registers .subscription id sub.entity (s.newSubscription c id).2 := by
  have hsame := createSubscription_same (c := c) id s
  rw [h] at hsame
  rw [newSubscription, h]
  exact ⟨rfl, .of_same hsame (addSubscription_registers sub _ s')⟩

theorem receiveOn_registers (sub : Subscription) (o : ReceiveOptions) (s : Service σ) :
    s.Registers .subscription id sub.entity (s.receiveOn c id sub o).2 :=
  addSubscription_registers (sub.withOptions o) _ s

/-! ### What the client matters for -/

theorem publishOn_of_deliversAs {c' : Client σ} (h : c.DeliversAs c') (t : Topic) (p : Payload)
    (o : PublishOptions) : s.publishOn c' id t p o = s.publishOn c id t p o := by
  simp only [publishOn, Topic.publish, Topic.withOptions, h.configure, h.submit]

theorem receiveOn_of_deliversAs {c' : Client σ} (h : c.DeliversAs c') (sub : Subscription)
    (o : ReceiveOptions) : s.receiveOn c' id sub o = s.receiveOn c id sub o := by
  simp only [receiveOn, Subscription.receive, Client.nameOf, h.project, h.pull]

end Service

namespace Access

open Service

/-! ### One access -/

/-- What an access does to the registries. -/
inductive Does (c : Client σ) (s : Service σ) (a : Access σ) : Prop
  | kept (unasked : a.creation? c s = none)
      (same : ∀ r id, (a.run c s).entity? r id = s.entity? r id)
  | failed (r : Resource) (id : String) (error : ServiceError)
      (asked : a.creation? c s = some ⟨r, id, .error error⟩) (new : s.entity? r id = none)
      (told : (a.perform c s).1.error? = some (.create r error))
      (same : s.SameRegistries (a.run c s))
  | created (r : Resource) (id : String) (e : Entity)
      (asked : a.creation? c s = some ⟨r, id, .ok e⟩) (new : s.entity? r id = none)
      (own : e.id = id) (registers : s.Registers r id e (a.run c s))

variable {c : Client σ} {s : Service σ} {r : Resource} {id : String} {e : Entity}

theorem creation?_publish (p : Payload) (o : PublishOptions)
    (h : s.topics.entries.find? id = none) : creation? c s (.publish id p o) =
      some ⟨.topic, id, (s.createTopic c id).1.map Topic.entity⟩ := by
  rw [creation?, Registry.has_of_none h, if_neg Bool.false_ne_true]

theorem creation?_subscribe (o : ReceiveOptions) (h : s.subscriptions.entries.find? id = none) :
    creation? c s (.subscribe id o) =
      some ⟨.subscription, id, (s.createSubscription c id).1.map Subscription.entity⟩ := by
  rw [creation?, Registry.has_of_none h, if_neg Bool.false_ne_true]

theorem publish_does (c : Client σ) (s : Service σ) (id : String) (p : Payload)
    (o : PublishOptions) : Does c s (.publish id p o) := by
  cases hfind : s.topics.entries.find? id with
  | some t =>
    have hregistered : s.entity? .topic id = some t.entity := congrArg (Option.map _) hfind
    refine .kept (if_pos (Registry.has_of_some hfind)) ?_
    rw [run, perform, publish_of_registered hfind]
    exact (publishOn_registers t p o s).entity?_eq hregistered
  | none =>
    have hnew : s.entity? .topic id = none := congrArg (Option.map _) hfind
    have hasked := creation?_publish (c := c) p o hfind
    rcases hcreate : s.createTopic c id with ⟨error | t, s'⟩ <;> rw [hcreate] at hasked
    · have hsame := createTopic_same (c := c) id s
      have hpublish : s.publish c id p o = (.error (.create .topic error), s') := by
        rw [Service.publish, topic_of_new hfind, newTopic, hcreate]
      refine .failed .topic id error hasked hnew ?_ ?_
      · rw [perform, hpublish]
        rfl
      · rw [run, perform, hpublish]
        rwa [hcreate] at hsame
    · obtain ⟨hok, hregisters⟩ := newTopic_registers hcreate
      have hpublish : s.publish c id p o = (s.newTopic c id).2.publishOn c id t p o := by
        rw [Service.publish, topic_of_new hfind, hok]
      refine .created .topic id t.entity hasked hnew (createTopic_id hcreate) ?_
      rw [run, perform, hpublish]
      exact hregisters.again (publishOn_registers t p o _)

theorem subscribe_does (c : Client σ) (s : Service σ) (id : String) (o : ReceiveOptions) :
    Does c s (.subscribe id o) := by
  cases hfind : s.subscriptions.entries.find? id with
  | some sub =>
    have hregistered : s.entity? .subscription id = some sub.entity :=
      congrArg (Option.map _) hfind
    refine .kept (if_pos (Registry.has_of_some hfind)) ?_
    rw [run, perform, subscribe_of_registered hfind]
    exact (receiveOn_registers sub o s).entity?_eq hregistered
  | none =>
    have hnew : s.entity? .subscription id = none := congrArg (Option.map _) hfind
    have hasked := creation?_subscribe (c := c) o hfind
    rcases hcreate : s.createSubscription c id with ⟨error | sub, s'⟩ <;> rw [hcreate] at hasked
    · have hsame := createSubscription_same (c := c) id s
      have hsubscribe : s.subscribe c id o = (.error (.create .subscription error), s') := by
        rw [Service.subscribe, subscription_of_new hfind, newSubscription, hcreate]
      refine .failed .subscription id error hasked hnew ?_ ?_
      · rw [perform, hsubscribe]
        rfl
      · rw [run, perform, hsubscribe]
        rwa [hcreate] at hsame
    · obtain ⟨hok, hregisters⟩ := newSubscription_registers hcreate
      have hsubscribe : s.subscribe c id o = (s.newSubscription c id).2.receiveOn c id sub o := by
        rw [Service.subscribe, subscription_of_new hfind, hok]
        rfl
      refine .created .subscription id sub.entity hasked hnew (createSubscription_id hcreate) ?_
      rw [run, perform, hsubscribe]
      exact hregisters.again (receiveOn_registers sub o _)

theorem does (c : Client σ) (s : Service σ) (a : Access σ) : Does c s a := by
  cases a with
  | publish id p o => exact publish_does c s id p o
  | subscribe id o => exact subscribe_does c s id o
  | outside change => exact .kept rfl fun r id => by cases r <;> rfl

theorem creation?_of_new {a : Access σ} (ha : a.target? = some (r, id))
    (h : s.entity? r id = none) : ∃ answer, a.creation? c s = some ⟨r, id, answer⟩ := by
  cases a with
  | publish key p o =>
    cases ha
    exact ⟨_, creation?_publish p o (Option.map_eq_none_iff.mp h)⟩
  | subscribe key o =>
    cases ha
    exact ⟨_, creation?_subscribe o (Option.map_eq_none_iff.mp h)⟩
  | outside change => cases ha

/-- What is registered is what every access of the id goes on with. -/
theorem kept_of_registered (c : Client σ) (h : s.entity? r id = some e) : s.Kept c r id e := by
  cases r with
  | topic =>
    obtain ⟨t, hfind, rfl⟩ := Option.map_eq_some_iff.mp h
    refine ⟨h, fun a ha => ?_, fun a ha => ?_, fun a ha c' hc' => ?_⟩ <;> cases a <;> cases ha
    · exact if_pos (Registry.has_of_some hfind)
    · exact ⟨t, rfl, publish_of_registered hfind c _ _⟩
    · rw [perform, perform, publish_of_registered hfind, publish_of_registered hfind,
        publishOn_of_deliversAs hc']
  | subscription =>
    obtain ⟨sub, hfind, rfl⟩ := Option.map_eq_some_iff.mp h
    refine ⟨h, fun a ha => ?_, fun a ha => ?_, fun a ha c' hc' => ?_⟩ <;> cases a <;> cases ha
    · exact if_pos (Registry.has_of_some hfind)
    · exact ⟨sub, rfl, subscribe_of_registered hfind c _⟩
    · rw [perform, perform, subscribe_of_registered hfind, subscribe_of_registered hfind,
        receiveOn_of_deliversAs hc']
  | schema => cases h

/-! ### Runs -/

omit [Log.Journal σ] in
/-- What is new is not what is registered. -/
theorem not_same_of_new {r' : Resource} {id' : String} (h : s.entity? r id = some e)
    (new : s.entity? r' id' = none) : ¬ (r' = r ∧ id' = id) := by
  rintro ⟨rfl, rfl⟩
  rw [new] at h
  cases h

/-- What is registered stays. -/
theorem entity?_run (a : Access σ) (h : s.entity? r id = some e) :
    (a.run c s).entity? r id = some e := by
  cases does c s a with
  | kept unasked same => rw [same, h]
  | failed r' id' error asked new told same => rw [same.entity?, h]
  | created r' id' e' asked new own registers =>
    have hother := not_same_of_new h new
    rw [registers, if_neg fun hsame => hother ⟨hsame.1.symm, hsame.2.symm⟩, h]

theorem entity?_runs (accesses : List (Access σ)) (h : s.entity? r id = some e) :
    (runs c accesses s).entity? r id = some e := by
  induction accesses generalizing s with
  | nil => exact h
  | cons a rest ih => exact ih (entity?_run a h)

theorem entity?_runs_own (accesses : List (Access σ))
    (h : ∀ r id e, s.entity? r id = some e → e.id = id) :
    ∀ r id e, (runs c accesses s).entity? r id = some e → e.id = id := by
  induction accesses generalizing s with
  | nil => exact h
  | cons a rest ih =>
    refine ih fun r id e he => ?_
    cases does c s a with
    | kept unasked same => exact h r id e (same r id ▸ he)
    | failed r' id' error asked new told same => exact h r id e (same.entity? r id ▸ he)
    | created r' id' e' asked new own registers =>
      rw [registers] at he
      split at he
      · next hsame =>
        cases he
        exact own.trans hsame.2.symm
      · exact h r id e he

theorem answers_cons (a : Access σ) (rest : List (Access σ)) :
    Creation.answers r id (creations c (a :: rest) s) =
      Creation.answers r id (a.creation? c s).toList ++
        Creation.answers r id (creations c rest (a.run c s)) :=
  List.filterMap_append

/-- Nothing is asked for under an id that is registered. -/
theorem answers_of_registered (accesses : List (Access σ)) (h : s.entity? r id = some e) :
    Creation.answers r id (creations c accesses s) = [] := by
  induction accesses generalizing s with
  | nil => rfl
  | cons a rest ih =>
    rw [answers_cons, ih (entity?_run a h), List.append_nil]
    cases does c s a with
    | kept unasked same => simp [unasked, Creation.answers]
    | failed r' id' error asked new told same =>
      simp [asked, Creation.answers, not_same_of_new h new]
    | created r' id' e' asked new own registers =>
      simp [asked, Creation.answers, not_same_of_new h new]

/-- The answers for an id that is not registered are errors, up to the one that registers it. -/
theorem answers_of_new (accesses : List (Access σ)) (h : s.entity? r id = none) :
    ∃ errors : List ServiceError, Creation.answers r id (creations c accesses s) =
      errors.map .error ++ ((runs c accesses s).entity? r id).toList.map .ok := by
  induction accesses generalizing s with
  | nil =>
    refine ⟨[], ?_⟩
    simp [runs, creations, Creation.answers, h]
  | cons a rest ih =>
    rw [answers_cons]
    cases does c s a with
    | kept unasked same =>
      rw [unasked]
      exact ih ((same r id).trans h)
    | failed r' id' error asked new told same =>
      obtain ⟨errors, herrors⟩ := ih ((same.entity? r id).trans h)
      rw [herrors, asked]
      by_cases hid : r' = r ∧ id' = id
      · exact ⟨error :: errors, by simp [Creation.answers, hid]; rfl⟩
      · exact ⟨errors, by simp [Creation.answers, hid]; rfl⟩
    | created r' id' e' asked new own registers =>
      rw [asked]
      by_cases hid : r' = r ∧ id' = id
      · obtain ⟨rfl, rfl⟩ := hid
        have hregistered : (a.run c s).entity? r' id' = some e' := by
          rw [registers, if_pos ⟨rfl, rfl⟩]
        have hlast : (runs c (a :: rest) s).entity? r' id' = some e' :=
          entity?_runs rest hregistered
        refine ⟨[], ?_⟩
        rw [answers_of_registered rest hregistered, hlast]
        simp [Creation.answers]
      · have hnew : (a.run c s).entity? r id = none := by
          rw [registers, if_neg fun hsame => hid ⟨hsame.1.symm, hsame.2.symm⟩, h]
        obtain ⟨errors, herrors⟩ := ih hnew
        exact ⟨errors, by rw [herrors]; simp [Creation.answers, hid]; rfl⟩

/-- **Topics and subscriptions are created once and kept.** In every run of publishes and
subscribes over any client, the entry of an id has that id. The factory answers with errors for an
id until it succeeds, which is the last time that it is asked, and what it gave then is what is
registered. From then on the id is kept. If a creation fails, the access fails with its error, the
registries are as before, and the next access of the id asks again. -/
theorem created_once {σ : Type} [Log.Journal σ] (c : Client σ) (config : Configuration) (broker : σ)
    (accesses : List (Access σ)) :
    let s := runs c accesses { config, broker }
    (∀ r id e, s.entity? r id = some e → e.id = id) ∧
    (∀ r id, ∃ errors : List ServiceError,
      Creation.answers r id (creations c accesses { config, broker }) =
        errors.map .error ++ (s.entity? r id).toList.map .ok) ∧
    (∀ r id e, s.entity? r id = some e → ∀ more, (runs c more s).Kept c r id e) ∧
    ∀ (a : Access σ) r id error, a.creation? c s = some ⟨r, id, .error error⟩ →
      (a.perform c s).1.error? = some (.create r error) ∧ s.SameRegistries (a.run c s) ∧
      ∀ next : Access σ, next.target? = some (r, id) →
        ∃ answer, next.creation? c (a.run c s) = some ⟨r, id, answer⟩ := by
  intro s
  have hempty : ∀ r id, entity? r id ({ config, broker } : Service σ) = none := by
    intro r id
    cases r <;> rfl
  refine ⟨?_, fun r id => ?_, fun r id e he more => ?_, fun a r id error hasked => ?_⟩
  · refine entity?_runs_own accesses fun r id e he => ?_
    rw [hempty] at he
    cases he
  · exact answers_of_new accesses (hempty r id)
  · exact kept_of_registered c (entity?_runs more he)
  · cases does c s a with
    | kept unasked same =>
      rw [unasked] at hasked
      cases hasked
    | failed r' id' error' asked new told same =>
      rw [asked] at hasked
      cases hasked
      exact ⟨told, same, fun next hnext =>
        creation?_of_new hnext ((same.entity? r id).trans new)⟩
    | created r' id' e' asked new own registers =>
      rw [asked] at hasked
      cases hasked

/-- A topic is published to before somebody creates it, and twice afterwards. -/
def retriedAccesses : List (Access (Emulator Unit)) :=
  [.publish "t" (.bytes [1]) {}, .outside fun e => (e.createTopic "t" {}).2,
    .publish "t" (.bytes [2]) {}, .publish "t" (.bytes [3]) {}]

/-- A service that has had these accesses. -/
def retriedT : Service (Emulator Unit) :=
  runs (Emulator.client "p") retriedAccesses
    { config := { project := "p" }, broker := { project := "p", world := () } }

/-- The factory fails once and then gives the topic, which is kept. -/
theorem created_once_retried :
    (Creation.answers .topic "t" (creations (Emulator.client "p") retriedAccesses
      { config := { project := "p" }, broker := { project := "p", world := () } })).map
        Except.isOk = [false, true] ∧
    ∃ e : Entity, e.id = "t" ∧ ∀ more,
      (runs (Emulator.client "p") more retriedT).Kept (Emulator.client "p") .topic "t" e := by
  obtain ⟨hown, -, hkept, -⟩ := created_once (Emulator.client (σ := Unit) "p")
    { project := "p" } { project := "p", world := () } retriedAccesses
  have hregistered : (retriedT.entity? .topic "t").isSome = true := by decide +kernel
  obtain ⟨e, he⟩ := Option.isSome_iff_exists.mp hregistered
  exact ⟨by decide +kernel, e, hown .topic "t" e he, fun more => hkept .topic "t" e he more⟩

end Access

end Messaging
