import Messaging.Proofs.Broker.Handles
import Messaging.Proofs.Service.Within
import Messaging.Proofs.Table

/-! # Publishing after a stop

Stopping the service stops the handles of the topics that are registered then, and no others: a
topic that is first used afterwards gets a handle of its own, which accepts messages. So a publish
after a stop fails for the topics that were registered when the service was stopped, and goes to the
broker as ever for all others (`publish_after_stop`).

A run of the service is a list of uses in any order, with calls of the emulator by anyone else
between them. What holds for the handle of a topic when it is opened, and is kept by the broker from
then on, holds as long as the topic is registered (`Registered.run`): the handle is open, and it
serves the topic until it is stopped. `HasStopped` is what a stop brings about for a topic that is
registered; every use keeps it. -/

namespace Messaging

open Emulator

variable {σ : Type}

/-- Something that is done to the service or, by others, to the emulator. -/
inductive Use (σ : Type) where
  | publish (id : String) (p : Payload) (o : PublishOptions)
  | topicOptions (id : String) (o : PublishOptions)
  | subscribe (id : String) (o : ReceiveOptions)
  | stop
  | broker (call : Call σ)

namespace Use

/-- Does a use stop a handle? -/
def stops : Use σ → Bool
  | stop => true
  | broker call => call.stops
  | _ => false

variable [Log.Journal σ]

/-- The service after a use. -/
def run (c : Client (Emulator σ)) (s : Service (Emulator σ)) : Use σ → Service (Emulator σ)
  | publish id p o => (s.publish c id p o).2
  | topicOptions id o => (s.topicOptions c id o).2
  | subscribe id o => (s.subscribe c id o).2
  | stop => s.stop c
  | broker call => { s with broker := call.run s.broker }

/-- The service after uses, one after the other. -/
def runs (c : Client (Emulator σ)) (uses : List (Use σ)) (s : Service (Emulator σ)) :
    Service (Emulator σ) :=
  uses.foldl (run c) s

theorem runs_nil (c : Client (Emulator σ)) (s : Service (Emulator σ)) : runs c [] s = s := rfl

end Use

/-! ### The emulator as the broker -/

section Client

variable [Log.Journal σ] (project : String)

theorem Emulator.client_steady : (client (σ := σ) project).Within Steady where
  refl := .refl
  trans h h' := h.trans h'
  note _ _ := .of_eq rfl
  topicConfig id e := .of_eq (by
    change (e.topicConfig id).2.handles = e.handles
    rw [topicConfig_eq, findTopic_handles])
  subscriptionConfig id e := .of_eq (by
    change (e.subscriptionConfig id).2.handles = e.handles
    rw [subscriptionConfig_eq, findSubscription_handles])
  schema reference e := .of_eq (schema_handles reference e)
  openTopic id e := .append [{ id }] e
  configure handle settings ordering e := configure_steady handle settings ordering e
  pull name e := .of_eq (pull_handles name e)

theorem Emulator.client_keeps : (client (σ := σ) project).Within Keeps where
  refl := .refl
  trans h h' := h.trans h'
  note entry e := ((client_steady project).note entry e).keeps
  topicConfig id e := ((client_steady project).topicConfig id e).keeps
  subscriptionConfig id e := ((client_steady project).subscriptionConfig id e).keeps
  schema reference e := ((client_steady project).schema reference e).keeps
  openTopic id e := ((client_steady project).openTopic id e).keeps
  configure handle settings ordering e :=
    ((client_steady project).configure handle settings ordering e).keeps
  pull name e := ((client_steady project).pull name e).keeps

theorem Emulator.client_alike : (client (σ := σ) project).Within Alike where
  refl := .refl
  trans h h' := h.trans h'
  note _ _ := ⟨rfl, rfl, rfl⟩
  topicConfig id e := by
    change Alike e (e.topicConfig id).2
    rw [topicConfig_eq]
    exact guarded_alike (fun e => .refl e) e
  subscriptionConfig id e := by
    change Alike e (e.subscriptionConfig id).2
    rw [subscriptionConfig_eq]
    exact guarded_alike (fun e => .refl e) e
  schema reference e := guarded_alike (fun e => by split <;> exact .refl e) e
  openTopic _ _ := ⟨rfl, rfl, rfl⟩
  configure _ _ _ _ := ⟨rfl, rfl, rfl⟩
  pull name e := guarded_alike (fun e => by split <;> exact .refl e) e

variable (s : Service (Emulator σ))

theorem Use.steady (u : Use σ) (hu : u.stops = false) :
    Steady s.broker (u.run (client project) s).broker := by
  have hc := client_steady (σ := σ) project
  cases u with
  | publish id p o =>
    exact Service.publish_within (fun _ _ e => .of_eq (submit_handles _ _ e)) hc id p o s
  | topicOptions id o => exact Service.topicOptions_within hc id o s
  | subscribe id o => exact Service.subscribe_within hc id o s
  | stop => exact absurd hu (by simp [stops])
  | broker call => exact call.steady s.broker hu

theorem Use.keeps (u : Use σ) : Keeps s.broker (u.run (client project) s).broker := by
  cases u with
  | stop => exact Service.stop_within (client_keeps project) stop_keeps s
  | broker call => exact call.keeps s.broker
  | publish id p o => exact (Use.steady project s (.publish id p o) rfl).keeps
  | topicOptions id o => exact (Use.steady project s (.topicOptions id o) rfl).keeps
  | subscribe id o => exact (Use.steady project s (.subscribe id o) rfl).keeps

end Client

namespace Service

variable {c : Client (Emulator σ)} {id key : String} {n : Nat}

/-! ### The handle of a topic -/

variable [Log.Journal σ]

/-- The topic that is found or created is registered. It was before, or it has the number of a
handle that was opened on the way. -/
theorem topic_cases {R : Emulator σ → Emulator σ → Prop} (hc : c.Within R)
    {s s' : Service (Emulator σ)} {t : Topic} (h : s.topic c key = (.ok t, s')) :
    (s.topics.handle? key = some t.handle ∧ s' = s) ∨
      ((s.topics.handle? key = none ∧
          ∀ id, s'.topics.handle? id = if id = key then some t.handle else s.topics.handle? id) ∧
        ∃ e, R s.broker e ∧ t.handle = (c.openTopic key e).1 ∧
          R (c.openTopic key e).2 s'.broker) := by
  cases hf : s.topics.entries.find? key with
  | some t' =>
    rw [topic_of_registered hf] at h
    cases h
    exact .inl ⟨Registry.handle?_eq_some.mpr ⟨t, hf, rfl⟩, rfl⟩
  | none =>
    have hnone : s.topics.handle? key = none := congrArg (Option.map Topic.handle) hf
    rw [topic_of_new hf] at h
    unfold newTopic at h
    rcases hr : s.createTopic c key with ⟨e | t', s''⟩ <;> rw [hr] at h
    · cases h
    · cases h
      have hs : s''.topics = s.topics := by rw [← (createTopic_same (c := c) key s).topics, hr]
      obtain ⟨e, hb, ht, he⟩ := createTopic_opens hc hr
      refine .inr ⟨⟨hnone, fun id => ?_⟩, e, hb, ht, hc.trans he (hc.note _ _)⟩
      change (s''.topics.add key t).handle? id = _
      rw [Registry.handle?_add, hs]

/-- A topic that cannot be found or created leaves the registry as it is. -/
theorem topic_failed {s s' : Service (Emulator σ)} {e : ServiceError}
    (h : s.topic c key = (.error e, s')) : s'.topics.handle? id = s.topics.handle? id := by
  cases hf : s.topics.entries.find? key with
  | some t =>
    rw [topic_of_registered hf] at h
    cases h
  | none =>
    rw [topic_of_new hf] at h
    unfold newTopic at h
    rcases hr : s.createTopic c key with ⟨e' | t, s''⟩ <;> rw [hr] at h
    · cases h
      have hs : s'.topics = s.topics := by rw [← (createTopic_same (c := c) key s).topics, hr]
      rw [hs]
    · cases h

theorem publish_handle (p : Payload) (o : PublishOptions) (t : Topic) (e : Emulator σ) :
    (t.publish c p o e).2.1.handle = t.handle := by
  unfold Topic.publish
  split <;> rfl

theorem handle?_publishOn {s : Service (Emulator σ)} {t : Topic}
    (h : s.topics.handle? key = some t.handle) (p : Payload) (o : PublishOptions) :
    (s.publishOn c key t p o).2.topics.handle? id = s.topics.handle? id :=
  Registry.handle?_add_again (h.trans (congrArg some (publish_handle p o t s.broker).symm))

omit [Log.Journal σ] in
theorem handle?_topicOptions (o : PublishOptions) (s : Service (Emulator σ)) :
    (s.topicOptions c key o).2.topics.handle? id = s.topics.handle? id := by
  unfold topicOptions
  cases hf : s.topics.entries.find? key with
  | none => simp only [Registry.get, hf]
  | some t =>
    simp only [Registry.get, hf]
    exact Registry.handle?_add_again (t := (t.withOptions c o s.broker).1)
      (Registry.handle?_eq_some.mpr ⟨t, hf, rfl⟩)

/-- A use leaves the handle of a topic as it is, or it opens a handle for a topic that is not
registered. -/
theorem handle?_run {R : Emulator σ → Emulator σ → Prop} (hc : c.Within R)
    (hsubmit : ∀ handle content e, R e (c.submit handle content e).2) (id : String) (u : Use σ)
    (s : Service (Emulator σ)) :
    (u.run c s).topics.handle? id = s.topics.handle? id ∨
      (s.topics.handle? id = none ∧ ∃ e, R s.broker e ∧
        (u.run c s).topics.handle? id = some (c.openTopic id e).1 ∧
        R (c.openTopic id e).2 (u.run c s).broker) := by
  cases u with
  | publish key p o =>
    change (s.publish c key p o).2.topics.handle? id = _ ∨ (_ ∧ ∃ e, _ ∧
      (s.publish c key p o).2.topics.handle? id = _ ∧ R _ (s.publish c key p o).2.broker)
    unfold publish
    rcases hr : s.topic c key with ⟨e | t, s'⟩
    · exact .inl (topic_failed hr)
    · have hw := publishOn_within hsubmit hc key t p o s'
      rcases topic_cases hc hr with ⟨ht, rfl⟩ | ⟨⟨hnone, hs'⟩, e, he, hopen, he'⟩
      · exact .inl (handle?_publishOn ht p o)
      · have hon : (s'.publishOn c key t p o).2.topics.handle? id = s'.topics.handle? id :=
          handle?_publishOn ((hs' key).trans (if_pos rfl)) p o
        rw [hs'] at hon
        by_cases hk : id = key
        · subst hk
          rw [if_pos rfl, hopen] at hon
          exact .inr ⟨hnone, e, he, hon, hc.trans he' hw⟩
        · rw [if_neg hk] at hon
          exact .inl hon
  | topicOptions key o => exact .inl (handle?_topicOptions o s)
  | subscribe key o => exact .inl (congrArg (Registry.handle? id) (subscribe_topics key o s))
  | stop => exact .inl (congrArg (Registry.handle? id) (stop_topics s))
  | broker call => exact .inl rfl

/-! ### Properties of the handle of a topic -/

/-- If the topic is registered, its handle has a property. -/
def Registered (P : Nat → Emulator σ → Prop) (id : String) (s : Service (Emulator σ)) : Prop :=
  ∀ n, s.topics.handle? id = some n → P n s.broker

/-- A property that a use of the service keeps, and that a handle has when it is opened, is not
lost by the use. -/
theorem Registered.run {P : Nat → Emulator σ → Prop} {R : Emulator σ → Emulator σ → Prop}
    (hc : c.Within R) (hsubmit : ∀ handle content e, R e (c.submit handle content e).2)
    (hP : ∀ n e e', P n e → R e e' → P n e')
    (hopen : ∀ e, P (c.openTopic id e).1 (c.openTopic id e).2) {s : Service (Emulator σ)}
    (h : s.Registered P id) {u : Use σ} (hu : R s.broker (u.run c s).broker) :
    (u.run c s).Registered P id := by
  intro n hn
  rcases handle?_run hc hsubmit id u s with hs | ⟨-, e, -, hs, he⟩
  · exact hP _ _ _ (h n (hs ▸ hn)) hu
  · rw [hs, Option.some.injEq] at hn
    exact hn ▸ hP _ _ _ (hopen e) he

variable {project : String}

theorem submit_keeps (handle : Nat) (content : OutgoingMessage) (e : Emulator σ) :
    Keeps e ((client project).submit handle content e).2 :=
  (Steady.of_eq (submit_handles handle content e)).keeps

/-- In a run from the start, the topics that are registered have open handles. -/
theorem registered_open (project id : String) (config : Configuration) (e : Emulator σ)
    (uses : List (Use σ)) :
    (Use.runs (client project) uses { config, broker := e }).Registered
      (fun n e => ∃ h, e.handles[n]? = some h) id := by
  have start : ({ config, broker := e } : Service (Emulator σ)).Registered
      (fun n e => ∃ h, e.handles[n]? = some h) id := by
    intro n hn
    simp [Registry.handle?, Table.find?_nil] at hn
  generalize ({ config, broker := e } : Service (Emulator σ)) = s at start ⊢
  induction uses generalizing s with
  | nil => exact start
  | cons u rest ih =>
    refine ih _ (start.run (client_keeps project) submit_keeps ?_ ?_ (u.keeps project s))
    · rintro n e e' ⟨a, ha⟩ hk
      obtain ⟨a', ha', -⟩ := hk n a ha
      exact ⟨a', ha'⟩
    · intro e
      obtain ⟨a, ha, -⟩ := openTopic_serves id e
      exact ⟨a, ha⟩

/-- Until something is stopped, the topics that are registered are served. -/
theorem Registered.serves {s : Service (Emulator σ)}
    (h : s.Registered (fun n e => e.serves n id) id) {uses : List (Use σ)}
    (huses : ∀ u ∈ uses, u.stops = false) :
    (Use.runs (client project) uses s).Registered (fun n e => e.serves n id) id := by
  induction uses generalizing s with
  | nil => exact h
  | cons u rest ih =>
    refine ih (h.run (client_steady project) (fun _ _ e => .of_eq (submit_handles _ _ e)) ?_ ?_
      (u.steady project s (huses u List.mem_cons_self))) fun v hv =>
        huses v (List.mem_cons_of_mem _ hv)
    · exact fun n e e' hs hk => hs.steady hk
    · exact openTopic_serves id

/-! ### Stopped topics -/

/-- A topic is registered with a handle that is stopped. -/
def HasStopped (id : String) (s : Service (Emulator σ)) : Prop :=
  ∃ n, s.topics.handle? id = some n ∧ s.broker.isStopped n

/-- Stopping the topics of a list one after the other. -/
def stopAll (c : Client (Emulator σ)) (topics : Table Topic) (s : Service (Emulator σ)) :
    Service (Emulator σ) :=
  topics.foldl (fun s e =>
    { s with broker := c.stop e.2.handle (Log.note (stoppingEntry e.1) s.broker) }) s

theorem stopAll_keeps (project : String) (topics : Table Topic) (s : Service (Emulator σ)) :
    Keeps s.broker (stopAll (client project) topics s).broker := by
  induction topics generalizing s with
  | nil => exact .refl _
  | cons e rest ih =>
    exact (stop_keeps e.2.handle (Log.note (stoppingEntry e.1) s.broker)).trans
      (ih { s with broker := Emulator.stop e.2.handle (Log.note (stoppingEntry e.1) s.broker) })

/-- Stopping the topics of a list stops the open handle of each of them. -/
theorem stopAll_isStopped {s : Service (Emulator σ)} (topics : Table Topic)
    (hn : ∃ e ∈ topics, e.2.handle = n) (ha : ∃ a, s.broker.handles[n]? = some a) :
    (stopAll (client project) topics s).broker.isStopped n := by
  induction topics generalizing s with
  | nil => simp at hn
  | cons e rest ih =>
    obtain ⟨e', he', rfl⟩ := hn
    obtain ⟨a, ha⟩ := ha
    rcases List.mem_cons.mp he' with rfl | he'
    · exact (stop_isStopped (e := Log.note (stoppingEntry e'.1) s.broker) ha).keeps
        (stopAll_keeps project rest { s with broker := _ })
    · obtain ⟨a', ha', -⟩ := stop_keeps e.2.handle (Log.note (stoppingEntry e.1) s.broker) _ a ha
      exact ih ⟨e', he', rfl⟩ ⟨a', ha'⟩

/-- Stopping the service stops the topics that are registered with open handles. -/
theorem stop_hasStopped {s : Service (Emulator σ)}
    (hopen : s.Registered (fun n e => ∃ h, e.handles[n]? = some h) id)
    (hid : s.topics.has id = true) : (s.stop (client project)).HasStopped id := by
  obtain ⟨n, hn⟩ := Registry.has_iff_handle?.mp hid
  obtain ⟨t, ht, hh⟩ := Registry.handle?_eq_some.mp hn
  exact ⟨n, by rw [stop_topics, hn],
    stopAll_isStopped s.topics.entries ⟨(id, t), Table.mem_of_find? ht, hh⟩ (hopen n hn)⟩

/-- Once stopped, a topic stays registered and its handle stopped, whatever is done. -/
theorem HasStopped.run {s : Service (Emulator σ)} (h : s.HasStopped id) (u : Use σ) :
    (u.run (client project) s).HasStopped id := by
  obtain ⟨n, hn, hstopped⟩ := h
  refine ⟨n, ?_, hstopped.keeps (u.keeps project s)⟩
  rcases handle?_run (client_keeps project) submit_keeps id u s with hs | ⟨hnone, -⟩
  · exact hs.trans hn
  · rw [hn] at hnone
    cases hnone

theorem HasStopped.runs {s : Service (Emulator σ)} (h : s.HasStopped id) (uses : List (Use σ)) :
    (Use.runs (client project) uses s).HasStopped id := by
  induction uses generalizing s with
  | nil => exact h
  | cons u rest ih => exact ih (h.run u)

/-! ### What is submitted -/

/-- The message of a publish. -/
def outgoing (o : PublishOptions) (data : Bytes) : OutgoingMessage :=
  { data, attributes := o.resolve.2.attributes, orderingKey := o.resolve.2.orderingKey }

/-- The emulator when the message of a publish is submitted: the handle has its options. -/
def configured (t : Topic) (o : PublishOptions) (data : Bytes) (e : Emulator σ) : Emulator σ :=
  Log.note ({ t with settings := o.resolve.1, message := o.resolve.2 }.publishEntry data.length)
    (e.configure t.handle o.resolve.1 o.resolve.2.ordered)

/-- Data that can be encoded is submitted through the handle of the topic. -/
theorem publishOn_of_encodes (project key : String) (s : Service (Emulator σ)) {t : Topic}
    {p : Payload} {data : Bytes} (h : t.codec.encode p = .ok data) (o : PublishOptions) :
    (s.publishOn (client project) key t p o).1 =
        .ok ((configured t o data s.broker).submit t.handle (outgoing o data)).1 ∧
      (s.publishOn (client project) key t p o).2.broker =
        ((configured t o data s.broker).submit t.handle (outgoing o data)).2 := by
  unfold publishOn Topic.publish
  rw [h]
  exact ⟨rfl, rfl⟩

/-- Data that cannot be encoded is not submitted. -/
theorem publishOn_of_fails (c : Client (Emulator σ)) (key : String) (s : Service (Emulator σ))
    {t : Topic} {p : Payload} {e : CodecError} (h : t.codec.encode p = .error e)
    (o : PublishOptions) :
    (s.publishOn c key t p o).1 = .error (.encode e) ∧
      (s.publishOn c key t p o).2.broker = s.broker := by
  unfold publishOn Topic.publish
  rw [h]
  exact ⟨rfl, rfl⟩

/-- A publish to a stopped topic gives no id of a message, and stores nothing. -/
theorem publish_of_hasStopped {s : Service (Emulator σ)} (h : s.HasStopped id) (p : Payload)
    (o : PublishOptions) :
    (∀ m, (s.publish (client project) id p o).1 ≠ .ok (.ok m)) ∧
      (s.publish (client project) id p o).2.broker.store = s.broker.store := by
  obtain ⟨n, hn, hstopped⟩ := h
  obtain ⟨t, ht, rfl⟩ := Registry.handle?_eq_some.mp hn
  rw [publish_of_registered ht]
  cases he : t.codec.encode p with
  | error e =>
    obtain ⟨h₁, h₂⟩ := publishOn_of_fails (client project) id s he o
    rw [h₁, h₂]
    exact ⟨nofun, rfl⟩
  | ok data =>
    obtain ⟨h₁, h₂⟩ := publishOn_of_encodes project id s he o
    have hc : (configured t o data s.broker).isStopped t.handle :=
      hstopped.keeps (configure_steady t.handle o.resolve.1 o.resolve.2.ordered s.broker).keeps
    obtain ⟨error, herror⟩ := submit_of_stopped hc (outgoing o data)
    rw [h₁, h₂, herror]
    exact ⟨nofun, rfl⟩

/-- A publish to a topic that is served, or not registered yet, goes to the broker once the topic
is there and the data is encoded. -/
theorem publish_of_serves {s s' : Service (Emulator σ)}
    (h : s.Registered (fun n e => e.serves n id) id) {t : Topic}
    (ht : s.topic (client project) id = (.ok t, s')) {p : Payload} {data : Bytes}
    (hp : t.codec.encode p = .ok data) (o : PublishOptions) :
    ∃ e : Emulator σ, Alike s.broker e ∧
      (s.publish (client project) id p o).1 = .ok (e.publish id (outgoing o data)).1 ∧
      (s.publish (client project) id p o).2.broker = (e.publish id (outgoing o data)).2 := by
  have hserves : s'.broker.serves t.handle id := by
    rcases topic_cases (client_steady project) ht with ⟨hn, rfl⟩ | ⟨-, e, -, hopen, he⟩
    · exact h _ hn
    · rw [hopen]
      exact (openTopic_serves id e).steady he
  have hpublish : s.publish (client project) id p o =
      s'.publishOn (client project) id t p o := by
    unfold publish
    rw [ht]
  have halike := topic_within (client_alike project) id s
  rw [ht] at halike
  obtain ⟨h₁, h₂⟩ := publishOn_of_encodes project id s' hp o
  have hsubmit := submit_of_serves (e := Log.note
    ({ t with settings := o.resolve.1, message := o.resolve.2 }.publishEntry data.length) s'.broker)
    hserves o.resolve.1 (outgoing o data)
  change (configured t o data s'.broker).submit t.handle (outgoing o data) =
    (configured t o data s'.broker).publish id (outgoing o data) at hsubmit
  refine ⟨configured t o data s'.broker, halike, ?_, ?_⟩
  · rw [hpublish, h₁, hsubmit]
  · rw [hpublish, h₂, hsubmit]

end Service

open Service in
/-- After a stop, a publish to a topic that was registered when the service was stopped fails and
stores nothing. A topic that was not registered then is served all the same: as long as nothing more
is stopped, its messages go to the broker. -/
theorem publish_after_stop [Log.Journal σ] (project : String) (config : Configuration)
    (e : Emulator σ) (before after : List (Use σ)) (id : String) (p : Payload)
    (o : PublishOptions) :
    let c := client project
    let stopping := Use.runs c before { config, broker := e }
    let s := Use.runs c after (stopping.stop c)
    (stopping.topics.has id = true →
      (∀ m, (s.publish c id p o).1 ≠ .ok (.ok m)) ∧
        (s.publish c id p o).2.broker.store = s.broker.store) ∧
    (stopping.topics.has id = false → (∀ u ∈ after, u.stops = false) →
      ∀ t s' data, s.topic c id = (.ok t, s') → t.codec.encode p = .ok data →
        ∃ e', Alike s.broker e' ∧
          (s.publish c id p o).1 = .ok (e'.publish id (outgoing o data)).1 ∧
          (s.publish c id p o).2.broker = (e'.publish id (outgoing o data)).2) := by
  intro c stopping s
  refine ⟨fun hid => ?_, fun hid hafter t s' data ht hp => ?_⟩
  · have hopen := registered_open project id config e before
    exact publish_of_hasStopped ((stop_hasStopped hopen hid).runs after) p o
  · have hnone : (stopping.stop c).topics.handle? id = none := by
      rw [stop_topics]
      exact Registry.has_eq_false_iff_handle?.mp hid
    have hserves : s.Registered (fun n e => e.serves n id) id :=
      Registered.serves (fun n hn => by rw [hnone] at hn; cases hn) hafter
    exact publish_of_serves hserves ht hp o

/-- A service that has published to one of two topics, each of which has a subscription. -/
def usedT : Service (Emulator Unit) :=
  Use.runs (client "p")
    [.broker (.createTopic "t" {}), .broker (.createSubscription "s" { topic := "t" }),
      .broker (.createTopic "u" {}), .broker (.createSubscription "v" { topic := "u" }),
      .publish "t" (.bytes [1]) {}]
    { config := { project := "p" }, broker := { project := "p", world := () } }

/-- The service after it is stopped. -/
def stoppedAfterT : Service (Emulator Unit) := usedT.stop (client "p")

theorem publish_after_stop_both :
    (stoppedAfterT.publish (client "p") "t" (.bytes [2]) {}).2.broker.store =
      stoppedAfterT.broker.store ∧
    ∃ e : Emulator Unit, Alike stoppedAfterT.broker e ∧
      (stoppedAfterT.publish (client "p") "u" (.bytes [2]) {}).1 =
        .ok (e.publish "u" { data := [2] }).1 := by
  have key := fun id => publish_after_stop "p" { project := "p" } { project := "p", world := () }
    [.broker (.createTopic "t" {}), .broker (.createSubscription "s" { topic := "t" }),
      .broker (.createTopic "u" {}), .broker (.createSubscription "v" { topic := "u" }),
      .publish "t" (.bytes [1]) {}] [] id (.bytes [2]) {}
  simp only [← usedT.eq_1, Use.runs_nil, ← stoppedAfterT.eq_1] at key
  refine ⟨((key "t").1 (by decide +kernel)).2, ?_⟩
  obtain ⟨e, he, hresult, -⟩ := (key "u").2 (by decide +kernel)
    (fun _ hu => absurd hu List.not_mem_nil) { id := "u", handle := 1, codec := .raw }
    (stoppedAfterT.topic (client "p") "u").2 [2] (Prod.ext rfl rfl) rfl
  exact ⟨e, he, hresult⟩

/-- A topic that is first used after the stop: its message gets an id and waits in the queue. -/
theorem publish_after_stop_of_fresh_topic :
    stoppedAfterT.topics.has "u" = false ∧
      (stoppedAfterT.publish (client "p") "u" (.bytes [2]) {}).1 = .ok (.ok "2") ∧
      ((stoppedAfterT.publish (client "p") "u" (.bytes [2]) {}).2.broker.store.queues.find?
        "projects/p/subscriptions/v").map (·.pending) =
          some [{ id := "2", content := { data := [2] } }] := by
  refine ⟨by decide +kernel, ?_, by decide +kernel⟩
  rfl

end Messaging
