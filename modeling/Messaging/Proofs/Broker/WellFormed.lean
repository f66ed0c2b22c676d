import Messaging.Proofs.Broker.Rejection
import Messaging.Proofs.Broker.Retained

/-! # Resources are well-formed and the first creation wins

Whatever happens to an emulator, a topic, a subscription or a schema carries the name it is stored
under, every subscription is bound to a topic that exists (`Store.WellFormed`), a creation that
nobody rejects succeeds exactly if the name is free (`Emulator.FirstWins`), and what has been
created stays (`Store.Retains`). All of it comes from `Call.provides`: the invariant is kept by each
of the four things that can become of the resources.

What happens is a list of turns (`Turn`). Reactors may be anything, and may even call the emulator
while it asks them, which no list of calls can say. So a turn has the reactors of its own call, and
a call that is interrupted by others is taken apart. -/

namespace Messaging

/-- Under a name there is what carries that name, and the name is one of the project. -/
def Resource.Named {α : Type} (r : Resource) (project : String) (carried : α → String)
    (find : String → Option α) : Prop :=
  ∀ name a, find name = some a → carried a = name ∧ ∃ id, name = r.nameOf project id

theorem Resource.Named.create {α : Type} {r : Resource} {project id : String} {carried : α → String}
    {find find' : String → Option α} {new : α} (h : r.Named project carried find)
    (hnew : carried new = r.nameOf project id)
    (hfind : ∀ name, find' name = if name = r.nameOf project id then some new else find name) :
    r.Named project carried find' := by
  intro name a ha
  rw [hfind] at ha
  split at ha
  · next hname =>
    cases ha
    exact ⟨hnew.trans hname.symm, id, hname⟩
  · exact h name a ha

namespace Store

/-- The resources of a project are well-formed. -/
structure WellFormed (project : String) (s : Store) : Prop where
  topics : Resource.topic.Named project (·.name) s.topics.find?
  subscriptions : Resource.subscription.Named project (·.name) s.subscription?
  schemas : Resource.schema.Named project (·.name) s.schemas.find?
  bound : ∀ name config, s.subscription? name = some config →
    ∃ topic, s.topics.find? (Resource.topic.nameOf project config.topic) = some topic

variable {s s' : Store} {project : String}

theorem wellFormed_empty (project : String) : WellFormed project {} where
  topics _ _ h := by cases h
  subscriptions _ _ h := by cases h
  schemas _ _ h := by cases h
  bound _ _ h := by cases h

theorem subscription?_insert (name key : String) (q : Queue) (s : Store) :
    { s with queues := s.queues.insert name q }.subscription? key =
      if key = name then some q.config else s.subscription? key := by
  unfold subscription?
  rw [Table.find?_insert]
  split <;> rfl

/-- Resources stay well-formed, whatever becomes of them. -/
theorem Provides.wellFormed (h : s.Provides project s') (hs : s.WellFormed project) :
    s'.WellFormed project := by
  cases h with
  | same h =>
    obtain ⟨htopics, hsubscriptions, hschemas⟩ := h
    refine ⟨?_, fun name config hc => ?_, ?_, fun name config hc => ?_⟩
    · rw [htopics]
      exact hs.topics
    · exact hs.subscriptions name config (by rwa [← hsubscriptions])
    · rw [hschemas]
      exact hs.schemas
    · rw [htopics]
      exact hs.bound name config (by rwa [← hsubscriptions])
  | topic id config free =>
    refine { hs with
      topics := hs.topics.create rfl fun name => Table.find?_insert _ name _ _
      bound := fun name bound hc => ?_ }
    obtain ⟨topic, htopic⟩ := hs.bound name bound hc
    exact ⟨topic, Table.Extends.insert free _ _ topic htopic⟩
  | subscription id config bound free =>
    refine { hs with
      subscriptions := hs.subscriptions.create rfl (subscription?_insert _ · _ s)
      bound := fun name other hc => ?_ }
    rw [subscription?_insert] at hc
    split at hc
    · cases hc
      exact Option.isSome_iff_exists.mp bound
    · exact hs.bound name other hc
  | schema id config free =>
    exact { hs with schemas := hs.schemas.create rfl fun name => Table.find?_insert _ name _ _ }

end Store

namespace Emulator

variable {σ : Type} {e : Emulator σ} {request : Request}

/-- A request that is not rejected is served, whatever it is about. -/
theorem guarded_of_not_rejects (h : ∀ error world, ¬ e.Rejects request error world) :
    ∃ world, ∀ {α : Type} (serve : Emulator σ → Except BrokerError α × Emulator σ),
      guarded request serve e = serve { e with world } := by
  unfold guarded
  rcases hoffer : Reactor.offer request (Reactor.chain request.method e.reactors) e.world with
    ⟨_ | error, world⟩
  · exact ⟨world, fun _ => rfl⟩
  · exact absurd (Reactor.offer_eq_some_iff.mp hoffer) (h error world)

/-- A creation that nobody rejects succeeds exactly if the name is free, and for a subscription if
the topic exists. If it succeeds, the configuration is stored under the name, and carries it. -/
structure FirstWins (e : Emulator σ) : Prop where
  topic : ∀ id config,
    (∀ error world, ¬ e.Rejects (.createTopic (e.nameOf .topic id)) error world) →
    ((e.createTopic id config).1 = .ok () ↔ e.store.topics.find? (e.nameOf .topic id) = none) ∧
    ((e.createTopic id config).1 = .ok () →
      (e.createTopic id config).2.store.topics.find? (e.nameOf .topic id) =
        some { config with name := e.nameOf .topic id })
  subscription : ∀ id config,
    (∀ error world, ¬ e.Rejects
      (.createSubscription (e.nameOf .subscription id) (e.nameOf .topic config.topic))
      error world) →
    ((e.createSubscription id config).1 = .ok () ↔
      e.store.subscription? (e.nameOf .subscription id) = none ∧
        ∃ topic, e.store.topics.find? (e.nameOf .topic config.topic) = some topic) ∧
    ((e.createSubscription id config).1 = .ok () →
      (e.createSubscription id config).2.store.subscription? (e.nameOf .subscription id) =
        some { config with name := e.nameOf .subscription id })
  schema : ∀ id config,
    (∀ error world, ¬ e.Rejects (.createSchema (e.nameOf .schema id)) error world) →
    ((∃ created, (e.createSchema id config).1 = .ok created) ↔
      e.store.schemas.find? (e.nameOf .schema id) = none) ∧
    ∀ created, (e.createSchema id config).1 = .ok created →
      created = { config with name := e.nameOf .schema id } ∧
        (e.createSchema id config).2.store.schemas.find? (e.nameOf .schema id) = some created

theorem firstWins (e : Emulator σ) : FirstWins e where
  topic id config h := by
    obtain ⟨world, hserved⟩ := guarded_of_not_rejects h
    rw [createTopic, hserved]
    cases hfind : e.store.topics.find? (e.nameOf .topic id) with
    | some old => simp [served, Store.createTopic, Table.contains, hfind]
    | none => simp [served, Store.createTopic, Table.contains, hfind, Table.find?_insert]
  subscription id config h := by
    obtain ⟨world, hserved⟩ := guarded_of_not_rejects h
    rw [createSubscription, hserved]
    unfold Store.subscription?
    cases htopic : e.store.topics.find? (e.nameOf .topic config.topic) with
    | none => simp [served, Store.createSubscription, Table.contains, htopic]
    | some topic =>
      cases hfind : e.store.queues.find? (e.nameOf .subscription id) with
      | some old => simp [served, Store.createSubscription, Table.contains, htopic, hfind]
      | none =>
        simp [served, Store.createSubscription, Table.contains, htopic, hfind, Table.find?_insert]
  schema id config h := by
    obtain ⟨world, hserved⟩ := guarded_of_not_rejects h
    rw [createSchema, hserved]
    cases hfind : e.store.schemas.find? (e.nameOf .schema id) with
    | some old => simp [Store.createSchema, Table.contains, hfind]
    | none => simp [Store.createSchema, Table.contains, hfind, Table.find?_insert]

end Emulator

/-- Something that happens to an emulator. A call comes with its reactors and with what they
remember.

A reactor that calls the emulator itself does so after the question and before the service. Such a
call is a turn with a reactor that fails the request, the turns of the reactor, and the call again
without reactors; a message that is published so keeps the id that it was asked about. -/
inductive Turn (σ : Type) where
  | call (reactors : List (Reactor σ)) (world : σ) (c : Call σ)
  | late (topicId id : String) (content : OutgoingMessage)

namespace Turn

open Emulator

variable {σ : Type} [Log.Journal σ]

/-- The emulator after a turn. -/
def run (e : Emulator σ) : Turn σ → Emulator σ
  | call reactors world c => c.run { e with reactors, world }
  | late topicId id content =>
    (served (·.publish (e.nameOf .topic topicId) topicId id content) e).2

/-- The emulator after turns, one after the other. -/
def runs (turns : List (Turn σ)) (e : Emulator σ) : Emulator σ := turns.foldl run e

theorem provides (e : Emulator σ) (turn : Turn σ) : Provides e (turn.run e) := by
  cases turn with
  | call reactors world c => exact Call.provides { e with reactors, world } c
  | late topicId id content =>
    exact served_provides fun s' h => .same (Store.publish_same h)

theorem project_runs (turns : List (Turn σ)) (e : Emulator σ) :
    (runs turns e).project = e.project := by
  induction turns generalizing e with
  | nil => rfl
  | cons turn rest ih => exact (ih (turn.run e)).trans (provides e turn).1

theorem wellFormed_runs (turns : List (Turn σ)) (e : Emulator σ)
    (h : e.store.WellFormed e.project) : (runs turns e).store.WellFormed e.project := by
  induction turns generalizing e with
  | nil => exact h
  | cons turn rest ih =>
    obtain ⟨hproject, hprovides⟩ := provides e turn
    have hturn : (turn.run e).store.WellFormed (turn.run e).project := by
      rw [hproject]
      exact hprovides.wellFormed h
    have hrest := ih (turn.run e) hturn
    rwa [hproject] at hrest

theorem retains_runs (turns : List (Turn σ)) (e : Emulator σ) :
    e.store.Retains (runs turns e).store := by
  induction turns generalizing e with
  | nil => exact .refl e.store
  | cons turn rest ih => exact (provides e turn).2.retains.trans (ih (turn.run e))

/-- **Resources are well-formed, and the first creation wins.** After any turns of a new emulator,
the resources are well-formed, a creation that is not rejected succeeds exactly if nothing was
created before under the name, and more turns of any kind leave every configuration as it is. -/
theorem first_creation_wins (project : String) (world : σ) (turns : List (Turn σ)) :
    let e := runs turns { project, world }
    e.project = project ∧ e.store.WellFormed project ∧
      (∀ (reactors : List (Reactor σ)) (world : σ), FirstWins { e with reactors, world }) ∧
      ∀ more, e.store.Retains (runs more e).store := by
  intro e
  refine ⟨?_, ?_, fun reactors world => ?_, fun more => ?_⟩
  · exact project_runs turns { project, world }
  · exact wellFormed_runs turns { project, world } (Store.wellFormed_empty project)
  · exact firstWins { e with reactors, world }
  · exact retains_runs more e

/-- An emulator where a topic has been created, and somebody has tried to create it again. -/
def createdTwice : Emulator (List Log.Entry) :=
  runs
    [.call [.log] [] (.createTopic "t" {}),
      .call [.log] [] (.createTopic "t" { labels := [("team", "a")] })]
    { project := "p", world := [] }

/-- The topic cannot be created a third time, although nobody rejects it, and it keeps its first
configuration, whatever comes. -/
theorem first_creation_wins_twice :
    (∀ error world, ¬ createdTwice.Rejects (.createTopic "projects/p/topics/t") error world) ∧
    ¬ (createdTwice.createTopic "t" { labels := [("team", "b")] }).1 = .ok () ∧
    ∀ more, (runs more createdTwice).store.topics.find? "projects/p/topics/t" =
      some { name := "projects/p/topics/t" } := by
  have hfirst : createdTwice.store.topics.find? "projects/p/topics/t" =
      some { name := "projects/p/topics/t" } := rfl
  have haccepted : ∀ error world,
      ¬ createdTwice.Rejects (.createTopic "projects/p/topics/t") error world := by
    intro error world h
    rw [Emulator.Rejects, ← Reactor.offer_eq_some_iff] at h
    cases h
  obtain ⟨-, -, hwins, hretains⟩ := first_creation_wins "p" ([] : List Log.Entry)
    [.call [.log] [] (.createTopic "t" {}),
      .call [.log] [] (.createTopic "t" { labels := [("team", "a")] })]
  refine ⟨haccepted, fun hok => ?_, fun more => ?_⟩
  · have hfree := ((hwins [.log] []).topic "t" { labels := [("team", "b")] } haccepted).1.mp hok
    rw [show createdTwice.store.topics.find? "projects/p/topics/t" = none from hfree] at hfirst
    cases hfirst
  · exact (hretains more).topics _ _ hfirst

end Turn

end Messaging
