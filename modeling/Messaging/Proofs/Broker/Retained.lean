import Messaging.Proofs.Broker.Resources

/-! # What the emulator retains

Nothing ever changes the configuration of a topic, a subscription or a schema once it has been
created, nor takes it away (`Store.Provides.retains`): a resource that is created has a name that
was free. -/

namespace Messaging

namespace Store

/-- The configurations of topics, subscriptions and schemas stay as they are. -/
structure Retains (s s' : Store) : Prop where
  topics : s.topics.Extends s'.topics
  subscriptions : ∀ name config, s.subscription? name = some config →
    s'.subscription? name = some config
  schemas : s.schemas.Extends s'.schemas

variable {s s' s'' : Store} {project : String}

theorem Retains.refl (s : Store) : s.Retains s := ⟨.refl _, fun _ _ h => h, .refl _⟩

theorem Retains.trans (h : s.Retains s') (h' : s'.Retains s'') : s.Retains s'' where
  topics := h.topics.trans h'.topics
  subscriptions name config hc := h'.subscriptions name config (h.subscriptions name config hc)
  schemas := h.schemas.trans h'.schemas

/-- What is created takes nothing away. -/
theorem Provides.retains (h : s.Provides project s') : s.Retains s' := by
  cases h with
  | same h =>
    exact ⟨.of_eq h.topics, fun name config hc => (h.subscriptions name).trans hc, .of_eq h.schemas⟩
  | topic id config free => exact ⟨.insert free _, fun _ _ h => h, .refl _⟩
  | subscription id config bound free =>
    refine ⟨.refl _, fun name config' hc => ?_, .refl _⟩
    obtain ⟨q, hq, hconfig⟩ := Option.map_eq_some_iff.mp hc
    have hkept := Table.Extends.insert free
      { config := { config with name := Resource.subscription.nameOf project id } } name q hq
    exact Option.map_eq_some_iff.mpr ⟨q, hkept, hconfig⟩
  | schema id config free => exact ⟨.refl _, fun _ _ h => h, .insert free _⟩

end Store

namespace Emulator

variable {σ : Type} {e e' e'' : Emulator σ}

/-- The configurations of topics and subscriptions stay as they are. -/
structure Retains (e e' : Emulator σ) : Prop where
  project : e'.project = e.project
  topics : e.store.topics.Extends e'.store.topics
  subscriptions : ∀ name config, e.store.subscription? name = some config →
    e'.store.subscription? name = some config

namespace Retains

theorem of_eq (hproject : e'.project = e.project) (hstore : e'.store = e.store) : Retains e e' where
  project := hproject
  topics := .of_eq (by rw [hstore])
  subscriptions _ _ h := by rw [hstore, h]

theorem refl (e : Emulator σ) : Retains e e := of_eq rfl rfl

theorem trans (h : Retains e e') (h' : Retains e' e'') : Retains e e'' where
  project := h'.project.trans h.project
  topics := h.topics.trans h'.topics
  subscriptions name config hc := h'.subscriptions name config (h.subscriptions name config hc)

theorem nameOf (h : Retains e e') (r : Resource) (id : String) :
    e'.nameOf r id = e.nameOf r id := by
  rw [Emulator.nameOf, Emulator.nameOf, h.project]

end Retains

end Emulator

namespace Call

variable {σ : Type} [Log.Journal σ]

/-- Every call retains the topics and subscriptions. -/
theorem retains (e : Emulator σ) (c : Call σ) : Emulator.Retains e (c.run e) := by
  obtain ⟨hproject, hprovides⟩ := provides e c
  exact ⟨hproject, hprovides.retains.topics, hprovides.retains.subscriptions⟩

theorem retains_runs (calls : List (Call σ)) (e : Emulator σ) :
    Emulator.Retains e (runs calls e) := by
  induction calls generalizing e with
  | nil => exact .refl e
  | cons c rest ih => exact (retains e c).trans (ih (c.run e))

end Call

end Messaging
