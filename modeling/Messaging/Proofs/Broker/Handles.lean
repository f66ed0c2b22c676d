import Messaging.Proofs.Broker.Calls
import Messaging.Client

/-! # Handles for publishing

A handle that is open stays open under its number, for the topic that it was opened for. Only
stopping it stops it (`Emulator.Steady`), and once it is stopped it stays so, whatever is done to
the emulator (`Emulator.Keeps`): `Call.steady` and `Call.keeps` for its calls, `client_steady` and
`client_keeps` for the operations of its clients. A stopped handle accepts nothing
(`submit_of_stopped`), and one that is not stopped goes to the broker (`submit_of_open`). -/

namespace Messaging

namespace Emulator

variable {σ : Type} {e e' e'' : Emulator σ}

/-- Handles stay open and are stopped no more than before. -/
def Steady (e e' : Emulator σ) : Prop :=
  ∀ (n : Nat) (h : TopicHandle), e.handles[n]? = some h →
    ∃ h' : TopicHandle, e'.handles[n]? = some h' ∧ h'.id = h.id ∧ h'.stopped = h.stopped

/-- Handles stay open, and stopped ones stay stopped. -/
def Keeps (e e' : Emulator σ) : Prop :=
  ∀ (n : Nat) (h : TopicHandle), e.handles[n]? = some h →
    ∃ h' : TopicHandle, e'.handles[n]? = some h' ∧ (h.stopped = true → h'.stopped = true)

theorem Steady.keeps (h : Steady e e') : Keeps e e' := by
  intro n a ha
  obtain ⟨a', ha', -, hs⟩ := h n a ha
  exact ⟨a', ha', fun hstopped => hs.trans hstopped⟩

theorem Steady.of_eq (h : e'.handles = e.handles) : Steady e e' :=
  fun _ a ha => ⟨a, by rw [h, ha], rfl, rfl⟩

theorem Steady.refl (e : Emulator σ) : Steady e e := .of_eq rfl

theorem Steady.trans (h : Steady e e') (h' : Steady e' e'') : Steady e e'' := by
  intro n a ha
  obtain ⟨b, hb, hid, hs⟩ := h n a ha
  obtain ⟨c, hc, hid', hs'⟩ := h' n b hb
  exact ⟨c, hc, hid'.trans hid, hs'.trans hs⟩

theorem Keeps.refl (e : Emulator σ) : Keeps e e := (Steady.refl e).keeps

theorem Keeps.trans (h : Keeps e e') (h' : Keeps e' e'') : Keeps e e'' := by
  intro n a ha
  obtain ⟨b, hb, hs⟩ := h n a ha
  obtain ⟨c, hc, hs'⟩ := h' n b hb
  exact ⟨c, hc, fun h => hs' (hs h)⟩

theorem Steady.append (hs : List TopicHandle) (e : Emulator σ) :
    Steady e { e with handles := e.handles ++ hs } := by
  intro m a ha
  have hlt : m < e.handles.length := (List.getElem?_eq_some_iff.mp ha).1
  exact ⟨a, by rw [List.getElem?_append_left hlt, ha], rfl, rfl⟩

theorem configure_steady (handle : Nat) (settings : PublishSettings) (ordering : Bool)
    (e : Emulator σ) : Steady e (e.configure handle settings ordering) := by
  intro m a ha
  simp only [configure, List.getElem?_modify, ha]
  by_cases hm : handle = m
  · exact ⟨{ a with settings, ordering }, by simp [hm], rfl, rfl⟩
  · exact ⟨a, by simp [hm], rfl, rfl⟩

theorem stop_keeps [Log.Journal σ] (handle : Nat) (e : Emulator σ) : Keeps e (e.stop handle) := by
  unfold stop
  split
  · exact .refl e
  · split
    · exact .refl e
    · intro m a ha
      change ∃ h', (e.handles.modify handle fun h => { h with stopped := true })[m]? = some h' ∧ _
      simp only [List.getElem?_modify, ha]
      by_cases hm : handle = m
      · exact ⟨{ a with stopped := true }, by simp [hm], fun _ => rfl⟩
      · exact ⟨a, by simp [hm], id⟩

/-- Two states that differ in the handles and deliveries and in what the reactors remember. -/
def Alike (e e' : Emulator σ) : Prop :=
  e'.project = e.project ∧ e'.store = e.store ∧ e'.reactors = e.reactors

theorem Alike.refl (e : Emulator σ) : Alike e e := ⟨rfl, rfl, rfl⟩

theorem Alike.trans (h : Alike e e') (h' : Alike e' e'') : Alike e e'' :=
  ⟨h'.1.trans h.1, h'.2.1.trans h.2.1, h'.2.2.trans h.2.2⟩

/-! ### What requests keep -/

section Requests

variable {α : Type} {request : Request} {serve : Emulator σ → Except BrokerError α × Emulator σ}

theorem guarded_handles (h : ∀ e : Emulator σ, (serve e).2.handles = e.handles)
    (e : Emulator σ) : (guarded request serve e).2.handles = e.handles :=
  guarded_keeps (P := (·.handles = e.handles)) (fun _ => rfl) fun _ => h _

theorem guarded_alike (h : ∀ e : Emulator σ, Alike e (serve e).2) (e : Emulator σ) :
    Alike e (guarded request serve e).2 :=
  guarded_keeps (P := Alike e) (fun _ => ⟨rfl, rfl, rfl⟩) fun world =>
    Alike.trans (show Alike e { e with world } from ⟨rfl, rfl, rfl⟩) (h _)

theorem served_handles (change : Store → Except BrokerError Store) (e : Emulator σ) :
    (served change e).2.handles = e.handles := by
  unfold served
  split <;> rfl

end Requests

theorem findTopic_handles (id : String) (e : Emulator σ) :
    (e.findTopic id).2.handles = e.handles :=
  guarded_handles (fun _ => rfl) e

theorem findSubscription_handles (id : String) (e : Emulator σ) :
    (e.findSubscription id).2.handles = e.handles :=
  guarded_handles (fun _ => rfl) e

theorem topicConfig_eq (id : String) (e : Emulator σ) :
    (e.topicConfig id).2 = (e.findTopic id).2 := by
  unfold topicConfig
  rcases e.findTopic id with ⟨_ | _ | _, e'⟩ <;> rfl

theorem subscriptionConfig_eq (id : String) (e : Emulator σ) :
    (e.subscriptionConfig id).2 = (e.findSubscription id).2 := by
  unfold subscriptionConfig
  rcases e.findSubscription id with ⟨_ | _ | _, e'⟩ <;> rfl

theorem createTopic_handles (id : String) (config : TopicConfig) (e : Emulator σ) :
    (e.createTopic id config).2.handles = e.handles :=
  guarded_handles (served_handles _) e

theorem createSubscription_handles (id : String) (config : SubscriptionConfig) (e : Emulator σ) :
    (e.createSubscription id config).2.handles = e.handles :=
  guarded_handles (served_handles _) e

theorem schema_handles (reference : String) (e : Emulator σ) :
    (e.schema reference).2.handles = e.handles :=
  guarded_handles (fun _ => by split <;> rfl) e

theorem createSchema_handles (id : String) (config : SchemaConfig) (e : Emulator σ) :
    (e.createSchema id config).2.handles = e.handles :=
  guarded_handles (fun _ => by split <;> rfl) e

theorem publish_handles (topicId : String) (content : OutgoingMessage) (e : Emulator σ) :
    (e.publish topicId content).2.handles = e.handles :=
  guarded_keeps (P := (·.handles = e.handles)) (fun _ => rfl) fun _ => served_handles _ _

theorem pull_handles (name : String) (e : Emulator σ) : (e.pull name).2.handles = e.handles :=
  guarded_handles (fun _ => by split <;> rfl) e

theorem submit_handles (handle : Nat) (content : OutgoingMessage) (e : Emulator σ) :
    (e.submit handle content).2.handles = e.handles := by
  unfold submit
  split
  · rfl
  · split
    · rfl
    · split
      · rfl
      · exact publish_handles _ _ e

theorem lease_handles (name : String) (e : Emulator σ) : (e.lease name).2.handles = e.handles := by
  unfold lease
  split <;> rfl

theorem acknowledge_handles (name ackId : String) (e : Emulator σ) :
    (e.acknowledge name ackId).handles = e.handles :=
  guarded_handles (served_handles _) e

theorem modifyAckDeadline_handles (name ackId : String) (seconds : Int) (e : Emulator σ) :
    (e.modifyAckDeadline name ackId seconds).handles = e.handles :=
  guarded_handles (served_handles _) e

theorem ack_handles (delivery : Nat) (e : Emulator σ) : (e.ack delivery).handles = e.handles := by
  rw [ack, once_eq]
  split
  · rfl
  · exact acknowledge_handles _ _ (e.marked delivery)

theorem nack_handles (delivery : Nat) (e : Emulator σ) :
    (e.nack delivery).handles = e.handles := by
  rw [nack, once_eq]
  split
  · rfl
  · exact modifyAckDeadline_handles _ _ _ (e.marked delivery)

/-! ### Stopped handles -/

/-- Is there an open handle of the number that has been stopped? -/
def isStopped (n : Nat) (e : Emulator σ) : Prop :=
  ∃ h : TopicHandle, e.handles[n]? = some h ∧ h.stopped = true

theorem isStopped.keeps {n : Nat} (hs : e.isStopped n) (hk : Keeps e e') : e'.isStopped n := by
  obtain ⟨h, hh, hstopped⟩ := hs
  obtain ⟨h', hh', hs'⟩ := hk n h hh
  exact ⟨h', hh', hs' hstopped⟩

/-- A handle that is open is stopped by stopping it. -/
theorem stop_isStopped [Log.Journal σ] {n : Nat} {h : TopicHandle} (hh : e.handles[n]? = some h) :
    (e.stop n).isStopped n := by
  unfold stop
  rw [hh]
  dsimp only
  split
  · next hs => exact ⟨h, hh, hs⟩
  · refine ⟨{ h with stopped := true }, ?_, rfl⟩
    change (e.handles.modify n fun h => { h with stopped := true })[n]? = _
    simp [hh]

/-- A stopped handle accepts no message: the answer is an error and the emulator is unchanged. -/
theorem submit_of_stopped {n : Nat} (hs : e.isStopped n) (content : OutgoingMessage) :
    ∃ error, e.submit n content = (.error error, e) := by
  obtain ⟨h, hh, hstopped⟩ := hs
  unfold submit
  rw [hh]
  exact ⟨_, if_pos hstopped⟩

/-- Is there an open handle of the number for the topic, which has not been stopped? -/
def serves (n : Nat) (id : String) (e : Emulator σ) : Prop :=
  ∃ h : TopicHandle, e.handles[n]? = some h ∧ h.id = id ∧ h.stopped = false

theorem serves.steady {n : Nat} {id : String} (hs : e.serves n id) (hk : Steady e e') :
    e'.serves n id := by
  obtain ⟨h, hh, hid, hstopped⟩ := hs
  obtain ⟨h', hh', hid', hs'⟩ := hk n h hh
  exact ⟨h', hh', hid'.trans hid, hs'.trans hstopped⟩

theorem openTopic_serves (id : String) (e : Emulator σ) :
    (e.openTopic id).2.serves (e.openTopic id).1 id :=
  ⟨{ id }, by simp [openTopic], rfl, rfl⟩

/-- A handle that serves a topic and allows ordering for a message with a key publishes it. -/
theorem submit_of_serves {n : Nat} {id : String} (hs : e.serves n id) (settings : PublishSettings)
    (content : OutgoingMessage) :
    (e.configure n settings (content.orderingKey ≠ "")).submit n content =
      (e.configure n settings (content.orderingKey ≠ "")).publish id content := by
  obtain ⟨h, hh, rfl, hstopped⟩ := hs
  unfold submit
  have hc : (e.configure n settings (content.orderingKey ≠ "")).handles[n]? =
      some { h with settings, ordering := content.orderingKey ≠ "" } := by
    simp [configure, hh]
  rw [hc]
  simp [hstopped]

end Emulator

namespace Call

variable {σ : Type} [Log.Journal σ]

omit [Log.Journal σ] in
/-- Does the call stop a handle? -/
def stops : Call σ → Bool
  | stop _ => true
  | _ => false

theorem steady (e : Emulator σ) (c : Call σ) (hc : c.stops = false) :
    Emulator.Steady e (c.run e) := by
  cases c with
  | addReactor r => exact .of_eq rfl
  | findTopic id => exact .of_eq (Emulator.findTopic_handles id e)
  | createTopic id config => exact .of_eq (Emulator.createTopic_handles id config e)
  | findSubscription id => exact .of_eq (Emulator.findSubscription_handles id e)
  | createSubscription id config => exact .of_eq (Emulator.createSubscription_handles id config e)
  | schema reference => exact .of_eq (Emulator.schema_handles reference e)
  | createSchema id config => exact .of_eq (Emulator.createSchema_handles id config e)
  | openTopic id => exact .append _ e
  | configure handle settings ordering =>
    exact Emulator.configure_steady handle settings ordering e
  | publish topicId content => exact .of_eq (Emulator.publish_handles topicId content e)
  | submit handle content => exact .of_eq (Emulator.submit_handles handle content e)
  | stop handle => exact absurd hc (by simp [stops])
  | pull name => exact .of_eq (Emulator.pull_handles name e)
  | lease name => exact .of_eq (Emulator.lease_handles name e)
  | acknowledge name ackId => exact .of_eq (Emulator.acknowledge_handles name ackId e)
  | modifyAckDeadline name ackId seconds =>
    exact .of_eq (Emulator.modifyAckDeadline_handles name ackId seconds e)
  | ack delivery => exact .of_eq (Emulator.ack_handles delivery e)
  | nack delivery => exact .of_eq (Emulator.nack_handles delivery e)

theorem keeps (e : Emulator σ) (c : Call σ) : Emulator.Keeps e (c.run e) := by
  cases hc : c.stops with
  | false => exact (steady e c hc).keeps
  | true =>
    cases c with
    | stop handle => exact Emulator.stop_keeps handle e
    | _ => exact absurd hc (by simp [stops])

end Call

end Messaging
