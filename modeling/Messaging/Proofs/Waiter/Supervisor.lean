import Messaging.Proofs.Broker.Calls
import Messaging.Proofs.ResourceName
import Messaging.Waiter.Acks
import Mathlib.Data.List.Induction

/-! # Waiters of a supervisor

What becomes of one waiter is told by its outcome so far: `Supervisor.Stands` says that the waiter
has that outcome and, while it has none, that it is the current one of its target and of no other.

All that can be done to the supervisor of a project is an `AckSupervisor.Action`. An action that
spares the waiter leaves it waiting (`Action.run_awaits`), none takes its outcome away
(`Action.run_resolved`), and the reactor for acks resolves it by a request that tells of what it waits
for (`Awaited.Stands.observe`). -/

namespace Messaging

/-! ### Waiters of a supervisor -/

namespace Supervisor

variable {α : Type} {target t : String} {w n : Nat} {o o' : Outcome α} {s : Supervisor α}

/-- The current waiters exist. -/
def Sound (s : Supervisor α) : Prop :=
  ∀ t n, s.targets.find? t = some n → n < s.waiters.length

/-- A waiter is pending, and is the current one of a target and of no other. -/
structure Awaits (target : String) (w : Nat) (s : Supervisor α) : Prop where
  current : s.targets.find? target = some w
  pending : s.waiters[w]? = some {}
  only : ∀ t, s.targets.find? t = some w → t = target

/-- A waiter has been resolved with an outcome. -/
def Resolved (w : Nat) (o : Outcome α) (s : Supervisor α) : Prop := s.waiters[w]? = some ⟨some o⟩

/-- A waiter has an outcome, or waits for one. -/
def Stands (target : String) (w : Nat) : Option (Outcome α) → Supervisor α → Prop
  | none, s => s.Awaits target w
  | some o, s => s.Resolved w o

theorem Stands.outcome {outcome : Option (Outcome α)} (h : s.Stands target w outcome) :
    (s.waiter w).outcome = outcome := by
  cases outcome with
  | none => simp [waiter, Awaits.pending h]
  | some o => simp [waiter, show s.waiters[w]? = some ⟨some o⟩ from h]

theorem Resolved.outcome (h : s.Resolved w o) : (s.waiter w).outcome = some o :=
  Stands.outcome (show s.Stands "" w (some o) from h)

theorem resolved_of_outcome (h : (s.waiter w).outcome = some o) : s.Resolved w o := by
  unfold waiter at h
  cases hw : s.waiters[w]? with
  | none => simp [hw] at h
  | some waiter =>
    rw [hw, Option.getD_some] at h
    rw [Resolved, hw, ← h]

/-- A waiter that has just been started is the current one. -/
theorem Sound.start_awaits (h : s.Sound) (target : String) :
    (s.start target).2.Awaits target (s.start target).1 where
  current := by simp [start, Table.find?_insert]
  pending := by simp [start]
  only t ht := by
    by_contra hne
    simp only [start, Table.find?_insert, if_neg hne] at ht
    exact absurd (h t _ ht) (Nat.lt_irrefl _)

theorem Awaits.lt (h : s.Awaits target w) : w < s.waiters.length :=
  (List.getElem?_eq_some_iff.mp h.pending).1

theorem Awaits.start (h : s.Awaits target w) (ht : t ≠ target) :
    (s.start t).2.Awaits target w where
  current := by rw [Supervisor.start, Table.find?_insert, if_neg ht.symm, h.current]
  pending := by rw [Supervisor.start, List.getElem?_append_left h.lt, h.pending]
  only t' ht' := by
    simp only [Supervisor.start, Table.find?_insert] at ht'
    split at ht'
    · exact absurd (Option.some.inj ht') h.lt.ne'
    · exact h.only t' ht'

theorem Resolved.start (h : s.Resolved w o) (t : String) : (s.start t).2.Resolved w o := by
  have hlt := (List.getElem?_eq_some_iff.mp h).1
  rw [Resolved, Supervisor.start, List.getElem?_append_left hlt]
  exact h

theorem stop_targets {s' : Supervisor α} (h : s.stop n o = .ok s') : s'.targets = s.targets := by
  unfold stop at h
  cases hw : (s.waiter n).stop o with
  | error e => simp [hw, Except.map] at h
  | ok waiter =>
    rw [hw] at h
    cases h
    rfl

/-- Resolving a waiter leaves the others as they are. -/
theorem stop_waiters {s' : Supervisor α} (h : s.stop n o = .ok s') (hn : n ≠ w) :
    s'.waiters[w]? = s.waiters[w]? := by
  unfold stop at h
  cases hw : (s.waiter n).stop o with
  | error e => simp [hw, Except.map] at h
  | ok waiter =>
    rw [hw] at h
    cases h
    exact List.getElem?_set_ne hn

theorem Sound.start (h : s.Sound) (t : String) : (s.start t).2.Sound := by
  intro t' m hm
  simp only [Supervisor.start, Table.find?_insert] at hm
  have hlen : (s.start t).2.waiters.length = s.waiters.length + 1 := by simp [Supervisor.start]
  rw [hlen]
  split at hm
  · cases hm
    exact Nat.lt_succ_self _
  · exact Nat.lt_succ_of_lt (h t' m hm)

theorem Sound.stop {s' : Supervisor α} (h : s.Sound) (hs : s.stop n o = .ok s') : s'.Sound := by
  intro t m hm
  rw [stop_targets hs] at hm
  have hm' : m < s.waiters.length := h t m hm
  unfold Supervisor.stop at hs
  cases hw : (s.waiter n).stop o with
  | error e => simp [hw, Except.map] at hs
  | ok waiter =>
    rw [hw] at hs
    cases hs
    simpa using hm'

theorem Sound.stopTarget (h : s.Sound) (t : String) : (s.stopTarget t o).Sound := by
  unfold Supervisor.stopTarget
  split
  · exact h
  · have herased : ({ s with targets := s.targets.erase t } : Supervisor α).Sound := by
      intro t' m hm
      rw [Table.find?_erase] at hm
      split at hm
      · cases hm
      · exact h t' m hm
    dsimp only
    split
    · next hs => exact herased.stop hs
    · exact herased

theorem Awaits.stop {s' : Supervisor α} (h : s.Awaits target w) (hs : s.stop n o = .ok s')
    (hn : n ≠ w) : s'.Awaits target w :=
  ⟨by rw [stop_targets hs, h.current], by rw [stop_waiters hs hn, h.pending],
    fun t ht => h.only t (stop_targets hs ▸ ht)⟩

/-- A waiter that has been resolved cannot be resolved again. -/
theorem Resolved.stop {s' : Supervisor α} (h : s.Resolved w o) (hs : s.stop n o' = .ok s') :
    s'.Resolved w o := by
  rcases eq_or_ne n w with rfl | hn
  · have hw : s.waiter n = ⟨some o⟩ := by rw [waiter, h, Option.getD_some]
    rw [Supervisor.stop, hw] at hs
    cases hs
  · rw [Resolved, stop_waiters hs hn]
    exact h

/-- Resolving the waiter of another target does not touch the waiter. -/
theorem Awaits.stopTarget (h : s.Awaits target w) (ht : t ≠ target) :
    (s.stopTarget t o).Awaits target w := by
  unfold Supervisor.stopTarget
  split
  · exact h
  · next n hn =>
    have hother : n ≠ w := fun hnw => ht (h.only t (hnw ▸ hn))
    have herased : ({ s with targets := s.targets.erase t } : Supervisor α).Awaits target w := by
      refine ⟨by rw [Table.find?_erase, if_neg ht.symm, h.current], h.pending, fun t' ht' => ?_⟩
      rw [Table.find?_erase] at ht'
      split at ht'
      · cases ht'
      · exact h.only t' ht'
    dsimp only
    split
    · next stopped hs => exact herased.stop hs hother
    · exact herased

theorem Awaits.stopTarget_self (h : s.Awaits target w) :
    (s.stopTarget target o).Resolved w o := by
  obtain ⟨hlt, hpending⟩ := List.getElem?_eq_some_iff.mp h.pending
  simp [Supervisor.stopTarget, h.current, Supervisor.stop, waiter, hpending, Waiter.stop,
    Except.map, Resolved, hlt]

theorem Resolved.stopTarget (h : s.Resolved w o) (t : String) : (s.stopTarget t o').Resolved w o := by
  unfold Supervisor.stopTarget
  split
  · exact h
  · next n hn =>
    have herased : ({ s with targets := s.targets.erase t } : Supervisor α).Resolved w o := h
    dsimp only
    split
    · next stopped hs => exact herased.stop hs
    · exact herased

end Supervisor

/-! ### What waiters wait for -/

namespace AckKind

/-- The target for the acks or the nacks of a subscription by its name. -/
def target : AckKind → String → String
  | ack => AckSupervisor.ackTarget
  | nack => AckSupervisor.nackTarget

/-- Starts a waiter for an ack or for a nack on a subscription by its id. -/
def start : AckKind → String → AckSupervisor → Nat × AckSupervisor
  | ack => AckSupervisor.startAck
  | nack => AckSupervisor.startNack

/-- No two kinds and names have one target. -/
theorem target_inj {k k' : AckKind} {name name' : String}
    (h : k.target name = k'.target name') : k = k' ∧ name = name' := by
  have h' := congrArg String.toList h
  cases k <;> cases k' <;>
    simp [target, AckSupervisor.ackTarget, AckSupervisor.nackTarget] at h' ⊢ <;>
    exact String.toList_injective h'

end AckKind

/-- What a request acks or nacks: the name of a subscription and the ack ids. -/
def Request.settles? : Request → Option (AckKind × String × List String)
  | .acknowledge name acks => some (.ack, name, acks)
  | .modifyAckDeadline name acks _ => some (.nack, name, acks)
  | _ => none

/-- Requests that ack or nack have the methods that the reactor for acks is registered for. -/
theorem Request.method_of_settles? {request : Request} (h : request.settles? ≠ none) :
    request.method = "Acknowledge" ∨ request.method = "ModifyAckDeadline" := by
  cases request with
  | acknowledge name acks => exact .inl rfl
  | modifyAckDeadline name acks seconds => exact .inr rfl
  | _ => exact absurd rfl h

/-- The acks or nacks of a subscription that a waiter of a project waits for. -/
structure Awaited where
  kind : AckKind
  project : String
  id : String
  waiter : Nat

namespace Awaited

/-- The name of the subscription. -/
def name (a : Awaited) : String := Resource.subscription.nameOf a.project a.id

/-- The target of the waiter. -/
def target (a : Awaited) : String := a.kind.target a.name

/-- What a request resolves the waiter with, if it tells of what the waiter waits for. -/
def told? (a : Awaited) (request : Request) : Option (Outcome (List String)) :=
  (request.settles?.filter fun t => t.1 = a.kind ∧ t.2.1 = a.name).map fun t => { data := t.2.2 }

theorem told?_eq_some_iff {a : Awaited} {request : Request} {o : Outcome (List String)} :
    a.told? request = some o ↔
      ∃ acks, request.settles? = some (a.kind, a.name, acks) ∧ o = { data := acks } := by
  simp only [told?, Option.map_eq_some_iff, Option.filter_eq_some_iff, decide_eq_true_eq]
  constructor
  · rintro ⟨⟨k, name, acks⟩, ⟨h, rfl, rfl⟩, rfl⟩
    exact ⟨acks, h, rfl⟩
  · rintro ⟨acks, h, rfl⟩
    exact ⟨_, ⟨h, rfl, rfl⟩, rfl⟩

/-- The waiter has an outcome, or waits for one. -/
def Stands (a : Awaited) (outcome : Option (Outcome (List String))) (s : AckSupervisor) : Prop :=
  s.project = a.project ∧ s.supervisor.Stands a.target a.waiter outcome

end Awaited

/-! ### What is done to a supervisor -/

namespace AckSupervisor

/-- What can be done to a supervisor. -/
inductive Action where
  | start (k : AckKind) (id : String)
  | stop (k : AckKind) (name : String) (o : Outcome (List String))
  /-- Resolves a waiter by itself. -/
  | resolve (n : Nat) (o : Outcome (List String))

namespace Action

/-- The supervisor after an action. -/
def run (s : AckSupervisor) : Action → AckSupervisor
  | start k id => (k.start id s).2
  | stop .ack name o => s.stopAck name o
  | stop .nack name o => s.stopNack name o
  | resolve n o =>
    match s.supervisor.stop n o with
    | .ok supervisor => { s with supervisor }
    | .error _ => s

/-- An action neither replaces a waiter nor resolves it. -/
def Spares (a : Awaited) : Action → Prop
  | start k id => k = a.kind → id ≠ a.id
  | stop k name _ => k = a.kind → name ≠ a.name
  | resolve n _ => n ≠ a.waiter

/-- What the reactor for acks does when it is shown a request. -/
def observed? (request : Request) : Option Action :=
  request.settles?.map fun t => .stop t.1 t.2.1 { data := t.2.2 }

variable {a : Awaited} {s : AckSupervisor}

theorem run_start (k : AckKind) (id : String) (s : AckSupervisor) : run s (start k id) = { s with
    supervisor :=
      (s.supervisor.start (k.target (Resource.subscription.nameOf s.project id))).2 } := by
  cases k <;> rfl

theorem run_stop (k : AckKind) (name : String) (o : Outcome (List String)) (s : AckSupervisor) :
    run s (stop k name o) =
      { s with supervisor := s.supervisor.stopTarget (k.target name) o } := by
  cases k <;> rfl

theorem observe_eq (request : Request) (s : AckSupervisor) :
    s.observe request = (observed? request).toList.foldl run s := by
  cases request <;> rfl

/-- What the reactor does resolves the waiter, if the request tells of what it waits for, and
otherwise leaves it alone. -/
theorem spares_or_told {action : Action} {request : Request} (h : action ∈ observed? request) :
    action.Spares a ∨ ∃ o, a.told? request = some o ∧ action = .stop a.kind a.name o := by
  obtain ⟨⟨k, name, acks⟩, ht, rfl⟩ := Option.map_eq_some_iff.mp h
  by_cases hsame : k = a.kind ∧ name = a.name
  · obtain ⟨rfl, rfl⟩ := hsame
    exact .inr ⟨_, Awaited.told?_eq_some_iff.mpr ⟨acks, ht, rfl⟩, rfl⟩
  · exact .inl fun hk hname => hsame ⟨hk, hname⟩

theorem observed_of_told {request : Request} {o : Outcome (List String)}
    (h : a.told? request = some o) : observed? request = some (.stop a.kind a.name o) := by
  obtain ⟨acks, ht, rfl⟩ := Awaited.told?_eq_some_iff.mp h
  rw [observed?, ht, Option.map_some]

theorem run_project (s : AckSupervisor) (action : Action) :
    (run s action).project = s.project := by
  cases action with
  | start k id => rw [run_start]
  | stop k name o => rw [run_stop]
  | resolve n o =>
    unfold run
    dsimp only
    split <;> rfl

/-- A waiter that has been resolved keeps its outcome. -/
theorem run_resolved {w : Nat} {o : Outcome (List String)} (h : s.supervisor.Resolved w o)
    (action : Action) : (run s action).supervisor.Resolved w o := by
  cases action with
  | start k id =>
    rw [run_start]
    exact h.start _
  | stop k name o' =>
    rw [run_stop]
    exact h.stopTarget _
  | resolve n o' =>
    unfold run
    dsimp only
    split
    · next hs => exact h.stop hs
    · exact h

theorem foldl_resolved {w : Nat} {o : Outcome (List String)} (actions : List Action)
    (h : s.supervisor.Resolved w o) : (actions.foldl run s).supervisor.Resolved w o := by
  induction actions generalizing s with
  | nil => exact h
  | cons action rest ih => exact ih (run_resolved h action)

/-- An action that spares a waiter leaves it waiting. -/
theorem run_awaits (hp : s.project = a.project) (h : s.supervisor.Awaits a.target a.waiter)
    {action : Action} (hs : action.Spares a) :
    (run s action).supervisor.Awaits a.target a.waiter := by
  cases action with
  | start k id =>
    rw [run_start]
    refine h.start fun ht => ?_
    obtain ⟨hk, hname⟩ := AckKind.target_inj ht
    exact hs hk (Resource.nameOf_inj (hp ▸ hname))
  | stop k name o =>
    rw [run_stop]
    refine h.stopTarget fun ht => ?_
    obtain ⟨hk, hname⟩ := AckKind.target_inj ht
    exact hs hk hname
  | resolve n o =>
    unfold run
    dsimp only
    split
    · next hstop => exact h.stop hstop hs
    · exact h

/-- The current waiters exist after every action. -/
theorem run_sound (h : s.supervisor.Sound) (action : Action) :
    (run s action).supervisor.Sound := by
  cases action with
  | start k id =>
    rw [run_start]
    exact h.start _
  | stop k name o =>
    rw [run_stop]
    exact h.stopTarget _
  | resolve n o =>
    unfold run
    dsimp only
    split
    · next hs => exact h.stop hs
    · exact h

/-- In every supervisor that has come about by actions the current waiters exist. -/
theorem sound_of_new (project : String) (actions : List Action) :
    (actions.foldl run { project }).supervisor.Sound := by
  induction actions using List.reverseRecOn with
  | nil => exact fun t n h => by cases h
  | append_singleton front action ih =>
    rw [List.foldl_append]
    exact run_sound ih action

end Action

/-- A waiter that has just been started waits. -/
theorem start_stands {s : AckSupervisor} (h : s.supervisor.Sound) (k : AckKind) (id : String) :
    Awaited.Stands ⟨k, s.project, id, (k.start id s).1⟩ none (k.start id s).2 := by
  cases k with
  | ack => exact ⟨rfl, h.start_awaits _⟩
  | nack => exact ⟨rfl, h.start_awaits _⟩

end AckSupervisor

namespace Awaited.Stands

variable {a : Awaited} {outcome : Option (Outcome (List String))} {s : AckSupervisor}
  {request : Request}

/-- An action that spares the waiter if it waits leaves it as it is. -/
theorem spared (h : a.Stands outcome s) {action : AckSupervisor.Action}
    (hs : outcome = none → action.Spares a) : a.Stands outcome (action.run s) := by
  refine ⟨(action.run_project s).trans h.1, ?_⟩
  cases outcome with
  | some o => exact action.run_resolved h.2
  | none => exact AckSupervisor.Action.run_awaits h.1 h.2 (hs rfl)

/-- One action that spares the waiter, or tells of the request as the reactor does. -/
theorem run (h : a.Stands outcome s) {action : AckSupervisor.Action}
    (hs : outcome = none → action.Spares a ∨ action ∈ AckSupervisor.Action.observed? request) :
    ∃ outcome', (outcome' = outcome ∨ outcome' = outcome.or (a.told? request)) ∧
      a.Stands outcome' (action.run s) := by
  by_cases hspares : outcome = none → action.Spares a
  · exact ⟨outcome, .inl rfl, h.spared hspares⟩
  -- The waiter waits, and the action tells of the request.
  obtain ⟨rfl, hnot⟩ := Classical.not_imp.mp hspares
  have hmem := (hs rfl).resolve_left hnot
  obtain ⟨o, htold, rfl⟩ := (AckSupervisor.Action.spares_or_told hmem).resolve_left hnot
  refine ⟨some o, .inr (by rw [htold, Option.none_or]),
    (AckSupervisor.Action.run_project s _).trans h.1, ?_⟩
  rw [AckSupervisor.Action.run_stop]
  exact Supervisor.Awaits.stopTarget_self h.2

/-- The same of several actions. -/
theorem runs (actions : List AckSupervisor.Action) (h : a.Stands outcome s)
    (hs : outcome = none → ∀ action ∈ actions,
      action.Spares a ∨ action ∈ AckSupervisor.Action.observed? request) :
    ∃ outcome', (outcome' = outcome ∨ outcome' = outcome.or (a.told? request)) ∧
      a.Stands outcome' (actions.foldl AckSupervisor.Action.run s) := by
  induction actions generalizing outcome s with
  | nil => exact ⟨outcome, .inl rfl, h⟩
  | cons action rest ih =>
    obtain ⟨outcome₁, hnext, h₁⟩ := h.run fun hnone => hs hnone action List.mem_cons_self
    have hrest : outcome₁ = none → ∀ action ∈ rest,
        action.Spares a ∨ action ∈ AckSupervisor.Action.observed? request := by
      intro hnone action' hmem
      refine hs ?_ action' (List.mem_cons_of_mem _ hmem)
      rcases hnext with rfl | rfl
      · exact hnone
      · exact (Option.or_eq_none_iff.mp hnone).1
    obtain ⟨outcome₂, hnext₂, h₂⟩ := ih h₁ hrest
    refine ⟨outcome₂, ?_, h₂⟩
    rcases hnext with rfl | rfl
    · exact hnext₂
    · rw [Option.or_assoc, Option.or_self, or_self] at hnext₂
      exact .inr hnext₂

/-- The reactor for acks resolves the waiter if the request tells of what it waits for. -/
theorem observe (h : a.Stands outcome s) (request : Request) :
    a.Stands (outcome.or (a.told? request)) (s.observe request) := by
  have hmay : ∀ action ∈ (AckSupervisor.Action.observed? request).toList,
      action.Spares a ∨ action ∈ AckSupervisor.Action.observed? request :=
    fun action hmem => .inr (Option.mem_toList.mp hmem)
  rw [AckSupervisor.Action.observe_eq]
  cases htold : a.told? request with
  | none =>
    obtain ⟨outcome', hnext, hstands⟩ := h.runs _ fun _ => hmay
    rw [htold, Option.or_none, or_self] at hnext
    rwa [Option.or_none, ← hnext]
  | some o =>
    obtain ⟨hp, h⟩ := h
    rw [AckSupervisor.Action.observed_of_told htold, Option.toList_some, List.foldl_cons,
      List.foldl_nil]
    refine ⟨(AckSupervisor.Action.run_project _ _).trans hp, ?_⟩
    cases outcome with
    | some o' => exact AckSupervisor.Action.run_resolved h _
    | none =>
      rw [AckSupervisor.Action.run_stop]
      exact Supervisor.Awaits.stopTarget_self h

end Awaited.Stands

end Messaging
