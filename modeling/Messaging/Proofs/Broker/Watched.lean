import Messaging.Proofs.Broker.Calls
import Mathlib.Data.List.Nodup
import Mathlib.Data.List.Perm.Subperm

/-! # Queues that are watched

Notifications are not counted: two messages can leave one notification behind, and who looks anyway
can lease a message that another one has been woken for. What is kept all the same is that there is
always somebody to look for the messages (`Queue.Watched`): as long as anybody waits who has not
been woken, there are no more pending messages than waiters who have been woken and others who look.

Each operation of a queue and of its signal keeps this, with those who wait and those who look as
they are afterwards. So does every event (`Event.watched`): the only ones that add to the pending
messages also wake somebody. -/

namespace Messaging

/-! ### Signals -/

namespace Signal

variable {n : Nat} {s : Signal}

/-- Those who wait for a signal, woken or not. -/
def waiters (s : Signal) : List Nat := s.waiting ++ s.woken

theorem waiters_notify (s : Signal) : s.notify.waiters.Perm s.waiters := by
  unfold notify waiters
  split
  · exact .rfl
  · next first rest hwaiting =>
    rw [hwaiting, ← List.append_assoc]
    exact List.perm_append_singleton first (rest ++ s.woken)

theorem waiters_enter (n : Nat) (s : Signal) : (s.enter n).waiters.Perm (n :: s.waiters) := by
  rw [waiters, enter, List.append_assoc]
  exact List.perm_middle

theorem waiters_resume (h : n ∈ s.woken) : s.waiters.Perm (n :: (s.resume n).waiters) :=
  ((List.perm_cons_erase h).append_left s.waiting).trans List.perm_middle

theorem waiters_leave (h : n ∈ s.waiters) : s.waiters.Perm (n :: (s.leave n).waiters) := by
  unfold leave
  split
  · next hwoken => exact (waiters_resume hwoken).trans ((waiters_notify _).symm.cons n)
  · next hwoken =>
    have hwaiting : n ∈ s.waiting := (List.mem_append.mp h).resolve_right hwoken
    exact (List.perm_cons_erase hwaiting).append_right s.woken

/-- Those who stay when one of them goes. -/
theorem mem_of_perm_cons {waiters rest : List Nat} {waits waits' : Nat → Prop}
    (hperm : waiters.Perm (n :: rest)) (hnodup : waiters.Nodup) (hmem : ∀ k, k ∈ waiters ↔ waits k)
    (hwaits : ∀ k, waits' k ↔ k ≠ n ∧ waits k) : rest.Nodup ∧ ∀ k, k ∈ rest ↔ waits' k := by
  obtain ⟨hn, hrest⟩ := List.nodup_cons.mp (hperm.nodup_iff.mp hnodup)
  refine ⟨hrest, fun k => ?_⟩
  rw [hwaits, ← hmem, hperm.mem_iff, List.mem_cons]
  constructor
  · intro hk
    exact ⟨fun heq => hn (heq ▸ hk), .inr hk⟩
  · rintro ⟨hne, hk⟩
    exact hk.resolve_left hne

end Signal

/-! ### Queues -/

namespace Queue

/-- A queue for whose messages there is somebody to look. Those who wait are known to its signal,
and if one of them has not been woken, there are as many who will look as there are messages: those
who have been woken, and a number of others who look already. -/
structure Watched (waits : Nat → Prop) (seekers : Nat) (q : Queue) : Prop where
  nodup : q.signal.waiters.Nodup
  waiters : ∀ n, n ∈ q.signal.waiters ↔ waits n
  enough : q.signal.waiting = [] ∨ q.pending.length ≤ q.signal.woken.length + seekers

namespace Watched

variable {waits waits' : Nat → Prop} {seekers seekers' n : Nat} {q : Queue}

/-- Without messages nobody has to look. -/
theorem of_dry (h : q.Watched waits seekers) (hdry : q.pending = []) :
    q.Watched waits seekers' where
  nodup := h.nodup
  waiters := h.waiters
  enough := .inr (by rw [hdry]; exact Nat.zero_le _)

theorem mono (h : q.Watched waits seekers) (hseekers : seekers ≤ seekers') :
    q.Watched waits seekers' where
  nodup := h.nodup
  waiters := h.waiters
  enough := h.enough.imp_right fun henough => by omega

theorem congr (h : q.Watched waits seekers) (hwaits : ∀ n, waits' n ↔ waits n) :
    q.Watched waits' seekers where
  nodup := h.nodup
  waiters n := (h.waiters n).trans (hwaits n).symm
  enough := h.enough

/-- A message that arrives wakes somebody, unless nobody waits. -/
theorem push (h : q.Watched waits seekers) (m : StoredMessage) :
    (q.push m).Watched waits seekers where
  nodup := (q.signal.waiters_notify.nodup_iff).mpr h.nodup
  waiters n := q.signal.waiters_notify.mem_iff.trans (h.waiters n)
  enough := by
    simp only [Queue.push, Signal.notify]
    split
    · next hwaiting => exact .inl hwaiting
    · next first rest hwaiting =>
      have henough := h.enough.resolve_left (by simp [hwaiting])
      right
      simp only [List.length_append, List.length_singleton]
      omega

theorem settle (h : q.Watched waits seekers) (ackId : String) :
    (q.settle ackId).Watched waits seekers :=
  ⟨h.nodup, h.waiters, h.enough⟩

theorem requeue (h : q.Watched waits seekers) (ackId : String) :
    (q.requeue ackId).Watched waits seekers := by
  unfold Queue.requeue
  split
  · exact h
  · exact (h.settle ackId).push _

/-- One of those who look leases a message. -/
theorem lease {m : StoredMessage} {rest : List StoredMessage}
    {outstanding : List (String × StoredMessage)} (h : q.Watched waits (seekers + 1))
    (hpending : q.pending = m :: rest) :
    Watched waits seekers { q with pending := rest, outstanding } where
  nodup := h.nodup
  waiters := h.waiters
  enough := by
    refine h.enough.imp_right fun henough => ?_
    rw [hpending, List.length_cons] at henough
    show rest.length ≤ q.signal.woken.length + seekers
    omega

theorem take (h : q.Watched waits seekers) :
    Watched waits seekers { q with signal := q.signal.take } :=
  ⟨h.nodup, h.waiters, h.enough⟩

/-- Who starts to wait has found no message. -/
theorem enter (h : q.Watched waits seekers) (hdry : q.pending = []) (hn : ¬waits n)
    (hwaits : ∀ k, waits' k ↔ k = n ∨ waits k) :
    Watched waits' seekers' { q with signal := q.signal.enter n } where
  nodup := by
    rw [(q.signal.waiters_enter n).nodup_iff, List.nodup_cons, h.waiters]
    exact ⟨hn, h.nodup⟩
  waiters k := by
    rw [(q.signal.waiters_enter n).mem_iff, List.mem_cons, h.waiters, hwaits]
  enough := .inr (by rw [hdry]; exact Nat.zero_le _)

/-- Those who have not been woken change places. -/
theorem reorder {waiting : List Nat} (h : q.Watched waits seekers)
    (hperm : waiting.Perm q.signal.waiting) :
    Watched waits seekers { q with signal := { q.signal with waiting } } where
  nodup := (hperm.append_right q.signal.woken).nodup_iff.mpr h.nodup
  waiters n := (hperm.append_right q.signal.woken).mem_iff.trans (h.waiters n)
  enough := by
    refine h.enough.imp_left fun hwaiting => ?_
    rw [hwaiting] at hperm
    exact hperm.eq_nil

/-- Who has been woken looks. -/
theorem resume (h : q.Watched waits seekers) (hwoken : n ∈ q.signal.woken)
    (hwaits : ∀ k, waits' k ↔ k ≠ n ∧ waits k) :
    Watched waits' (seekers + 1) { q with signal := q.signal.resume n } := by
  obtain ⟨hnodup, hwaiters⟩ :=
    Signal.mem_of_perm_cons (Signal.waiters_resume hwoken) h.nodup h.waiters hwaits
  refine ⟨hnodup, hwaiters, h.enough.imp_right fun henough => ?_⟩
  have hlength : (q.signal.woken.erase n).length + 1 = q.signal.woken.length :=
    List.length_erase_add_one hwoken
  show q.pending.length ≤ (q.signal.woken.erase n).length + (seekers + 1)
  omega

/-- Who leaves passes the notification on. -/
theorem leave (h : q.Watched waits seekers) (hn : waits n)
    (hwaits : ∀ k, waits' k ↔ k ≠ n ∧ waits k) :
    Watched waits' seekers { q with signal := q.signal.leave n } := by
  have hmem := (h.waiters n).mpr hn
  obtain ⟨hnodup, hwaiters⟩ :=
    Signal.mem_of_perm_cons (Signal.waiters_leave hmem) h.nodup h.waiters hwaits
  refine ⟨hnodup, hwaiters, ?_⟩
  unfold Signal.leave Signal.notify
  split
  · next hwoken =>
    have hlength := List.length_erase_add_one hwoken
    dsimp only
    split
    · next hwaiting => exact .inl hwaiting
    · next first rest hwaiting =>
      have henough := h.enough.resolve_left (by simp [hwaiting])
      right
      simp only [List.length_append, List.length_singleton]
      omega
  · next hwoken =>
    rcases h.enough with hwaiting | henough
    · left
      simp [hwaiting]
    · exact .inr henough

end Watched

end Queue

/-- What happens to the messages leaves a queue watched: a message that arrives wakes somebody. -/
theorem Event.watched {S : String} {ev : Event} {s s' : Store} {q : Queue} {waits : Nat → Prop}
    {seekers : Nat} (hq : s.queues.find? S = some q) (hallowed : ev.Allowed s s')
    (h : q.Watched waits seekers) :
    ∃ q', ev.onQueue S (some q) = some q' ∧ q'.Watched waits seekers := by
  cases ev with
  | quiet => exact ⟨q, rfl, h⟩
  | created name config =>
    have hne : S ≠ name := by
      rintro rfl
      cases hq.symm.trans hallowed
    exact ⟨q, by simp [onQueue, hne], h⟩
  | published topicId m =>
    simp only [onQueue, Option.map_some]
    split
    · exact ⟨_, rfl, h.push m⟩
    · exact ⟨q, rfl, h⟩
  | leased name ackId m =>
    simp only [onQueue, Option.map_some]
    split
    · refine ⟨_, rfl, h.nodup, h.waiters, h.enough.imp_right fun henough => ?_⟩
      show q.pending.tail.length ≤ q.signal.woken.length + seekers
      rw [List.length_tail]
      omega
    · exact ⟨q, rfl, h⟩
  | acked name ackId =>
    simp only [onQueue, Option.map_some]
    split
    · exact ⟨_, rfl, h.settle ackId⟩
    · exact ⟨q, rfl, h⟩
  | returned name ackId =>
    simp only [onQueue, Option.map_some]
    split
    · exact ⟨_, rfl, h.requeue ackId⟩
    · exact ⟨q, rfl, h⟩

/-- Nobody waits for a subscription that has just been created. -/
theorem Event.signal_of_created {S : String} {ev : Event} {q : Queue}
    (h : ev.onQueue S none = some q) : q.signal = {} := by
  cases ev with
  | created name config =>
    simp only [onQueue] at h
    split at h <;> cases h
    rfl
  | quiet | published => cases h
  | leased | acked | returned =>
    simp only [onQueue] at h
    split at h <;> cases h

/-- Only subscriptions that exist are received from. -/
theorem Emulator.contains_of_pull {σ : Type} {name : String} {e : Emulator σ}
    (h : (e.pull name).1 = .ok ()) : e.store.queues.contains name = true := by
  unfold pull at h
  dsimp only at h
  rcases guarded_cases (.pull name) _ e with ⟨-, error, world, hrefused⟩ | ⟨-, world, hserved⟩
  · rw [hrefused] at h
    cases h
  · rw [hserved] at h
    split at h
    · next hcontains => exact hcontains
    · cases h

end Messaging
