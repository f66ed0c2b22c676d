import Messaging.Proofs.Broker.Calls
import Messaging.Proofs.Text.Natural
import Mathlib.Data.List.Count
import Mathlib.Data.List.Perm.Basic

/-! # Conservation of messages

An `Account` of a subscription says, from the answers of the calls alone, which messages were
published to its topic once it had been created (`accepted`) and of which of them the current
delivery was acked (`gone`). `Queue.Settles` is the balance between the queue and its account: every
message that was accepted is pending, outstanding or gone, and in one place only. Each event keeps
the balance (`Balanced.note`), hence so does every run of the emulator (`Balanced.after`).

Main statement: `messages_conserved`. -/

namespace Messaging

/-- What of a message never changes: its id and its content. -/
def StoredMessage.sent (m : StoredMessage) : String × OutgoingMessage := (m.id, m.content)

namespace Queue

/-- The messages that a subscription holds, those that wait and those that are leased. -/
def held (q : Queue) : List StoredMessage := q.pending ++ q.outstanding.map Prod.snd

/-- The message that is leased under an ack id. -/
def leasedUnder (ackId : String) (q : Option Queue) : Option StoredMessage :=
  q.bind fun q => q.outstanding.lookup ackId

end Queue

/-- What a subscription has been given, and what it has been rid of. -/
structure Account where
  /-- The messages that were published to its topic once it had been created. -/
  accepted : List (String × OutgoingMessage) := []
  /-- The ids of the messages whose current delivery was acked. -/
  gone : List String := []
  deriving DecidableEq

namespace Account

/-- The account of a subscription `S` after an event that has met its queue `q`. -/
def note (S : String) (q : Option Queue) (ev : Event) (a : Account) : Account :=
  match ev with
  | .published topicId m =>
    if q.any (·.config.topic = topicId) then { a with accepted := a.accepted ++ [m.sent] } else a
  | .acked name ackId =>
    match if S = name then Queue.leasedUnder ackId q else none with
    | some m => { a with gone := a.gone ++ [m.id] }
    | none => a
  | _ => a

/-- The account of a subscription after calls. -/
def after {σ : Type} [Log.Journal σ] (S : String) :
    List (Call σ) → Emulator σ → Account → Account
  | [], _, a => a
  | c :: rest, e, a => after S rest (c.run e) (a.note S (e.store.queues.find? S) (c.event e))

end Account

/-! ### Taking a lease off -/

section Leases

variable {α : Type}

theorem filter_fst_ne_of_lookup_eq_none {k : String} {l : List (String × α)}
    (h : l.lookup k = none) : l.filter (fun e => e.1 ≠ k) = l := by
  rw [List.filter_eq_self]
  intro e he
  have hne : k ≠ e.1 := by simpa using List.lookup_eq_none_iff.mp h e he
  exact decide_eq_true hne.symm

/-- With each key once, the entry of a key is the one that leaves with it. -/
theorem perm_cons_filter_of_lookup {k : String} {v : α} {l : List (String × α)}
    (hkeys : (l.map Prod.fst).Nodup) (h : l.lookup k = some v) :
    l.Perm ((k, v) :: l.filter fun e => e.1 ≠ k) := by
  induction l with
  | nil => cases h
  | cons e rest ih =>
    obtain ⟨k', w⟩ := e
    simp only [List.map_cons, List.nodup_cons] at hkeys
    rw [List.lookup_cons] at h
    by_cases hk : k = k'
    · subst hk
      simp only [beq_self_eq_true, Option.some.injEq] at h
      have hrest : rest.lookup k = none := by
        rw [List.lookup_eq_none_iff]
        intro e he
        have hne : k ≠ e.1 := fun h => hkeys.1 (List.mem_map.mpr ⟨e, he, h.symm⟩)
        simpa using hne
      rw [h, List.filter_cons_of_neg (by simp), filter_fst_ne_of_lookup_eq_none hrest]
    · rw [beq_eq_false_iff_ne.mpr hk] at h
      rw [List.filter_cons_of_pos (by simpa using Ne.symm hk)]
      exact ((ih hkeys.2 h).cons _).trans (.swap _ _ _)

end Leases

namespace Queue

variable {q : Queue} {ackId : String} {m : StoredMessage}

theorem settle_eq_self (h : q.outstanding.lookup ackId = none) : q.settle ackId = q := by
  simp only [settle, filter_fst_ne_of_lookup_eq_none h]

theorem requeue_eq_self (h : q.outstanding.lookup ackId = none) : q.requeue ackId = q := by
  simp only [requeue, h]

theorem act_eq_self (k : AckKind) (h : q.outstanding.lookup ackId = none) : k.act ackId q = q := by
  cases k with
  | ack => exact settle_eq_self h
  | nack => exact requeue_eq_self h

/-- Acking takes the message of the ack id away and no other. -/
theorem held_settle (hkeys : (q.outstanding.map Prod.fst).Nodup)
    (h : q.outstanding.lookup ackId = some m) : q.held.Perm (m :: (q.settle ackId).held) := by
  have hp := (perm_cons_filter_of_lookup hkeys h).map Prod.snd
  exact (hp.append_left q.pending).trans List.perm_middle

/-- Returning a message keeps what never changes of the messages. -/
theorem sent_held_requeue (hkeys : (q.outstanding.map Prod.fst).Nodup) :
    ((q.requeue ackId).held.map (·.sent)).Perm (q.held.map (·.sent)) := by
  cases h : q.outstanding.lookup ackId with
  | none => rw [requeue_eq_self h]
  | some m =>
    have hq := (held_settle hkeys h).map (·.sent)
    have hr : (q.requeue ackId).held.Perm
        ({ m with attempt := m.attempt + 1 } :: (q.settle ackId).held) := by
      simp only [requeue, h, held, push]
      rw [List.append_assoc]
      exact List.perm_middle
    exact (hr.map (·.sent)).trans hq.symm

/-- The balance of a subscription: what it holds and what is gone is what it has accepted, and each
lease has an ack id of its own, made with a number that has been used up. -/
structure Settles (q : Queue) (a : Account) (nextLease : Nat) : Prop where
  fate : ∀ id, (q.held.map (·.id)).count id + a.gone.count id = (a.accepted.map Prod.fst).count id
  held : ∀ m ∈ q.held, m.sent ∈ a.accepted
  keys : (q.outstanding.map Prod.fst).Nodup
  numbered : ∀ l ∈ q.outstanding, ∃ n < nextLease, l.1 = Store.ackId l.2.id n

end Queue

/-- The balance of a subscription that may not have been created, and then has no account. -/
def Account.Fits (a : Account) (nextLease : Nat) : Option Queue → Prop
  | none => a = {}
  | some q => q.Settles a nextLease

/-- The account of a subscription is balanced, and it has accepted no message twice. -/
structure Balanced (S : String) (s : Store) (a : Account) : Prop where
  fits : a.Fits s.nextLease (s.queues.find? S)
  once : (a.accepted.map Prod.fst).Nodup
  numbered : ∀ m ∈ a.accepted, ∃ n < s.nextMessage, m.1 = Text.natural n

/-! ### What each event keeps -/

namespace Queue.Settles

variable {q : Queue} {a : Account} {n : Nat}

theorem mono (h : q.Settles a n) {n' : Nat} (hn : n ≤ n') : q.Settles a n' where
  fate := h.fate
  held := h.held
  keys := h.keys
  numbered l hl := by
    obtain ⟨k, hk, hl'⟩ := h.numbered l hl
    exact ⟨k, by omega, hl'⟩

/-- The message that is published is pending. -/
theorem push (h : q.Settles a n) (m : StoredMessage) :
    (q.push m).Settles { a with accepted := a.accepted ++ [m.sent] } n where
  fate id := by
    have hid := h.fate id
    have hperm : (q.push m).held.Perm (m :: q.held) := by
      simp only [Queue.push, Queue.held, List.append_assoc]
      exact List.perm_middle
    rw [(hperm.map _).count_eq, List.map_cons, List.count_cons]
    simp only [List.map_append, List.map_cons, List.map_nil, List.count_append,
      List.count_singleton, StoredMessage.sent]
    omega
  held m' hm' := by
    have hperm : (q.push m).held.Perm (m :: q.held) := by
      simp only [Queue.push, Queue.held, List.append_assoc]
      exact List.perm_middle
    rcases List.mem_cons.mp (hperm.mem_iff.mp hm') with rfl | hm'
    · simp
    · exact List.mem_append_left _ (h.held m' hm')
  keys := h.keys
  numbered := h.numbered

/-- The message that is leased changes its place. -/
theorem lease (h : q.Settles a n) {m : StoredMessage} {rest : List StoredMessage}
    (hp : q.pending = m :: rest) :
    ({ q with pending := q.pending.tail,
              outstanding := q.outstanding ++ [(Store.ackId m.id n, m)] } : Queue).Settles
      a (n + 1) := by
  have hperm : ({ q with
      pending := q.pending.tail,
      outstanding := q.outstanding ++ [(Store.ackId m.id n, m)] } : Queue).held.Perm q.held := by
    simp only [Queue.held, hp, List.tail_cons, List.map_append, List.map_cons, List.map_nil,
      ← List.append_assoc]
    exact List.perm_append_singleton _ _
  refine ⟨fun id => ?_, fun m' hm' => h.held m' (hperm.mem_iff.mp hm'), ?_, fun l hl => ?_⟩
  · rw [(hperm.map _).count_eq]
    exact h.fate id
  · rw [List.map_append, List.nodup_append]
    refine ⟨h.keys, by simp, ?_⟩
    intro k hk k' hk'
    obtain ⟨l, hl, rfl⟩ := List.mem_map.mp hk
    obtain ⟨j, hj, hlj⟩ := h.numbered l hl
    simp only [List.map_cons, List.map_nil, List.mem_singleton] at hk'
    rw [hk', hlj]
    intro heq
    have := (ackId_inj heq).2
    omega
  · rcases List.mem_append.mp hl with hl | hl
    · obtain ⟨j, hj, hlj⟩ := h.numbered l hl
      exact ⟨j, by omega, hlj⟩
    · rw [List.mem_singleton.mp hl]
      exact ⟨n, by omega, rfl⟩

/-- The message that is acked is gone. -/
theorem settle (h : q.Settles a n) {ackId : String} {m : StoredMessage}
    (hl : q.outstanding.lookup ackId = some m) :
    (q.settle ackId).Settles { a with gone := a.gone ++ [m.id] } n := by
  have hperm := held_settle h.keys hl
  refine ⟨fun id => ?_, fun m' hm' => h.held m' ?_, ?_, fun l hl => ?_⟩
  · have hid := h.fate id
    rw [(hperm.map _).count_eq, List.map_cons, List.count_cons] at hid
    simp only [List.count_append, List.count_singleton]
    omega
  · exact hperm.mem_iff.mpr (List.mem_cons_of_mem _ hm')
  · exact h.keys.sublist ((List.filter_sublist).map _)
  · exact h.numbered l (List.mem_of_mem_filter hl)

/-- The message that is returned is pending again. -/
theorem requeue (h : q.Settles a n) (ackId : String) : (q.requeue ackId).Settles a n := by
  have hperm : ((q.requeue ackId).held.map (·.sent)).Perm (q.held.map (·.sent)) :=
    sent_held_requeue h.keys
  have hfst (l : List StoredMessage) : l.map (·.id) = (l.map (·.sent)).map Prod.fst := by
    rw [List.map_map]
    rfl
  refine ⟨fun id => ?_, fun m hm => ?_, ?_, ?_⟩
  · rw [hfst, (hperm.map Prod.fst).count_eq, ← hfst]
    exact h.fate id
  · have hm' := hperm.mem_iff.mp (List.mem_map_of_mem hm)
    obtain ⟨m', hm', heq⟩ := List.mem_map.mp hm'
    rw [← heq]
    exact h.held m' hm'
  · unfold Queue.requeue
    split
    · exact h.keys
    · exact h.keys.sublist ((List.filter_sublist).map _)
  · unfold Queue.requeue
    split
    · exact h.numbered
    · exact fun l hl => h.numbered l (List.mem_of_mem_filter hl)

end Queue.Settles

namespace Queue.Settles

/-- A subscription that has just been created has nothing to settle. -/
theorem empty (config : SubscriptionConfig) (n : Nat) : ({ config } : Queue).Settles {} n where
  fate _ := rfl
  held _ hm := nomatch hm
  keys := .nil
  numbered _ hl := nomatch hl

end Queue.Settles

theorem Account.Fits.mono {a : Account} {n n' : Nat} (hn : n ≤ n') :
    ∀ {q : Option Queue}, a.Fits n q → a.Fits n' q
  | none, h => h
  | some _, h => Queue.Settles.mono h hn

/-- An account stays balanced when an event meets the queue. -/
theorem Account.Fits.note {S : String} {ev : Event} {s s' : Store} {a : Account}
    (hc : Store.Changes ev s s') (h : a.Fits s.nextLease (s.queues.find? S)) :
    (a.note S (s.queues.find? S) ev).Fits s'.nextLease (s'.queues.find? S) := by
  have hle : s.nextLease ≤ s'.nextLease := by rw [hc.nextLease]; omega
  have hallowed := hc.allowed
  rw [hc.queue S]
  cases ev with
  | quiet => exact h.mono hle
  | created name config =>
    by_cases hS : S = name
    · simp only [Event.onQueue, if_pos hS]
      rw [hS, hallowed] at h
      have ha : a = {} := h
      subst ha
      exact Queue.Settles.empty config _
    · simp only [Event.onQueue, if_neg hS]
      exact h.mono hle
  | published topicId m =>
    cases hq : s.queues.find? S with
    | none =>
      rw [hq] at h
      exact h
    | some q =>
      rw [hq] at h
      simp only [Account.note, Event.onQueue, Option.any_some, Option.map_some,
        decide_eq_true_eq]
      by_cases ht : q.config.topic = topicId
      · rw [if_pos ht, if_pos ht]
        exact Queue.Settles.push (Queue.Settles.mono h hle) m
      · rw [if_neg ht, if_neg ht]
        exact Queue.Settles.mono h hle
  | leased name ackId m =>
    obtain ⟨hack, q, rest, hq, hp⟩ := hallowed
    by_cases hS : S = name
    · subst hS
      rw [hq] at h
      simp only [Event.onQueue, if_pos, hq, Option.map_some, hc.nextLease, Event.leases, hack]
      exact Queue.Settles.lease h hp
    · simp only [Event.onQueue, if_neg hS]
      exact h.mono hle
  | acked name ackId =>
    by_cases hS : S = name
    · simp only [Event.onQueue, Account.note, if_pos hS]
      cases hq : s.queues.find? S with
      | none =>
        rw [hq] at h
        exact h
      | some q =>
        rw [hq] at h
        simp only [Queue.leasedUnder, Option.bind_some, Option.map_some]
        cases hl : q.outstanding.lookup ackId with
        | none =>
          rw [Queue.settle_eq_self hl]
          exact Queue.Settles.mono h hle
        | some m => exact Queue.Settles.mono (Queue.Settles.settle h hl) hle
    · simp only [Event.onQueue, Account.note, if_neg hS]
      exact h.mono hle
  | returned name ackId =>
    by_cases hS : S = name
    · simp only [Event.onQueue, if_pos hS]
      cases hq : s.queues.find? S with
      | none =>
        rw [hq] at h
        exact h
      | some q =>
        rw [hq] at h
        exact Queue.Settles.mono (Queue.Settles.requeue h ackId) hle
    · simp only [Event.onQueue, if_neg hS]
      exact h.mono hle

/-- The messages that are accepted by an event are the one that it publishes, if any. -/
theorem Account.accepted_note (S : String) (q : Option Queue) (ev : Event) (a : Account) :
    (a.note S q ev).accepted = a.accepted ∨
      ∃ topicId m, ev = .published topicId m ∧
        (a.note S q ev).accepted = a.accepted ++ [m.sent] := by
  cases ev with
  | published topicId m =>
    simp only [Account.note]
    split
    · exact .inr ⟨topicId, m, rfl, rfl⟩
    · exact .inl rfl
  | acked name ackId =>
    simp only [Account.note]
    split <;> exact .inl rfl
  | _ => exact .inl rfl

namespace Balanced

variable {S : String} {a : Account}

/-- Every event keeps the account balanced. -/
theorem note {s s' : Store} {ev : Event} (h : Balanced S s a) (hc : Store.Changes ev s s') :
    Balanced S s' (a.note S (s.queues.find? S) ev) := by
  have hold : ∀ m ∈ a.accepted, ∃ n < s'.nextMessage, m.1 = Text.natural n := fun m hm => by
    obtain ⟨n, hn, hmn⟩ := h.numbered m hm
    exact ⟨n, Nat.lt_of_lt_of_le hn hc.nextMessage, hmn⟩
  have hallowed := hc.allowed
  rcases Account.accepted_note S (s.queues.find? S) ev a with hacc | ⟨topicId, m, hev, hacc⟩
  · exact ⟨h.fits.note hc, by rw [hacc]; exact h.once, by rw [hacc]; exact hold⟩
  · rw [hev] at hallowed
    obtain ⟨hid, -, hlt⟩ := hallowed
    refine ⟨h.fits.note hc, ?_, ?_⟩
    · rw [hacc, List.map_append, List.nodup_append]
      refine ⟨h.once, by simp, ?_⟩
      intro i hi j hj
      obtain ⟨m', hm', rfl⟩ := List.mem_map.mp hi
      obtain ⟨n, hn, hmn⟩ := h.numbered m' hm'
      simp only [List.map_cons, List.map_nil, List.mem_singleton] at hj
      rw [hj, hmn]
      intro heq
      have := Text.natural_inj (heq.trans hid)
      omega
    · rw [hacc]
      intro m' hm'
      rcases List.mem_append.mp hm' with hm' | hm'
      · exact hold m' hm'
      · rw [List.mem_singleton.mp hm']
        exact ⟨s.nextMessage, hlt, hid⟩

/-- Every run keeps the account balanced. -/
theorem after {σ : Type} [Log.Journal σ] :
    ∀ (calls : List (Call σ)) (e : Emulator σ) (a : Account), Balanced S e.store a →
      Balanced S (Call.runs calls e).store (a.after S calls e)
  | [], _, _, h => h
  | c :: rest, e, _, h => after rest (c.run e) _ (h.note (Call.change e c))

theorem empty (S : String) : Balanced S {} {} := ⟨rfl, .nil, fun _ hm => nomatch hm⟩

end Balanced

/-! ### Accounts only grow -/

namespace Account

variable {σ : Type} [Log.Journal σ] {S : String}

theorem gone_note (S : String) (q : Option Queue) (ev : Event) (a : Account) :
    a.gone <+: (a.note S q ev).gone := by
  cases ev with
  | published topicId m =>
    simp only [note]
    split <;> exact List.prefix_rfl
  | acked name ackId =>
    simp only [note]
    split
    · exact List.prefix_append _ _
    · exact List.prefix_rfl
  | _ => exact List.prefix_rfl

/-- What has been accepted stays accepted as it was, and what is gone stays gone. -/
theorem after_prefix : ∀ (calls : List (Call σ)) (e : Emulator σ) (a : Account),
    a.accepted <+: (a.after S calls e).accepted ∧ a.gone <+: (a.after S calls e).gone
  | [], _, _ => ⟨List.prefix_rfl, List.prefix_rfl⟩
  | c :: rest, e, a => by
    obtain ⟨hacc, hgone⟩ := after_prefix rest (c.run e)
      (a.note S (e.store.queues.find? S) (c.event e))
    refine ⟨List.IsPrefix.trans ?_ hacc, (gone_note S _ _ a).trans hgone⟩
    rcases accepted_note S (e.store.queues.find? S) (c.event e) a with h | ⟨_, _, _, h⟩
    · exact h ▸ List.prefix_rfl
    · exact h ▸ List.prefix_append _ _

end Account

/-! ### Ack ids -/

/-- The ack id that an event gives out. -/
def Event.issued : Event → List String
  | leased _ ackId _ => [ackId]
  | _ => []

namespace Call

variable {σ : Type} [Log.Journal σ]

/-- The ack ids that calls give out, in order. -/
def issued : List (Call σ) → Emulator σ → List String
  | [], _ => []
  | c :: rest, e => (c.event e).issued ++ issued rest (c.run e)

/-- An ack id is made with a number that the store has not used yet. -/
theorem issued_numbered : ∀ (calls : List (Call σ)) (e : Emulator σ), ∀ a ∈ issued calls e,
    ∃ id n, e.store.nextLease ≤ n ∧ a = Store.ackId id n
  | [], _, _, h => nomatch h
  | c :: rest, e, a, h => by
    have hc := change e c
    rcases List.mem_append.mp h with h | h
    · have hallowed := hc.allowed
      cases hev : c.event e with
      | leased name ackId m =>
        rw [hev] at h hallowed
        rw [List.mem_singleton.mp h]
        exact ⟨m.id, _, Nat.le_refl _, hallowed.1⟩
      | _ => rw [hev] at h; exact nomatch h
    · obtain ⟨id, n, hn, ha⟩ := issued_numbered rest (c.run e) a h
      rw [hc.nextLease] at hn
      exact ⟨id, n, by omega, ha⟩

/-- No ack id is given out twice. -/
theorem issued_nodup : ∀ (calls : List (Call σ)) (e : Emulator σ), (issued calls e).Nodup
  | [], _ => .nil
  | c :: rest, e => by
    have hc := change e c
    have hallowed := hc.allowed
    have hrest := issued_nodup rest (c.run e)
    cases hev : c.event e with
    | leased name ackId m =>
      rw [hev] at hallowed
      simp only [issued, hev, Event.issued, List.singleton_append]
      refine List.nodup_cons.mpr ⟨fun h => ?_, hrest⟩
      obtain ⟨id, n, hn, ha⟩ := issued_numbered rest (c.run e) ackId h
      rw [hc.nextLease, hev] at hn
      have := (ackId_inj (hallowed.1.symm.trans ha)).2
      simp only [Event.leases] at hn
      omega
    | _ => simpa only [issued, hev, Event.issued, List.nil_append] using hrest

/-- The subscriptions of a run have names of their own. -/
theorem names_nodup : ∀ (calls : List (Call σ)) (e : Emulator σ), e.store.queues.names.Nodup →
    (runs calls e).store.queues.names.Nodup
  | [], _, h => h
  | c :: rest, e, h => names_nodup rest (c.run e) ((change e c).names h)

end Call

namespace Emulator

variable {σ : Type} {e : Emulator σ} {name ackId : String}

/-- An ack or nack of an ack id that is not outstanding does not change the store: it does nothing
or what it does to the queue. -/
theorem guarded_store_of_stale (k : AckKind) (hnames : e.store.queues.names.Nodup)
    (h : Queue.leasedUnder ackId (e.store.queues.find? name) = none) {request : Request}
    {change : Store → Store}
    (hchange : change e.store = e.store ∨
      change e.store = { e.store with queues := e.store.queues.modify name (k.act ackId) }) :
    (guarded request (served fun s => .ok (change s)) e).2.store = e.store := by
  have hsame : e.store.queues.modify name (k.act ackId) = e.store.queues :=
    Table.modify_eq_self hnames fun q hq => Queue.act_eq_self k (by rw [hq] at h; exact h)
  refine guarded_keeps (P := (·.store = e.store)) (fun _ => rfl) fun _ => ?_
  rcases hchange with hchange | hchange
  · exact hchange
  · rw [hsame] at hchange
    exact hchange

theorem acknowledge_store_of_stale (hnames : e.store.queues.names.Nodup)
    (h : Queue.leasedUnder ackId (e.store.queues.find? name) = none) :
    (e.acknowledge name ackId).store = e.store ∧
      ∀ seconds, (e.modifyAckDeadline name ackId seconds).store = e.store := by
  refine ⟨guarded_store_of_stale .ack hnames h (.inr rfl),
    fun seconds => guarded_store_of_stale .nack hnames h ?_⟩
  split
  · exact .inr rfl
  · exact .inl rfl

theorem ack_store_of_stale {n : Nat} {d : Delivery} (hnames : e.store.queues.names.Nodup)
    (hd : e.deliveries[n]? = some d)
    (h : Queue.leasedUnder d.ackId (e.store.queues.find? d.subscription) = none) :
    (e.ack n).store = e.store ∧ (e.nack n).store = e.store := by
  unfold ack nack
  rw [once_eq, once_eq]
  unfold unsettled?
  rw [hd]
  cases hs : d.settled with
  | true => simp [Option.filter, hs]
  | false =>
    simp only [Option.filter, hs, Bool.not_false, if_true]
    obtain ⟨hack, hnack⟩ := acknowledge_store_of_stale (e := e.marked n) hnames h
    exact ⟨hack, hnack 0⟩

end Emulator

namespace Queue.Settles

variable {q : Queue} {a : Account} {n : Nat}

/-- A message that was accepted once is in one place. -/
theorem fate_eq_one (h : q.Settles a n) (hnodup : (a.accepted.map Prod.fst).Nodup)
    {m : String × OutgoingMessage} (hm : m ∈ a.accepted) :
    q.pending.countP (·.id = m.1) + q.outstanding.countP (·.2.id = m.1) + a.gone.count m.1 = 1 := by
  have hfate := h.fate m.1
  rw [List.count_eq_one_of_mem hnodup (List.mem_map_of_mem hm), List.count_eq_countP,
    Queue.held, List.map_append, List.countP_append, List.countP_map, List.map_map,
    List.countP_map] at hfate
  exact hfate

/-- A message that is held is not gone. -/
theorem notMem_gone (h : q.Settles a n) (hnodup : (a.accepted.map Prod.fst).Nodup)
    {m : StoredMessage} (hm : m ∈ q.held) : m.id ∉ a.gone := by
  intro hgone
  have hfate := h.fate m.id
  have hheld : 0 < (q.held.map (·.id)).count m.id :=
    List.count_pos_iff.mpr (List.mem_map_of_mem hm)
  have hg : 0 < a.gone.count m.id := List.count_pos_iff.mpr hgone
  have hone := List.nodup_iff_count_le_one.mp hnodup m.id
  omega

end Queue.Settles

/-- **Messages are conserved.** In every run of the emulator, whatever its reactors do:

* no ack id is given out twice;
* an ack or nack whose ack id is not outstanding in the subscription leaves the store as it is, by
  the ack id or by the delivery;
* what a subscription has accepted is never given up or changed, every message that it holds is
  one of them with its id and content, and each is pending, outstanding under one ack id, or gone
  because it was acked, in one place and once;
* what is gone stays gone and is never leased again. -/
theorem messages_conserved {σ : Type} [Log.Journal σ] (project : String) (world : σ)
    (reactors : List (Reactor σ)) (calls more : List (Call σ)) (S : String) :
    let start : Emulator σ := { project, world, reactors }
    let e := Call.runs calls start
    let later := Call.runs more e
    let account := Account.after S calls start {}
    let laterAccount := Account.after S more e account
    (Call.issued (calls ++ more) start).Nodup ∧
    (∀ name ackId, Queue.leasedUnder ackId (e.store.queues.find? name) = none →
      (e.acknowledge name ackId).store = e.store ∧
      (∀ seconds, (e.modifyAckDeadline name ackId seconds).store = e.store) ∧
      ∀ n d, e.deliveries[n]? = some d → d.subscription = name → d.ackId = ackId →
        (e.ack n).store = e.store ∧ (e.nack n).store = e.store) ∧
    account.accepted <+: laterAccount.accepted ∧ account.gone <+: laterAccount.gone ∧
    (laterAccount.accepted.map Prod.fst).Nodup ∧
    ∀ q, e.store.queues.find? S = some q →
      (∀ m ∈ account.accepted,
        q.pending.countP (·.id = m.1) + q.outstanding.countP (·.2.id = m.1)
          + account.gone.count m.1 = 1) ∧
      (∀ m ∈ q.pending ++ q.outstanding.map Prod.snd, (m.id, m.content) ∈ account.accepted) ∧
      (q.outstanding.map Prod.fst).Nodup ∧
      ∀ ackId m s, later.store.lease S = some ((ackId, m), s) →
        m.id ∉ account.gone ∧ (m.id, m.content) ∈ laterAccount.accepted := by
  intro start e later account laterAccount
  have hnow : Balanced S e.store account := Balanced.after calls start {} (.empty S)
  have hlater : Balanced S later.store laterAccount := Balanced.after more e account hnow
  have hnames : e.store.queues.names.Nodup := Call.names_nodup calls start .nil
  obtain ⟨hacc, hgone⟩ := Account.after_prefix more e account
  refine ⟨Call.issued_nodup _ _, fun name ackId h => ?_, hacc, hgone, hlater.once, fun q hq => ?_⟩
  · obtain ⟨hack, hdeadline⟩ := Emulator.acknowledge_store_of_stale hnames h
    refine ⟨hack, hdeadline, ?_⟩
    rintro n d hd rfl rfl
    exact Emulator.ack_store_of_stale hnames hd h
  · have hq' : q.Settles account e.store.nextLease := by
      have hfits := hnow.fits
      rw [hq] at hfits
      exact hfits
    refine ⟨fun m hm => hq'.fate_eq_one hnow.once hm, hq'.held, hq'.keys, fun ackId m s hl => ?_⟩
    obtain ⟨-, q', rest, hfound, hp⟩ := (Store.lease_changes hl).allowed
    have hsettles : q'.Settles laterAccount later.store.nextLease := by
      have hfits := hlater.fits
      rw [hfound] at hfits
      exact hfits
    have hm : m ∈ q'.held := List.mem_append_left _ (hp ▸ List.mem_cons_self)
    exact ⟨fun hg => hsettles.notMem_gone hlater.once hm (hgone.subset hg), hsettles.held m hm⟩

/-- Two messages are leased, the first comes back, the second is acked, and then the first is acked
late by the ack id that it had before. -/
def redelivery : List (Call Unit) :=
  [.createTopic "t" {}, .createSubscription "s" { topic := "t" },
   .publish "t" { data := [1] }, .publish "t" { data := [2], orderingKey := "k" },
   .lease "projects/p/subscriptions/s", .lease "projects/p/subscriptions/s", .nack 0, .ack 1,
   .acknowledge "projects/p/subscriptions/s" "1-1"]

/-- The emulator after `redelivery`. -/
def redelivered : Emulator Unit := Call.runs redelivery { project := "p", world := () }

theorem messages_conserved_redelivery :
    (redelivered.acknowledge "projects/p/subscriptions/s" "1-1").store = redelivered.store ∧
    (redelivered.ack 0).store = redelivered.store ∧
    ∃ q s, redelivered.store.queues.find? "projects/p/subscriptions/s" = some q ∧
      q.pending.countP (·.id = "1") + q.outstanding.countP (·.2.id = "1") + ["2"].count "1" = 1 ∧
      (Call.runs [.publish "t" { data := [3] }] redelivered).store.lease
        "projects/p/subscriptions/s" = some (("1-3", ⟨"1", { data := [1] }, 2⟩), s) ∧
      "1" ∉ ["2"] := by
  have haccount : Account.after "projects/p/subscriptions/s" redelivery
      { project := "p", world := () } {} =
        { accepted := [("1", { data := [1] }), ("2", { data := [2], orderingKey := "k" })]
          gone := ["2"] } := by
    decide +kernel
  have key := messages_conserved "p" () [] redelivery [.publish "t" { data := [3] }]
    "projects/p/subscriptions/s"
  simp only [haccount] at key
  obtain ⟨-, hstale, -, -, -, hheld⟩ := key
  obtain ⟨hack, -, hdelivery⟩ := hstale "projects/p/subscriptions/s" "1-1" (by decide +kernel)
  have hdelivered := hdelivery 0
    ⟨"projects/p/subscriptions/s", "1-1", ⟨"1", { data := [1] }, 1⟩, true⟩ (by decide +kernel)
    rfl rfl
  obtain ⟨q, hq⟩ : ∃ q, redelivered.store.queues.find? "projects/p/subscriptions/s" = some q :=
    Option.isSome_iff_exists.mp (by decide +kernel)
  obtain ⟨hplace, -, -, hlease⟩ := hheld q hq
  obtain ⟨r, hr, hl⟩ : ∃ r, (Call.runs [.publish "t" { data := [3] }] redelivered).store.lease
      "projects/p/subscriptions/s" = some r ∧ r.1 = ("1-3", ⟨"1", { data := [1] }, 2⟩) :=
    Option.map_eq_some_iff.mp (by decide +kernel)
  have hs : (Call.runs [.publish "t" { data := [3] }] redelivered).store.lease
      "projects/p/subscriptions/s" = some (("1-3", ⟨"1", { data := [1] }, 2⟩), r.2) := by
    rw [hr, ← hl]
  exact ⟨hack, hdelivered.1, q, r.2, hq, hplace _ List.mem_cons_self, hs, (hlease _ _ _ hs).1⟩

end Messaging
