import Messaging.Proofs.Broker.Watched
import Messaging.Proofs.Receiving.Runs

/-! # No wake-up is lost

The loops on a subscription wait for its signal and are woken one at a time. `Receiving.Watched`
says of all subscriptions that somebody looks for their messages, where those who wait are the loops
in that phase and those who look are the ones that have a permit and do not wait. Everything that
happens keeps it (`Watched.happens`): a move concerns the queue of one subscription only
(`Watched.set`), and calls of the broker are known by their events (`Watched.call`).

Where nobody can go on, no loop looks and none has been woken, and so there are no messages.

Main statement: `no_wakeup_lost`. -/

namespace Messaging

/-! ### Loops -/

namespace Loop

/-- Does a loop wait for the signal of a subscription? -/
def Waits (S : String) (l : Loop) : Prop := l.phase = .waiting ∧ l.subscription = S

/-- Does a loop look for a message of a subscription? -/
def seeks (S : String) (l : Loop) : Bool := l.phase = .seeking ∧ l.subscription = S

/-- The numbers of the loops that wait for the signal of a subscription. -/
def WaitsIn (S : String) (loops : List Loop) (n : Nat) : Prop :=
  ∃ l, loops[n]? = some l ∧ l.Waits S

/-- How many loops look for a message of a subscription. -/
def seekers (S : String) (loops : List Loop) : Nat := loops.countP (seeks S)

variable {S : String} {loops : List Loop} {n : Nat} {l l' : Loop}

theorem waitsIn_set (hl : loops[n]? = some l) (k : Nat) :
    WaitsIn S (loops.set n l') k ↔ k = n ∧ l'.Waits S ∨ k ≠ n ∧ WaitsIn S loops k := by
  have hn := (List.getElem?_eq_some_iff.mp hl).1
  by_cases hk : k = n
  · subst hk
    simp [WaitsIn, hn]
  · simp [WaitsIn, hk, Ne.symm hk]

/-- A loop that waits just if it did before. -/
theorem waitsIn_set_iff (hl : loops[n]? = some l) (h : l'.Waits S ↔ l.Waits S) (k : Nat) :
    WaitsIn S (loops.set n l') k ↔ WaitsIn S loops k := by
  rw [waitsIn_set hl, h]
  constructor
  · rintro (⟨rfl, hwaits⟩ | ⟨-, hwaits⟩)
    · exact ⟨l, hl, hwaits⟩
    · exact hwaits
  · intro hwaits
    by_cases hk : k = n
    · subst hk
      obtain ⟨l₀, hl₀, hwaits⟩ := hwaits
      cases hl.symm.trans hl₀
      exact .inl ⟨rfl, hwaits⟩
    · exact .inr ⟨hk, hwaits⟩

/-- A loop that waits from now on. -/
theorem waitsIn_set_of_waits (hl : loops[n]? = some l) (h : l'.Waits S) (k : Nat) :
    WaitsIn S (loops.set n l') k ↔ k = n ∨ WaitsIn S loops k := by
  rw [waitsIn_set hl]
  by_cases hk : k = n <;> simp [hk, h]

/-- A loop that does not wait from now on. -/
theorem waitsIn_set_of_not (hl : loops[n]? = some l) (h : ¬l'.Waits S) (k : Nat) :
    WaitsIn S (loops.set n l') k ↔ k ≠ n ∧ WaitsIn S loops k := by
  rw [waitsIn_set hl]
  simp [h]

theorem seekers_set (S : String) (l' : Loop) (hl : loops[n]? = some l) :
    seekers S (loops.set n l') + (if l.seeks S then 1 else 0) =
      seekers S loops + if l'.seeks S then 1 else 0 := by
  obtain ⟨hn, rfl⟩ := List.getElem?_eq_some_iff.mp hl
  have hle : (if (loops[n]).seeks S then 1 else 0) ≤ loops.countP (seeks S) := by
    split
    · next hseeks => exact List.countP_pos_iff.mpr ⟨_, List.getElem_mem hn, hseeks⟩
    · exact Nat.zero_le _
  simp only [seekers, List.countP_set hn]
  omega

theorem seekers_set_of_eq (hl : loops[n]? = some l) (h : l'.seeks S = l.seeks S) :
    seekers S (loops.set n l') = seekers S loops := by
  have hset := seekers_set S l' hl
  rw [h] at hset
  exact Nat.add_right_cancel hset

/-- A loop that looks from now on. -/
theorem seekers_set_of_seeks (hl : loops[n]? = some l) (h : l.seeks S = false)
    (h' : l'.seeks S = true) : seekers S (loops.set n l') = seekers S loops + 1 := by
  have hset := seekers_set S l' hl
  simpa [h, h'] using hset

/-- A loop that looks no more. -/
theorem seekers_set_of_not (hl : loops[n]? = some l) (h : l.seeks S = true)
    (h' : l'.seeks S = false) : seekers S (loops.set n l') + 1 = seekers S loops := by
  have hset := seekers_set S l' hl
  simpa [h, h'] using hset

/-- A loop that has not looked does not make those who look fewer. -/
theorem seekers_le_set (hl : loops[n]? = some l) (h : l.seeks S = false) :
    seekers S loops ≤ seekers S (loops.set n l') := by
  have hset := seekers_set S l' hl
  rw [h] at hset
  exact Nat.le.intro hset.symm

/-- A loop that is ready neither waits nor looks. -/
theorem waitsIn_append (hready : l.phase = .ready) (k : Nat) :
    WaitsIn S (loops ++ [l]) k ↔ WaitsIn S loops k := by
  unfold WaitsIn
  rw [List.getElem?_append]
  split
  · exact .rfl
  · next hk =>
    rw [List.getElem?_eq_none (Nat.le_of_not_lt hk)]
    refine iff_of_false ?_ (by simp)
    rintro ⟨l₀, hl₀, hwaiting, -⟩
    rw [List.mem_singleton.mp (List.mem_of_getElem? hl₀), hready] at hwaiting
    cases hwaiting

theorem seekers_append (hready : l.phase = .ready) :
    seekers S (loops ++ [l]) = seekers S loops := by
  simp [seekers, seeks, hready]

end Loop

/-- Loops watch the queue of a subscription. -/
def Queue.WatchedBy (S : String) (loops : List Loop) (q : Queue) : Prop :=
  q.Watched (Loop.WaitsIn S loops) (Loop.seekers S loops)

namespace Receiving

variable {σ : Type} {s s' : Receiving σ} {n : Nat} {l l' : Loop}

/-- For the messages of every subscription there is somebody to look, and loops only receive from
subscriptions that exist. -/
structure Watched (s : Receiving σ) : Prop where
  queue : ∀ S q, s.emulator.store.queues.find? S = some q → q.WatchedBy S s.loops
  exist : ∀ l ∈ s.loops, s.emulator.store.queues.contains l.subscription = true

theorem watched_fresh (project : String) (world : σ) (reactors : List (Reactor σ)) :
    (fresh project world reactors).Watched where
  queue S q hq := by cases hq
  exist l hl := by cases hl

theorem signal_eq {S : String} {q : Queue} (hq : s.emulator.store.queues.find? S = some q) :
    s.signal S = q.signal := by
  rw [signal, hq]
  rfl

theorem find?_onSignal (name S : String) (f : Signal → Signal) (s : Receiving σ) :
    (s.onSignal name f).emulator.store.queues.find? S =
      if S = name then
        (s.emulator.store.queues.find? S).map fun q => { q with signal := f q.signal }
      else s.emulator.store.queues.find? S := by
  rw [onSignal, Table.find?_modify]

/-- A loop that goes on, where the queue of its subscription stays watched. -/
theorem Watched.set (hs : s.Watched) (hl : s.loops[n]? = some l)
    (hsubscription : l'.subscription = l.subscription) {e : Emulator σ}
    (hother : ∀ S, S ≠ l.subscription →
      e.store.queues.find? S = s.emulator.store.queues.find? S)
    (hown : ∀ q, s.emulator.store.queues.find? l.subscription = some q →
      q.WatchedBy l.subscription s.loops →
      ∃ q', e.store.queues.find? l.subscription = some q' ∧
        q'.WatchedBy l.subscription (s.loops.set n l')) :
    Watched { emulator := e, loops := s.loops.set n l' } := by
  obtain ⟨q, hq⟩ := Option.isSome_iff_exists.mp (hs.exist l (List.mem_of_getElem? hl))
  obtain ⟨q', hq', hwatched⟩ := hown q hq (hs.queue _ q hq)
  refine ⟨fun S r hr => ?_, fun k hk => ?_⟩
  · by_cases hS : S = l.subscription
    · subst hS
      cases hq'.symm.trans hr
      exact hwatched
    · rw [hother S hS] at hr
      have hwaits : l'.Waits S ↔ l.Waits S := by
        simp [Loop.Waits, hsubscription, Ne.symm hS]
      have hseeks : l'.seeks S = l.seeks S := by
        simp [Loop.seeks, hsubscription, Ne.symm hS]
      rw [Queue.WatchedBy, Loop.seekers_set_of_eq hl hseeks]
      exact (hs.queue S r hr).congr (Loop.waitsIn_set_iff hl hwaits)
  · have hexist : s.emulator.store.queues.contains k.subscription = true := by
      rcases List.mem_or_eq_of_mem_set hk with hk | rfl
      · exact hs.exist k hk
      · rw [hsubscription]
        exact hs.exist l (List.mem_of_getElem? hl)
    by_cases hS : k.subscription = l.subscription
    · rw [hS, Table.contains, hq']
      rfl
    · rw [Table.contains, hother _ hS]
      exact hexist

/-- A move that changes nothing of the broker. -/
theorem Watched.silent (hs : s.Watched) (hl : s.loops[n]? = some l)
    (hsubscription : l'.subscription = l.subscription)
    (hwaits : l'.Waits l.subscription ↔ l.Waits l.subscription)
    (hseeks : l'.seeks l.subscription = l.seeks l.subscription ∨
      s.isDry l = true ∨ l.seeks l.subscription = false)
    {e : Emulator σ} (he : e.store = s.emulator.store) :
    Watched { emulator := e, loops := s.loops.set n l' } := by
  refine hs.set hl hsubscription (fun S _ => by rw [he]) fun q hq hwatched => ?_
  refine ⟨q, by rw [he, hq], ?_⟩
  have hsame := hwatched.congr (Loop.waitsIn_set_iff hl hwaits)
  rcases hseeks with heq | hdry | hnone
  · rw [Queue.WatchedBy, Loop.seekers_set_of_eq hl heq]
    exact hsame
  · have hpending : q.pending = [] := by
      simpa [isDry, Store.pendingCount, hq] using hdry
    exact hsame.of_dry hpending
  · exact hsame.mono (Loop.seekers_le_set hl hnone)

/-- A move that changes the signal of the subscription. -/
theorem Watched.signals (hs : s.Watched) (hl : s.loops[n]? = some l)
    (hsubscription : l'.subscription = l.subscription) {f : Signal → Signal}
    (hown : ∀ q, s.emulator.store.queues.find? l.subscription = some q →
      q.WatchedBy l.subscription s.loops →
      Queue.WatchedBy l.subscription (s.loops.set n l') { q with signal := f q.signal }) :
    Watched { emulator := (s.onSignal l.subscription f).emulator, loops := s.loops.set n l' } := by
  refine hs.set hl hsubscription (fun S hS => by rw [find?_onSignal, if_neg hS])
    fun q hq hwatched => ?_
  exact ⟨_, by rw [find?_onSignal, if_pos rfl, hq]; rfl, hown q hq hwatched⟩

/-- A loop that leases a message finds one, and takes it from its queue only. -/
theorem lease_eq_some {name : String} {delivery : Nat} {e e' : Emulator σ}
    (h : e.lease name = (some delivery, e')) :
    ∃ q m rest outstanding, e.store.queues.find? name = some q ∧ q.pending = m :: rest ∧
      e'.store.queues.find? name = some { q with pending := rest, outstanding } ∧
      ∀ S, S ≠ name → e'.store.queues.find? S = e.store.queues.find? S := by
  cases hlease : e.store.lease name with
  | none =>
    rw [Emulator.lease, hlease] at h
    cases h
  | some leased =>
    obtain ⟨⟨ackId, m⟩, store⟩ := leased
    rw [Emulator.lease, hlease] at h
    cases h
    have hchanges := Store.lease_changes hlease
    obtain ⟨-, q, rest, hq, hpending⟩ := hchanges.allowed
    refine ⟨q, m, rest, q.outstanding ++ [(ackId, m)], hq, hpending, ?_, fun S hS => ?_⟩
    · rw [hchanges.queue, hq, Event.onQueue, if_pos rfl, Option.map_some, hpending]
      rfl
    · rw [hchanges.queue, Event.onQueue, if_neg hS]

theorem pending_of_lease_eq_none {name : String} {e : Emulator σ} {q : Queue}
    (h : (e.lease name).1 = none) (hq : e.store.queues.find? name = some q) : q.pending = [] := by
  cases hpending : q.pending with
  | nil => rfl
  | cons m rest =>
    simp [Emulator.lease, Store.lease, hq, hpending] at h

/-- A loop that has just been started neither waits nor looks. -/
theorem Watched.append (hs : s.Watched) {e : Emulator σ} (he : e.store = s.emulator.store)
    (hready : l.phase = .ready)
    (hexist : s.emulator.store.queues.contains l.subscription = true) :
    Watched { emulator := e, loops := s.loops ++ [l] } := by
  refine ⟨fun S q hq => ?_, fun l₀ hl₀ => ?_⟩
  · rw [he] at hq
    rw [Queue.WatchedBy, Loop.seekers_append hready]
    exact (hs.queue S q hq).congr (Loop.waitsIn_append hready)
  · rw [he]
    rcases List.mem_append.mp hl₀ with hl₀ | hl₀
    · exact hs.exist l₀ hl₀
    · rw [List.mem_singleton.mp hl₀]
      exact hexist

/-- It does not matter who waits the longest. -/
theorem Watched.reorder (hs : s.Watched) {name : String} {waiting : List Nat}
    (hperm : waiting.Perm (s.signal name).waiting) :
    (s.onSignal name fun signal => { signal with waiting }).Watched := by
  refine ⟨fun S q' hq' => ?_, fun l hl => ?_⟩
  · rw [find?_onSignal] at hq'
    split at hq'
    · next hS =>
      subst hS
      obtain ⟨q, hq, rfl⟩ := Option.map_eq_some_iff.mp hq'
      rw [signal_eq hq] at hperm
      exact (hs.queue S q hq).reorder hperm
    · exact hs.queue S q' hq'
  · rw [Table.contains, find?_onSignal]
    split
    · rw [Option.isSome_map]
      exact hs.exist l hl
    · exact hs.exist l hl

variable [Log.Journal σ]

/-- Every move leaves somebody to look. -/
theorem Watched.makes (hs : s.Watched) (hl : s.loops[n]? = some l) {m : LoopMove}
    {e : Emulator σ} (h : l.Makes n s m l' e) :
    Watched { emulator := e, loops := s.loops.set n l' } := by
  have hsubscription := h.constant.1
  cases h with
  | permit hready =>
    refine hs.silent hl hsubscription ?_ ?_ rfl
    · simp [Loop.Waits, hready]
    · exact .inr (.inr (by simp [Loop.seeks, hready]))
  | hand hseeking hleased =>
    obtain ⟨q, m, rest, outstanding, hq, hpending, hq', hother⟩ := lease_eq_some hleased
    refine hs.set hl hsubscription hother fun q₀ hq₀ hwatched => ⟨_, hq', ?_⟩
    cases hq.symm.trans hq₀
    refine ((hwatched.mono ?_).lease hpending).congr (Loop.waitsIn_set_iff hl ?_)
    · refine Nat.le_of_eq (Loop.seekers_set_of_not hl ?_ ?_).symm
      · simp [Loop.seeks, hseeking]
      · simp [Loop.seeks]
    · simp [Loop.Waits, hseeking]
  | take hseeking =>
    refine hs.signals hl hsubscription fun q hq hwatched => ?_
    rw [Queue.WatchedBy, Loop.seekers_set_of_eq hl rfl]
    exact hwatched.take.congr (Loop.waitsIn_set_iff hl .rfl)
  | wait hseeking hnone =>
    refine hs.signals hl hsubscription fun q hq hwatched => ?_
    refine hwatched.enter (pending_of_lease_eq_none hnone hq) ?_
      (Loop.waitsIn_set_of_waits hl ⟨rfl, rfl⟩)
    rintro ⟨l₀, hl₀, hphase, -⟩
    cases hl.symm.trans hl₀
    rw [hseeking] at hphase
    cases hphase
  | wake hwaiting hwoken =>
    refine hs.signals hl hsubscription fun q hq hwatched => ?_
    rw [signal_eq hq] at hwoken
    have hgone : ¬Loop.Waits l.subscription { l with phase := .seeking } := by
      simp [Loop.Waits]
    rw [Queue.WatchedBy, Loop.seekers_set_of_seeks hl (by simp [Loop.seeks, hwaiting])
      (by simp [Loop.seeks])]
    exact hwatched.resume hwoken (Loop.waitsIn_set_of_not hl hgone)
  | quit hcancelled hphase =>
    refine hs.silent hl hsubscription ?_ ?_ rfl
    · rcases hphase with hready | ⟨hseeking, -⟩
      · simp [Loop.Waits, hready]
      · simp [Loop.Waits, hseeking]
    · rcases hphase with hready | ⟨-, hdry⟩
      · exact .inr (.inr (by simp [Loop.seeks, hready]))
      · exact .inr (.inl hdry)
  | leave hcancelled hwaiting =>
    refine hs.signals hl hsubscription fun q hq hwatched => ?_
    have hgone : ¬Loop.Waits l.subscription { l with phase := .closing } := by
      simp [Loop.Waits]
    rw [Queue.WatchedBy, Loop.seekers_set_of_eq hl (by simp [Loop.seeks, hwaiting])]
    exact hwatched.leave ⟨l, hl, hwaiting, rfl⟩ (Loop.waitsIn_set_of_not hl hgone)
  | finish hrunning => exact hs.silent hl hsubscription .rfl (.inl rfl) rfl
  | close hclosing =>
    refine hs.silent hl hsubscription ?_ (.inl ?_) rfl
    · simp [Loop.Waits, hclosing]
    · simp [Loop.seeks, hclosing]

/-- A call of the broker wakes somebody for each message that it adds. -/
theorem Watched.call (hs : s.Watched) (c : Call σ) :
    Watched { s with emulator := c.run s.emulator } := by
  have hchanges := c.change s.emulator
  refine ⟨fun S q' hq' => ?_, fun l hl => ?_⟩
  · rw [hchanges.queue S] at hq'
    cases hq : s.emulator.store.queues.find? S with
    | some q =>
      obtain ⟨r, hr, hwatched⟩ := Event.watched hq hchanges.allowed (hs.queue S q hq)
      rw [hq, hr] at hq'
      cases hq'
      exact hwatched
    | none =>
      rw [hq] at hq'
      have hsignal := Event.signal_of_created hq'
      refine ⟨by rw [hsignal]; exact .nil, fun n => ?_, .inl (by rw [hsignal])⟩
      rw [hsignal]
      refine iff_of_false List.not_mem_nil ?_
      rintro ⟨l, hl, -, rfl⟩
      have hexist := hs.exist l (List.mem_of_getElem? hl)
      rw [Table.contains, hq] at hexist
      cases hexist
  · obtain ⟨q, hq⟩ := Option.isSome_iff_exists.mp (hs.exist l hl)
    obtain ⟨r, hr, -⟩ := Event.watched hq hchanges.allowed (hs.queue _ q hq)
    rw [Table.contains, hchanges.queue, hq, hr]
    rfl

/-- Whatever happens, there is somebody to look. -/
theorem Watched.happens {h : Happening σ} (hs : s.Watched) (hhappens : s.Happens h s') :
    s'.Watched := by
  cases hhappens with
  | call => exact hs.call _
  | refuse => exact hs.call _
  | receive haccepted =>
    exact hs.append (Emulator.pull_store _ s.emulator) rfl (Emulator.contains_of_pull haccepted)
  | @cancel n =>
    cases hl : s.loops[n]? with
    | none =>
      rw [cancel, change, List.modify_eq_set_getElem?, hl]
      exact hs
    | some l =>
      rw [cancel, change_eq_set hl]
      refine hs.silent hl ?_ ?_ (.inl ?_) ?_ <;> rfl
  | move hl hmade => exact hs.makes hl hmade
  | reorder hperm => exact hs.reorder hperm

/-! ### Where nobody can go on -/

/-- Where nobody can go on, no move of a loop can be made. -/
theorem step_eq_none {held : Nat → Nat → Bool} (h : s.next? held = none)
    (hl : s.loops[n]? = some l) {m : LoopMove} (hm : m ∈ movesOf held n l) : s.step m = none := by
  refine List.findSome?_eq_none_iff.mp h m (List.mem_flatten.mpr ⟨movesOf held n l, ?_, hm⟩)
  refine List.mem_iff_getElem?.mpr ⟨n, ?_⟩
  rw [List.getElem?_mapIdx, hl]
  rfl

theorem step_of_loop (hl : s.loops[n]? = some l) :
    s.step (.look n) = s.look n l ∧ s.step (.wake n) = s.wake n l ∧
      s.step (.quit n) = s.quit n l := by
  simp only [step, hl, Option.bind_some, and_self]

/-- A loop that looks can go on. -/
theorem phase_ne_seeking {held : Nat → Nat → Bool} (h : s.next? held = none)
    (hl : s.loops[n]? = some l) : l.phase ≠ .seeking := by
  intro hseeking
  have hnone := step_eq_none h hl (m := .look n) (by simp [movesOf])
  rw [(step_of_loop hl).1, look, if_pos hseeking] at hnone
  split at hnone
  · cases hnone
  · split at hnone <;> cases hnone

/-- So can a loop that has been woken. -/
theorem notMem_woken {held : Nat → Nat → Bool} (h : s.next? held = none)
    (hl : s.loops[n]? = some l) (hwaiting : l.phase = .waiting) :
    n ∉ (s.signal l.subscription).woken := by
  intro hwoken
  have hnone := step_eq_none h hl (m := .wake n) (by simp [movesOf])
  rw [(step_of_loop hl).2.1, wake, if_pos ⟨hwaiting, hwoken⟩] at hnone
  cases hnone

/-- So can a loop that waits and has been cancelled. -/
theorem cancelled_eq_false {held : Nat → Nat → Bool} (h : s.next? held = none)
    (hl : s.loops[n]? = some l) (hwaiting : l.phase = .waiting) : l.cancelled = false := by
  by_contra hcancelled
  have hnone := step_eq_none h hl (m := .quit n) (by simp [movesOf])
  rw [(step_of_loop hl).2.2, quit, if_pos (by simpa using hcancelled)] at hnone
  simp only [hwaiting] at hnone
  cases hnone

/-- **No wake-up is lost.** Where neither a loop nor a handler that is not busy can go on, after
whatever has happened, the subscription of a loop that waits has no pending message. -/
theorem no_wakeup_lost {project : String} {world : σ} {reactors : List (Reactor σ)}
    {happenings : List (Happening σ)} {held : Nat → Nat → Bool}
    (hrun : run happenings (fresh project world reactors) = some s)
    (hstuck : s.next? held = none) (hl : s.loops[n]? = some l) (hwaiting : l.phase = .waiting) :
    l.cancelled = false ∧ s.emulator.store.pendingCount l.subscription = 0 := by
  have hs : s.Watched :=
    run_keeps Watched.happens (watched_fresh project world reactors) hrun
  obtain ⟨q, hq⟩ := Option.isSome_iff_exists.mp (hs.exist l (List.mem_of_getElem? hl))
  have hwatched := hs.queue _ q hq
  have hwoken : q.signal.woken = [] := by
    refine List.eq_nil_iff_forall_not_mem.mpr fun k hk => ?_
    obtain ⟨l₀, hl₀, hphase, hsubscription⟩ :=
      (hwatched.waiters k).mp (List.mem_append_right _ hk)
    have hnotMem := notMem_woken hstuck hl₀ hphase
    rw [hsubscription, signal_eq hq] at hnotMem
    exact hnotMem hk
  have hseekers : Loop.seekers l.subscription s.loops = 0 := by
    refine List.countP_eq_zero.mpr fun l₀ hl₀ => ?_
    obtain ⟨k, hk⟩ := List.mem_iff_getElem?.mp hl₀
    have hphase := phase_ne_seeking hstuck hk
    simp [Loop.seeks, hphase]
  have hmem := (hwatched.waiters n).mpr ⟨l, hl, hwaiting, rfl⟩
  rw [Signal.waiters, hwoken, List.append_nil] at hmem
  have henough := hwatched.enough.resolve_left (List.ne_nil_of_mem hmem)
  rw [hwoken, hseekers] at henough
  refine ⟨cancelled_eq_false hstuck hl hwaiting, ?_⟩
  rw [Store.pendingCount, hq]
  exact Nat.le_zero.mp henough

/-- The handler of the first loop is busy. The second loop is woken, but cancelled before it goes
on, so the third one gets the message. -/
def passedOn : List (Happening Unit) :=
  [.call (.createTopic "t" {}), .call (.createSubscription "s" { topic := "t" }),
    .receive "s" { workers := 1 }, .receive "s" {}, .receive "s" {},
    .call (.publish "t" { data := [1] }), .move (.takePermit 0), .move (.look 0),
    .move (.takePermit 1), .move (.look 1), .move (.look 1), .move (.takePermit 2),
    .move (.look 2), .call (.publish "t" { data := [2] }), .cancel 1, .move (.quit 1),
    .move (.close 1), .move (.wake 2), .move (.look 2), .move (.takePermit 2), .move (.look 2)]

theorem no_wakeup_lost_passedOn :
    ∃ s l, run passedOn (fresh "p" () []) = some s ∧ s.next? (fun _ _ => true) = none ∧
      s.loops[2]? = some l ∧ l.phase = .waiting ∧ l.received = [1] ∧ l.cancelled = false ∧
      s.emulator.store.pendingCount l.subscription = 0 := by
  obtain ⟨hcancelled, hdry⟩ :=
    @no_wakeup_lost Unit _ 2 _ _ "p" () [] passedOn (fun _ _ => true) rfl rfl rfl rfl
  exact ⟨_, _, rfl, rfl, rfl, rfl, rfl, hcancelled, hdry⟩

end Receiving

end Messaging
