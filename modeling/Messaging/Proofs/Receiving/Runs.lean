import Messaging.Receiving
import Messaging.Proofs.Broker.Deliveries
import Mathlib.Data.List.Perm.Basic

/-! # Runs of receive loops

While receive loops run, anything may happen at any time: somebody calls the broker, another loop is
started or cancelled, a loop or a handler goes on, or the waiters of a signal change places, since
nothing says who of them is woken first. `Happening` lists all of this, `Receiving.happen` says what
each of them does, and a run is a list of happenings in any order (`Receiving.run`). Only the loops
lease messages. A move is what a loop does between two points at which it may have to wait, so that
nothing happens within one; that a loop takes a permit and that it looks for a message are two
moves, though there is no such point between them.

`Loop.Makes` lists what the moves do, each with the loop that makes it, before and after, and the
broker after it; a move that can be made is one of these and changes no other loop
(`Receiving.step_eq_some`). `Receiving.Happens` is the same for happenings. -/

namespace Messaging

/-- What can happen to a broker and the receive loops on it. -/
inductive Happening (σ : Type) where
  /-- Someone calls the broker, a handler perhaps. -/
  | call (c : Call σ)
  /-- A loop is started on a subscription. -/
  | receive (id : String) (settings : ReceiveSettings)
  | cancel (loop : Nat)
  | move (m : LoopMove)
  /-- Those who wait for a signal change places. -/
  | reorder (name : String) (waiting : List Nat)

namespace Receiving

variable {σ : Type}

/-- A broker with its reactors, to which nothing has happened. -/
def fresh (project : String) (world : σ) (reactors : List (Reactor σ)) : Receiving σ :=
  { emulator := { project, world, reactors } }

variable [Log.Journal σ]

/-- What there is after something has happened; `none` if it cannot happen. -/
def happen (s : Receiving σ) : Happening σ → Option (Receiving σ)
  | .call (.lease _) => none
  | .call c => some { s with emulator := c.run s.emulator }
  | .receive id settings =>
    match s.emulator.pull (s.emulator.nameOf .subscription id) with
    | (.error _, emulator) => some { s with emulator }
    | (.ok (), emulator) => some (start id settings { s with emulator })
  | .cancel loop => some (s.cancel loop)
  | .move m => s.step m
  | .reorder name waiting =>
    if waiting.Perm (s.signal name).waiting then
      some (s.onSignal name fun signal => { signal with waiting })
    else none

/-- What there is after a run; `none` if something in it cannot happen. -/
def run : List (Happening σ) → Receiving σ → Option (Receiving σ)
  | [], s => some s
  | h :: rest, s => (s.happen h).bind (run rest)

end Receiving

/-! ### What moves do -/

variable {σ : Type} [Log.Journal σ]

/-- The loop of a number makes a move: the loop after it, and the broker after it. -/
inductive Loop.Makes (n : Nat) (l : Loop) (s : Receiving σ) :
    LoopMove → Loop → Emulator σ → Prop
  | permit (ready : l.phase = .ready) (free : l.running.length < l.limit) :
    Makes n l s (.takePermit n) { l with phase := .seeking } s.emulator
  | hand {delivery : Nat} {e : Emulator σ} (seeking : l.phase = .seeking)
      (leased : s.emulator.lease l.subscription = (some delivery, e)) :
    Makes n l s (.look n)
      { l with phase := .ready, running := l.running ++ [delivery]
               received := l.received ++ [delivery] } e
  | take (seeking : l.phase = .seeking) (none : (s.emulator.lease l.subscription).1 = none)
      (kept : (s.signal l.subscription).kept = true) :
    Makes n l s (.look n) l (s.onSignal l.subscription Signal.take).emulator
  | wait (seeking : l.phase = .seeking) (none : (s.emulator.lease l.subscription).1 = none)
      (unkept : (s.signal l.subscription).kept = false) :
    Makes n l s (.look n) { l with phase := .waiting }
      (s.onSignal l.subscription (Signal.enter n)).emulator
  | wake (waiting : l.phase = .waiting) (woken : n ∈ (s.signal l.subscription).woken) :
    Makes n l s (.wake n) { l with phase := .seeking }
      (s.onSignal l.subscription (Signal.resume n)).emulator
  | quit (cancelled : l.cancelled = true)
      (phase : l.phase = .ready ∨ l.phase = .seeking ∧ s.isDry l = true) :
    Makes n l s (.quit n) { l with phase := .closing } s.emulator
  | leave (cancelled : l.cancelled = true) (waiting : l.phase = .waiting) :
    Makes n l s (.quit n) { l with phase := .closing }
      (s.onSignal l.subscription (Signal.leave n)).emulator
  | finish {delivery : Nat} (running : delivery ∈ l.running) :
    Makes n l s (.finish n delivery) { l with running := l.running.erase delivery } s.emulator
  | close (closing : l.phase = .closing) (finished : l.running = []) :
    Makes n l s (.close n) { l with phase := .closed }
      (Log.note (Receiving.stoppedEntry l) s.emulator)

/-- A move changes neither the subscription of a loop nor its limit. -/
theorem Loop.Makes.constant {s : Receiving σ} {n : Nat} {l l' : Loop} {m : LoopMove}
    {e : Emulator σ} (h : l.Makes n s m l' e) :
    l'.subscription = l.subscription ∧ l'.limit = l.limit := by
  cases h <;> exact ⟨rfl, rfl⟩

namespace Receiving

variable {s s' : Receiving σ} {n : Nat} {l : Loop}

omit [Log.Journal σ] in
theorem change_eq_set {f : Loop → Loop} (hl : s.loops[n]? = some l) :
    s.change n f = { s with loops := s.loops.set n (f l) } := by
  rw [change, List.modify_eq_set_getElem?, hl]
  rfl

/-- A move that can be made is made by one loop. -/
theorem step_eq_some {m : LoopMove} (h : s.step m = some s') :
    ∃ n l l' e, s.loops[n]? = some l ∧ l.Makes n s m l' e ∧
      s' = { emulator := e, loops := s.loops.set n l' } := by
  cases m with
  | takePermit n =>
    obtain ⟨l, hl, h⟩ := Option.bind_eq_some_iff.mp h
    unfold takePermit at h
    split at h
    · next hguard =>
      cases h
      exact ⟨n, l, _, _, hl, .permit hguard.1 hguard.2, change_eq_set hl⟩
    · cases h
  | look n =>
    obtain ⟨l, hl, h⟩ := Option.bind_eq_some_iff.mp h
    unfold look at h
    split at h
    · next hseeking =>
      split at h
      · next hlease =>
        cases h
        exact ⟨n, l, _, _, hl, .hand hseeking hlease, change_eq_set hl⟩
      · next hlease =>
        have hnone : (s.emulator.lease l.subscription).1 = none := by rw [hlease]
        split at h
        · next hkept =>
          cases h
          have hsame : s.loops.set n l = s.loops := by
            obtain ⟨hn, rfl⟩ := List.getElem?_eq_some_iff.mp hl
            exact List.set_getElem_self hn
          refine ⟨n, l, _, _, hl, .take hseeking hnone hkept, ?_⟩
          rw [hsame]
          rfl
        · next hkept =>
          cases h
          exact ⟨n, l, _, _, hl, .wait hseeking hnone (by simpa using hkept), change_eq_set hl⟩
    · cases h
  | wake n =>
    obtain ⟨l, hl, h⟩ := Option.bind_eq_some_iff.mp h
    unfold wake at h
    split at h
    · next hguard =>
      cases h
      exact ⟨n, l, _, _, hl, .wake hguard.1 hguard.2, change_eq_set hl⟩
    · cases h
  | quit n =>
    obtain ⟨l, hl, h⟩ := Option.bind_eq_some_iff.mp h
    unfold quit at h
    split at h
    · next hcancelled =>
      split at h
      · next hready =>
        cases h
        exact ⟨n, l, _, _, hl, .quit hcancelled (.inl hready), change_eq_set hl⟩
      · next hseeking =>
        split at h
        · next hdry =>
          cases h
          exact ⟨n, l, _, _, hl, .quit hcancelled (.inr ⟨hseeking, hdry⟩), change_eq_set hl⟩
        · cases h
      · next hwaiting =>
        cases h
        exact ⟨n, l, _, _, hl, .leave hcancelled hwaiting, change_eq_set hl⟩
      · cases h
    · cases h
  | finish n delivery =>
    obtain ⟨l, hl, h⟩ := Option.bind_eq_some_iff.mp h
    unfold finish at h
    split at h
    · next hrunning =>
      cases h
      exact ⟨n, l, _, _, hl, .finish hrunning, change_eq_set hl⟩
    · cases h
  | close n =>
    obtain ⟨l, hl, h⟩ := Option.bind_eq_some_iff.mp h
    unfold close at h
    split at h
    · next hguard =>
      cases h
      exact ⟨n, l, _, _, hl, .close hguard.1 hguard.2, change_eq_set hl⟩
    · cases h

/-! ### What happens -/

omit [Log.Journal σ] in
/-- The loop that is started on a subscription. -/
def started (id : String) (settings : ReceiveSettings) (s : Receiving σ) : Loop :=
  { subscription := s.emulator.nameOf .subscription id, limit := Loop.limitOf settings }

/-- The broker after a subscription has been pulled. -/
def pulled (id : String) (s : Receiving σ) : Emulator σ :=
  (Call.pull (s.emulator.nameOf .subscription id)).run s.emulator

/-- Something happens to a broker and the receive loops on it. -/
inductive Happens (s : Receiving σ) : Happening σ → Receiving σ → Prop
  | call {c : Call σ} (outside : ∀ name, c ≠ .lease name) :
    Happens s (.call c) { s with emulator := c.run s.emulator }
  | refuse {id : String} {settings : ReceiveSettings} :
    Happens s (.receive id settings) { s with emulator := s.pulled id }
  | receive {id : String} {settings : ReceiveSettings}
      (accepted : (s.emulator.pull (s.emulator.nameOf .subscription id)).1 = .ok ()) :
    Happens s (.receive id settings)
      { emulator := Log.note (startedEntry (s.started id settings)) (s.pulled id)
        loops := s.loops ++ [s.started id settings] }
  | cancel {n : Nat} : Happens s (.cancel n) (s.cancel n)
  | move {m : LoopMove} {n : Nat} {l l' : Loop} {e : Emulator σ} (loop : s.loops[n]? = some l)
      (made : l.Makes n s m l' e) :
    Happens s (.move m) { emulator := e, loops := s.loops.set n l' }
  | reorder {name : String} {waiting : List Nat} (perm : waiting.Perm (s.signal name).waiting) :
    Happens s (.reorder name waiting) (s.onSignal name fun signal => { signal with waiting })

theorem happen_receive {id : String} {settings : ReceiveSettings}
    (h : (s.emulator.pull (s.emulator.nameOf .subscription id)).1 = .ok ()) :
    s.happen (.receive id settings) = some
      { emulator := Log.note (startedEntry (s.started id settings)) (s.pulled id)
        loops := s.loops ++ [s.started id settings] } := by
  have hname : (s.pulled id).nameOf .subscription id = s.emulator.nameOf .subscription id :=
    Emulator.guarded_keeps
      (P := fun e => e.nameOf .subscription id = s.emulator.nameOf .subscription id)
      (fun _ => rfl) fun _ => by split <;> rfl
  have hstart : s.happen (.receive id settings) =
      some (start id settings { s with emulator := s.pulled id }) := by
    unfold happen
    dsimp only
    split
    · next hpull =>
      rw [hpull] at h
      cases h
    · next hpull => rw [pulled, Call.run, hpull]
  rw [hstart, start]
  dsimp only
  rw [hname]
  rfl

theorem happens_of_happen {h : Happening σ} (hs : s.happen h = some s') : s.Happens h s' := by
  cases h with
  | call c =>
    by_cases houtside : ∀ name, c ≠ .lease name
    · have hcall : s.happen (.call c) = some { s with emulator := c.run s.emulator } := by
        cases c with
        | lease name => exact absurd rfl (houtside name)
        | _ => rfl
      cases hcall.symm.trans hs
      exact .call houtside
    · simp only [not_forall, not_not] at houtside
      obtain ⟨name, rfl⟩ := houtside
      cases hs
  | receive id settings =>
    cases hpull : (s.emulator.pull (s.emulator.nameOf .subscription id)).1 with
    | ok _ =>
      cases (happen_receive hpull).symm.trans hs
      exact .receive hpull
    | error error =>
      unfold happen at hs
      dsimp only at hs
      split at hs
      · next hrefused =>
        cases hs
        have hrun : s.Happens (.receive id settings) { s with emulator := s.pulled id } := .refuse
        rw [pulled, Call.run, hrefused] at hrun
        exact hrun
      · next hpulled =>
        rw [hpulled] at hpull
        cases hpull
  | cancel n =>
    cases hs
    exact .cancel
  | move m =>
    obtain ⟨n, l, l', e, hl, hmade, rfl⟩ := step_eq_some hs
    exact .move hl hmade
  | reorder name waiting =>
    unfold happen at hs
    dsimp only at hs
    split at hs
    · next hperm =>
      cases hs
      exact .reorder hperm
    · cases hs

/-- What every happening keeps, a run keeps. -/
theorem run_keeps {P : Receiving σ → Prop}
    (hstep : ∀ {s s' : Receiving σ} {h : Happening σ}, P s → s.Happens h s' → P s')
    {happenings : List (Happening σ)} (hs : P s) (h : run happenings s = some s') : P s' := by
  induction happenings generalizing s with
  | nil =>
    cases h
    exact hs
  | cons first rest ih =>
    obtain ⟨next, hnext, hrest⟩ := Option.bind_eq_some_iff.mp h
    exact ih (hstep hs (happens_of_happen hnext)) hrest

end Receiving

end Messaging
