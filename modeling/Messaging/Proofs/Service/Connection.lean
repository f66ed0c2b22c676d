import Mathlib.Algebra.BigOperators.Group.List.Basic
import Mathlib.Algebra.Ring.Nat
import Messaging.Service.Connection

/-! # Connecting is tried again as configured

A factory for clients gives one answer each time that it is asked. A `Course` keeps how often it has
been asked and all that has been done on the way, so connecting over courses shows in which order
the factory is asked, pauses are made and entries are noted.

As long as the tries fail, the loop has done what its rounds do one after the other
(`retry_eq_tryFrom`). So it ends with the last try (`retry_eq`), which is the first success or that
of the last attempt, and between the tries up to then there is one pause each (`steps_after`).
`retries_as_configured` puts this together.

What a pause does is up to the state. A view of the state that commutes with what is done commutes
with the whole loop (`tryFrom_map`), so where a pause takes time, the time is that of the pauses of
the course (`make_elapsed`). -/

namespace Messaging.Connection

variable {κ σ τ : Type}

/-! ### What is done on the way -/

/-- Something that is done on the way to a connection. -/
inductive Act where
  | asked (project : String)
  | paused (interval : ℕ)
  | noted (entry : Log.Entry)
  deriving DecidableEq

namespace Act

/-- Is it a try or a pause? -/
def isStep : Act → Bool
  | noted _ => false
  | _ => true

/-- Is it a pause? -/
def isPause : Act → Bool
  | paused _ => true
  | _ => false

/-- The time that it takes. -/
def time : Act → ℕ
  | paused interval => interval
  | _ => 0

end Act

/-- How often a factory has been asked, and all that has been done, in order. -/
structure Course where
  asked : ℕ := 0
  acts : List Act := []

namespace Course

instance : Log.Journal Course := ⟨fun entry c => { c with acts := c.acts ++ [.noted entry] }⟩

/-- Asks a factory that gives its answers one after the other. -/
def ask (answers : ℕ → Except BrokerError κ) (project : String) (c : Course) :
    Except BrokerError κ × Course :=
  (answers c.asked, { asked := c.asked + 1, acts := c.acts ++ [.asked project] })

/-- Makes a pause. -/
def pause (interval : ℕ) (c : Course) : Course := { c with acts := c.acts ++ [.paused interval] }

/-- The tries and the pauses. -/
def steps (c : Course) : List Act := c.acts.filter Act.isStep

end Course

/-! ### Rounds -/

section Rounds

variable (answers : ℕ → Except BrokerError κ) (project : String) (attempts interval : ℕ)

/-- What is done in the round of an attempt. -/
def round (attempt : ℕ) : List Act :=
  .asked project ::
    match answers attempt with
    | .ok _ => [.noted (openedEntry project (tryNumber attempt))]
    | .error e =>
      if attempt < attempts then
        [.noted (failedEntry project (tryNumber attempt) e (againNote interval)), .paused interval]
      else [.noted (failedEntry project (tryNumber attempt) e "")]

/-- The course after so many rounds. -/
def Course.after (rounds : ℕ) : Course where
  asked := rounds
  acts := (List.range rounds).flatMap (round answers project attempts interval)

/-- A try is the last one: all before it fail, and it succeeds unless no attempt is left. -/
structure IsLast (last : ℕ) : Prop where
  le : last ≤ attempts
  before : ∀ i < last, ∃ e, answers i = .error e
  success : last < attempts → ∃ client, answers last = .ok client

variable {answers project attempts interval} {k rounds last : ℕ}

/-- A try that fails is the last one only if it is that of the last attempt. -/
theorem IsLast.eq_attempts (h : IsLast answers attempts last) {e : BrokerError}
    (he : answers last = .error e) : last = attempts := by
  by_contra hne
  obtain ⟨client, hc⟩ := h.success (by have := h.le; omega)
  simp [he] at hc

/-- Some try is the last one. -/
theorem exists_isLast (answers : ℕ → Except BrokerError κ) (attempts : ℕ) :
    ∃ last, IsLast answers attempts last := by
  induction attempts with
  | zero => exact ⟨0, le_rfl, nofun, nofun⟩
  | succ n ih =>
    obtain ⟨last, h⟩ := ih
    cases ha : answers last with
    | ok client => exact ⟨last, h.le.trans n.le_succ, h.before, fun _ => ⟨client, ha⟩⟩
    | error e =>
      -- it fails though no attempt was left, so the attempt that is new comes after it
      obtain rfl := h.eq_attempts ha
      refine ⟨last + 1, le_rfl, fun i hi => ?_, fun hlt => absurd hlt (lt_irrefl _)⟩
      rcases Nat.lt_succ_iff_lt_or_eq.mp hi with hi | rfl
      · exact h.before i hi
      · exact ⟨e, ha⟩

theorem tryFrom_of_ok {client : κ} (h : answers k = .ok client) :
    tryFrom (Course.ask answers) Course.pause project attempts interval (rounds + 1) k
        (Course.after answers project attempts interval k) =
      (.ok client, Course.after answers project attempts interval (k + 1)) := by
  simp [tryFrom, Course.ask, Course.after, h, List.range_succ, round, Log.Journal.note]

/-- A round that fails, with or without a pause at its end. -/
theorem tryFrom_of_error {e : BrokerError} (h : answers k = .error e) :
    tryFrom (Course.ask answers) Course.pause project attempts interval (rounds + 1) k
        (Course.after answers project attempts interval k) =
      tryFrom (Course.ask answers) Course.pause project attempts interval rounds (k + 1)
        (Course.after answers project attempts interval (k + 1)) := by
  rw [tryFrom]
  by_cases hk : k < attempts <;>
    simp [Course.ask, Course.after, h, hk, List.range_succ, round, Course.pause, Log.Journal.note]

/-- **The loop after rounds that failed.** By induction on their number, with the course as it is
after them. -/
theorem retry_eq_tryFrom (hk : k ≤ attempts + 1) (h : ∀ i < k, ∃ e, answers i = .error e) :
    retry (Course.ask answers) Course.pause project attempts interval {} =
      tryFrom (Course.ask answers) Course.pause project attempts interval (attempts + 1 - k) k
        (Course.after answers project attempts interval k) := by
  induction k with
  | zero => rfl
  | succ k ih =>
    obtain ⟨e, he⟩ := h k k.lt_succ_self
    have hrounds : attempts + 1 - k = attempts + 1 - (k + 1) + 1 := by omega
    rw [ih (by omega) fun i hi => h i (by omega), hrounds, tryFrom_of_error he]

/-- **Connecting ends with the last try**: with its client, or with the error for all attempts. -/
theorem retry_eq (h : IsLast answers attempts last) :
    retry (Course.ask answers) Course.pause project attempts interval {} =
      ((answers last).mapError fun _ => .clientCreation attempts,
        Course.after answers project attempts interval (last + 1)) := by
  have hle := h.le
  have hrounds : attempts + 1 - last = attempts - last + 1 := by omega
  rw [retry_eq_tryFrom (by omega) h.before, hrounds]
  cases ha : answers last with
  | ok client => exact tryFrom_of_ok ha
  | error e =>
    obtain rfl := h.eq_attempts ha
    rw [tryFrom_of_error ha, Nat.sub_self, tryFrom]
    rfl

/-! ### Tries and pauses -/

theorem filter_round_of_error {e : BrokerError} (h : answers k = .error e) (hk : k < attempts) :
    (round answers project attempts interval k).filter Act.isStep =
      [.asked project, .paused interval] := by
  simp only [round, h, if_pos hk]
  rfl

theorem filter_round_of_isLast (h : IsLast answers attempts last) :
    (round answers project attempts interval last).filter Act.isStep = [.asked project] := by
  cases ha : answers last with
  | ok client =>
    simp only [round, ha]
    rfl
  | error e =>
    obtain rfl := h.eq_attempts ha
    simp only [round, ha, if_neg (lt_irrefl last)]
    rfl

/-- Alike entries with a separator between them are pairs of the two, and one more entry. -/
theorem intersperse_replicate {α : Type*} (a sep : α) (n : ℕ) :
    (List.replicate (n + 1) a).intersperse sep =
      (List.range n).flatMap (fun _ => [a, sep]) ++ [a] := by
  induction n with
  | zero => rfl
  | succ n ih =>
    rw [List.replicate_succ, List.replicate_succ, List.intersperse_cons_cons, ← List.replicate_succ,
      ih, List.range_succ_eq_map, List.flatMap_cons, List.flatMap_map]
    rfl

/-- **One pause between two tries, and none after the last.** -/
theorem steps_after (h : IsLast answers attempts last) :
    (Course.after answers project attempts interval (last + 1)).steps =
      (List.replicate (last + 1) (.asked project)).intersperse (.paused interval) := by
  have hfailed : ∀ i ∈ List.range last,
      (round answers project attempts interval i).filter Act.isStep =
        [.asked project, .paused interval] := by
    intro i hi
    obtain ⟨e, he⟩ := h.before i (List.mem_range.mp hi)
    exact filter_round_of_error he ((List.mem_range.mp hi).trans_le h.le)
  rw [intersperse_replicate, Course.steps, Course.after, List.range_succ, List.flatMap_append,
    List.filter_append, List.filter_flatMap, List.flatMap_congr hfailed, List.flatMap_singleton,
    filter_round_of_isLast h]

/-- The pauses between so many tries and one more take the interval each. -/
theorem time_intersperse (n : ℕ) :
    (((List.replicate (n + 1) (Act.asked project)).intersperse (.paused interval)).map
      Act.time).sum = n * interval := by
  have hpairs : (((List.range n).flatMap fun _ => [Act.asked project, .paused interval]).map
      Act.time).sum = n * interval := by
    induction n with
    | zero => simp
    | succ n ih =>
      rw [List.range_succ, List.flatMap_append, List.map_append, List.sum_append, ih, Nat.succ_mul]
      simp [Act.time]
  rw [intersperse_replicate, List.map_append, List.sum_append, hpairs]
  rfl

end Rounds

/-- **Connecting tries as often as it is told.** It asks for a client of the project in each try,
with one pause of the interval between two tries and none after the last. There is at least one try,
and at most one more than the attempts; all but the last fail. The first success ends the tries, and
its client is the result. Connecting fails if and only if all the answers that it may ask for are
errors; then it asks for all of them and tells the number of attempts. -/
theorem retries_as_configured (answers : ℕ → Except BrokerError κ) (project : String)
    (attempts interval : ℕ) :
    let c := retry (Course.ask answers) Course.pause project attempts interval {}
    c.2.steps = (List.replicate c.2.asked (.asked project)).intersperse (.paused interval) ∧
    0 < c.2.asked ∧ c.2.asked ≤ attempts + 1 ∧
    (∀ i, i + 1 < c.2.asked → ∃ e, answers i = .error e) ∧
    (∀ i ≤ attempts, ∀ client, (∀ j < i, ∃ e, answers j = .error e) → answers i = .ok client →
      c.1 = .ok client ∧ c.2.asked = i + 1) ∧
    (c.1 = .error (.clientCreation attempts) ↔ ∀ i ≤ attempts, ∃ e, answers i = .error e) ∧
    (∀ e, c.1 = .error e → e = .clientCreation attempts ∧ c.2.asked = attempts + 1) := by
  obtain ⟨last, h⟩ := exists_isLast answers attempts
  intro c
  have hc : c = ((answers last).mapError fun _ => .clientCreation attempts,
      Course.after answers project attempts interval (last + 1)) := retry_eq h
  have hasked : c.2.asked = last + 1 := by rw [hc]; rfl
  have hle := h.le
  refine ⟨?_, by omega, by omega, fun i hi => h.before i (by omega), ?_, ⟨?_, ?_⟩, ?_⟩
  · rw [hasked, hc]
    exact steps_after h
  · intro i hi client hfirst hok
    have hi : c = _ := retry_eq ⟨hi, hfirst, fun _ => ⟨client, hok⟩⟩
    rw [hi, hok]
    exact ⟨rfl, rfl⟩
  · intro hfailed i hi
    cases ha : answers last with
    | ok client => simp [hc, ha, Except.mapError] at hfailed
    | error e =>
      obtain rfl := h.eq_attempts ha
      rcases hi.lt_or_eq with hi | rfl
      · exact h.before i hi
      · exact ⟨e, ha⟩
  · intro hall
    obtain ⟨e, he⟩ := hall attempts le_rfl
    have hlast : c = _ :=
      retry_eq ⟨le_rfl, fun i hi => hall i hi.le, fun hlt => absurd hlt (lt_irrefl _)⟩
    rw [hlast, he]
    rfl
  · intro e he
    cases ha : answers last with
    | ok client => simp [hc, ha, Except.mapError] at he
    | error e' =>
      rw [hc, ha] at he
      exact ⟨(Except.error.inj he).symm, by rw [hasked, h.eq_attempts ha]⟩

/-- With as many attempts as 32 bits can tell, a client that is there for the third try is found
after two pauses. -/
theorem retries_as_configured_third :
    let answers : ℕ → Except BrokerError String :=
      fun i => if i < 2 then .error (.ofText "refused") else .ok "p"
    let c := retry (Course.ask answers) Course.pause "p" (2 ^ 32 - 1) 1500 {}
    (∀ j < 2, ∃ e, answers j = .error e) ∧ answers 2 = .ok "p" ∧ c.1 = .ok "p" ∧
      c.2.steps = [.asked "p", .paused 1500, .asked "p", .paused 1500, .asked "p"] := by
  intro answers c
  have hfirst : ∀ j < 2, ∃ e, answers j = .error e := fun j hj => ⟨_, if_pos hj⟩
  obtain ⟨hsteps, -, -, -, hok, -⟩ := retries_as_configured answers "p" (2 ^ 32 - 1) 1500
  obtain ⟨hclient, hasked⟩ := hok 2 (by decide) "p" hfirst rfl
  refine ⟨hfirst, rfl, hclient, hsteps.trans ?_⟩
  rw [hasked]
  rfl

-- the error tells the attempts, which are one less than the tries
example :
    let c := retry (Course.ask fun _ => (.error (.ofText "refused") : Except BrokerError String))
      Course.pause "p" 2 1500 {}
    c.2.asked = 3 ∧ c.1.mapError ServiceError.message =
      .error "pubsub client creation error after 2 attempts" := ⟨rfl, rfl⟩

/-! ### Views -/

section Views

variable [Log.Journal σ] [Log.Journal τ]

/-- **A view of the state that commutes with what is done commutes with the loop.** -/
theorem tryFrom_map {connect : String → σ → Except BrokerError κ × σ} {pause : ℕ → σ → σ}
    {connect' : String → τ → Except BrokerError κ × τ} {pause' : ℕ → τ → τ} (view : σ → τ)
    (hconnect : ∀ project s, connect' project (view s) =
      ((connect project s).1, view (connect project s).2))
    (hpause : ∀ interval s, pause' interval (view s) = view (pause interval s))
    (hnote : ∀ entry s, Log.note entry (view s) = view (Log.note entry s))
    (project : String) (attempts interval rounds attempt : ℕ) (s : σ) :
    tryFrom connect' pause' project attempts interval rounds attempt (view s) =
      ((tryFrom connect pause project attempts interval rounds attempt s).1,
        view (tryFrom connect pause project attempts interval rounds attempt s).2) := by
  induction rounds generalizing attempt s with
  | zero => rfl
  | succ rounds ih =>
    rw [tryFrom, tryFrom, hconnect]
    cases h : connect project s with
    | mk answer t =>
      cases answer with
      | ok client => simp only [hnote]
      | error e =>
        simp only [hnote, hpause, ih]
        split <;> rfl

end Views

/-! ### Where a pause takes time -/

/-- The course without its pauses, and the time that they take. -/
def Course.timed (c : Course) : Timed Course where
  state := { c with acts := c.acts.filter fun a => !a.isPause }
  time := (c.steps.map Act.time).sum

/-- Connecting where a pause takes time is connecting over courses, seen without the pauses. -/
theorem make_eq (answers : ℕ → Except BrokerError κ) (project : String) (attempts interval : ℕ) :
    let c := retry (Course.ask answers) Course.pause project attempts (1000000 * interval) {}
    make (Course.ask answers) project attempts interval {} =
      { result := c.1, state := c.2.timed.state, elapsed := c.2.timed.time / 1000000 } := by
  have hask : ∀ project c, Timed.ask (Course.ask answers) project (Course.timed c) =
      ((Course.ask answers project c).1, (Course.ask answers project c).2.timed) := by
    intro project c
    simp [Timed.ask, Course.ask, Course.timed, Course.steps, Act.isPause, Act.isStep, Act.time,
      List.filter_cons]
  have hpause : ∀ time c, Timed.pause time (Course.timed c) = (Course.pause time c).timed := by
    intro time c
    simp [Timed.pause, Course.pause, Course.timed, Course.steps, Act.isPause, Act.isStep, Act.time,
      List.filter_cons]
  have hnote : ∀ entry c, Log.note entry (Course.timed c) = (Log.note entry c).timed := by
    intro entry c
    simp [Log.Journal.note, Course.timed, Course.steps, Act.isPause, Act.isStep]
  have h := tryFrom_map Course.timed hask hpause hnote project attempts (1000000 * interval)
    (attempts + 1) 0 {}
  simp only [make, retry]
  exact congrArg (fun r : Except ServiceError κ × Timed Course =>
    (⟨r.1, r.2.state, r.2.time / 1000000⟩ : Connection κ Course)) h

/-- **The time spent in pauses** is the interval for each try after the first. -/
theorem make_elapsed (answers : ℕ → Except BrokerError κ) (project : String)
    (attempts interval : ℕ) :
    let c := make (Course.ask answers) project attempts interval {}
    c.elapsed = interval * (c.state.asked - 1) := by
  obtain ⟨last, h⟩ := exists_isLast answers attempts
  intro c
  have hc : c = _ := make_eq answers project attempts interval
  rw [retry_eq h] at hc
  have htime : (Course.after answers project attempts (1000000 * interval) (last + 1)).timed.time =
      1000000 * (interval * last) := by
    rw [Course.timed, steps_after h, time_intersperse]
    exact (Nat.mul_comm ..).trans (Nat.mul_assoc ..)
  rw [hc]
  change (Course.after answers project attempts (1000000 * interval) (last + 1)).timed.time
    / 1000000 = interval * (last + 1 - 1)
  rw [htime, Nat.mul_div_cancel_left _ (by decide), Nat.add_sub_cancel]

end Messaging.Connection
