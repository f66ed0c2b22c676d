import Messaging.Proofs.Waiter.Supervisor

/-! # What resolves a waiter

A run of a supervisor is a list of steps in any order: waiters are started on targets, and targets
and waiters are stopped. Two things can settle the waiter that a step has started on a target: a
stop of the waiter itself, and a stop of the target before another waiter is started there
(`Step.Settles`). The first of them resolves it with its outcome (`Resolves`), and nothing else does
(`waiters_resolved`).

As long as nothing has settled the waiter it is pending, and the current one of its target or, once
it has been replaced, of none: `StillPending` is kept by every step that does not settle it
(`StillPending.run`) and ended by every step that does (`StillPending.resolved`).

Whether a target has a waiter can be asked at any time, and anybody may wait for a waiter, which
changes neither. What a wait sees of the steps that follow is `resolution?`. -/

namespace Messaging

namespace Supervisor

variable {α : Type}

/-- What is done to the waiters of a supervisor. -/
inductive Step (α : Type) where
  | start (target : String)
  | stopTarget (target : String) (o : Outcome α)
  /-- Stops a waiter by itself. -/
  | stop (w : Nat) (o : Outcome α)
  deriving DecidableEq

/-- The supervisor after a step. -/
def Step.run (s : Supervisor α) : Step α → Supervisor α
  | start target => (s.start target).2
  | stopTarget target o => s.stopTarget target o
  | stop w o =>
    match s.stop w o with
    | .ok stopped => stopped
    | .error _ => s

/-- The supervisor after steps, one after the other. -/
def runs (steps : List (Step α)) (s : Supervisor α) : Supervisor α := steps.foldl Step.run s

/-- A step settles the waiter that was started on a target in front of some other steps: it stops
the waiter, or the target, on which no other has been started. -/
def Step.Settles (target : String) (w : Nat) (front : List (Step α)) (o : Outcome α)
    (step : Step α) : Prop :=
  step = .stop w o ∨ step = .stopTarget target o ∧ .start target ∉ front

/-- None of the steps settles the waiter. -/
def Unsettled (target : String) (w : Nat) (steps : List (Step α)) : Prop :=
  ∀ front step back, steps = front ++ step :: back → ∀ o, ¬ step.Settles target w front o

/-- A step is the first that settles the waiter. -/
structure Resolves (target : String) (w : Nat) (front : List (Step α)) (o : Outcome α)
    (step : Step α) : Prop where
  settles : step.Settles target w front o
  first : Unsettled target w front

/-- A waiter has been started on a target after the target was stopped last. -/
def Started (target : String) (steps : List (Step α)) : Prop :=
  ∃ front back, steps = front ++ .start target :: back ∧ ∀ o, .stopTarget target o ∉ back

/-- When a waiter is resolved, and with what: now, or by the first step that resolves it. The steps
have times. -/
def resolution? (w : Nat) (s : Supervisor α) (now : Nat) : List (Nat × Step α) →
    Option (Nat × Outcome α)
  | [] => (s.waiter w).outcome.map fun o => (now, o)
  | (time, step) :: rest =>
    match (s.waiter w).outcome with
    | some o => some (now, o)
    | none => resolution? w (step.run s) time rest

variable {target t : String} {w n : Nat} {o o' : Outcome α} {s : Supervisor α}
  {front steps : List (Step α)} {step : Step α}

theorem runs_append (front back : List (Step α)) (s : Supervisor α) :
    runs (front ++ back) s = runs back (runs front s) :=
  List.foldl_append

theorem runs_concat (steps : List (Step α)) (step : Step α) (s : Supervisor α) :
    runs (steps ++ [step]) s = step.run (runs steps s) :=
  runs_append steps [step] s

/-! ### The steps that settle a waiter -/

/-- Where a list with one more element can be split. -/
theorem concat_eq_append_cons {β : Type} {l front back : List β} {x y : β} :
    l ++ [x] = front ++ y :: back ↔
      (l = front ∧ x = y ∧ back = []) ∨ ∃ back', back = back' ++ [x] ∧ l = front ++ y :: back' := by
  constructor
  · intro h
    rcases List.eq_nil_or_concat back with rfl | ⟨back', z, rfl⟩
    · obtain ⟨hl, hx⟩ := List.append_inj' h rfl
      exact .inl ⟨hl, List.singleton_inj.mp hx, rfl⟩
    · rw [List.concat_eq_append, ← List.cons_append, ← List.append_assoc] at h
      obtain ⟨hl, hx⟩ := List.append_inj' h rfl
      obtain rfl := List.singleton_inj.mp hx
      exact .inr ⟨back', List.concat_eq_append, hl⟩
  · rintro (⟨rfl, rfl, rfl⟩ | ⟨back', rfl, rfl⟩)
    · rfl
    · simp

theorem unsettled_nil : Unsettled target w ([] : List (Step α)) := by
  intro front step back h
  simp at h

theorem unsettled_concat :
    Unsettled target w (steps ++ [step]) ↔
      Unsettled target w steps ∧ ∀ o, ¬ step.Settles target w steps o := by
  constructor
  · intro h
    refine ⟨fun front step' back hsplit => ?_, h steps step [] rfl⟩
    refine h front step' (back ++ [step]) ?_
    rw [hsplit, List.append_assoc, List.cons_append]
  · rintro ⟨hsteps, hlast⟩ front step' back hsplit
    rcases concat_eq_append_cons.mp hsplit with ⟨rfl, rfl, -⟩ | ⟨back', -, hfront⟩
    · exact hlast
    · exact hsteps front step' back' hfront

/-- If anything among some steps settles the waiter, a first step does. -/
theorem unsettled_or_resolves (target : String) (w : Nat) (steps : List (Step α)) :
    Unsettled target w steps ∨
      ∃ front step back o, steps = front ++ step :: back ∧ Resolves target w front o step := by
  induction steps using List.reverseRecOn with
  | nil => exact .inl unsettled_nil
  | append_singleton steps step ih =>
    rcases ih with hsteps | ⟨front, step', back, o, rfl, h⟩
    · by_cases hlast : ∃ o, step.Settles target w steps o
      · obtain ⟨o, ho⟩ := hlast
        exact .inr ⟨steps, step, [], o, rfl, ho, hsteps⟩
      · exact .inl (unsettled_concat.mpr ⟨hsteps, not_exists.mp hlast⟩)
    · exact .inr ⟨front, step', back ++ [step], o, by simp, h⟩

/-! ### A waiter before and after it is resolved -/

theorem runs_sound (steps : List (Step α)) : (runs steps {}).Sound := by
  induction steps using List.reverseRecOn with
  | nil => exact fun t n h => by cases h
  | append_singleton steps step ih =>
    rw [runs_concat]
    cases step with
    | start t => exact Sound.start ih t
    | stopTarget t o => exact Sound.stopTarget ih t
    | stop n o =>
      unfold Step.run
      dsimp only
      split
      · next hs => exact Sound.stop ih hs
      · exact ih

/-- A waiter that has been resolved keeps its outcome. -/
theorem Resolved.run (h : s.Resolved w o) (step : Step α) : (step.run s).Resolved w o := by
  cases step with
  | start t => exact h.start t
  | stopTarget t o' => exact h.stopTarget t
  | stop n o' =>
    unfold Step.run
    dsimp only
    split
    · next hs => exact h.stop hs
    · exact h

theorem Resolved.runs (h : s.Resolved w o) (steps : List (Step α)) :
    (runs steps s).Resolved w o := by
  induction steps generalizing s with
  | nil => exact h
  | cons step rest ih => exact ih (h.run step)

/-- A waiter that was started on a target in front of some steps is pending after them. It is the
current one of the target or, if another has been started there, of none. -/
structure StillPending (target : String) (w : Nat) (front : List (Step α)) (s : Supervisor α) :
    Prop where
  pending : s.waiters[w]? = some {}
  current : .start target ∉ front → s.targets.find? target = some w
  only : ∀ t, s.targets.find? t = some w → t = target ∧ .start target ∉ front

namespace StillPending

theorem started (h : s.Sound) (target : String) :
    (s.start target).2.StillPending target (s.start target).1 [] := by
  have hawaits := h.start_awaits target
  exact ⟨hawaits.pending, fun _ => hawaits.current,
    fun t ht => ⟨hawaits.only t ht, List.not_mem_nil⟩⟩

theorem outcome (h : s.StillPending target w front) : (s.waiter w).outcome = none := by
  simp [waiter, h.pending]

theorem awaits (h : s.StillPending target w front) (hfront : .start target ∉ front) :
    s.Awaits target w :=
  ⟨h.current hfront, h.pending, fun t ht => (h.only t ht).1⟩

/-- A waiter that is pending can be stopped. -/
theorem stop_self (h : s.StillPending target w front) (o : Outcome α) :
    ∃ stopped, s.stop w o = .ok stopped ∧ stopped.Resolved w o := by
  obtain ⟨hlt, hpending⟩ := List.getElem?_eq_some_iff.mp h.pending
  have hw : s.waiter w = {} := by rw [waiter, h.pending, Option.getD_some]
  refine ⟨{ s with waiters := s.waiters.set w ⟨some o⟩ }, ?_, ?_⟩
  · simp [Supervisor.stop, hw, Waiter.stop, Except.map]
  · rw [Resolved, List.getElem?_set_self hlt]

/-- Starting a waiter leaves the others pending, and replaces the one of its target. -/
theorem start (h : s.StillPending target w front) (t : String) :
    (s.start t).2.StillPending target w (front ++ [.start t]) := by
  have hlt : w < s.waiters.length := (List.getElem?_eq_some_iff.mp h.pending).1
  refine ⟨?_, fun hfront => ?_, fun t' ht' => ?_⟩
  · rw [Supervisor.start, List.getElem?_append_left hlt, h.pending]
  · have hne : target ≠ t := fun ht => hfront (by simp [ht])
    have hbefore : .start target ∉ front := fun hmem => hfront (List.mem_append_left _ hmem)
    rw [Supervisor.start, Table.find?_insert, if_neg hne, h.current hbefore]
  · simp only [Supervisor.start, Table.find?_insert] at ht'
    split at ht'
    · exact absurd (Option.some.inj ht') hlt.ne'
    · next hne =>
      obtain ⟨rfl, hbefore⟩ := h.only t' ht'
      refine ⟨rfl, fun hmem => ?_⟩
      rcases List.mem_append.mp hmem with hmem | hmem
      · exact hbefore hmem
      · exact hne (Step.start.inj (List.mem_singleton.mp hmem))

/-- A step that starts no waiter and keeps what is known of this one. -/
theorem of_keeps {s' : Supervisor α} (h : s.StillPending target w front)
    (hwaiters : s'.waiters[w]? = s.waiters[w]?)
    (htarget : .start target ∉ front → s'.targets.find? target = s.targets.find? target)
    (htargets : ∀ t, s'.targets.find? t = some w → s.targets.find? t = some w)
    (hstep : step ≠ .start target) : s'.StillPending target w (front ++ [step]) := by
  have hmem : .start target ∈ front ++ [step] ↔ .start target ∈ front := by
    simp [hstep.symm]
  refine ⟨hwaiters.trans h.pending, fun hfront => ?_, fun t ht => ?_⟩
  · rw [hmem] at hfront
    exact (htarget hfront).trans (h.current hfront)
  · rw [hmem]
    exact h.only t (htargets t ht)

/-- Stopping another waiter does not touch this one. -/
theorem stop (h : s.StillPending target w front) (hn : n ≠ w) {s' : Supervisor α}
    (hs : s.stop n o = .ok s') : s'.StillPending target w (front ++ [.stop n o]) :=
  h.of_keeps (stop_waiters hs hn) (fun _ => by rw [stop_targets hs])
    (fun t ht => stop_targets hs ▸ ht) (by simp)

/-- Stopping a target of which the waiter is not the current one does not touch it. -/
theorem stopTarget (h : s.StillPending target w front) (ht : s.targets.find? t ≠ some w) :
    (s.stopTarget t o).StillPending target w (front ++ [.stopTarget t o]) := by
  unfold Supervisor.stopTarget
  split
  · exact h.of_keeps rfl (fun _ => rfl) (fun _ ht => ht) (by simp)
  · next n hn =>
    have hother : n ≠ w := fun hnw => ht (hnw ▸ hn)
    have herased : ({ s with targets := s.targets.erase t } : Supervisor α).StillPending target w
        (front ++ [.stopTarget t o]) := by
      refine h.of_keeps rfl (fun hfront => ?_) (fun t' ht' => ?_) (by simp)
      · have hne : target ≠ t := fun heq => ht (heq ▸ h.current hfront)
        rw [Table.find?_erase, if_neg hne]
      · rw [Table.find?_erase] at ht'
        split at ht'
        · cases ht'
        · exact ht'
    dsimp only
    split
    · next stopped hs =>
      exact ⟨by rw [stop_waiters hs hother, herased.pending],
        fun hfront => by rw [stop_targets hs, herased.current hfront],
        fun t' ht' => herased.only t' (stop_targets hs ▸ ht')⟩
    · exact herased

/-- A step that does not settle the waiter leaves it pending. -/
theorem run (h : s.StillPending target w front) (hs : ∀ o, ¬ step.Settles target w front o) :
    (step.run s).StillPending target w (front ++ [step]) := by
  cases step with
  | start t => exact h.start t
  | stopTarget t o =>
    refine h.stopTarget fun ht => ?_
    obtain ⟨rfl, hfront⟩ := h.only t ht
    exact hs o (.inr ⟨rfl, hfront⟩)
  | stop n o =>
    have hn : n ≠ w := fun hn => hs o (.inl (by rw [hn]))
    unfold Step.run
    dsimp only
    split
    · next stopped hstop => exact h.stop hn hstop
    · exact h.of_keeps rfl (fun _ => rfl) (fun _ ht => ht) (by simp)

/-- A step that settles the waiter resolves it. -/
theorem resolved (h : s.StillPending target w front) (hs : step.Settles target w front o) :
    (step.run s).Resolved w o := by
  rcases hs with rfl | ⟨rfl, hfront⟩
  · obtain ⟨stopped, hstop, hresolved⟩ := h.stop_self o
    simpa only [Step.run, hstop] using hresolved
  · exact (h.awaits hfront).stopTarget_self

/-- A waiter is pending as long as nothing settles it. -/
theorem runs (h : s.StillPending target w []) (hs : Unsettled target w steps) :
    (runs steps s).StillPending target w steps := by
  induction steps using List.reverseRecOn with
  | nil => exact h
  | append_singleton steps step ih =>
    obtain ⟨hsteps, hlast⟩ := unsettled_concat.mp hs
    rw [runs_concat]
    exact (ih hsteps).run hlast

/-- The first step that settles a waiter resolves it for good. -/
theorem resolved_runs (h : s.StillPending target w []) (hs : Resolves target w front o step)
    (back : List (Step α)) : (Supervisor.runs (front ++ step :: back) s).Resolved w o := by
  rw [runs_append]
  exact ((h.runs hs.first).resolved hs.settles).runs back

/-- **The first step that settles a waiter resolves it, and nothing else does.** -/
theorem outcome_eq_some_iff (h : s.StillPending target w []) :
    ((Supervisor.runs steps s).waiter w).outcome = some o ↔
      ∃ front step back, steps = front ++ step :: back ∧ Resolves target w front o step := by
  constructor
  · intro ho
    rcases unsettled_or_resolves target w steps with hs | ⟨front, step, back, o', rfl, hs⟩
    · rw [(h.runs hs).outcome] at ho
      cases ho
    · have ho' := (h.resolved_runs hs back).outcome
      rw [ho] at ho'
      obtain rfl := Option.some.inj ho'
      exact ⟨front, step, back, rfl, hs⟩
  · rintro ⟨front, step, back, rfl, hs⟩
    exact (h.resolved_runs hs back).outcome

end StillPending

/-! ### Targets that have a waiter -/

theorem started_concat :
    Started target (steps ++ [step]) ↔
      step = .start target ∨ (∀ o, step ≠ .stopTarget target o) ∧ Started target steps := by
  constructor
  · rintro ⟨front, back, hsplit, hback⟩
    rcases concat_eq_append_cons.mp hsplit with ⟨-, hstep, -⟩ | ⟨back', rfl, hfront⟩
    · exact .inl hstep
    · refine .inr ⟨fun o ho => ?_, front, back', hfront, fun o ho => ?_⟩
      · exact hback o (by simp [ho])
      · exact hback o (List.mem_append_left _ ho)
  · rintro (rfl | ⟨hstep, front, back, rfl, hback⟩)
    · exact ⟨steps, [], rfl, fun o => List.not_mem_nil⟩
    · refine ⟨front, back ++ [step], by simp, fun o ho => ?_⟩
      rcases List.mem_append.mp ho with ho | ho
      · exact hback o ho
      · exact hstep o (List.mem_singleton.mp ho).symm

theorem find?_stopTarget (t key : String) (o : Outcome α) (s : Supervisor α) :
    (s.stopTarget t o).targets.find? key = if key = t then none else s.targets.find? key := by
  unfold Supervisor.stopTarget
  split
  · next hnone =>
    by_cases hkey : key = t
    · rw [if_pos hkey, hkey, hnone]
    · rw [if_neg hkey]
  · next n hn =>
    dsimp only
    split
    · next stopped hs => rw [stop_targets hs, Table.find?_erase]
    · exact Table.find?_erase t key s.targets

/-- A step leaves a target with a waiter if it starts one there, or if there is one and the step
does not stop the target. -/
theorem has_run (target : String) (step : Step α) (s : Supervisor α) :
    (step.run s).has target = true ↔
      step = .start target ∨ (∀ o, step ≠ .stopTarget target o) ∧ s.has target = true := by
  cases step with
  | start t =>
    have hstart : (Step.start t).run s = (s.start t).2 := rfl
    rw [hstart, has, Supervisor.start, Table.contains_insert, Bool.or_eq_true, decide_eq_true_eq]
    refine or_congr ⟨fun ht => by rw [ht], fun ht => (Step.start.inj ht).symm⟩ ?_
    simp [has]
  | stopTarget t o =>
    have hstop : (Step.stopTarget t o).run s = s.stopTarget t o := rfl
    by_cases ht : target = t
    · simp [hstop, has, Table.contains, find?_stopTarget, ht]
    · simp [hstop, has, Table.contains, find?_stopTarget, ht, Ne.symm ht]
  | stop n o =>
    have htargets : ((Step.stop n o).run s).targets = s.targets := by
      unfold Step.run
      dsimp only
      split
      · next hs => exact stop_targets hs
      · rfl
    simp [has, htargets]

/-- **A target has a waiter if one has been started there since it was stopped last.** -/
theorem has_runs_iff (target : String) (steps : List (Step α)) :
    (runs steps {}).has target = true ↔ Started target steps := by
  induction steps using List.reverseRecOn with
  | nil =>
    have hnot : ¬ Started target ([] : List (Step α)) := by
      rintro ⟨front, back, hsplit, -⟩
      simp at hsplit
    simp [hnot, runs, has, Table.contains, Table.find?_nil]
  | append_singleton steps step ih => rw [runs_concat, has_run, started_concat, ih]

/-! ### Waits -/

/-- What a wait sees last of the steps that follow is the outcome after all of them. -/
theorem resolution?_snd (w : Nat) (s : Supervisor α) (now : Nat) (later : List (Nat × Step α)) :
    (resolution? w s now later).map Prod.snd =
      ((runs (later.map Prod.snd) s).waiter w).outcome := by
  induction later generalizing s now with
  | nil =>
    have hnil : runs (([] : List (Nat × Step α)).map Prod.snd) s = s := rfl
    rw [hnil, resolution?]
    cases (s.waiter w).outcome <;> rfl
  | cons next rest ih =>
    obtain ⟨time, step⟩ := next
    rw [resolution?]
    cases ho : (s.waiter w).outcome with
    | none => exact ih (step.run s) time
    | some o =>
      have hkept := (resolved_of_outcome ho).runs (step :: rest.map Prod.snd)
      exact hkept.outcome.symm

end Supervisor

/-- A wait that is not cancelled before the waiter is resolved returns the outcome; one that nothing
resolves goes on until it is cancelled. -/
theorem Waiter.wait_result {α : Type} (v : Waiter α) {stopped : Option (Nat × Outcome α)}
    {cancelled : Option Nat} (hcancel : ∀ t o, stopped = some (t, o) → ∀ c ∈ cancelled, t < c)
    (hv : ∀ o, v.outcome = some o → stopped.map Prod.snd = some o) :
    (v.wait { cancelled, stopped }).map WaitEnd.result =
      match stopped.map Prod.snd with
      | some o => some (.ok o)
      | none => cancelled.map fun _ => .error .cancelled := by
  cases hout : v.outcome with
  | some o =>
    rw [hv o hout]
    simp only [wait, hout, Option.map_some]
  | none =>
    rcases stopped with _ | ⟨t, o⟩
    · cases cancelled <;> simp [wait, hout, ends]
    · cases cancelled with
      | none => simp [wait, hout, ends]
      | some c =>
        have hlt : t < c := hcancel t o rfl c rfl
        simp [wait, hout, ends, earlier, Nat.not_lt.mpr hlt.le]

namespace Supervisor

/-- **What resolves a waiter.** Take any run of a supervisor. A target has a waiter if one has been
started there since the target was stopped last. For every waiter that was started on a target:

* It is resolved by the first of the stops of its own and the first stop of its target, if no other
  waiter has been started there by then, and by nothing else.
* Once it is resolved it keeps its outcome.
* Stopping it succeeds if this is what resolves it; otherwise it had been resolved before.
* A wait for it that begins at any moment of the run, and is not cancelled before the waiter is
  resolved, returns the outcome of the waiter. -/
theorem waiters_resolved {α : Type} (steps : List (Step α)) :
    (∀ target, (runs steps {}).has target = true ↔ Started target steps) ∧
    ∀ before target after, steps = before ++ .start target :: after →
      let w := ((runs before {}).start target).1
      let since (front : List (Step α)) := runs (before ++ .start target :: front) {}
      (∀ o, ((runs steps {}).waiter w).outcome = some o ↔
        ∃ front step back, after = front ++ step :: back ∧ Resolves target w front o step) ∧
      (∀ o, ((runs steps {}).waiter w).outcome = some o →
        ∀ more, ((runs (steps ++ more) {}).waiter w).outcome = some o) ∧
      (∀ front o back, after = front ++ .stop w o :: back →
        (Resolves target w front o (.stop w o) → ∃ stopped, (since front).stop w o = .ok stopped) ∧
        (¬ Resolves target w front o (.stop w o) →
          (since front).stop w o = .error .alreadyStopped)) ∧
      ∀ front (later : List (Nat × Step α)) cancelled, after = front ++ later.map Prod.snd →
        let stopped := resolution? w (since front) 0 later
        (∀ t o, stopped = some (t, o) → ∀ c ∈ cancelled, t < c) →
        (((since front).waiter w).wait { cancelled, stopped }).map Waiter.WaitEnd.result =
          match ((runs steps {}).waiter w).outcome with
          | some o => some (.ok o)
          | none => cancelled.map fun _ => .error .cancelled := by
  refine ⟨fun target => has_runs_iff target steps, ?_⟩
  rintro before target after rfl w since
  have hstarted : ((runs before {}).start target).2.StillPending target w [] :=
    .started (runs_sound before) target
  have hsince (front : List (Step α)) :
      since front = runs front ((runs before {}).start target).2 := runs_append before _ {}
  have hsteps : runs (before ++ .start target :: after) {} = since after := rfl
  refine ⟨fun o => ?_, fun o ho more => ?_, fun front o back hsplit => ?_, ?_⟩
  · rw [hsteps, hsince]
    exact hstarted.outcome_eq_some_iff
  · rw [runs_append]
    exact ((resolved_of_outcome ho).runs more).outcome
  · rw [hsince]
    constructor
    · intro hresolves
      obtain ⟨stopped, hstop, -⟩ := (hstarted.runs hresolves.first).stop_self o
      exact ⟨stopped, hstop⟩
    · intro hnot
      -- Something in front of this stop settles the waiter, or the stop would be the first.
      rcases unsettled_or_resolves target w front with hfront | ⟨front', step, back', o', hf, hs⟩
      · exact absurd ⟨.inl rfl, hfront⟩ hnot
      · have hresolved := hstarted.resolved_runs hs back'
        rw [← hf] at hresolved
        have hw : (runs front ((runs before {}).start target).2).waiter w = ⟨some o'⟩ := by
          rw [waiter, hresolved, Option.getD_some]
        simp only [Supervisor.stop, hw, Waiter.stop, Except.map]
  · intro front later cancelled hsplit stopped hcancel
    have hlast : stopped.map Prod.snd = ((since after).waiter w).outcome := by
      rw [resolution?_snd, hsplit, hsince, hsince, runs_append]
    rw [Waiter.wait_result _ hcancel fun o ho => ?_, hlast, hsteps]
    rw [hlast, hsplit, hsince, runs_append]
    rw [hsince] at ho
    exact ((resolved_of_outcome ho).runs _).outcome

/-- Two waiters are started on one target. The target is stopped, which resolves the second, and
then each is stopped by itself. -/
def stoppedTwice : List (Step Nat) :=
  [.start "t", .start "t", .stopTarget "t" { data := 2 }, .stop 0 { data := 1, error := "boom" },
    .stop 1 { data := 3 }]

theorem waiters_resolved_replaced :
    ((runs stoppedTwice {}).waiter 0).outcome = some { data := 1, error := "boom" } ∧
    ((runs stoppedTwice {}).waiter 1).outcome = some { data := 2 } ∧
    (runs (stoppedTwice.take 4) {}).stop 1 { data := 3 } = .error .alreadyStopped ∧
    (((runs (stoppedTwice.take 2) {}).waiter 1).wait
        { cancelled := some 15, stopped := some (10, { data := 2 }) }).map Waiter.WaitEnd.result =
      some (.ok { data := 2 }) := by
  obtain ⟨-, hwaiters⟩ := waiters_resolved stoppedTwice
  obtain ⟨hfirst, -, -, -⟩ := hwaiters [] "t" (stoppedTwice.drop 1) rfl
  obtain ⟨hsecond, -, hstop, hwait⟩ := hwaiters [.start "t"] "t" (stoppedTwice.drop 2) rfl
  have hreplaced : Unsettled "t" 0 [.start "t", .stopTarget "t" { data := 2 }] := by
    change Unsettled "t" 0 (([] ++ [.start "t"]) ++ [.stopTarget "t" { data := 2 }])
    rw [unsettled_concat, unsettled_concat]
    exact ⟨⟨unsettled_nil, by simp [Step.Settles]⟩, by simp [Step.Settles]⟩
  have hstopped : Resolves "t" 1 [] ({ data := 2 } : Outcome Nat) (.stopTarget "t" { data := 2 }) :=
    ⟨.inr ⟨rfl, List.not_mem_nil⟩, unsettled_nil⟩
  have hsettled : ((runs stoppedTwice {}).waiter 1).outcome = some { data := 2 } :=
    (hsecond _).mpr ⟨[], _, _, rfl, hstopped⟩
  refine ⟨(hfirst _).mpr ⟨_, _, _, rfl, .inl rfl, hreplaced⟩, hsettled, ?_, ?_⟩
  · exact (hstop [.stopTarget "t" { data := 2 }, .stop 0 { data := 1, error := "boom" }] _ _
      rfl).2 fun h => h.first [] _ _ rfl _ hstopped.settles
  · have hresult := hwait [] [(10, .stopTarget "t" { data := 2 }),
      (20, .stop 0 { data := 1, error := "boom" }), (30, .stop 1 { data := 3 })] (some 15) rfl
      (fun t o ho c hc => by cases ho; cases hc; decide)
    rw [show ((runs stoppedTwice {}).waiter ((runs [.start "t"] {}).start "t").1).outcome = _
      from hsettled] at hresult
    exact hresult

end Supervisor

end Messaging
