import Messaging.Proofs.Receiving.Runs
import Mathlib.Data.List.Nodup

/-! # Handlers of a receive loop

`Happening.leased?` and `Happening.finished?` tell from what happens which delivery a loop leases
and which of its handlers finishes; `Receiving.leasedBy` and `Happening.finishedIn` collect them
along a run. `Loop.Keeps` relates a loop to them: what it has leased it has handed out, every
handler is running or has finished, and permits are taken for those that are running and for the one
that the loop looks for a message with. A loop sees only its own moves and its cancellation
(`Loop.Sees`), so it is enough that these keep it (`Loop.Keeps.sees`).

Every delivery of the broker is handed out once, by whichever loop (`Receiving.Handed`).

Main statement: `receive_keeps_limits`. -/

namespace Messaging

variable {σ : Type}

namespace Happening

/-- The delivery that a loop leases by what happens. -/
def leased? (n : Nat) (s : Receiving σ) : Happening σ → Option Nat
  | move (.look loop) =>
    if loop = n then s.loops[n]?.bind fun l => (s.emulator.lease l.subscription).1 else none
  | _ => none

/-- The delivery whose handler finishes, if it is one of a loop. -/
def finished? (n : Nat) : Happening σ → Option Nat
  | move (.finish loop delivery) => if loop = n then some delivery else none
  | _ => none

/-- The deliveries whose handlers finish in a run, those of a loop. -/
def finishedIn (n : Nat) (happenings : List (Happening σ)) : List Nat :=
  happenings.filterMap (finished? n)

theorem finishedIn_append_singleton (n : Nat) (past : List (Happening σ)) (h : Happening σ) :
    finishedIn n (past ++ [h]) = finishedIn n past ++ (h.finished? n).toList := by
  rw [finishedIn, List.filterMap_append]
  cases hf : h.finished? n <;> simp [finishedIn, hf]

end Happening

/-! ### A loop by itself -/

namespace Loop

/-- How many permits are taken. -/
def permits (l : Loop) : Nat :=
  l.running.length + if l.phase = .seeking ∨ l.phase = .waiting then 1 else 0

/-- A loop since it was started: what has happened, and what it has leased. -/
structure Keeps (n : Nat) (past : List (Happening σ)) (leased : List Nat) (l : Loop) : Prop where
  received : l.received = leased
  handlers : l.received.Perm (Happening.finishedIn n past ++ l.running)
  permits : l.permits ≤ l.limit
  cancelled : l.cancelled = true → .cancel n ∈ past
  closing : l.phase = .closing ∨ l.phase = .closed → l.cancelled = true
  closed : l.phase = .closed → l.running = []

namespace Keeps

variable {s : Receiving σ} {n : Nat} {l : Loop} {h : Happening σ} {past : List (Happening σ)}
  {leased : List Nat}

/-- A loop that only enters another phase. -/
theorem phase (hl : l.Keeps n past leased) {phase : LoopPhase}
    (hunleased : h.leased? n s = none) (hunfinished : h.finished? n = none)
    (hpermits : Loop.permits { l with phase } ≤ l.limit)
    (hclosing : phase = .closing ∨ phase = .closed → l.cancelled = true)
    (hclosed : phase = .closed → l.running = []) :
    Keeps n (past ++ [h]) (leased ++ (h.leased? n s).toList) { l with phase } where
  received := by
    rw [hunleased, Option.toList_none, List.append_nil]
    exact hl.received
  handlers := by
    rw [Happening.finishedIn_append_singleton, hunfinished, Option.toList_none, List.append_nil]
    exact hl.handlers
  permits := hpermits
  cancelled hc := List.mem_append_left _ (hl.cancelled hc)
  closing := hclosing
  closed := hclosed

/-- A loop that hands a delivery out has a permit for its handler. -/
theorem hand (hl : l.Keeps n past leased) {delivery : Nat} (hseeking : l.phase = .seeking)
    (hleased : (Happening.move (.look n)).leased? n s = some delivery) :
    Keeps n (past ++ [.move (.look n)])
      (leased ++ ((Happening.move (.look n)).leased? n s).toList)
      { l with phase := .ready, running := l.running ++ [delivery]
               received := l.received ++ [delivery] } where
  received := by rw [hleased, hl.received, Option.toList_some]
  handlers := by
    have hunfinished : (Happening.move (σ := σ) (.look n)).finished? n = none := rfl
    rw [Happening.finishedIn_append_singleton, hunfinished, Option.toList_none, List.append_nil,
      ← List.append_assoc]
    exact hl.handlers.append_right [delivery]
  permits := by
    have hpermits := hl.permits
    simp only [Loop.permits, hseeking, true_or, if_true] at hpermits
    simp only [Loop.permits, List.length_append, List.length_singleton, reduceCtorEq, or_self,
      if_false, Nat.add_zero]
    exact hpermits
  cancelled hc := List.mem_append_left _ (hl.cancelled hc)
  closing hphase := by simp at hphase
  closed hphase := by simp at hphase

/-- A handler that finishes gives its permit back. -/
theorem finish (hl : l.Keeps n past leased) {delivery : Nat} (hrunning : delivery ∈ l.running) :
    Keeps n (past ++ [.move (.finish n delivery)])
      (leased ++ ((Happening.move (.finish n delivery)).leased? n s).toList)
      { l with running := l.running.erase delivery } where
  received := by
    have hunleased : (Happening.move (.finish n delivery)).leased? n s = none := rfl
    rw [hunleased, Option.toList_none, List.append_nil]
    exact hl.received
  handlers := by
    rw [Happening.finishedIn_append_singleton, Happening.finished?, if_pos rfl,
      Option.toList_some, List.append_assoc]
    exact hl.handlers.trans ((List.perm_cons_erase hrunning).append_left _)
  permits := by
    have hpermits := hl.permits
    have herase := List.length_erase_of_mem hrunning
    simp only [Loop.permits] at hpermits ⊢
    omega
  cancelled hc := List.mem_append_left _ (hl.cancelled hc)
  closing := hl.closing
  closed hphase := by
    have hnone := hl.closed hphase
    rw [hnone] at hrunning
    cases hrunning

end Keeps

end Loop

/-! ### A loop among others -/

variable [Log.Journal σ]

/-- The deliveries that a loop leases in a run. -/
def Receiving.leasedBy (n : Nat) : List (Happening σ) → Receiving σ → List Nat
  | [], _ => []
  | h :: rest, s => (h.leased? n s).toList ++ ((s.happen h).map (leasedBy n rest)).getD []

/-- What a loop sees of what happens: a move of its own, its cancellation, or nothing. -/
inductive Loop.Sees (n : Nat) (l : Loop) (s : Receiving σ) : Happening σ → Loop → Prop
  | nothing {h : Happening σ} (unleased : h.leased? n s = none)
      (unfinished : h.finished? n = none) : Sees n l s h l
  | cancel : Sees n l s (.cancel n) { l with cancelled := true }
  | move {m : LoopMove} {l' : Loop} {e : Emulator σ} (made : l.Makes n s m l' e) :
    Sees n l s (.move m) l'

namespace Receiving

variable {s s' : Receiving σ} {n : Nat} {l : Loop}

theorem makes_loop {m : LoopMove} {l' : Loop} {e : Emulator σ} {k : Nat} (hne : k ≠ n)
    (h : l.Makes k s m l' e) :
    (Happening.move m).leased? n s = none ∧ (Happening.move (σ := σ) m).finished? n = none := by
  cases h <;> exact ⟨by simp [Happening.leased?, hne], by simp [Happening.finished?, hne]⟩

/-- A loop is still there after something has happened, as it sees it. -/
theorem Happens.sees {h : Happening σ} (hs : s.Happens h s') (hl : s.loops[n]? = some l) :
    ∃ l', s'.loops[n]? = some l' ∧ l.Sees n s h l' := by
  cases hs with
  | call | refuse | reorder => exact ⟨l, hl, .nothing rfl rfl⟩
  | receive =>
    refine ⟨l, ?_, .nothing rfl rfl⟩
    rw [← hl]
    exact List.getElem?_append_left (List.getElem?_eq_some_iff.mp hl).1
  | @cancel k =>
    by_cases hk : k = n
    · subst hk
      exact ⟨_, by simp [Receiving.cancel, change, hl], .cancel⟩
    · exact ⟨l, by simp [Receiving.cancel, change, hl, hk], .nothing rfl rfl⟩
  | @move m k l₀ l' e hloop hmade =>
    by_cases hk : k = n
    · subst hk
      cases hloop.symm.trans hl
      refine ⟨l', ?_, .move hmade⟩
      simp [(List.getElem?_eq_some_iff.mp hl).1]
    · obtain ⟨hunleased, hunfinished⟩ := makes_loop hk hmade
      exact ⟨l, by simp [hk, hl], .nothing hunleased hunfinished⟩

end Receiving

namespace Loop

variable {s : Receiving σ} {n : Nat} {l l' : Loop} {h : Happening σ}

theorem Sees.constant (hsees : l.Sees n s h l') :
    l'.subscription = l.subscription ∧ l'.limit = l.limit := by
  cases hsees with
  | nothing | cancel => exact ⟨rfl, rfl⟩
  | move hmade => exact hmade.constant

omit [Log.Journal σ] in
theorem leased?_look (hl : s.loops[n]? = some l) :
    (Happening.move (.look n)).leased? n s = (s.emulator.lease l.subscription).1 := by
  rw [Happening.leased?, if_pos rfl, hl]
  rfl

/-- What a loop sees keeps it. -/
theorem Keeps.sees {past : List (Happening σ)} {leased : List Nat}
    (hl : l.Keeps n past leased) (hloop : s.loops[n]? = some l)
    (hsees : l.Sees n s h l') :
    l'.Keeps n (past ++ [h]) (leased ++ (h.leased? n s).toList) := by
  have hpermits := hl.permits
  simp only [Loop.permits] at hpermits
  cases hsees with
  | nothing hunleased hunfinished =>
    exact hl.phase hunleased hunfinished hl.permits hl.closing hl.closed
  | cancel =>
    have hkept := hl.phase (s := s) (h := .cancel n) rfl rfl hl.permits hl.closing hl.closed
    exact { hkept with
      cancelled := fun _ => List.mem_append_right _ List.mem_cons_self
      closing := fun _ => rfl }
  | move hmade =>
    cases hmade with
    | permit _ hfree =>
      refine hl.phase rfl rfl ?_ (by simp) (by simp)
      simpa [Loop.permits] using Nat.succ_le_of_lt hfree
    | hand hseeking hleased =>
      exact hl.hand hseeking (by rw [leased?_look hloop, hleased])
    | take _ hnone =>
      exact hl.phase ((leased?_look hloop).trans hnone) rfl hl.permits hl.closing hl.closed
    | wait hseeking hnone =>
      refine hl.phase ((leased?_look hloop).trans hnone) rfl ?_ (by simp) (by simp)
      simpa [Loop.permits, hseeking] using hpermits
    | wake hwaiting =>
      refine hl.phase rfl rfl ?_ (by simp) (by simp)
      simpa [Loop.permits, hwaiting] using hpermits
    | quit hcancelled | leave hcancelled =>
      refine hl.phase rfl rfl ?_ (fun _ => hcancelled) (by simp)
      simp only [Loop.permits, reduceCtorEq, or_self, if_false]
      omega
    | finish hrunning => exact hl.finish hrunning
    | close hclosing hfinished =>
      refine hl.phase rfl rfl ?_ (fun _ => hl.closing (.inl hclosing)) fun _ => hfinished
      simp only [Loop.permits, reduceCtorEq, or_self, if_false]
      omega

end Loop

namespace Receiving

/-- A loop stays what it is along a run. -/
theorem run_loop {happenings past : List (Happening σ)} {leased : List Nat} {s s' : Receiving σ}
    {n : Nat} {l : Loop} (h : run happenings s = some s') (hloop : s.loops[n]? = some l)
    (hl : l.Keeps n past leased) :
    ∃ l', s'.loops[n]? = some l' ∧ l'.subscription = l.subscription ∧ l'.limit = l.limit ∧
      l'.Keeps n (past ++ happenings) (leased ++ leasedBy n happenings s) := by
  induction happenings generalizing s l past leased with
  | nil =>
    cases h
    refine ⟨l, hloop, rfl, rfl, ?_⟩
    rw [leasedBy, List.append_nil, List.append_nil]
    exact hl
  | cons first rest ih =>
    obtain ⟨next, hnext, hrest⟩ := Option.bind_eq_some_iff.mp h
    obtain ⟨l₁, hloop₁, hsees⟩ := (happens_of_happen hnext).sees hloop
    obtain ⟨l', hloop', hsubscription, hlimit, hl'⟩ := ih hrest hloop₁ (hl.sees hloop hsees)
    refine ⟨l', hloop', hsubscription.trans hsees.constant.1, hlimit.trans hsees.constant.2, ?_⟩
    rw [leasedBy, hnext, Option.map_some, Option.getD_some]
    simpa only [List.append_assoc, List.singleton_append] using hl'

/-! ### All loops -/

/-- The deliveries that have been handed out, loop by loop. -/
def handed (s : Receiving σ) : List Nat := s.loops.flatMap Loop.received

/-- Every delivery has been handed out, and to one handler only. -/
def Handed (s : Receiving σ) : Prop := s.handed.Perm (List.range s.emulator.deliveries.length)

theorem perm_flatMap_set {loops : List Loop} {n : Nat} {l l' : Loop} {more : List Nat}
    (hl : loops[n]? = some l) (h : l'.received = l.received ++ more) :
    ((loops.set n l').flatMap Loop.received).Perm (loops.flatMap Loop.received ++ more) := by
  induction loops generalizing n with
  | nil => cases hl
  | cons first rest ih =>
    cases n with
    | zero =>
      cases hl
      rw [List.set_cons_zero, List.flatMap_cons, List.flatMap_cons, h, List.append_assoc,
        List.append_assoc]
      exact List.perm_append_comm.append_left _
    | succ n =>
      rw [List.set_cons_succ, List.flatMap_cons, List.flatMap_cons, List.append_assoc]
      exact (ih hl).append_left _

/-- What a move leases it hands out. -/
theorem Handed.makes {s : Receiving σ} {n : Nat} {l l' : Loop} {m : LoopMove} {e : Emulator σ}
    (hs : s.Handed) (hl : s.loops[n]? = some l) (h : l.Makes n s m l' e) :
    Handed { emulator := e, loops := s.loops.set n l' } := by
  obtain ⟨more, hreceived, hdeliveries⟩ : ∃ more, l'.received = l.received ++ more ∧
      List.range e.deliveries.length = List.range s.emulator.deliveries.length ++ more := by
    cases h with
    | hand _ hleased =>
      cases hlease : s.emulator.store.lease l.subscription with
      | none =>
        rw [Emulator.lease, hlease] at hleased
        cases hleased
      | some leased =>
        obtain ⟨hnumber, hdeliveries⟩ := Emulator.lease_deliveries hlease
        rw [hleased] at hnumber hdeliveries
        cases hnumber
        exact ⟨_, rfl, by rw [hdeliveries, List.length_append, List.length_singleton,
          List.range_succ]⟩
    | _ => exact ⟨[], (List.append_nil _).symm, (List.append_nil _).symm⟩
  have hset : (handed { emulator := e, loops := s.loops.set n l' }).Perm (s.handed ++ more) :=
    perm_flatMap_set hl hreceived
  rw [Handed, hdeliveries]
  exact hset.trans (hs.append_right more)

theorem length_deliveries_call {c : Call σ} (e : Emulator σ)
    (hc : ∀ name, c ≠ .lease name) : (c.run e).deliveries.length = e.deliveries.length := by
  rcases c.deliveries_cases e with hsame | ⟨name, _, _, _, hlease, -⟩ | ⟨n, d, -, -, hmarked⟩
  · rw [hsame]
  · exact absurd hlease (hc name)
  · rw [hmarked, Emulator.marked, List.length_modify]

/-- What happens keeps every delivery handed out. -/
theorem Handed.happens {s s' : Receiving σ} {h : Happening σ} (hs : s.Handed)
    (hhappens : s.Happens h s') : s'.Handed := by
  have hcall : ∀ {c : Call σ}, (∀ name, c ≠ .lease name) →
      s.handed.Perm (List.range (c.run s.emulator).deliveries.length) := by
    intro c hc
    rw [length_deliveries_call s.emulator hc]
    exact hs
  cases hhappens with
  | call houtside => exact hcall houtside
  | refuse => exact hcall (by simp)
  | receive =>
    rw [Handed, handed, List.flatMap_append]
    exact (List.append_nil s.handed).symm ▸ hcall (by simp)
  | @cancel n =>
    cases hl : s.loops[n]? with
    | none =>
      rw [cancel, change, List.modify_eq_set_getElem?, hl]
      exact hs
    | some l =>
      rw [cancel, change_eq_set hl]
      have hset : ((s.loops.set n { l with cancelled := true }).flatMap Loop.received).Perm
          (s.loops.flatMap Loop.received ++ []) :=
        perm_flatMap_set hl (List.append_nil _).symm
      rw [List.append_nil] at hset
      exact hset.trans hs
  | move hloop hmade => exact hs.makes hloop hmade
  | reorder => exact hs

omit [Log.Journal σ] in
/-- A loop that has just been started has leased nothing. -/
theorem keeps_started {n : Nat} (id : String) (settings : ReceiveSettings) (s : Receiving σ) :
    Loop.Keeps (σ := σ) n [] [] (s.started id settings) where
  received := rfl
  handlers := .nil
  permits := Nat.zero_le _
  cancelled hc := by cases hc
  closing hphase := by simp [started] at hphase
  closed hphase := by cases hphase

/-- A loop that is ready can take a permit if fewer handlers are running than its limit says. -/
theorem isSome_takePermit {s : Receiving σ} {n : Nat} {l : Loop} (hl : s.loops[n]? = some l)
    (hready : l.phase = .ready) :
    (s.step (.takePermit n)).isSome ↔ l.running.length < l.limit := by
  simp [step, hl, takePermit, hready]

/-- **A receive loop keeps its limits and drops nothing.** Whatever happens before and after it is
started with some settings:

* at most as many of its handlers are running as the smaller of the two limits says, which counts
  as one if it is zero and as the largest number of permits if it is larger, and it can take another
  permit just if there are fewer;
* each delivery that it leases is handed to a handler, and to no other one of any loop, and each
  handler is running or has finished;
* it closes only once it has been cancelled and all its handlers have finished. -/
theorem receive_keeps_limits {project : String} {world : σ} {reactors : List (Reactor σ)}
    {before after : List (Happening σ)} {id : String} {settings : ReceiveSettings}
    {s s' : Receiving σ} (hbefore : run before (fresh project world reactors) = some s)
    (hpulled : (s.emulator.pull (s.emulator.nameOf .subscription id)).1 = .ok ())
    (hafter : run (.receive id settings :: after) s = some s') :
    ∃ l, s'.loops[s.loops.length]? = some l ∧
      l.subscription = s.emulator.nameOf .subscription id ∧
      l.running.length ≤ min (max 1 (min settings.workers settings.maxMessages)) Loop.maxPermits ∧
      (l.phase = .ready → ((s'.step (.takePermit s.loops.length)).isSome ↔ l.running.length <
        min (max 1 (min settings.workers settings.maxMessages)) Loop.maxPermits)) ∧
      l.received = leasedBy s.loops.length (.receive id settings :: after) s ∧
      (∀ delivery ∈ l.received, s'.handed.count delivery = 1) ∧
      l.received.Perm (Happening.finishedIn s.loops.length after ++ l.running) ∧
      (l.phase = .closed → .cancel s.loops.length ∈ after ∧ l.running = []) := by
  obtain ⟨started, hstarted, hrun⟩ := Option.bind_eq_some_iff.mp hafter
  have hleased : leasedBy s.loops.length (.receive id settings :: after) s =
      leasedBy s.loops.length after started := by
    rw [leasedBy, hstarted, Option.map_some, Option.getD_some]
    rfl
  cases (happen_receive hpulled).symm.trans hstarted
  obtain ⟨l, hloop, hsubscription, hlimit, hl⟩ :=
    run_loop hrun List.getElem?_concat_length (keeps_started id settings s)
  have hfresh : (fresh project world reactors).Handed := .nil
  have hs : s.Handed := run_keeps Handed.happens hfresh hbefore
  have hhanded : s'.Handed := run_keeps Handed.happens hs hafter
  have hpermits := hl.permits
  refine ⟨l, hloop, hsubscription, ?_, fun hready => ?_, ?_, ?_, hl.handlers, ?_⟩
  · rw [hlimit] at hpermits
    exact Nat.le_trans (Nat.le_add_right _ _) hpermits
  · rw [isSome_takePermit hloop hready, hlimit]
    rfl
  · rw [hl.received, hleased]
    rfl
  · intro delivery hdelivery
    have hmem : delivery ∈ s'.handed :=
      List.mem_flatMap.mpr ⟨l, List.mem_of_getElem? hloop, hdelivery⟩
    rw [hhanded.count_eq]
    exact List.count_eq_one_of_mem List.nodup_range (hhanded.mem_iff.mp hmem)
  · intro hclosed
    exact ⟨hl.cancelled (hl.closing (.inr hclosed)), hl.closed hclosed⟩

/-- A subscription, and a loop on it with one permit. -/
def oneLoop : List (Happening Unit) :=
  [.call (.createTopic "t" {}), .call (.createSubscription "s" { topic := "t" }),
    .receive "s" { workers := 0 }]

/-- Three messages for two loops, the second of which is cancelled when it has a permit. -/
def cancelledLoop : List (Happening Unit) :=
  [.call (.publish "t" { data := [1] }), .call (.publish "t" { data := [2] }),
    .call (.publish "t" { data := [3] }), .move (.takePermit 1), .move (.look 1),
    .move (.takePermit 0), .move (.look 0), .move (.takePermit 1), .cancel 1, .move (.look 1),
    .move (.finish 1 2), .move (.quit 1), .call (.nack 0), .move (.finish 1 0), .move (.close 1)]

/-- The message that is leased after the cancellation is handed out as well. -/
theorem receive_keeps_limits_cancelled :
    ∃ s s' l, run oneLoop (fresh "p" () []) = some s ∧
      run (.receive "s" { workers := 3, maxMessages := 2 } :: cancelledLoop) s = some s' ∧
      s'.loops[1]? = some l ∧ l.phase = .closed ∧ l.received = [0, 2] ∧
      l.running.length ≤ 2 ∧ l.received.Perm (Happening.finishedIn 1 cancelledLoop) ∧
      s'.handed = [1, 0, 2] ∧ ∀ delivery ∈ l.received, s'.handed.count delivery = 1 := by
  obtain ⟨l, hl, -, hrunning, -, -, honce, hfinished, -⟩ :=
    @receive_keeps_limits Unit _ "p" () [] oneLoop cancelledLoop "s"
      { workers := 3, maxMessages := 2 } _ _ rfl rfl rfl
  have hloop : l.phase = .closed ∧ l.received = [0, 2] ∧ l.running = [] := by
    cases hl
    exact ⟨rfl, rfl, rfl⟩
  rw [hloop.2.2, List.append_nil] at hfinished
  exact ⟨_, _, l, rfl, rfl, hl, hloop.1, hloop.2.1, hrunning, hfinished, rfl, honce⟩

end Receiving

end Messaging
