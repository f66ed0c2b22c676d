import Messaging.Broker.Emulator

/-! # Reactors in a row

A request is shown to reactors one after the other until one handles it. Either all of them let it
pass (`Reactor.Passes`), or the first that handles it decides what becomes of it and the reactors
behind it are not shown the request (`Reactor.Decides`). Exactly one of the two is the case, and
`Reactor.offer_eq_some_iff` says that a request fails with an error if and only if the reactor that
decides gives that error. -/

namespace Messaging

namespace Reactor

variable {σ τ : Type} {request : Request} {s s' s'' : σ} {reaction reaction' : Reaction}

/-! ### Chains -/

theorem chain_append (method : String) (l l' : List (Reactor σ)) :
    chain method (l ++ l') = chain method l ++ chain method l' :=
  List.flatMap_append

theorem mem_of_mem_chain {method : String} {l : List (Reactor σ)} {r : Reactor σ}
    (h : r ∈ chain method l) : r ∈ l := by
  obtain ⟨r', hr', h⟩ := List.mem_flatMap.mp h
  obtain ⟨_, _, rfl⟩ := List.mem_map.mp h
  exact hr'

/-! ### Who handles a request -/

/-- Does a reactor of the list handle the request? -/
def handled (request : Request) : List (Reactor σ) → σ → Bool
  | [], _ => false
  | r :: rest, s =>
    (r.react request s).1.handled || handled request rest (r.react request s).2

theorem offer_cons (r : Reactor σ) (rest : List (Reactor σ)) (s : σ) :
    offer request (r :: rest) s =
      if (r.react request s).1.handled then ((r.react request s).1.error, (r.react request s).2)
      else offer request rest (r.react request s).2 := rfl

/-- The reactors behind see the request only if none in front handles it. -/
theorem offer_append (l l' : List (Reactor σ)) (s : σ) :
    offer request (l ++ l') s =
      if handled request l s then offer request l s
      else offer request l' (offer request l s).2 := by
  induction l generalizing s with
  | nil => rfl
  | cons r rest ih =>
    rw [List.cons_append, offer_cons, offer_cons, handled, ih]
    by_cases hr : (r.react request s).1.handled = true <;> simp [hr]

/-- The reactors of a list that are shown a request: all of them up to the first that handles it. -/
def shown (request : Request) : List (Reactor σ) → σ → List (Reactor σ)
  | [], _ => []
  | r :: rest, s =>
    r :: if (r.react request s).1.handled then [] else shown request rest (r.react request s).2

theorem shown_cons (r : Reactor σ) (rest : List (Reactor σ)) (s : σ) :
    shown request (r :: rest) s =
      r :: if (r.react request s).1.handled then []
        else shown request rest (r.react request s).2 := rfl

/-- Reactors that leave a part of the state alone do so when they are shown a request. -/
theorem offer_keeps {get : σ → τ} {l : List (Reactor σ)}
    (h : ∀ r ∈ l, ∀ request s, get (r.react request s).2 = get s) (s : σ) :
    get (offer request l s).2 = get s := by
  induction l generalizing s with
  | nil => rfl
  | cons r rest ih =>
    have hr := h r List.mem_cons_self request s
    rw [offer_cons]
    split
    · exact hr
    · exact (ih (fun r' hr' => h r' (List.mem_cons_of_mem _ hr')) _).trans hr

/-- All reactors of a list are shown a request, one after the other, and none handles it. They
remember `s` before and `s'` after. -/
inductive Passes (request : Request) : List (Reactor σ) → σ → σ → Prop
  | nil (s : σ) : Passes request [] s s
  | cons {r : Reactor σ} {rest : List (Reactor σ)} {s s' : σ}
      (unhandled : (r.react request s).1.handled = false)
      (passes : Passes request rest (r.react request s).2 s') : Passes request (r :: rest) s s'

/-- The first reactor of a list that handles a request gives this reaction to it, and the reactors
remember `s'` then: nothing is added to it by the reactors behind. -/
def Decides (request : Request) (l : List (Reactor σ)) (s : σ) (reaction : Reaction) (s' : σ) :
    Prop :=
  ∃ front r back t, l = front ++ r :: back ∧ Passes request front s t ∧
    r.react request t = (reaction, s') ∧ reaction.handled = true

theorem Decides.of_head {r : Reactor σ} {rest : List (Reactor σ)}
    (h : (r.react request s).1.handled = true) :
    Decides request (r :: rest) s (r.react request s).1 (r.react request s).2 :=
  ⟨[], r, rest, s, rfl, .nil s, rfl, h⟩

theorem Decides.of_tail {r : Reactor σ} {rest : List (Reactor σ)}
    (hr : (r.react request s).1.handled = false)
    (h : Decides request rest (r.react request s).2 reaction s') :
    Decides request (r :: rest) s reaction s' := by
  obtain ⟨front, q, back, t, rfl, hfront, hq, hh⟩ := h
  exact ⟨r :: front, q, back, t, rfl, .cons hr hfront, hq, hh⟩

/-- Either nobody handles a request or somebody decides. -/
theorem passes_or_decides (request : Request) (l : List (Reactor σ)) (s : σ) :
    (∃ s', Passes request l s s') ∨ ∃ reaction s', Decides request l s reaction s' := by
  induction l generalizing s with
  | nil => exact .inl ⟨s, .nil s⟩
  | cons r rest ih =>
    cases hr : (r.react request s).1.handled with
    | true => exact .inr ⟨_, _, .of_head hr⟩
    | false =>
      rcases ih (r.react request s).2 with ⟨s', h⟩ | ⟨reaction, s', h⟩
      · exact .inl ⟨s', .cons hr h⟩
      · exact .inr ⟨reaction, s', .of_tail hr h⟩

theorem Passes.handled {l : List (Reactor σ)} (h : Passes request l s s') :
    handled request l s = false := by
  induction h with
  | nil s => rfl
  | cons unhandled _ ih => rw [Reactor.handled, unhandled, ih, Bool.or_self]

/-- A request that nobody handles goes on. -/
theorem Passes.offer {l : List (Reactor σ)} (h : Passes request l s s') :
    offer request l s = (none, s') := by
  induction h with
  | nil s => rfl
  | cons unhandled _ ih => rw [offer_cons, unhandled, if_neg Bool.false_ne_true, ih]

/-- Everybody is shown a request that nobody handles. -/
theorem Passes.shown {l : List (Reactor σ)} (h : Passes request l s s') :
    shown request l s = l := by
  induction h with
  | nil s => rfl
  | cons unhandled _ ih => rw [shown_cons, unhandled, if_neg Bool.false_ne_true, ih]

/-- What becomes of a request is up to the one who decides. -/
theorem Decides.offer {l : List (Reactor σ)} (h : Decides request l s reaction s') :
    offer request l s = (reaction.error, s') := by
  obtain ⟨front, r, back, t, rfl, hfront, hr, hh⟩ := h
  rw [offer_append, hfront.handled, if_neg Bool.false_ne_true, hfront.offer, offer_cons, hr,
    if_pos hh]

/-- A request fails if and only if the first reactor that handles it gives an error, and it fails
with that error. -/
theorem offer_eq_some_iff {l : List (Reactor σ)} {error : BrokerError} :
    offer request l s = (some error, s') ↔ Decides request l s (.fail error) s' := by
  constructor
  · intro h
    rcases passes_or_decides request l s with ⟨t, hp⟩ | ⟨reaction, t, hd⟩
    · rw [hp.offer] at h
      cases h
    · have hhandled : reaction.handled = true := by
        obtain ⟨-, -, -, -, -, -, -, hh⟩ := hd
        exact hh
      rw [hd.offer] at h
      obtain ⟨herror, rfl⟩ := Prod.mk.inj h
      have hreaction : reaction = .fail error := by
        cases reaction
        simp_all [Reaction.fail]
      exact hreaction ▸ hd
  · intro h
    exact h.offer

end Reactor

end Messaging
