import Messaging.Proofs.Steps
import Mathlib.Data.Fintype.Pigeonhole
import Mathlib.Data.Set.Finite.Basic
import Mathlib.Logic.Relation

/-! # Recursion that does not end

A recursive function that is given a number of steps does not end if every number is too small.
`stops_iff_comes_back`: if its calls keep to finitely many arguments, a function does not end
exactly where it comes to a call that comes to itself again. Towards the cycle it is always one of
the calls that does not end, and among finitely many arguments one has to come twice; from the cycle
on no number of steps is enough, since a call takes one step less than its caller. -/

namespace Messaging

open Relation

variable {ε α β : Type}

/-- Where each of finitely many has a next one among them, one comes to a cycle. -/
theorem exists_cycle {r : α → α → Prop} {U : Set α} (hfinite : U.Finite)
    (hnext : ∀ a ∈ U, ∃ b ∈ U, r a b) {a : α} (ha : a ∈ U) :
    ∃ b, ReflTransGen r a b ∧ TransGen r b b := by
  choose! next hmem hr using hnext
  have hvisit : ∀ n, next^[n] a ∈ U := fun n => by
    induction n with
    | zero => exact ha
    | succ n ih =>
      rw [Function.iterate_succ_apply']
      exact hmem _ ih
  have hpath : ∀ m n, ReflTransGen r (next^[m] a) (next^[m + n] a) := fun m n => by
    induction n with
    | zero => exact .refl
    | succ n ih =>
      rw [← Nat.add_assoc, Function.iterate_succ_apply']
      exact ih.tail (hr _ (hvisit _))
  -- The visits cannot all be different.
  obtain ⟨m, n, hlt, hsame⟩ : ∃ m n, m < n ∧ next^[m] a = next^[n] a := by
    have := hfinite.to_subtype
    obtain ⟨m, n, hne, hsame⟩ :=
      Finite.exists_ne_map_eq_of_infinite fun n : Nat => (⟨next^[n] a, hvisit n⟩ : U)
    have hsame := congrArg Subtype.val hsame
    rcases Nat.lt_or_gt_of_ne hne with hlt | hlt
    · exact ⟨m, n, hlt, hsame⟩
    · exact ⟨n, m, hlt, hsame.symm⟩
  obtain ⟨k, rfl⟩ := Nat.exists_eq_add_of_lt hlt
  have hback : TransGen r (next^[m] a) (next^[m + k + 1] a) := by
    rw [Function.iterate_succ_apply']
    exact .tail' (hpath m k) (hr _ (hvisit _))
  rw [← hsame] at hback
  have hstart := hpath 0 m
  rw [Nat.zero_add] at hstart
  exact ⟨_, hstart, hback⟩

section

variable {F : Nat → α → Except ε β} {stop : ε} {calls : α → α → Prop}

/-- Where each argument has a next one that it calls, no number of steps is enough. -/
theorem stops_of_calls (hzero : ∀ a, F 0 a = .error stop)
    (hcalls : ∀ n a b, calls a b → F n b = .error stop → F (n + 1) a = .error stop) {U : Set α}
    (hnext : ∀ a ∈ U, ∃ b ∈ U, calls a b) (n : Nat) : ∀ a ∈ U, F n a = .error stop := by
  induction n with
  | zero => exact fun a _ => hzero a
  | succ n ih =>
    intro a ha
    obtain ⟨b, hb, hab⟩ := hnext a ha
    exact hcalls n a b hab (ih b hb)

/-- A call does not end exactly if it comes to one that comes to itself again. -/
theorem stops_iff_comes_back (hzero : ∀ a, F 0 a = .error stop)
    (hcalls : ∀ n a b, calls a b → F n b = .error stop → F (n + 1) a = .error stop) {U : Set α}
    (hfinite : U.Finite) (hclosed : ∀ a ∈ U, ∀ b, calls a b → b ∈ U)
    (hstops : ∀ a ∈ U, (∀ n, F n a = .error stop) → ∃ b, calls a b ∧ ∀ n, F n b = .error stop)
    {a : α} (ha : a ∈ U) :
    (∀ n, F n a = .error stop) ↔ ∃ b, ReflTransGen calls a b ∧ TransGen calls b b := by
  constructor
  · intro h
    refine exists_cycle (U := {a ∈ U | ∀ n, F n a = .error stop}) (hfinite.subset fun _ h => h.1)
      (fun b hb => ?_) ⟨ha, h⟩
    obtain ⟨c, hbc, hc⟩ := hstops b hb.1 hb.2
    exact ⟨c, ⟨hclosed b hb.1 c hbc, hc⟩, hbc⟩
  · rintro ⟨b, hab, hback⟩ n
    -- All that come to the cycle have a next one that does.
    refine stops_of_calls hzero hcalls (U := {a | ReflTransGen calls a b}) (fun c hc => ?_) n a hab
    rcases hc.cases_head with rfl | ⟨d, hcd, hdb⟩
    · obtain ⟨d, hcd, hdb⟩ := TransGen.head'_iff.mp hback
      exact ⟨d, hdb, hcd⟩
    · exact ⟨d, hdb, hcd⟩

end

end Messaging
