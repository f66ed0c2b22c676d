import Messaging.Broker.Store
import Mathlib.Data.List.Basic

/-! # Numbers in names

The number of a message and the number of a lease are written in decimal digits. `natural_inj`: the
digits determine the number. `ackId_inj`: an ack id, a message id and a number with a hyphen between
them, determines the number of the lease, whatever the message id is: digits have no hyphen. -/

namespace Messaging.Text

open Number

theorem digitsOf_inj {m n : Nat} (h : digitsOf m = digitsOf n) : m = n := by
  have h' := congrArg (Nat.ofDigitChars 10 · 0) h
  simpa only [digitsOf, Nat.ofDigitChars_ten_toDigits] using h'

theorem isDigit_of_mem_digitsOf {c : Char} {n : Nat} (h : c ∈ digitsOf n) : c.isDigit :=
  Nat.isDigit_of_mem_toDigits (by decide) (by decide) h

theorem hyphen_notMem_digitsOf (n : Nat) : '-' ∉ digitsOf n := fun h => by
  have := isDigit_of_mem_digitsOf h
  revert this
  decide

theorem natural_inj {m n : Nat} (h : natural m = natural n) : m = n :=
  digitsOf_inj (String.ofList_injective h)

end Messaging.Text

namespace Messaging

open Number Text

/-- What precedes the last occurrence of a character and what follows it are determined. -/
theorem append_cons_inj_of_notMem {α : Type} {a : α} :
    ∀ {s t u v : List α}, a ∉ u → a ∉ v → s ++ a :: u = t ++ a :: v → s = t ∧ u = v
  | [], [], u, v, _, _, h => ⟨rfl, (List.cons.inj h).2⟩
  | [], x :: t, u, v, hu, _, h => by
    have h' := (List.cons.inj h).2
    exact absurd (h' ▸ by simp : a ∈ u) hu
  | x :: s, [], u, v, _, hv, h => by
    have h' := (List.cons.inj h).2
    exact absurd (h' ▸ by simp : a ∈ v) hv
  | x :: s, y :: t, u, v, hu, hv, h => by
    obtain ⟨hxy, h'⟩ := List.cons.inj h
    obtain ⟨hst, huv⟩ := append_cons_inj_of_notMem hu hv h'
    exact ⟨by rw [hxy, hst], huv⟩

theorem ackId_inj {id id' : String} {n n' : Nat} (h : Store.ackId id n = Store.ackId id' n') :
    id = id' ∧ n = n' := by
  have h' := congrArg String.toList h
  simp only [Store.ackId, natural, String.toList_append, String.toList_ofList, List.append_assoc]
    at h'
  obtain ⟨hid, hn⟩ := append_cons_inj_of_notMem (hyphen_notMem_digitsOf n)
    (hyphen_notMem_digitsOf n') h'
  exact ⟨String.toList_injective hid, digitsOf_inj hn⟩

end Messaging
