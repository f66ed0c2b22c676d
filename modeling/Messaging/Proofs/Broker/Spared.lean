import Messaging.Proofs.Broker.Deliveries
import Messaging.Proofs.Broker.Handles

/-! # Calls that spare a handle

A call of the emulator registers one reactor at most (`Call.reactors_run`). It spares a handle if it
registers none and neither sets nor stops the handle, which is as before then
(`Call.handle_run`). -/

namespace Messaging

namespace Call

variable {σ : Type}

/-- The reactor that a call adds. -/
def added? : Call σ → Option (Reactor σ)
  | addReactor r => some r
  | _ => none

/-- Does the call leave a handle as it is, and the reactors? -/
def spares (n : Nat) : Call σ → Bool
  | addReactor _ => false
  | configure m _ _ => m ≠ n
  | stop m => m ≠ n
  | _ => true

theorem added?_of_spares {n : Nat} {c : Call σ} (hc : c.spares n = true) : c.added? = none := by
  cases c with
  | addReactor r => exact absurd hc (by simp [spares])
  | _ => rfl

variable [Log.Journal σ]

theorem reactors_run (e : Emulator σ) (c : Call σ) :
    (c.run e).reactors = e.reactors ++ c.added?.toList := by
  have hrestocked : ∀ {e' : Emulator σ}, Emulator.Restocked e e' →
      e'.reactors = e.reactors ++ [] := by
    rintro e' ⟨world, store, rfl⟩
    exact (List.append_nil _).symm
  have honce : ∀ (k : AckKind) (n : Nat), ((k.call n).run e).reactors = e.reactors ++ [] := by
    intro k n
    rw [List.append_nil]
    rcases k.run_cases n e with ⟨-, hrun⟩ | ⟨d, -, world, store, hrun⟩ <;> rw [hrun]
    rfl
  cases c with
  | addReactor r => rfl
  | openTopic id => exact (List.append_nil _).symm
  | configure handle settings ordering => exact (List.append_nil _).symm
  | findTopic id => exact hrestocked (Emulator.guarded_restocked (fun e => .refl e) e)
  | createTopic id config =>
    exact hrestocked (Emulator.guarded_restocked (Emulator.served_restocked _) e)
  | findSubscription id => exact hrestocked (Emulator.guarded_restocked (fun e => .refl e) e)
  | createSubscription id config =>
    exact hrestocked (Emulator.guarded_restocked (Emulator.served_restocked _) e)
  | schema reference =>
    exact hrestocked (Emulator.guarded_restocked (fun e => by split <;> exact .refl e) e)
  | createSchema id config =>
    refine hrestocked (Emulator.guarded_restocked (fun e => ?_) e)
    split
    · next created store _ => exact ⟨e.world, store, rfl⟩
    · exact .refl e
  | publish topicId content => exact hrestocked (Emulator.publish_restocked topicId content e)
  | submit handle content => exact hrestocked (Emulator.submit_restocked handle content e)
  | pull name =>
    exact hrestocked (Emulator.guarded_restocked (fun e => by split <;> exact .refl e) e)
  | acknowledge name ackId => exact hrestocked (Emulator.acknowledge_restocked name ackId e)
  | modifyAckDeadline name ackId seconds =>
    exact hrestocked (Emulator.modifyAckDeadline_restocked name ackId seconds e)
  | stop n =>
    simp only [run, Emulator.stop, added?, Option.toList_none, List.append_nil]
    split
    · rfl
    · split <;> rfl
  | lease name =>
    simp only [run, Emulator.lease, added?, Option.toList_none, List.append_nil]
    split <;> rfl
  | ack n => exact honce .ack n
  | nack n => exact honce .nack n

theorem handle_run {n : Nat} {c : Call σ} (hc : c.spares n = true) {e : Emulator σ}
    {h : TopicHandle} (hh : e.handles[n]? = some h) : (c.run e).handles[n]? = some h := by
  have hsame : ∀ {e' : Emulator σ}, e'.handles = e.handles → e'.handles[n]? = some h :=
    fun heq => by rw [heq, hh]
  cases c with
  | addReactor r => exact hh
  | findTopic id => exact hsame (Emulator.findTopic_handles id e)
  | createTopic id config => exact hsame (Emulator.createTopic_handles id config e)
  | findSubscription id => exact hsame (Emulator.findSubscription_handles id e)
  | createSubscription id config => exact hsame (Emulator.createSubscription_handles id config e)
  | schema reference => exact hsame (Emulator.schema_handles reference e)
  | createSchema id config => exact hsame (Emulator.createSchema_handles id config e)
  | openTopic id =>
    have hlt : n < e.handles.length := (List.getElem?_eq_some_iff.mp hh).1
    exact (List.getElem?_append_left hlt).trans hh
  | configure m settings ordering =>
    have hne : m ≠ n := of_decide_eq_true hc
    simp [run, Emulator.configure, hne, hh]
  | publish topicId content => exact hsame (Emulator.publish_handles topicId content e)
  | submit handle content => exact hsame (Emulator.submit_handles handle content e)
  | stop m =>
    have hne : m ≠ n := of_decide_eq_true hc
    simp only [run, Emulator.stop]
    split
    · exact hh
    · split
      · exact hh
      · show (e.handles.modify m fun h => { h with stopped := true })[n]? = some h
        simp [hne, hh]
  | pull name => exact hsame (Emulator.pull_handles name e)
  | lease name => exact hsame (Emulator.lease_handles name e)
  | acknowledge name ackId => exact hsame (Emulator.acknowledge_handles name ackId e)
  | modifyAckDeadline name ackId seconds =>
    exact hsame (Emulator.modifyAckDeadline_handles name ackId seconds e)
  | ack delivery => exact hsame (Emulator.ack_handles delivery e)
  | nack delivery => exact hsame (Emulator.nack_handles delivery e)

end Call

end Messaging
