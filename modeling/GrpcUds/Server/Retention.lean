import GrpcUds.Server.Backpressure

/-!
# What a queue under a fixed policy keeps

The policy is set once and every allocation succeeds.  Then the unstarted messages are
the newest accepted ones.  Under `DropOldest` every enqueue that fits the length field
is accepted; under `Reject` every number is completed or still queued, so each drain
brings the accepted messages nearer to being handed out.
-/

namespace GrpcUds.Server

open Transition Framing

/-- The policy stays as it is and every allocation succeeds. -/
def QueueEvent.regular : QueueEvent → Bool
  | .enqueueOwned _ reserve => reserve
  | .enqueueFramed _ copy reserve => copy && reserve
  | .setBackpressure _ => false
  | .drainInto _ | .promiseFront _ | .consumeFront => true

namespace OutQueue

/-- The messages that may still be dropped. -/
def unstarted (queue : OutQueue) : List OutMsg := queue.messages.drop queue.dropIdx

theorem evicts_of_reject {queue : OutQueue} {capacity : ℕ+}
    (policy : queue.backpressure = .bounded capacity .reject) : queue.evicts = none := by
  simp [evicts, policy]

end OutQueue

namespace History

variable {history next later : History} {capacity : ℕ+} {policy : OverflowPolicy}

/-- Where nothing is evicted a number leaves the queue only as a completed one. -/
theorem Effect.numbers (effect : history.Effect next) (kept : history.queue.evicts = none) :
    (next.completed ++ next.queued = history.completed ++ history.queued ∧
        next.accepted = history.accepted) ∨
      ∃ body, next.completed ++ next.queued =
          history.completed ++ history.queued ++ [history.accepted.length] ∧
        next.accepted = history.accepted ++ [body] := by
  cases effect with
  | same => exact .inl ⟨rfl, rfl⟩
  | evicted => exact .inl ⟨by simp [evict, kept], rfl⟩
  | appended message => exact .inr ⟨message.body, by simp [append, evict, kept], rfl⟩
  | configured backpressure => exact .inl ⟨rfl, rfl⟩
  | drained window closed => exact .inl ⟨by simp [ship], rfl⟩
  | promised max closed => exact .inl ⟨rfl, rfl⟩
  | consumed n opened => exact .inl ⟨by simp [ship], rfl⟩

structure Retains (capacity : ℕ+) (policy : OverflowPolicy) (history : History) : Prop where
  invariant : history.Invariant
  bounded : history.queue.backpressure = .bounded capacity policy
  newest : history.unstarted <:+ List.range history.accepted.length
  whole : policy = .reject →
    history.completed ++ history.queued = List.range history.accepted.length

theorem Retains.step (retains : history.Retains capacity policy) {event : QueueEvent}
    (regular : event.regular = true) (performed : history.step event = some next) :
    next.Retains capacity policy := by
  have effect := step_effect performed
  have kept : ∀ backpressure, event ≠ .setBackpressure backpressure := by
    rintro backpressure rfl
    exact absurd regular Bool.false_ne_true
  refine ⟨effect_invariant effect retains.invariant,
    (backpressure_step performed kept).trans retains.bounded, ?_, ?_⟩
  · rcases effect.unstarted retains.invariant with ⟨suffix, same⟩ | ⟨message, rfl⟩
    · rw [same]
      exact suffix.trans retains.newest
    · obtain ⟨older, split⟩ := history.unstarted_evict_suffix.trans retains.newest
      refine ⟨older, ?_⟩
      have grown : (history.evict.append message).accepted.length =
          history.accepted.length + 1 := by simp [append, evict]
      rw [unstarted_append (evict_invariant retains.invariant), grown, List.range_succ, ← split,
        List.append_assoc]
      rfl
  · rintro rfl
    have before := retains.whole rfl
    rcases effect.numbers (OutQueue.evicts_of_reject retains.bounded) with
      ⟨same, accepted⟩ | ⟨body, joined, accepted⟩
    · rw [same, accepted, before]
    · rw [joined, accepted, before, List.length_append, List.length_singleton, List.range_succ]

end History

end GrpcUds.Server
