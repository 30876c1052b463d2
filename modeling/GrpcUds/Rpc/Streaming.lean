import GrpcUds.Client.Bodies
import GrpcUds.Server.Delivery

/-!
# Messages from one end to the other

The server's queue cuts its messages into DATA as nghttp2 asks for it, and may drop some to
make room.  The client puts the messages together again from the chunks that arrive.
-/

namespace GrpcUds.Rpc

open Transition Framing Client Server

/-- Frames within their length field can be told apart. -/
theorem frame_append_inj {first second rest more : Bytes} (fits : first.length ≤ u32Max)
    (fitsToo : second.length ≤ u32Max) (same : frame first ++ rest = frame second ++ more) :
    first = second ∧ rest = more := by
  have carried : Carries 4294967295 (frame first ++ rest) first :=
    carries_iff_frame.mpr ⟨fits, rest, rfl⟩
  obtain rfl := carried.unique (carries_iff_frame.mpr ⟨fitsToo, more, same⟩)
  exact ⟨rfl, List.append_cancel_left same⟩

/-- Whole frames at the front of other frames are the first of them. -/
theorem prefix_of_frames {messages kept : List Bytes} {rest : Bytes}
    (fits : ∀ message ∈ messages, message.length ≤ u32Max)
    (fitsToo : ∀ message ∈ kept, message.length ≤ u32Max)
    (before : frames messages ++ rest <+: frames kept) : messages <+: kept := by
  induction messages generalizing kept with
  | nil => exact List.nil_prefix
  | cons message messages ih =>
      obtain ⟨left, whole⟩ := before
      cases kept with
      | nil =>
          have size := congrArg List.length whole
          simp only [frames_cons, List.length_append, length_frame, frameHeaderLen] at size
          simp [frames] at size
      | cons first kept =>
          obtain ⟨fit, others⟩ := List.forall_mem_cons.mp fits
          obtain ⟨fitFirst, othersToo⟩ := List.forall_mem_cons.mp fitsToo
          simp only [frames_cons, List.append_assoc] at whole
          obtain ⟨rfl, same⟩ := frame_append_inj fit fitFirst whole
          rw [List.prefix_cons_inj]
          exact ih others othersToo ⟨left, by rw [List.append_assoc, same]⟩

def dropsOldest : Backpressure → Bool
  | .bounded _ .dropOldest => true
  | _ => false

/-- The policy is not to drop, and every accepted message has left or is queued. -/
structure Lossless (history : History) : Prop where
  policy : dropsOldest history.queue.backpressure = false
  whole : history.completed ++ history.queued = List.range history.accepted.length

namespace Lossless

variable {history next : History}

variable (lossless : Lossless history)
include lossless

theorem evict_eq : history.evict = history := by
  have stays : history.queue.evicts = none := by
    have policy := lossless.policy
    unfold OutQueue.evicts
    split <;> simp_all [dropsOldest]
  simp [History.evict, OutQueue.evictedMessages, stays]

theorem append (message : OutMsg) :
    Lossless (history.append message) := by
  refine ⟨lossless.policy, ?_⟩
  simp only [History.append, List.length_append, List.length_singleton, List.range_succ]
  rw [← List.append_assoc, lossless.whole]

theorem ship (out : Bytes) {queue : OutQueue}
    (same : queue.backpressure = history.queue.backpressure) :
    Lossless (history.ship out queue) := by
  refine ⟨by rw [History.ship, same, lossless.policy], ?_⟩
  simp only [History.ship, List.append_assoc, List.take_append_drop]
  exact lossless.whole

theorem step {event : QueueEvent} (performed : history.step event = some next)
    (mild : ∀ policy, event = .setBackpressure policy → dropsOldest policy = false) :
    Lossless next := by
  have enqueued {P : OutMsg → Prop} : (next = history ∨ next = history.evict ∨
      ∃ message, P message ∧ next = history.evict.append message) → Lossless next := by
    rw [lossless.evict_eq]
    rintro (rfl | rfl | ⟨message, _, rfl⟩)
    · exact lossless
    · exact lossless
    · exact lossless.append message
  cases event with
  | enqueueOwned body reserve =>
      obtain rfl := Option.some.inj performed
      exact enqueued (history.enqueueOwned_cases body reserve)
  | enqueueFramed payload copy reserve =>
      obtain rfl := Option.some.inj performed
      exact enqueued (history.enqueueFramed_cases payload copy reserve)
  | setBackpressure policy =>
      obtain rfl := Option.some.inj performed
      exact ⟨mild policy rfl, lossless.whole⟩
  | drainInto window =>
      obtain ⟨_, same⟩ := Option.ite_none_right_eq_some.mp performed
      obtain rfl := Option.some.inj same
      exact lossless.ship _ rfl
  | promiseFront max =>
      obtain ⟨_, same⟩ := Option.ite_none_right_eq_some.mp performed
      obtain rfl := Option.some.inj same
      refine ⟨?_, lossless.whole⟩
      change dropsOldest (history.queue.promiseFront max).2.backpressure = false
      rw [OutQueue.promiseFront]
      split <;> exact lossless.policy
  | consumeFront =>
      cases opened : history.promised with
      | none => simp [History.step, opened] at performed
      | some n =>
          simp only [History.step, opened, Option.some.injEq] at performed
          obtain rfl := performed
          exact lossless.ship _ rfl

theorem run {events : List QueueEvent}
    (reached : run History.step history events = some next)
    (mild : ∀ policy, .setBackpressure policy ∈ events → dropsOldest policy = false) :
    Lossless next := by
  induction events generalizing history with
  | nil =>
      obtain rfl := Option.some.inj reached
      exact lossless
  | cons event events ih =>
      obtain ⟨middle, performed, continued⟩ := Option.bind_eq_some_iff.mp reached
      refine ih (lossless.step performed fun policy same => ?_) continued
        fun policy later => mild policy (List.mem_cons_of_mem _ later)
      exact mild policy (same ▸ List.mem_cons_self)

end Lossless

theorem accepted_fits {events : List QueueEvent} {history : History}
    (reached : run History.step .new events = some history) :
    ∀ payload ∈ history.accepted, payload.length ≤ u32Max := by
  let Fits : History → Prop := fun history => ∀ payload ∈ history.accepted, payload.length ≤ u32Max
  refine run_invariant (fun history event next (fits : Fits history) performed => ?_)
    (fun _ listed => absurd listed List.not_mem_nil) reached
  cases History.step_effect performed with
  | appended message =>
      exact List.forall_mem_append.mpr ⟨fits, List.forall_mem_singleton.mpr message.fits⟩
  | _ => exact fits

/-- The accepted messages that were not dropped, in order. -/
def keptOf (history : History) : List Bytes :=
  (history.completed ++ history.queued).map fun number => history.accepted.getD number []

/-- In every run of a stream's queue, whatever first part of its bytes has reached the client
and in whatever chunks, the client's messages are the first of those that the server accepted
and did not drop, in order.  Once all bytes have arrived and the queue is empty they are all
of them, unless one is above the client's cap.  If the policy never was to drop the oldest,
the server has dropped none. -/
theorem messages_arrive_in_order {events : List QueueEvent} {history : History}
    {chunks : List Bytes} (reached : run History.step .new events = some history)
    (carried : chunks.flatten <+: history.handed) (request : Bytes) :
    let client := (CallState.reset request).onChunks chunks
    (keptOf history).Sublist history.accepted ∧ client.messages <+: keptOf history ∧
    (chunks.flatten = history.handed → history.queued = [] →
      (∀ message ∈ keptOf history, message.length ≤ Client.maxMessageLen.toNat) →
      client.messages = keptOf history ∧ client.inbuf = []) ∧
    ((∀ policy, .setBackpressure policy ∈ events → dropsOldest policy = false) →
      keptOf history = history.accepted) := by
  intro client
  have invariant := History.run_history_invariant reached
  have among : (keptOf history).Sublist history.accepted :=
    History.map_getD_sublist invariant.ordered invariant.bounded
  have whole : frames (keptOf history) = history.completed.flatMap history.frameOf ++
      wire history.queue.messages := by
    have queued := congrArg frames invariant.carried
    rw [keptOf, List.map_append, frames_append, queued]
    simp only [frames, List.flatMap_map, wire, ← OutMsg.bytes_eq_frame]
    rfl
  have fresh : Deframed [] (CallState.reset request).messages (CallState.reset request).inbuf
    := .nil
  have deframed : Deframed chunks.flatten client.messages client.inbuf :=
    CallState.onChunks_deframed fresh chunks
  refine ⟨among, ?_, fun all empty small => ?_, fun mild => ?_⟩
  · have part : frames client.messages ++ client.inbuf <+: frames (keptOf history) := by
      rw [← deframed.whole, whole]
      refine carried.trans ?_
      rw [invariant.shipped, List.prefix_append_right_inj]
      exact List.take_prefix _ _
    exact prefix_of_frames (fun message member => (deframed.fits message member).trans (by decide))
      (fun message member => accepted_fits reached message (among.subset member)) part
  · have none : history.queue.messages = [] := by simpa [empty] using invariant.carried
    have bytes : chunks.flatten = frames (keptOf history) ++ [] := by
      simp [all, invariant.shipped, whole, none]
    exact deframed.unique ⟨bytes, small, Deframed.nil.stuck⟩
  · rw [keptOf, (Lossless.run ⟨rfl, rfl⟩ reached mild).whole, History.map_getD_range]

/-- A message leaves in two parts around the next write, and the client gets it in chunks
that fit neither. -/
theorem messages_arrive_in_order_in_chunks :
    let events : List QueueEvent := [.enqueueOwned [1, 2] true, .drainInto 4,
      .enqueueFramed [3] true true, .promiseFront 9, .consumeFront, .drainInto 100]
    let chunks : List Bytes := [[0, 0], [0, 0, 2, 1], [2, 0, 0, 0, 0, 1, 3]]
    ∃ history, run History.step .new events = some history ∧
      ((CallState.reset []).onChunks chunks).messages = history.accepted := by
  intro events chunks
  refine ⟨_, rfl, ?_⟩
  obtain ⟨_, _, all, whole⟩ := @messages_arrive_in_order events _ chunks rfl (by decide) []
  exact (all (by decide) rfl (by decide)).1.trans (whole (by simp [events]))

end GrpcUds.Rpc
