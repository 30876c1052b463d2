import GrpcUds.Server.Delivery

/-!
# What a bounded queue keeps

The capacity counts the unstarted messages.  An enqueue over a full queue is refused
or evicts one message, so the queue stays within its capacity as long as no policy is
set that the queue is already beyond.  Whatever leaves the queue, the unstarted
messages are the newest of those accepted; and a queue that refuses loses nothing.
-/

namespace GrpcUds.Server

open Transition Framing

variable {queue : OutQueue}

namespace OutQueue

theorem length_evictedMessages (queue : OutQueue) :
    queue.evictedMessages.length =
      if queue.evicts.isSome then queue.messages.length - 1 else queue.messages.length := by
  unfold evictedMessages
  cases evicted : queue.evicts with
  | none => rfl
  | some index =>
      obtain ⟨_, within⟩ := evicts_eq_dropIdx evicted
      simp [List.length_eraseIdx_of_lt within]

/-- How many unstarted messages an eviction leaves. -/
def spared (queue : OutQueue) : Nat :=
  if queue.evicts.isSome then queue.unstartedCount - 1 else queue.unstartedCount

theorem Enqueued.length_of_ok {after : OutQueue} {body : Bytes}
    (enqueued : Enqueued queue body (.ok ()) after) :
    after.started = queue.started ∧
      after.messages.length = queue.evictedMessages.length + 1 := by
  cases enqueued with
  | accepted message carried => exact ⟨rfl, List.length_append⟩

/-- An accepted message joins the unstarted ones. -/
theorem Enqueued.unstartedCount_of_ok {after : OutQueue} {body : Bytes}
    (enqueued : Enqueued queue body (.ok ()) after)
    (occupied : queue.started = true → queue.messages ≠ []) :
    after.unstartedCount = queue.spared + 1 := by
  obtain ⟨same, joined⟩ := enqueued.length_of_ok
  have size := queue.length_evictedMessages
  unfold spared unstartedCount
  rw [same, joined, size]
  cases isStarted : queue.started with
  | false =>
      simp only [Bool.false_eq_true, if_false]
  | true =>
      cases shape : queue.messages with
      | nil => exact absurd shape (occupied isStarted)
      | cons front rest =>
          -- the started head is not the one that goes
          obtain ⟨kept, survived⟩ := evictedMessages_of_started isStarted shape
          rw [survived, shape] at size
          simp only [if_true, List.length_cons] at size ⊢
          split at size
          next evicted =>
            simp only [evicted, if_true]
            omega
          next whole =>
            simp only [whole]
            rfl

/-- A full queue under `DropOldest` evicts. -/
theorem evicts_isSome_iff {capacity : ℕ+}
    (policy : queue.backpressure = .bounded capacity .dropOldest) :
    queue.evicts.isSome = true ↔ capacity ≤ queue.unstartedCount := by
  have positive := capacity.pos
  unfold evicts
  rw [policy]
  simp only
  split
  next full => simp [full.1]
  next room =>
    simp only [Option.isSome_none, Bool.false_eq_true, false_iff]
    intro full
    apply room
    refine ⟨full, ?_⟩
    unfold unstartedCount at full
    unfold dropIdx
    split at full
    next isStarted =>
      rw [if_pos isStarted]
      omega
    next idle =>
      rw [if_neg idle]
      omega

/-- An eviction makes room for one more unless the queue is beyond its capacity. -/
theorem spared_lt_iff {capacity : ℕ+} {policy : OverflowPolicy}
    (bounded : queue.backpressure = .bounded capacity policy) (open_ : queue.rejects = false) :
    queue.spared < capacity ↔
      (policy = .dropOldest → queue.unstartedCount ≤ capacity) := by
  cases policy with
  | reject =>
      have room : queue.unstartedCount < capacity := by simpa [rejects, bounded] using open_
      have kept : queue.evicts = none := by simp [evicts, bounded]
      simpa [spared, kept] using room
  | dropOldest =>
      have positive := capacity.pos
      simp only [forall_const]
      unfold spared
      split
      next evicted =>
        have full := (evicts_isSome_iff bounded).mp evicted
        omega
      next kept =>
        have room := mt (evicts_isSome_iff bounded).mpr kept
        omega

/-- When an enqueue that returned `Ok` leaves the count within the capacity. -/
theorem unstartedCount_le_iff {after : OutQueue} {body : Bytes} {capacity : ℕ+}
    {policy : OverflowPolicy} (occupied : queue.started = true → queue.messages ≠ [])
    (bounded : queue.backpressure = .bounded capacity policy) (open_ : queue.rejects = false)
    (enqueued : Enqueued queue body (.ok ()) after) :
    after.unstartedCount ≤ capacity ↔
      (policy = .dropOldest → queue.unstartedCount ≤ capacity) := by
  rw [enqueued.unstartedCount_of_ok occupied, ← spared_lt_iff bounded open_, Nat.succ_le_iff]

theorem rejects_of_ok {body : Bytes} {reserve : Bool}
    (ok : (queue.enqueueOwned body reserve).1 = .ok ()) : queue.rejects = false := by
  unfold enqueueOwned at ok
  split at ok
  · simp at ok
  · split at ok
    · simp at ok
    next open_ => exact Bool.eq_false_iff.mpr open_

end OutQueue

namespace History

variable {history next : History}

theorem Invariant.occupied (invariant : history.Invariant)
    (isStarted : history.queue.started = true) : history.queue.messages ≠ [] := by
  intro empty
  have within := history.queue.offsetLe
  rw [empty] at within
  have unshipped : history.queue.frontOffset = 0 := Nat.le_zero.mp within
  have committed : history.queue.frontCommitted = true := by
    simpa [OutQueue.started, unshipped] using isStarted
  cases opened : history.promised with
  | none => simp [invariant.released opened] at committed
  | some n =>
      obtain ⟨available, isCommitted⟩ := invariant.promise n opened
      have positive := isCommitted.mp committed
      simp only [OutQueue.frontRemaining, empty] at available
      omega

/-- Numbers of the messages that may still be dropped. -/
def unstarted (history : History) : List Nat := history.queued.drop history.queue.dropIdx

theorem Invariant.length_queued (invariant : history.Invariant) :
    history.queued.length = history.queue.messages.length := by
  simpa using congrArg List.length invariant.carried

theorem Invariant.length_unstarted (invariant : history.Invariant) :
    history.unstarted.length = history.queue.unstartedCount := by
  rw [unstarted, List.length_drop, invariant.length_queued]
  unfold OutQueue.unstartedCount OutQueue.dropIdx
  split <;> rfl

/-- An eviction takes the oldest of them. -/
theorem unstarted_evict (history : History) :
    history.evict.unstarted =
      if history.queue.evicts.isSome then history.unstarted.tail else history.unstarted := by
  cases evicted : history.queue.evicts with
  | none => simp [unstarted, evict, evicted, OutQueue.dropIdx, OutQueue.started]
  | some index =>
      obtain ⟨rfl, _⟩ := OutQueue.evicts_eq_dropIdx evicted
      have erased : history.evict.unstarted =
          (history.queued.eraseIdx history.queue.dropIdx).drop history.queue.dropIdx := by
        simp [unstarted, evict, evicted, OutQueue.dropIdx, OutQueue.started]
      rw [erased, unstarted, List.tail_drop, Option.isSome_some, if_pos rfl]
      unfold OutQueue.dropIdx
      split
      · cases history.queued with
        | nil => simp
        | cons first others => cases others <;> simp
      · cases history.queued <;> simp

theorem unstarted_evict_suffix (history : History) :
    history.evict.unstarted <:+ history.unstarted := by
  rw [unstarted_evict]
  split
  · exact List.tail_suffix _
  · exact List.suffix_rfl

theorem unstarted_append (invariant : history.Invariant) (message : OutMsg) :
    (history.append message).unstarted = history.unstarted ++ [history.accepted.length] := by
  have within : history.queue.dropIdx ≤ history.queued.length := by
    rw [invariant.length_queued]
    unfold OutQueue.dropIdx
    split
    next isStarted => exact List.length_pos_iff.mpr (invariant.occupied isStarted)
    next => exact Nat.zero_le _
  exact List.drop_append_of_le_length within

/-- Shipping takes them from the front. -/
theorem unstarted_ship {out : Bytes}
    (ships : Ships history.queue.messages history.queue.frontOffset out
      queue.messages queue.frontOffset)
    (progress : history.queue.started = true → 0 < history.queue.frontOffset + out.length) :
    (history.ship out queue).unstarted <:+ history.unstarted := by
  obtain ⟨popped, split, moved⟩ := ships
  have count : history.queue.messages.length - queue.messages.length = popped.length := by
    simp [split]
  have further : history.queue.dropIdx ≤ popped.length + queue.dropIdx := by
    unfold OutQueue.dropIdx
    split
    next isStarted =>
      cases popped with
      | nil =>
          have advanced := offset_of_stay split (by simpa using moved)
          have ahead : queue.started = true := by
            have := progress isStarted
            simp only [OutQueue.started, Bool.or_eq_true, decide_eq_true_eq]
            omega
          simp [ahead]
      | cons front others => simp; omega
    next => exact Nat.zero_le _
  simp only [unstarted, ship, count, List.drop_drop]
  exact List.drop_suffix_drop_left _ further

/-- What an event does to the unstarted messages. -/
theorem Effect.unstarted (effect : history.Effect next) (invariant : history.Invariant) :
    (next.unstarted <:+ history.unstarted ∧ next.accepted = history.accepted) ∨
      ∃ message, next = history.evict.append message := by
  cases effect with
  | same => exact .inl ⟨List.suffix_rfl, rfl⟩
  | evicted => exact .inl ⟨history.unstarted_evict_suffix, rfl⟩
  | appended message => exact .inr ⟨message, rfl⟩
  | configured backpressure => exact .inl ⟨List.suffix_rfl, rfl⟩
  | drained window closed =>
      refine .inl ⟨unstarted_ship (history.queue.drainInto_ships window) fun isStarted => ?_, rfl⟩
      simp only [OutQueue.started, invariant.released closed, Bool.or_false,
        decide_eq_true_eq] at isStarted
      omega
  | promised max closed =>
      refine .inl ⟨?_, rfl⟩
      apply List.drop_suffix_drop_left
      simp only [OutQueue.promiseFront]
      split
      · have first : history.queue.dropIdx ≤ 1 := by
          unfold OutQueue.dropIdx
          split <;> omega
        simpa only [OutQueue.dropIdx, OutQueue.started, Bool.or_true, if_true] using first
      · exact Nat.le_refl _
  | consumed n opened =>
      refine .inl ⟨unstarted_ship (history.queue.consumeFront_ships n) fun isStarted => ?_, rfl⟩
      obtain ⟨available, committed⟩ := invariant.promise n opened
      rw [List.length_append, OutQueue.length_frontRegions available]
      simp only [OutQueue.started, Bool.or_eq_true, decide_eq_true_eq, committed] at isStarted
      omega

/-! ### The capacity -/

/-- No policy that evicts is set over a queue that is already beyond its capacity. -/
def fits (history : History) : QueueEvent → Bool
  | .setBackpressure (.bounded capacity .dropOldest) => history.queue.unstartedCount ≤ capacity
  | _ => true

structure Capped (history : History) : Prop where
  invariant : history.Invariant
  within : ∀ capacity, history.queue.backpressure = .bounded capacity .dropOldest →
    history.queue.unstartedCount ≤ capacity

theorem backpressure_step {event : QueueEvent} (performed : history.step event = some next)
    (kept : ∀ backpressure, event ≠ .setBackpressure backpressure) :
    next.queue.backpressure = history.queue.backpressure := by
  cases event with
  | setBackpressure backpressure => exact absurd rfl (kept backpressure)
  | enqueueOwned body reserve =>
      obtain rfl := Option.some.inj performed
      rcases enqueueOwned_cases history body reserve with same | evicted | ⟨message, _, appended⟩
      · rw [same]
      · rw [evicted]
        rfl
      · rw [appended]
        rfl
  | enqueueFramed payload copy reserve =>
      obtain rfl := Option.some.inj performed
      rcases enqueueFramed_cases history payload copy reserve with
        same | evicted | ⟨message, _, appended⟩
      · rw [same]
      · rw [evicted]
        rfl
      · rw [appended]
        rfl
  | drainInto window =>
      simp only [step, Option.ite_none_right_eq_some, Option.some.injEq] at performed
      obtain ⟨_, rfl⟩ := performed
      rfl
  | promiseFront max =>
      simp only [step, Option.ite_none_right_eq_some, Option.some.injEq] at performed
      obtain ⟨_, rfl⟩ := performed
      simp only [OutQueue.promiseFront]
      split <;> rfl
  | consumeFront =>
      cases opened : history.promised with
      | none => simp [step, opened] at performed
      | some n =>
          simp only [step, opened, Option.some.injEq] at performed
          obtain rfl := performed
          rfl

theorem Capped.step (capped : history.Capped) {event : QueueEvent}
    (fits : history.fits event = true) (performed : history.step event = some next) :
    next.Capped := by
  have effect := step_effect performed
  refine ⟨effect_invariant effect capped.invariant, fun capacity policy => ?_⟩
  by_cases configured : ∃ backpressure, event = .setBackpressure backpressure
  · obtain ⟨backpressure, rfl⟩ := configured
    obtain rfl := Option.some.inj performed
    obtain rfl : backpressure = .bounded capacity .dropOldest := policy
    exact of_decide_eq_true fits
  · have before : history.queue.backpressure = .bounded capacity .dropOldest := by
      rw [← policy]
      exact (backpressure_step performed fun backpressure same => configured ⟨_, same⟩).symm
    have within := capped.within capacity before
    rcases effect.unstarted capped.invariant with ⟨suffix, _⟩ | ⟨message, rfl⟩
    · rw [← (effect_invariant effect capped.invariant).length_unstarted]
      rw [← capped.invariant.length_unstarted] at within
      exact suffix.length_le.trans within
    · have open_ : history.queue.rejects = false := by simp [OutQueue.rejects, before]
      have room := (OutQueue.spared_lt_iff before open_).mpr fun _ => within
      have joined := (OutQueue.Enqueued.accepted message rfl).unstartedCount_of_ok
        capped.invariant.occupied
      exact joined.trans_le room

theorem run_capped {events : List QueueEvent}
    (along : Along step (fun history event => history.fits event = true) new events)
    (reached : run step new events = some history) : history.Capped := by
  refine along.run_invariant (fun _ _ _ capped fits performed => capped.step fits performed)
    ⟨new_invariant, ?_⟩ reached
  intro capacity policy
  exact absurd policy (by simp [new, OutQueue.new])

end History

/-- Every enqueue of a reachable queue that returns `Ok` under a capacity: what it leaves
is within the capacity exactly if the queue was not already beyond it under `DropOldest`;
so it is within the capacity in every run in which no such policy was set over a queue
beyond it. -/
theorem enqueue_within_capacity {events : List QueueEvent} {history : History}
    (reached : run History.step History.new events = some history) {capacity : ℕ+}
    {policy : OverflowPolicy} (bounded : history.queue.backpressure = .bounded capacity policy)
    {body : Bytes} {copy reserve : Bool} {after : OutQueue}
    (enqueued : history.queue.enqueueOwned body reserve = (.ok (), after) ∨
      history.queue.enqueueFramed body copy reserve = (.ok (), after)) :
    (after.unstartedCount ≤ capacity ↔
      (policy = .dropOldest → history.queue.unstartedCount ≤ capacity)) ∧
    (Along History.step (fun history event => history.fits event = true)
      History.new events → after.unstartedCount ≤ capacity) := by
  have owned : history.queue.enqueueOwned body reserve = (.ok (), after) := by
    rcases enqueued with owned | framed
    · exact owned
    · cases copy with
      | false => simp [OutQueue.enqueueFramed] at framed
      | true => exact framed
  have open_ : history.queue.rejects = false :=
    @OutQueue.rejects_of_ok _ body reserve (by rw [owned])
  have spec : OutQueue.Enqueued history.queue body (.ok ()) after := by
    have spec := history.queue.enqueueOwned_spec body reserve
    rwa [owned] at spec
  have iff_ := OutQueue.unstartedCount_le_iff (History.run_history_invariant reached).occupied
    bounded open_ spec
  refine ⟨iff_, fun along => iff_.mpr fun evicting => ?_⟩
  subst evicting
  exact (History.run_capped along reached).within capacity bounded

/-- A full queue of two drops its oldest message and still holds two. -/
theorem enqueue_within_capacity_when_full :
    ∃ history, run History.step History.new
        [.setBackpressure (.bounded 2 .dropOldest), .enqueueOwned [1] true,
          .enqueueFramed [2] true true] = some history ∧
      history.queue.unstartedCount = 2 ∧
      (history.queue.enqueueOwned [3] true).1 = .ok () ∧
      (history.queue.enqueueOwned [3] true).2.unstartedCount ≤ 2 := by
  obtain ⟨history, reached, bounded, full, ok⟩ : ∃ history,
      run History.step History.new
        [.setBackpressure (.bounded 2 .dropOldest), .enqueueOwned [1] true,
          .enqueueFramed [2] true true] = some history ∧
      history.queue.backpressure = .bounded 2 .dropOldest ∧ history.queue.unstartedCount = 2 ∧
      (history.queue.enqueueOwned [3] true).1 = .ok () := ⟨_, rfl, rfl, rfl, rfl⟩
  refine ⟨history, reached, full, ok, ?_⟩
  exact (@enqueue_within_capacity _ _ reached 2 .dropOldest bounded [3] true true _
    (.inl (Prod.ext ok rfl))).2 (by decide)

/-- Three messages are queued without a bound; then a capacity of one is set and a fourth
is accepted.  One message is dropped and three remain. -/
theorem drop_oldest_leaves_long_queue :
    ∃ history, run History.step History.new
        [.enqueueOwned [1] true, .enqueueOwned [2] true, .enqueueOwned [3] true,
          .setBackpressure (.bounded 1 .dropOldest)] = some history ∧
      history.queue.backpressure = .bounded 1 .dropOldest ∧
      (history.queue.enqueueOwned [4] true).1 = .ok () ∧
      (history.queue.enqueueOwned [4] true).2.unstartedCount = 3 :=
  ⟨_, rfl, rfl, rfl, rfl⟩

end GrpcUds.Server
