import Mathlib.Data.List.GetD
import Mathlib.Data.List.InsertIdx
import Mathlib.Data.List.Sort
import GrpcUds.Lib.Transition
import GrpcUds.Server.Shipping

/-!
# Ordered delivery of one outbound queue

A history runs one queue through any interleaving of enqueues, policy changes,
drains and promises.  Accepted messages are numbered in the order of their
enqueue; the history remembers which numbers are queued, which have left the
queue completely, and every byte handed out.
-/

namespace GrpcUds.Server

open Transition Framing

/-- One call on the queue.  A promise stays open until `consumeFront` ships it. -/
inductive QueueEvent where
  | enqueueOwned (body : Bytes) (reserve : Bool)
  | enqueueFramed (payload : Bytes) (copy reserve : Bool)
  | setBackpressure (backpressure : Backpressure)
  | drainInto (window : Nat)
  | promiseFront (max : Nat)
  | consumeFront
  deriving DecidableEq

structure History where
  queue : OutQueue
  /-- Length of the promise that is still open. -/
  promised : Option Nat
  /-- Payloads whose enqueue returned `Ok`, in order. -/
  accepted : List Bytes
  /-- Numbers of the queued messages, head first. -/
  queued : List Nat
  /-- Numbers of the messages that left the queue with their last byte. -/
  completed : List Nat
  /-- Every byte that was drained or consumed. -/
  handed : Bytes

namespace History

def new : History where
  queue := .new
  promised := none
  accepted := []
  queued := []
  completed := []
  handed := []

/-- Numbers that stay queued when an enqueue of `body` makes room. -/
def kept (history : History) (body : Bytes) : List Nat :=
  if u32Max < body.length ∨ history.queue.rejects then history.queued
  else
    match history.queue.evicts with
    | none => history.queued
    | some index => history.queued.eraseIdx index

/-- Record the outcome of an enqueue that leaves the numbers `kept` queued. -/
def enqueue (history : History) (body : Bytes) (kept : List Nat)
    (outcome : Except ConnError Unit × OutQueue) : History :=
  match outcome.1 with
  | .ok () =>
      { history with
        queue := outcome.2
        accepted := history.accepted ++ [body]
        queued := kept ++ [history.accepted.length] }
  | .error _ => { history with queue := outcome.2, queued := kept }

/-- Record that `out` was handed out, `queue` remains and no promise is open. -/
def ship (history : History) (out : Bytes) (queue : OutQueue) : History :=
  let popped := history.queue.messages.length - queue.messages.length
  { history with
    queue := queue
    promised := none
    queued := history.queued.drop popped
    completed := history.completed ++ history.queued.take popped
    handed := history.handed ++ out }

/-- nghttp2 neither drains nor promises while a promise is open, and offers
non-empty windows only. -/
def step (history : History) : QueueEvent → Option History
  | .enqueueOwned body reserve =>
      some (history.enqueue body (history.kept body) (history.queue.enqueueOwned body reserve))
  | .enqueueFramed payload copy reserve =>
      some (history.enqueue payload (if copy then history.kept payload else history.queued)
        (history.queue.enqueueFramed payload copy reserve))
  | .setBackpressure backpressure =>
      some { history with queue := { history.queue with backpressure := backpressure } }
  | .drainInto window =>
      if history.promised = none ∧ 0 < window then
        some (history.ship (history.queue.drainInto window).1 (history.queue.drainInto window).2)
      else none
  | .promiseFront max =>
      if history.promised = none ∧ 0 < max then
        some { history with
          queue := (history.queue.promiseFront max).2
          promised := some (history.queue.promiseFront max).1 }
      else none
  | .consumeFront =>
      match history.promised with
      | none => none
      | some n =>
          let regions := history.queue.frontRegions n
          some (history.ship (regions.1 ++ regions.2) (history.queue.consumeFront n))

/-- The frame of the message with the given number. -/
def frameOf (history : History) (number : Nat) : Bytes :=
  frame (history.accepted.getD number [])

/-- The first byte of the message was handed out or promised. -/
def Begun (history : History) (number : Nat) : Prop :=
  number ∈ history.completed ∨
    (history.queued.head? = some number ∧
      (0 < history.queue.frontOffset ∨ ∃ n, history.promised = some n ∧ 0 < n))

/-- The same as the queue's own flags tell it. -/
def Started (history : History) (number : Nat) : Prop :=
  number ∈ history.completed ∨
    (history.queued.head? = some number ∧ history.queue.started = true)

/-- The part of the head message that has been handed out. -/
def inFlight (history : History) : Bytes :=
  match history.queued with
  | [] => []
  | number :: _ => (history.frameOf number).take history.queue.frontOffset

structure Invariant (history : History) : Prop where
  ordered : (history.completed ++ history.queued).Pairwise (· < ·)
  bounded : ∀ number ∈ history.completed ++ history.queued, number < history.accepted.length
  carried : history.queued.map (fun number => history.accepted.getD number []) =
    history.queue.messages.map OutMsg.body
  shipped : history.handed =
    history.completed.flatMap history.frameOf ++
      (wire history.queue.messages).take history.queue.frontOffset
  promise : ∀ n, history.promised = some n → n ≤ history.queue.frontRemaining ∧
    (history.queue.frontCommitted = true ↔ 0 < n)
  released : history.promised = none → history.queue.frontCommitted = false

variable {history : History} {number : Nat}

theorem begun_iff_started (invariant : history.Invariant) (number : Nat) :
    history.Begun number ↔ history.Started number := by
  have committed : (∃ n, history.promised = some n ∧ 0 < n) ↔
      history.queue.frontCommitted = true := by
    cases opened : history.promised with
    | none => simp [invariant.released opened]
    | some n => simp [(invariant.promise n opened).2]
  simp [Begun, Started, OutQueue.started, committed]

theorem new_invariant : new.Invariant where
  ordered := List.Pairwise.nil
  bounded := by simp [new]
  carried := rfl
  shipped := rfl
  promise := by simp [new]
  released := fun _ => rfl

/-! ### Enqueueing -/

/-- Make room for one message, dropping the same position from both lists. -/
def evict (history : History) : History :=
  { history with
    queue :=
      { history.queue with
        messages := history.queue.evictedMessages
        offsetLe := history.queue.frontOffset_le_evicted }
    queued :=
      match history.queue.evicts with
      | none => history.queued
      | some index => history.queued.eraseIdx index }

/-- Append an accepted message under the next number. -/
def append (history : History) (message : OutMsg) : History :=
  { history with
    queue :=
      { history.queue with
        messages := history.queue.messages ++ [message]
        offsetLe := OutQueue.frontOffset_le_append message history.queue.offsetLe }
    accepted := history.accepted ++ [message.body]
    queued := history.queued ++ [history.accepted.length] }

/-- An enqueue leaves the history alone, makes room only, or makes room and appends. -/
theorem enqueueOwned_cases (history : History) (body : Bytes) (reserve : Bool) :
    let after := history.enqueue body (history.kept body)
      (history.queue.enqueueOwned body reserve)
    after = history ∨ after = history.evict ∨
      ∃ message, message.body = body ∧ after = history.evict.append message := by
  intro after
  by_cases long : u32Max < body.length
  · exact .inl (by simp [after, enqueue, kept, OutQueue.enqueueOwned, long])
  cases full : history.queue.rejects with
  | true => exact .inl (by simp [after, enqueue, kept, OutQueue.enqueueOwned, full])
  | false =>
      cases reserve with
      | false =>
          refine .inr (.inl ?_)
          simp [after, enqueue, kept, OutQueue.enqueueOwned, long, full, evict]
      | true =>
          refine .inr (.inr ⟨⟨encodeHeader false (UInt32.ofNat body.length), body, rfl,
            Nat.le_of_not_lt long⟩, rfl, ?_⟩)
          simp [after, enqueue, kept, OutQueue.enqueueOwned, long, full, evict, append]

theorem enqueueFramed_cases (history : History) (payload : Bytes) (copy reserve : Bool) :
    let after := history.enqueue payload (if copy then history.kept payload else history.queued)
      (history.queue.enqueueFramed payload copy reserve)
    after = history ∨ after = history.evict ∨
      ∃ message, message.body = payload ∧ after = history.evict.append message := by
  cases copy with
  | false => exact .inl (by simp [enqueue, OutQueue.enqueueFramed])
  | true => exact enqueueOwned_cases history payload reserve

theorem evict_queued_sublist (history : History) :
    history.evict.queued.Sublist history.queued := by
  unfold evict
  cases history.queue.evicts with
  | none => exact .refl _
  | some index => exact List.eraseIdx_sublist _ _

theorem evict_carried (invariant : history.Invariant) :
    history.evict.queued.map (fun number => history.accepted.getD number []) =
      history.queue.evictedMessages.map OutMsg.body := by
  cases evicted : history.queue.evicts with
  | none => simpa [evict, OutQueue.evictedMessages, evicted] using invariant.carried
  | some index =>
      simp only [evict, OutQueue.evictedMessages, evicted, ← List.eraseIdx_map, invariant.carried]

/-- The shipped part of the head is the same after an eviction. -/
theorem evict_take (queue : OutQueue) :
    (wire queue.evictedMessages).take queue.frontOffset =
      (wire queue.messages).take queue.frontOffset := by
  cases isStarted : queue.started with
  | false =>
      have unshipped : queue.frontOffset = 0 := by
        simp [OutQueue.started] at isStarted
        exact isStarted.1
      simp [unshipped]
  | true =>
      have bounded := queue.offsetLe
      cases shape : queue.messages with
      | nil =>
          have empty : queue.frontOffset = 0 := by simpa [shape, frontLen] using bounded
          simp [empty]
      | cons front rest =>
          obtain ⟨kept, survived⟩ := OutQueue.evictedMessages_of_started isStarted shape
          have within : queue.frontOffset ≤ front.len := by simpa [shape, frontLen] using bounded
          rw [survived, OutQueue.take_wire_of_le within, OutQueue.take_wire_of_le within]

theorem evict_frontRemaining {n : Nat} (available : n ≤ history.queue.frontRemaining)
    (committed : history.queue.frontCommitted = true ↔ 0 < n) :
    n ≤ history.evict.queue.frontRemaining := by
  rcases Nat.eq_zero_or_pos n with rfl | positive
  · exact Nat.zero_le _
  · have isStarted : history.queue.started = true := by
      simp [OutQueue.started, committed.mpr positive]
    cases shape : history.queue.messages with
    | nil =>
        simp only [OutQueue.frontRemaining, shape] at available
        omega
    | cons front rest =>
        obtain ⟨kept, survived⟩ := OutQueue.evictedMessages_of_started isStarted shape
        simpa [OutQueue.frontRemaining, evict, survived, shape] using available

theorem evict_invariant (invariant : history.Invariant) :
    history.evict.Invariant where
  ordered := invariant.ordered.sublist ((List.Sublist.refl _).append history.evict_queued_sublist)
  bounded := fun number membership => invariant.bounded number
    (((List.Sublist.refl _).append history.evict_queued_sublist).subset membership)
  carried := evict_carried invariant
  shipped := invariant.shipped.trans (by
    change _ = _ ++ (wire history.queue.evictedMessages).take history.queue.frontOffset
    rw [evict_take]
    rfl)
  promise := fun n opened =>
    have ⟨available, committed⟩ := invariant.promise n opened
    ⟨evict_frontRemaining available committed, committed⟩
  released := invariant.released

theorem frameOf_append (message : OutMsg) (known : number < history.accepted.length) :
    (history.append message).frameOf number = history.frameOf number := by
  simp only [frameOf, append, List.getD_append _ _ _ _ known]

variable (invariant : history.Invariant)
include invariant

theorem append_invariant (message : OutMsg) :
    (history.append message).Invariant where
  ordered := by
    change (history.completed ++ (history.queued ++ [history.accepted.length])).Pairwise _
    rw [← List.append_assoc, List.pairwise_append]
    refine ⟨invariant.ordered, List.pairwise_singleton _ _, ?_⟩
    intro number membership last isLast
    rw [List.mem_singleton.mp isLast]
    exact invariant.bounded number membership
  bounded := by
    change ∀ number ∈ history.completed ++ (history.queued ++ [history.accepted.length]),
      number < (history.accepted ++ [message.body]).length
    intro number membership
    rw [← List.append_assoc, List.mem_append, List.mem_singleton] at membership
    rw [List.length_append, List.length_singleton]
    rcases membership with old | rfl
    · exact Nat.lt_succ_of_lt (invariant.bounded number old)
    · exact Nat.lt_succ_self _
  carried := by
    change (history.queued ++ [history.accepted.length]).map
      (fun number => (history.accepted ++ [message.body]).getD number []) =
        (history.queue.messages ++ [message]).map OutMsg.body
    rw [List.map_append, List.map_append, ← invariant.carried]
    congr 1
    · apply List.map_congr_left
      intro number membership
      exact List.getD_append _ _ _ _ (invariant.bounded number (List.mem_append_right _ membership))
    · simp
  shipped := by
    have frames : history.completed.flatMap (history.append message).frameOf =
        history.completed.flatMap history.frameOf := by
      apply List.flatMap_congr
      intro number membership
      exact frameOf_append message (invariant.bounded number (List.mem_append_left _ membership))
    change history.handed = history.completed.flatMap (history.append message).frameOf ++
      (wire (history.queue.messages ++ [message])).take history.queue.frontOffset
    rw [frames, invariant.shipped, wire_append, List.take_append_of_le_length
      (wire_take_frontLen _ history.queue.offsetLe)]
  promise := by
    intro n opened
    obtain ⟨available, committed⟩ := invariant.promise n opened
    refine ⟨?_, committed⟩
    cases shape : history.queue.messages with
    | nil =>
        simp only [OutQueue.frontRemaining, shape] at available
        omega
    | cons front rest => simpa [OutQueue.frontRemaining, append, shape] using available
  released := invariant.released

/-! ### Shipping -/

/-- Frames of the first queued numbers are the bytes of the first messages. -/
theorem flatMap_frameOf {popped rest : List OutMsg}
    (split : history.queue.messages = popped ++ rest) :
    (history.queued.take popped.length).flatMap history.frameOf = wire popped := by
  have bodies : (history.queued.take popped.length).map
      (fun number => history.accepted.getD number []) = popped.map OutMsg.body := by
    rw [List.map_take, invariant.carried, split]
    simp
  calc (history.queued.take popped.length).flatMap history.frameOf
      = (((history.queued.take popped.length).map
          (fun number => history.accepted.getD number [])).map frame).flatten := by
        rw [List.flatMap_def, List.map_map]
        rfl
    _ = wire popped := by
        rw [bodies, List.map_map, wire, List.flatMap_def]
        congr 1
        exact List.map_congr_left fun message _ => message.bytes_eq_frame.symm

theorem ship_invariant {out : Bytes} {queue : OutQueue}
    (ships : Ships history.queue.messages history.queue.frontOffset out
      queue.messages queue.frontOffset) (released : queue.frontCommitted = false) :
    (history.ship out queue).Invariant := by
  obtain ⟨popped, split, moved⟩ := ships
  have count : history.queue.messages.length - queue.messages.length = popped.length := by
    simp [split]
  have whole : history.completed ++ history.queued.take popped.length ++
      history.queued.drop popped.length = history.completed ++ history.queued := by
    rw [List.append_assoc, List.take_append_drop]
  have bodies : (history.queued.drop popped.length).map
      (fun number => history.accepted.getD number []) = queue.messages.map OutMsg.body := by
    rw [List.map_drop, invariant.carried, split]
    simp
  have frames := flatMap_frameOf invariant split
  constructor
  · simpa only [ship, count, whole] using invariant.ordered
  · simpa only [ship, count, whole] using invariant.bounded
  · simpa only [ship, count] using bodies
  · simp only [ship, count, List.flatMap_append]
    change history.handed ++ out = history.completed.flatMap history.frameOf ++
      (history.queued.take popped.length).flatMap history.frameOf ++ _
    rw [frames, invariant.shipped, List.append_assoc, moved, List.append_assoc]
  · simp [ship]
  · exact fun _ => released

theorem promise_invariant (closed : history.promised = none) (max : Nat) :
    Invariant { history with
      queue := (history.queue.promiseFront max).2
      promised := some (history.queue.promiseFront max).1 } := by
  have released := invariant.released closed
  simp only [OutQueue.promiseFront]
  split
  next positive =>
    refine ⟨invariant.ordered, invariant.bounded, invariant.carried, invariant.shipped, ?_, by simp⟩
    intro n opened
    obtain rfl := Option.some.inj opened
    exact ⟨Nat.min_le_left _ _, by simpa using positive⟩
  next zero =>
    refine ⟨invariant.ordered, invariant.bounded, invariant.carried, invariant.shipped, ?_, by simp⟩
    intro n opened
    obtain rfl := Option.some.inj opened
    exact ⟨Nat.min_le_left _ _, by simpa [released] using zero⟩

omit invariant

/-- What one event can do to a history. -/
inductive Effect (history : History) : History → Prop where
  | same : Effect history history
  | evicted : Effect history history.evict
  | appended (message : OutMsg) : Effect history (history.evict.append message)
  | configured (backpressure : Backpressure) :
      Effect history { history with queue := { history.queue with backpressure := backpressure } }
  | drained (window : Nat) (closed : history.promised = none) :
      Effect history (history.ship (history.queue.drainInto window).1
        (history.queue.drainInto window).2)
  | promised (max : Nat) (closed : history.promised = none) :
      Effect history { history with
        queue := (history.queue.promiseFront max).2
        promised := some (history.queue.promiseFront max).1 }
  | consumed (n : Nat) (opened : history.promised = some n) :
      Effect history (history.ship
        ((history.queue.frontRegions n).1 ++ (history.queue.frontRegions n).2)
        (history.queue.consumeFront n))

theorem step_effect {next : History} {event : QueueEvent}
    (performed : history.step event = some next) : history.Effect next := by
  cases event with
  | enqueueOwned body reserve =>
      obtain rfl := Option.some.inj performed
      rcases enqueueOwned_cases history body reserve with same | evicted | ⟨message, _, appended⟩
      · rw [same]
        exact .same
      · rw [evicted]
        exact .evicted
      · rw [appended]
        exact .appended message
  | enqueueFramed payload copy reserve =>
      obtain rfl := Option.some.inj performed
      rcases enqueueFramed_cases history payload copy reserve with
        same | evicted | ⟨message, _, appended⟩
      · rw [same]
        exact .same
      · rw [evicted]
        exact .evicted
      · rw [appended]
        exact .appended message
  | setBackpressure backpressure =>
      obtain rfl := Option.some.inj performed
      exact .configured backpressure
  | drainInto window =>
      simp only [step, Option.ite_none_right_eq_some, Option.some.injEq] at performed
      obtain ⟨⟨closed, _⟩, rfl⟩ := performed
      exact .drained window closed
  | promiseFront max =>
      simp only [step, Option.ite_none_right_eq_some, Option.some.injEq] at performed
      obtain ⟨⟨closed, _⟩, rfl⟩ := performed
      exact .promised max closed
  | consumeFront =>
      cases opened : history.promised with
      | none => simp [step, opened] at performed
      | some n =>
          simp only [step, opened, Option.some.injEq] at performed
          obtain rfl := performed
          exact .consumed n opened

theorem effect_invariant {next : History} (effect : history.Effect next)
    (invariant : history.Invariant) : next.Invariant := by
  cases effect with
  | same => exact invariant
  | evicted => exact evict_invariant invariant
  | appended message => exact append_invariant (evict_invariant invariant) message
  | configured backpressure =>
      exact ⟨invariant.ordered, invariant.bounded, invariant.carried, invariant.shipped,
        invariant.promise, invariant.released⟩
  | drained window closed =>
      exact ship_invariant invariant (history.queue.drainInto_ships window)
        (invariant.released closed)
  | promised max closed => exact promise_invariant invariant closed max
  | consumed n opened =>
      exact ship_invariant invariant (history.queue.consumeFront_ships n) rfl

/-! ### Started messages stay -/

theorem evict_started (begun : history.Started number) :
    history.evict.Started number := by
  rcases begun with done | ⟨isHead, isStarted⟩
  · exact .inl done
  · refine .inr ⟨?_, isStarted⟩
    cases evicted : history.queue.evicts with
    | none => simpa [evict, evicted] using isHead
    | some index =>
        obtain ⟨position, _⟩ := OutQueue.evicts_eq_dropIdx evicted
        have second : index = 1 := by simp [position, OutQueue.dropIdx, isStarted]
        cases shape : history.queued with
        | nil => simp [shape] at isHead
        | cons head rest => simpa [evict, evicted, second, shape] using isHead

theorem append_started (message : OutMsg) (begun : history.Started number) :
    (history.append message).Started number := by
  rcases begun with done | ⟨isHead, isStarted⟩
  · exact .inl done
  · refine .inr ⟨?_, isStarted⟩
    cases shape : history.queued with
    | nil => simp [shape] at isHead
    | cons head rest => simpa [append, shape] using isHead

/-- Bytes that leave without popping the head move its offset forward. -/
theorem offset_of_stay {before after : OutQueue} {out : Bytes}
    (same : before.messages = after.messages)
    (moved : (wire before.messages).take before.frontOffset ++ out =
      (wire after.messages).take after.frontOffset) :
    after.frontOffset = before.frontOffset + out.length := by
  have lengths := congrArg List.length moved
  have first := wire_take_frontLen _ before.offsetLe
  have second := wire_take_frontLen _ after.offsetLe
  simp only [List.length_append, List.length_take, same] at lengths first
  omega

/-- A started head is popped with its last byte or stays started. -/
theorem ship_started {out : Bytes} {queue : OutQueue}
    (ships : Ships history.queue.messages history.queue.frontOffset out
      queue.messages queue.frontOffset)
    (progress : history.queue.started = true → 0 < history.queue.frontOffset + out.length)
    (begun : history.Started number) : (history.ship out queue).Started number := by
  obtain ⟨popped, split, moved⟩ := ships
  have count : history.queue.messages.length - queue.messages.length = popped.length := by
    simp [split]
  rcases begun with done | ⟨isHead, isStarted⟩
  · exact .inl (List.mem_append_left _ done)
  · cases popped with
    | nil =>
        have same : history.queue.messages = queue.messages := split
        have advanced := offset_of_stay same (by simpa using moved)
        have further := progress isStarted
        have ahead : 0 < queue.frontOffset := by omega
        exact .inr ⟨by simpa [ship, count] using isHead, by simp [ship, OutQueue.started, ahead]⟩
    | cons front rest =>
        cases shape : history.queued with
        | nil => simp [shape] at isHead
        | cons head others =>
            have same : head = number := by simpa [shape] using isHead
            exact .inl (by simp [ship, count, shape, same])

theorem effect_started {next : History} (effect : history.Effect next)
    (invariant : history.Invariant) (begun : history.Started number) :
    next.Started number := by
  cases effect with
  | same => exact begun
  | evicted => exact evict_started begun
  | appended message => exact append_started message (evict_started begun)
  | configured backpressure => exact begun
  | drained window closed =>
      refine ship_started (history.queue.drainInto_ships window) (fun isStarted => ?_) begun
      have released := invariant.released closed
      simp only [OutQueue.started, released, Bool.or_false, decide_eq_true_eq] at isStarted
      omega
  | promised max closed =>
      rcases begun with done | ⟨isHead, isStarted⟩
      · exact .inl done
      · refine .inr ⟨isHead, ?_⟩
        simp only [OutQueue.promiseFront]
        split
        · simp [OutQueue.started]
        · exact isStarted
  | consumed n opened =>
      refine ship_started (history.queue.consumeFront_ships n) (fun isStarted => ?_) begun
      obtain ⟨available, committed⟩ := invariant.promise n opened
      rw [List.length_append, OutQueue.length_frontRegions available]
      simp only [OutQueue.started, Bool.or_eq_true, decide_eq_true_eq, committed] at isStarted
      omega

theorem run_keeps_invariant {events : List QueueEvent} {later : History}
    (invariant : history.Invariant) (continued : run step history events = some later) :
    later.Invariant :=
  run_invariant (fun _ _ _ invariant performed =>
    effect_invariant (step_effect performed) invariant) invariant continued

theorem run_started {events : List QueueEvent} {later : History} (invariant : history.Invariant)
    (continued : run step history events = some later) (begun : history.Started number) :
    later.Started number := by
  let Related : History → History → Prop := fun first second =>
    first.Started number → second.Started number
  have related : ∀ history event next, Invariant history → step history event = some next →
      Related history next := fun _ _ _ invariant performed =>
    effect_started (step_effect performed) invariant
  exact run_relates
    (fun _ _ _ invariant performed => effect_invariant (step_effect performed) invariant)
    (fun _ begun => begun) (fun _ _ _ first second begun => second (first begun))
    related invariant continued begun

theorem run_history_invariant {events : List QueueEvent}
    (reached : run step new events = some history) : history.Invariant :=
  run_keeps_invariant new_invariant reached

theorem map_getD_range (payloads : List Bytes) :
    (List.range payloads.length).map (fun number => payloads.getD number []) = payloads := by
  apply List.ext_getElem
  · simp
  · intro index _ inside
    simp [inside]

/-- Strictly increasing numbers below the length pick a subsequence. -/
theorem map_getD_sublist {numbers : List Nat} {payloads : List Bytes}
    (ordered : numbers.Pairwise (· < ·)) (bounded : ∀ number ∈ numbers, number < payloads.length) :
    (numbers.map fun number => payloads.getD number []).Sublist payloads := by
  have inRange : numbers.Sublist (List.range payloads.length) := by
    apply List.sublist_of_subperm_of_pairwise (r := (· < ·)) _ ordered List.pairwise_lt_range
    exact List.subperm_of_subset ordered.nodup fun number membership =>
      List.mem_range.mpr (bounded number membership)
  simpa only [map_getD_range] using inRange.map fun number => payloads.getD number []

/-- The handed-out part of the head is a prefix of the head's frame. -/
theorem take_wire_eq_inFlight (invariant : history.Invariant) :
    (wire history.queue.messages).take history.queue.frontOffset = history.inFlight := by
  have within := history.queue.offsetLe
  have carried := invariant.carried
  cases shape : history.queue.messages with
  | nil =>
      have none : history.queued = [] := by simpa [shape] using carried
      simp [inFlight, none]
  | cons front rest =>
      cases numbers : history.queued with
      | nil => simp [shape, numbers] at carried
      | cons number others =>
          simp only [shape, numbers, List.map_cons, List.cons.injEq] at carried
          simp only [shape, frontLen] at within
          rw [OutQueue.take_wire_of_le within, front.bytes_eq_frame]
          simp only [inFlight, numbers, frameOf, carried.1]

end History

/-- Every run of a queue, and every continuation of it: an open promise has
regions of exactly its length; the bytes handed out are a prefix of the frames
of a subsequence of the accepted messages; they are laid out as the completed
messages in enqueue order followed by a part of the head alone; and a message
that was begun is never dropped. -/
theorem outQueue_delivers {events more : List QueueEvent} {history later : History}
    (reached : run History.step History.new events = some history)
    (continued : run History.step history more = some later) :
    (∀ n, history.promised = some n →
      (history.queue.frontRegions n).1.length + (history.queue.frontRegions n).2.length = n) ∧
    (∃ kept : List Bytes, kept.Sublist history.accepted ∧
      history.handed <+: (kept.map frame).flatten) ∧
    (history.handed = history.completed.flatMap history.frameOf ++ history.inFlight ∧
      (history.completed ++ history.queued).Pairwise (· < ·)) ∧
    ∀ number, history.Begun number → later.Begun number := by
  have invariant := History.run_history_invariant reached
  have layout : history.handed =
      history.completed.flatMap history.frameOf ++ history.inFlight := by
    rw [invariant.shipped, History.take_wire_eq_inFlight invariant]
  refine ⟨?_, ?_, ⟨layout, invariant.ordered⟩, ?_⟩
  · intro n opened
    exact OutQueue.length_frontRegions (invariant.promise n opened).1
  · refine ⟨_, History.map_getD_sublist invariant.ordered invariant.bounded, ?_⟩
    rw [layout, List.map_append, List.map_append, List.flatten_append, List.map_map,
      ← List.flatMap_def]
    refine (List.prefix_append_right_inj _).mpr ?_
    cases numbers : history.queued with
    | nil => simp [History.inFlight, numbers]
    | cons number others =>
        simp only [History.inFlight, numbers, History.frameOf, List.map_cons, List.flatten_cons]
        exact (List.take_prefix _ _).trans (List.prefix_append _ _)
  · intro number begun
    have survives := History.run_started invariant continued
      ((History.begun_iff_started invariant number).mp begun)
    exact (History.begun_iff_started (History.run_keeps_invariant invariant continued) number).mpr
      survives

/-- A promised head survives an eviction that removes the message behind it. -/
theorem outQueue_delivers_past_eviction :
    ∃ history later,
      run History.step History.new
        [.enqueueOwned [1, 2] true, .promiseFront 3,
          .setBackpressure (.bounded 1 .dropOldest),
          .enqueueFramed [3] true true, .enqueueOwned [4] true] = some history ∧
      run History.step history [.consumeFront, .drainInto 100] = some later ∧
      history.queued = [0, 2] ∧ later.handed = frame [1, 2] ++ frame [4] ∧
      (history.queue.frontRegions 3).1.length + (history.queue.frontRegions 3).2.length = 3 ∧
      (∃ kept : List Bytes, kept.Sublist history.accepted ∧
        history.handed <+: (kept.map frame).flatten) ∧
      later.Begun 0 := by
  refine ⟨_, _, rfl, rfl, rfl, rfl, ?_⟩
  obtain ⟨promise, subsequence, _, begun⟩ := @outQueue_delivers
    [.enqueueOwned [1, 2] true, .promiseFront 3, .setBackpressure (.bounded 1 .dropOldest),
      .enqueueFramed [3] true true, .enqueueOwned [4] true]
    [.consumeFront, .drainInto 100] _ _ rfl rfl
  exact ⟨promise 3 rfl, subsequence, begun 0 (.inr ⟨rfl, .inr ⟨3, rfl, by decide⟩⟩)⟩

end GrpcUds.Server
