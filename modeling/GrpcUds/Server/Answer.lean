import GrpcUds.Server.Finish

/-!
# The answer to one call

What a stream owes its client is decided by the first finish that was asked
for.  While the stream's DATA is deferred nothing is owed; once the queue is
finished and empty, the trailer goes out once and carries that first finish.
-/

namespace GrpcUds.Server

open Relation Headers Framing

/-- What a stream's queue owes after the effects so far. -/
structure Owes (id : StreamId) (log : List Effect) (out : OutQueue) : Prop where
  settled : Settled log out
  flowing : Flowing id log out

/-- All that a stream owes its client. -/
structure Lane.Answer (id : StreamId) (lane : Lane) : Prop where
  alive : lane.Lifecycle id
  owes : ∀ stream, lane.ctx = some stream → Owes id lane.log stream.out
  trailed : Trailed id lane.log

/-- Effects that neither finish a call nor move its DATA. -/
def Effect.isPlain : Effect → Bool
  | opened _ | endStream _ | closed _ _ | invoked _ _ _ _ | hookFired _ _ => true
  | _ => false

variable {id : StreamId} {lane : Lane}

theorem Owes.plain {log effects : List Effect} {out out' : OutQueue} (owes : Owes id log out)
    (same : SameFinish out out') (started : out'.responseStarted = out.responseStarted)
    (messages : out'.messages = out.messages) (plain : ∀ effect ∈ effects, effect.isPlain = true) :
    Owes id (log ++ effects) out' where
  settled := owes.settled.neutral same fun effect membership => by
    have isPlain := plain effect membership
    cases effect <;> simp_all [Effect.isPlain, Effect.asFinish]
  flowing := by
    refine owes.flowing.silent started (fun empty => messages.trans empty) same.1 ?_ ?_
    · intro membership
      exact absurd (plain _ membership) (by simp [Effect.isPlain])
    · intro effect membership
      have isPlain := plain effect membership
      cases effect <;> simp_all [Effect.isPlain, Effect.isFlow]

theorem hookEffects_plain (id : StreamId) (hook : Option CancelHook) :
    ∀ effect ∈ hookEffects id hook, effect.isPlain = true := by
  intro effect membership
  obtain ⟨fired, rfl⟩ := Conn.mem_hookEffects membership
  rfl

theorem resumeEffects_neutral (id : StreamId) (stream : StreamCtx) :
    ∀ effect ∈ resumeEffects id stream, effect.asFinish = none := by
  intro effect membership
  rw [Conn.mem_resumeEffects membership]
  rfl

theorem submitResponse_not_mem_resumeEffects (id : StreamId) (stream : StreamCtx) :
    .submitResponse id 0 ∉ resumeEffects id stream := by
  intro membership
  exact absurd (Conn.mem_resumeEffects membership) (by simp)

/-- An enqueue that does not return `Ok` puts nothing into an empty queue. -/
theorem enqueued_error_of_empty {queue out : OutQueue} {body : Bytes} {error : ConnError}
    (enqueued : OutQueue.Enqueued queue body (.error error) out) (empty : queue.messages = []) :
    out.messages = [] := by
  cases enqueued with
  | refused => exact empty
  | exhausted =>
      change queue.evictedMessages = []
      unfold OutQueue.evictedMessages
      split
      · exact empty
      · simp [empty]

namespace Lane

theorem empty_answer (id : StreamId) : empty.Answer id where
  alive := empty_lifecycle id
  owes := by simp [empty]
  trailed := ⟨Nat.le_refl 0, by simp [empty]⟩

variable (answer : lane.Answer id)
include answer

/-- With a response under way a write or finish releases the stream; without
one the stream was not held. -/
theorem Answer.released {stream changed : StreamCtx} {effects : List Effect}
    (found : lane.ctx = some stream) (state : changed.state = stream.state)
    (started : changed.out.responseStarted = stream.out.responseStarted)
    (silent : ∀ effect ∈ effects, effect.isFlow = false) :
    deferred (lane.log ++ (effects ++ resumeEffects id changed)) = false := by
  obtain ⟨_, _, _, dispatched⟩ := answer.alive.present stream found
  rw [← List.append_assoc]
  unfold resumeEffects
  split
  · exact deferred_resume _ id
  next inactive =>
    rw [List.append_nil, deferred_append_of_silent silent]
    apply (answer.owes stream found).flowing.undeferred
    cases isStarted : stream.out.responseStarted with
    | false => rfl
    | true =>
        exact absurd ⟨state.trans (dispatched isStarted), started.trans isStarted⟩ inactive

theorem Answer.wrote {stream : StreamCtx} {body : Bytes} {out : OutQueue}
    {result : Except ConnError Unit} (found : lane.ctx = some stream)
    (enqueued : OutQueue.Enqueued stream.out body result out) :
    Owes id (lane.log ++ if result.isOk then resumeEffects id { stream with out := out } else [])
      out := by
  have owes := answer.owes stream found
  have same := sameFinish_of_enqueued enqueued
  have started := enqueued_responseStarted enqueued
  cases result with
  | error error =>
      exact ⟨owes.settled.neutral same (by simp [Except.isOk, Except.toBool]),
        owes.flowing.silent started (enqueued_error_of_empty enqueued) same.1
          (by simp [Except.isOk, Except.toBool]) (by simp [Except.isOk, Except.toBool])⟩
  | ok =>
      have free : deferred (lane.log ++ ([] ++ resumeEffects id { stream with out := out })) =
          false := answer.released found rfl started (by simp)
      exact ⟨owes.settled.neutral same (resumeEffects_neutral id _),
        owes.flowing.of_undeferred started (submitResponse_not_mem_resumeEffects id _) free⟩

theorem Answer.finish {stream : StreamCtx} (found : lane.ctx = some stream) (status : GrpcStatus)
    (message : Option Bytes) :
    Owes id (lane.log ++ .finish id status message ::
        resumeEffects id { stream with out := stream.out.finish status message })
      (stream.out.finish status message) := by
  have owes := answer.owes stream found
  have started := finish_responseStarted stream.out status message
  constructor
  · have asks : firstFinish (.finish id status message ::
        resumeEffects id { stream with out := stream.out.finish status message }) =
          some (status, message) := rfl
    refine owes.settled.finish asks ?_ ?_
    · intro finished
      simp [OutQueue.finish, finished, SameFinish]
    · intro unfinished
      simp [OutQueue.finish, unfinished]
  · have free : deferred (lane.log ++ ([.finish id status message] ++
        resumeEffects id { stream with out := stream.out.finish status message })) = false :=
      answer.released found rfl started (by simp [Effect.isFlow])
    refine owes.flowing.of_undeferred started ?_ free
    simpa using submitResponse_not_mem_resumeEffects id _

omit answer

theorem respond_sameFinish (stream : StreamCtx) (rc : Int) (failed : StreamState) :
    SameFinish stream.out (stream.respond rc failed).out := by
  unfold StreamCtx.respond
  split <;> exact ⟨rfl, rfl, rfl⟩

theorem promiseFront_sameFinish (queue : OutQueue) (length : Nat) :
    SameFinish queue (queue.promiseFront length).2 := by
  simp only [OutQueue.promiseFront]
  split <;> exact ⟨rfl, rfl, rfl⟩

include answer

theorem Answer.returned {stream : StreamCtx} (found : lane.ctx = some stream)
    (unstarted : stream.out.responseStarted = false) (rc submitRc : Int) :
    Owes id (lane.log ++ [.returned id rc, .submitResponse id submitRc])
      ((concludeHandler rc stream).respond submitRc .cancelled).out := by
  have owes := answer.owes stream found
  obtain ⟨finished, status, message⟩ :=
    respond_sameFinish (concludeHandler rc stream) submitRc .cancelled
  constructor
  · by_cases accepted : rc = 0
    · refine owes.settled.neutral ?_ (by simp [Effect.asFinish, accepted])
      simp only [SameFinish, finished, status, message]
      simp [concludeHandler, accepted]
    · have asks : firstFinish [.returned id rc, .submitResponse id submitRc] =
          some (grpcStatusFromI32 rc, none) := by
        simp [firstFinish, Effect.asFinish, accepted]
      refine owes.settled.finish asks ?_ ?_
      · intro done
        simp only [SameFinish, finished, status, message]
        simp [concludeHandler, done]
      · intro open'
        rw [finished, status, message]
        simp [concludeHandler, accepted, open', finalMessageOf]
  · have unanswered : .submitResponse id 0 ∉ [Effect.returned id rc] := by simp
    exact owes.flowing.respond unstarted submitRc .cancelled unanswered (by simp [Effect.isFlow])

theorem Answer.call_owes {next : Lane} (step : CallStep id lane next) :
    ∀ stream, next.ctx = some stream → Owes id next.log stream.out := by
  cases step with
  | opened fresh =>
      rintro _ ⟨⟩
      rw [put_log, answer.alive.unopened fresh]
      exact ⟨⟨rfl, fun _ => rfl, by simp [firstFinish, Effect.asFinish]⟩,
        ⟨by simp, by simp [deferred, deferStep]⟩⟩
  | header found path deadline =>
      rintro _ ⟨⟩
      exact (answer.owes _ found).plain ⟨rfl, rfl, rfl⟩ rfl rfl (by simp)
  | received found chunk =>
      rintro _ ⟨⟩
      exact (answer.owes _ found).plain ⟨rfl, rfl, rfl⟩ rfl rfl (by simp)
  | ended found once =>
      rintro _ ⟨⟩
      exact (answer.owes _ found).plain ⟨rfl, rfl, rfl⟩ rfl rfl (by simp [Effect.isPlain])
  | bodyIn found once =>
      rintro _ ⟨⟩
      exact (answer.owes _ found).plain ⟨rfl, rfl, rfl⟩ rfl rfl (by simp)
  | closed found idle errorCode fired => simp
  | wrote found unfinished enqueued =>
      rintro _ ⟨⟩
      exact answer.wrote found enqueued
  | finish found status message =>
      rintro _ ⟨⟩
      exact answer.finish found status message
  | configured found hook backpressure =>
      rintro _ ⟨⟩
      exact (answer.owes _ found).plain ⟨rfl, rfl, rfl⟩ rfl rfl (by simp)
  | disarmed found =>
      rintro _ ⟨⟩
      exact (answer.owes _ found).plain ⟨rfl, rfl, rfl⟩ rfl rfl (hookEffects_plain id _)
  | refused found complete idle status rc =>
      rintro _ ⟨⟩
      obtain ⟨_, _, undispatched, unstarted⟩ := answer.alive.of_complete found complete idle
      have owes := answer.owes _ found
      refine ⟨owes.settled.refuse undispatched id status rc, ?_⟩
      have unanswered : .submitResponse id 0 ∉ [Effect.refused id status] := by simp
      exact owes.flowing.respond unstarted rc .dispatched unanswered (by simp [Effect.isFlow])
  | invoked found complete idle handler userData payload =>
      rintro _ ⟨⟩
      exact (answer.owes _ found).plain ⟨rfl, rfl, rfl⟩ rfl rfl (by simp [Effect.isPlain])
  | returned found running unstarted rc submitRc =>
      rintro _ ⟨⟩
      exact answer.returned found unstarted rc submitRc
  | returnedStarted found running started rc =>
      exact absurd started (by simp [(answer.alive.of_running found running).2])

theorem Answer.transport_owes {next : Lane} (step : TransportStep id lane next) :
    ∀ stream, next.ctx = some stream → Owes id next.log stream.out := by
  cases step with
  | promised found length readable =>
      rintro _ ⟨⟩
      have owes := answer.owes _ found
      exact ⟨owes.settled.neutral (promiseFront_sameFinish _ length) (by simp [Effect.asFinish]),
        owes.flowing.of_undeferred (promiseFront_responseStarted _ length) (by simp)
          (deferred_read _ id _)⟩
  | copied found length readable =>
      rintro _ ⟨⟩
      have owes := answer.owes _ found
      exact ⟨owes.settled.neutral ⟨rfl, rfl, rfl⟩ (by simp [Effect.asFinish]),
        owes.flowing.of_undeferred rfl (by simp) (deferred_read _ id _)⟩
  | trailed found room readable nothing finished rc =>
      rintro _ ⟨⟩
      have owes := answer.owes _ found
      refine ⟨owes.settled.neutral ⟨rfl, rfl, rfl⟩ (by simp [Effect.asFinish]),
        owes.flowing.of_undeferred rfl (by simp) ?_⟩
      rw [List.append_cons, deferred_read]
      split <;> rfl
  | paused found room readable nothing unfinished =>
      rintro _ ⟨⟩
      have owes := answer.owes _ found
      refine ⟨owes.settled.neutral ⟨rfl, rfl, rfl⟩ (by simp [Effect.asFinish]), ?_, fun _ => ?_⟩
      · intro membership
        exact owes.flowing.answered (by simpa using membership)
      · exact ⟨owes.flowing.answered readable.1, OutQueue.drainInto_nil room nothing, unfinished⟩
  | missed absent readable => simp [absent]
  | consumed found length =>
      rintro _ ⟨⟩
      have owes := answer.owes _ found
      refine ⟨owes.settled.neutral ⟨rfl, rfl, rfl⟩ (by simp),
        owes.flowing.silent rfl (fun empty => ?_) rfl (by simp) (by simp)⟩
      simp [OutQueue.consumeFront, OutQueue.consumeMessages, empty]

omit answer

theorem hookEffects_untrailed (id : StreamId) (hook : Option CancelHook) :
    ∀ effect ∈ hookEffects id hook, effect.isTrailer = false := by
  intro effect membership
  obtain ⟨fired, rfl⟩ := Conn.mem_hookEffects membership
  rfl

theorem resumeEffects_untrailed (id : StreamId) (stream : StreamCtx) :
    ∀ effect ∈ resumeEffects id stream, effect.isTrailer = false := by
  intro effect membership
  rw [Conn.mem_resumeEffects membership]
  rfl

end Lane

/-- Only a read submits a trailer. -/
theorem CallStep.untrailed {next : Lane} (step : CallStep id lane next) :
    ∃ effects, next.log = lane.log ++ effects ∧ ∀ effect ∈ effects, effect.isTrailer = false := by
  cases step with
  | closed found idle errorCode fired =>
      refine ⟨_, rfl, ?_⟩
      simpa [Effect.isTrailer] using Lane.hookEffects_untrailed id fired
  | wrote found unfinished enqueued =>
      refine ⟨_, rfl, ?_⟩
      split
      · exact Lane.resumeEffects_untrailed id _
      · simp
  | finish found status message =>
      refine ⟨_, rfl, ?_⟩
      simpa [Effect.isTrailer] using Lane.resumeEffects_untrailed id _
  | disarmed found => exact ⟨_, rfl, Lane.hookEffects_untrailed id _⟩
  | _ => exact ⟨_, rfl, by simp [Effect.isTrailer]⟩

theorem calls_trailers {next : Lane} (steps : ReflTransGen (CallStep id) lane next) :
    trailers next.log = trailers lane.log := by
  induction steps with
  | refl => rfl
  | tail _ step ih =>
      obtain ⟨effects, log, untrailed⟩ := step.untrailed
      have none : trailers effects = 0 := List.countP_eq_zero.mpr fun effect membership => by
        simp [untrailed effect membership]
      rw [log, trailers_append, none, ih, Nat.add_zero]

namespace Lane

theorem Answer.transport_trailed {next : Lane} (answer : lane.Answer id)
    (step : TransportStep id lane next) : Trailed id next.log := by
  cases step with
  | trailed found room readable nothing finished rc =>
      refine answer.trailed.trail (answer.owes _ found).settled finished readable.2.2 rc _ ?_
      split <;> rfl
  | _ => exact answer.trailed.append (by simp [Effect.isTrailer])

theorem Answer.step {next : Lane} (answer : lane.Answer id) (step : LaneStep id lane next) :
    next.Answer id := by
  refine ⟨answer.alive.step step, ?_, ?_⟩
  · cases step with
    | call step => exact answer.call_owes step
    | transport step => exact answer.transport_owes step
  · cases step with
    | call step =>
        obtain ⟨effects, log, untrailed⟩ := step.untrailed
        rw [log]
        exact answer.trailed.append untrailed
    | transport step => exact answer.transport_trailed step

end Lane

theorem Conn.Reachable.answer {conn : Conn} (reachable : conn.Reachable) (id : StreamId) :
    (conn.lane id).Answer id :=
  reachable.lane_invariant (Lane.empty_answer id) fun _ _ answer step => answer.step step

/-- What a read records, and that it submits a trailer only for a finished
stream from which nothing was left to copy. -/
theorem Conn.dataProviderRead_log (conn : Conn) (id : StreamId) (length : Nat) (trailerRc : Int) :
    ∃ effects, (conn.dataProviderRead id length trailerRc).2.log = conn.log ++ effects ∧
      (∀ effect ∈ effects, effect.id = id) ∧
      (0 < trailers effects → ∃ stream, conn.findStream id = some stream ∧
        stream.out.finished = true ∧ (stream.out.drainInto length).1 = []) := by
  unfold dataProviderRead
  cases found : conn.findStream id with
  | none => exact ⟨_, rfl, by simp [Effect.id], by simp [trailers, Effect.isTrailer]⟩
  | some stream =>
      dsimp only
      split
      · exact ⟨_, rfl, by simp [Effect.id], by simp [trailers, Effect.isTrailer]⟩
      split
      · exact ⟨_, rfl, by simp [Effect.id], by simp [trailers, Effect.isTrailer]⟩
      next copiedNothing =>
        split
        next finished =>
          refine ⟨_, by rw [emit_reportRead]; rfl, by simp [Effect.id], fun _ => ?_⟩
          exact ⟨stream, rfl, finished, by simpa using copiedNothing⟩
        next => exact ⟨_, rfl, by simp [Effect.id], by simp [trailers, Effect.isTrailer]⟩

theorem OutQueue.unshipped_eq_nil {queue : OutQueue} {length : Nat} (room : 0 < length)
    (nothing : (queue.drainInto length).1 = []) : queue.unshipped = [] := by
  rw [drainInto_eq_take, List.take_eq_nil_iff] at nothing
  rcases nothing with empty | empty
  · omega
  · exact empty

/-- A step submits a trailer only when the queue is finished and every retained
byte has been handed out. -/
theorem Conn.trailer_after_last_byte {conn next : Conn} (wellFormed : conn.WellFormed)
    {event : ConnEvent} (performed : conn.step event = some next)
    (submits : trailers (conn.logOf id) < trailers (next.logOf id)) :
    ∃ stream, conn.findStream id = some stream ∧ stream.out.finished = true ∧
      stream.out.unshipped = [] := by
  obtain ⟨legal, rfl⟩ := step_eq_some_iff.mp performed
  cases kind : event.isTransport with
  | false =>
      have same := calls_trailers ((perform_calls wellFormed legal kind).lanes id)
      exact absurd submits (Nat.not_lt.mpr same.le)
  | true =>
      cases event with
      | read reader length trailerRc =>
          obtain ⟨effects, log, about, trailing⟩ :=
            conn.dataProviderRead_log reader length trailerRc
          have after : (conn.perform (.read reader length trailerRc)).logOf id =
              conn.logOf id ++ effects.filter fun effect => effect.id = id := by
            simp only [perform, logOf, log, List.filter_append]
          rw [after, trailers_append] at submits
          by_cases same : reader = id
          · subst same
            have some' : 0 < trailers effects := by
              refine Nat.lt_of_lt_of_le (Nat.pos_of_lt_add_right submits) ?_
              exact List.Sublist.countP_le List.filter_sublist
            obtain ⟨stream, found, finished, nothing⟩ := trailing some'
            exact ⟨stream, found, finished, OutQueue.unshipped_eq_nil legal.1 nothing⟩
          · have none : effects.filter (fun effect => effect.id = id) = [] :=
              List.filter_eq_nil_iff.mpr fun effect membership => by
                simpa [about effect membership] using same
            rw [none] at submits
            exact absurd submits (Nat.lt_irrefl _)
      | consumePromise reader length => exact absurd submits (Nat.lt_irrefl _)
      | _ => simp [ConnEvent.isTransport] at kind

/-- In every reachable state a stream whose DATA is deferred has nothing to
ship and is not finished.  The trailer is submitted at most once, by a step
that finds the queue finished and every retained byte handed out.  It carries
the first finish, if none was asked for before the dispatch. -/
theorem answer_never_stuck {methods : List MethodEntry} {maxMessageLen : UInt32} {fd : Int}
    {events : List ConnEvent} {conn : Conn} (id : StreamId)
    (reached : Transition.run Conn.step (Conn.newServer methods maxMessageLen fd) events =
      some conn) :
    (deferred (conn.logOf id) = true → ∀ stream, conn.findStream id = some stream →
      stream.out.unshipped = [] ∧ stream.out.finished = false) ∧
    trailers (conn.logOf id) ≤ 1 ∧
    (∀ event next, conn.step event = some next →
      trailers (conn.logOf id) < trailers (next.logOf id) →
        ∃ stream, conn.findStream id = some stream ∧ stream.out.finished = true ∧
          stream.out.unshipped = []) ∧
    (finishedEarly (conn.logOf id) = false → ∀ nva rc, .submitTrailer id nva rc ∈ conn.logOf id →
      ∃ finish, firstFinish (conn.logOf id) = some finish ∧ nva = trailerOf finish) := by
  have reachable : conn.Reachable := ⟨methods, maxMessageLen, fd, events, reached⟩
  have answer := reachable.answer id
  refine ⟨fun held stream found => ?_, ?_, fun event next performed => ?_, ?_⟩
  · obtain ⟨_, empty, unfinished⟩ := (answer.owes stream found).flowing.held held
    exact ⟨by simp [OutQueue.unshipped, empty], unfinished⟩
  · refine answer.trailed.count.trans ?_
    split <;> omega
  · exact Conn.trailer_after_last_byte reachable.wellFormed performed
  · exact answer.trailed.carried

/-- A call that is held after its first message and then finished. -/
theorem answer_never_stuck_when_held :
    ∃ held done,
      Transition.run Conn.step (Conn.newServer [⟨ascii "/S/M", 7, 0, none⟩] 100 (-1))
        [.beginHeaders ⟨1, nvHeaders, 0, .request⟩ true, .header 1 nPath (ascii "/S/M") 0 true,
          .dataChunkRecv 1 (frame [9]) true, .frameRecv ⟨1, nvData, flagEndStream, .headers⟩,
          .dispatch ⟨fun _ => ⟨[.writeCallOwned 1 [5] true], 0⟩, fun _ => 0⟩,
          .read 1 100 0, .read 1 100 0] = some held ∧
      Transition.run Conn.step held
        [.api (.finishCallMsg 1 .notFound (ascii "x")), .read 1 100 0] = some done ∧
      deferred (held.logOf 1) = true ∧
      (∀ stream, held.findStream 1 = some stream →
        stream.out.unshipped = [] ∧ stream.out.finished = false) ∧
      .submitTrailer 1 (trailerOf (.notFound, some (ascii "x"))) 0 ∈ done.logOf 1 := by
  have answer := @answer_never_stuck [⟨ascii "/S/M", 7, 0, none⟩] 100 (-1)
    [.beginHeaders ⟨1, nvHeaders, 0, .request⟩ true, .header 1 nPath (ascii "/S/M") 0 true,
      .dataChunkRecv 1 (frame [9]) true, .frameRecv ⟨1, nvData, flagEndStream, .headers⟩,
      .dispatch ⟨fun _ => ⟨[.writeCallOwned 1 [5] true], 0⟩, fun _ => 0⟩,
      .read 1 100 0, .read 1 100 0] _ 1 (by rfl)
  exact ⟨_, _, rfl, rfl, by decide, answer.1 (by decide), by decide⟩

end GrpcUds.Server
