import GrpcUds.Server.Marks

/-!
# The recorded status and the trailer's

A stream context has a `status` beside the `final_status` of its queue.  Both start as
`OK`.  A refusal sets both; every other finish sets the queue's alone.  So the two differ
exactly after a finish, other than a refusal, that asks for another status than `OK`.
-/

namespace GrpcUds.Server

open Transition Relation

/-- The request was answered without a handler. -/
def Effect.isRefusal : Effect → Bool
  | refused _ _ => true
  | _ => false

/-- A refusal finishes the stream. -/
theorem unrefused_of_neutral {effects : List Effect}
    (neutral : ∀ effect ∈ effects, effect.asFinish = none) :
    effects.any Effect.isRefusal = false := by
  apply List.any_eq_false.mpr
  intro effect membership refusal
  have none := neutral effect membership
  cases effect <;> simp_all [Effect.isRefusal, Effect.asFinish]

variable {stream : StreamCtx}

/-- The return of a handler that succeeded, or that finished its stream, leaves the queue as
it is. -/
theorem concludeHandler_out {rc : Int} (ends : rc = 0 ∨ stream.out.finished = true) :
    (concludeHandler rc stream).out = stream.out := by
  rcases ends with accepted | finished
  · simp [concludeHandler, accepted]
  · simp [concludeHandler, finished]

/-- What the effects on a stream say about the status in its context. -/
structure Recorded (log : List Effect) (stream : StreamCtx) : Prop where
  refused : log.any Effect.isRefusal = true →
    stream.out.finished = true ∧ stream.status = stream.out.finalStatus
  unrefused : log.any Effect.isRefusal = false →
    stream.status = .ok ∧
      ∀ finish, firstFinish log = some finish → stream.out.finalStatus = finish.1

namespace Recorded

variable {log effects : List Effect} {stream later : StreamCtx}

variable (recorded : Recorded log stream)
include recorded

theorem neutral (status : later.status = stream.status) (same : SameFinish stream.out later.out)
    (neutral : ∀ effect ∈ effects, effect.asFinish = none) : Recorded (log ++ effects) later := by
  have quiet := unrefused_of_neutral neutral
  have first : firstFinish (log ++ effects) = firstFinish log := by
    rw [firstFinish_append, firstFinish_of_neutral neutral, Option.or_none]
  obtain ⟨finished, finalStatus, _⟩ := same
  constructor
  · intro refusal
    rw [List.any_append, quiet, Bool.or_false] at refusal
    rw [finished, status, finalStatus]
    exact recorded.refused refusal
  · intro none
    rw [List.any_append, quiet, Bool.or_false] at none
    rw [status, first, finalStatus]
    exact recorded.unrefused none

/-- A finish other than a refusal leaves the status in the context alone. -/
theorem finish {finish : GrpcStatus × Option Bytes}
    (tracked : stream.out.finished = (firstFinish log).isSome)
    (quiet : effects.any Effect.isRefusal = false) (asks : firstFinish effects = some finish)
    (status : later.status = stream.status)
    (kept : stream.out.finished = true → SameFinish stream.out later.out)
    (set : stream.out.finished = false → later.out.finalStatus = finish.1) :
    Recorded (log ++ effects) later := by
  constructor
  · intro refusal
    rw [List.any_append, quiet, Bool.or_false] at refusal
    obtain ⟨done, equal⟩ := recorded.refused refusal
    obtain ⟨finished, finalStatus, _⟩ := kept done
    rw [finished, status, finalStatus]
    exact ⟨done, equal⟩
  · intro none
    rw [List.any_append, quiet, Bool.or_false] at none
    obtain ⟨fresh, carried⟩ := recorded.unrefused none
    refine ⟨status.trans fresh, ?_⟩
    rw [firstFinish_append, asks]
    cases asked : firstFinish log with
    | none =>
        rintro _ ⟨⟩
        exact set (by rw [tracked, asked]; rfl)
    | some earlier =>
        rintro _ ⟨⟩
        rw [(kept (by rw [tracked, asked]; rfl)).2.1]
        exact carried earlier asked

/-- An unfinished stream has the status it was opened with. -/
theorem status_of_unfinished (unfinished : stream.out.finished = false) : stream.status = .ok := by
  cases refusal : log.any Effect.isRefusal with
  | true => exact absurd (recorded.refused refusal).1 (by simp [unfinished])
  | false => exact (recorded.unrefused refusal).1

/-- The two statuses of a finished stream. -/
theorem status_eq_iff (tracked : stream.out.finished = (firstFinish log).isSome)
    (finished : stream.out.finished = true) :
    stream.status = stream.out.finalStatus ↔
      log.any Effect.isRefusal = true ∨ ∃ message, firstFinish log = some (.ok, message) := by
  cases refusal : log.any Effect.isRefusal with
  | true => simpa using (recorded.refused refusal).2
  | false =>
      obtain ⟨fresh, carried⟩ := recorded.unrefused refusal
      obtain ⟨⟨status, message⟩, asked⟩ := Option.isSome_iff_exists.mp (tracked.symm.trans finished)
      rw [fresh, carried _ asked, asked]
      constructor
      · intro same
        have ok : GrpcStatus.ok = status := same
        exact .inr ⟨message, by rw [ok]⟩
      · rintro (absurd | ⟨other, same⟩)
        · simp at absurd
        · exact (congrArg Prod.fst (Option.some.inj same)).symm

end Recorded

namespace Lane

/-- The statuses of a lane's stream are as its effects say. -/
structure Stamped (id : StreamId) (lane : Lane) : Prop where
  answer : lane.Answer id
  recorded : ∀ stream, lane.ctx = some stream → Recorded lane.log stream

theorem empty_stamped (id : StreamId) : empty.Stamped id :=
  ⟨empty_answer id, by simp [empty]⟩

variable {id : StreamId} {lane next : Lane}

theorem Stamped.tracked (stamped : lane.Stamped id) (found : lane.ctx = some stream) :
    stream.out.finished = (firstFinish lane.log).isSome :=
  (stamped.answer.owes stream found).settled.tracked

theorem resumeEffects_unrefused (id : StreamId) (stream : StreamCtx) :
    (resumeEffects id stream).any Effect.isRefusal = false := by
  unfold resumeEffects
  split <;> rfl

variable (stamped : lane.Stamped id)
include stamped

theorem concludeHandler_recorded {later : StreamCtx} {rc : Int} {effects : List Effect}
    (found : lane.ctx = some stream) (same : (concludeHandler rc stream).SameMarks later)
    (neutral : ∀ effect ∈ effects, effect.asFinish = none) :
    Recorded (lane.log ++ .returned id rc :: effects) later := by
  have recorded := stamped.recorded stream found
  have finish := same.finish
  by_cases accepted : rc = 0
  · rw [concludeHandler_out (.inl accepted)] at finish
    refine recorded.neutral same.status finish ?_
    intro effect membership
    rcases List.mem_cons.mp membership with rfl | rest
    · simp [Effect.asFinish, accepted]
    · exact neutral effect rest
  · have asks : firstFinish (.returned id rc :: effects) = some (grpcStatusFromI32 rc, none) := by
      simp [firstFinish, Effect.asFinish, accepted]
    have quiet := unrefused_of_neutral neutral
    refine recorded.finish (stamped.tracked found) (by simpa [Effect.isRefusal] using quiet) asks
      same.status ?_ ?_
    · intro finished
      rwa [concludeHandler_out (.inr finished)] at finish
    · intro unfinished
      rw [finish.2.1]
      simp [concludeHandler, accepted, unfinished]

theorem Stamped.call (step : CallStep id lane next) :
    ∀ stream, next.ctx = some stream → Recorded next.log stream := by
  cases step with
  | opened fresh =>
      rintro _ ⟨⟩
      rw [put_log, stamped.answer.alive.unopened fresh]
      exact ⟨by simp [Effect.isRefusal], fun _ => ⟨rfl, by simp [firstFinish, Effect.asFinish]⟩⟩
  | header found path deadline =>
      rintro _ ⟨⟩
      exact (stamped.recorded _ found).neutral rfl ⟨rfl, rfl, rfl⟩ (by simp)
  | received found chunk =>
      rintro _ ⟨⟩
      exact (stamped.recorded _ found).neutral rfl ⟨rfl, rfl, rfl⟩ (by simp)
  | ended found once =>
      rintro _ ⟨⟩
      exact (stamped.recorded _ found).neutral rfl ⟨rfl, rfl, rfl⟩ (by simp [Effect.asFinish])
  | bodyIn found once =>
      rintro _ ⟨⟩
      exact (stamped.recorded _ found).neutral rfl ⟨rfl, rfl, rfl⟩ (by simp)
  | closed found idle errorCode fired => simp
  | @wrote stream found unfinished body out result enqueued =>
      rintro _ ⟨⟩
      refine (stamped.recorded _ found).neutral rfl (sameFinish_of_enqueued enqueued) ?_
      split
      · exact resumeEffects_neutral id _
      · simp
  | finish found status message =>
      rintro _ ⟨⟩
      have asks : ∀ effects, firstFinish (.finish id status message :: effects) =
          some (status, message) := fun _ => rfl
      refine (stamped.recorded _ found).finish (stamped.tracked found)
        (by simpa [Effect.isRefusal] using resumeEffects_unrefused id _) (asks _) rfl ?_ ?_
      · intro finished
        simp [OutQueue.finish, finished, SameFinish]
      · intro unfinished
        simp [OutQueue.finish, unfinished]
  | configured found hook backpressure =>
      rintro _ ⟨⟩
      exact (stamped.recorded _ found).neutral rfl ⟨rfl, rfl, rfl⟩ (by simp)
  | disarmed found =>
      rintro _ ⟨⟩
      refine (stamped.recorded _ found).neutral rfl ⟨rfl, rfl, rfl⟩ ?_
      intro effect membership
      obtain ⟨fired, rfl⟩ := Conn.mem_hookEffects membership
      rfl
  | @refused stream found complete idle status rc =>
      rintro _ ⟨⟩
      have same := StreamCtx.respond_sameMarks (finalizeError status stream) rc .dispatched
      constructor
      · intro _
        rw [same.finish.1, same.status, same.finish.2.1]
        exact ⟨rfl, rfl⟩
      · intro none
        simp [Effect.isRefusal] at none
  | invoked found complete idle handler userData payload =>
      rintro _ ⟨⟩
      exact (stamped.recorded _ found).neutral rfl ⟨rfl, rfl, rfl⟩ (by simp [Effect.asFinish])
  | returned found running unstarted rc submitRc =>
      rintro _ ⟨⟩
      exact concludeHandler_recorded stamped found (StreamCtx.respond_sameMarks _ _ _)
        (by simp [Effect.asFinish])
  | returnedStarted found running started rc =>
      rintro _ ⟨⟩
      exact concludeHandler_recorded stamped found (.refl _) (by simp)

theorem Stamped.transport (step : TransportStep id lane next) :
    ∀ stream, next.ctx = some stream → Recorded next.log stream := by
  cases step with
  | promised found length readable =>
      rintro _ ⟨⟩
      exact (stamped.recorded _ found).neutral rfl (promiseFront_sameFinish _ length)
        (by simp [Effect.asFinish])
  | copied found | trailed found | paused found =>
      rintro _ ⟨⟩
      exact (stamped.recorded _ found).neutral rfl ⟨rfl, rfl, rfl⟩ (by simp [Effect.asFinish])
  | missed absent readable => simp [absent]
  | consumed found length =>
      rintro _ ⟨⟩
      exact (stamped.recorded _ found).neutral rfl ⟨rfl, rfl, rfl⟩ (by simp)

theorem Stamped.step (step : LaneStep id lane next) :
    next.Stamped id := by
  refine ⟨stamped.answer.step step, ?_⟩
  cases step with
  | call step => exact stamped.call step
  | transport step => exact stamped.transport step

end Lane

theorem Conn.Point.stamped {conn : Conn} (point : conn.Point) (id : StreamId) :
    (conn.lane id).Stamped id :=
  LaneStep.invariant (point.lanes id) (Lane.empty_stamped id) fun _ _ stamped step =>
    stamped.step step

/-- Every finished stream has the trailer's status in its context. -/
def Conn.Agreed (conn : Conn) : Prop :=
  ∀ stream ∈ conn.streams, stream.out.finished = true → stream.status = stream.out.finalStatus

instance (conn : Conn) : Decidable conn.Agreed :=
  inferInstanceAs (Decidable (∀ stream ∈ conn.streams, _ → _))

namespace Turning

/-- No stream is finished other than by a refusal, or with `OK`: a finish of an unfinished
stream and the return of a handler that left its stream unfinished ask for `OK`, and a sweep
finds no stream due. -/
def EndsOk (turning : Turning) : TurnEvent → Prop
  | .plain (.expireDeadlines now) => turning.conn.dues now = []
  | .call (.finishCall callId status) | .call (.finishCallMsg callId status _) =>
      status = .ok ∨ (turning.conn.findStream callId).all (fun stream => stream.out.finished) = true
  | .leave rc _ =>
      rc = 0 ∨ (turning.frame.bind fun position => turning.conn.streams[position]?).all
        (fun stream => stream.out.finished) = true
  | _ => True

instance (turning : Turning) : (event : TurnEvent) → Decidable (turning.EndsOk event)
  | .plain (.expireDeadlines now) =>
      decidable_of_iff ((turning.conn.dues now).isEmpty = true) List.isEmpty_iff
  | .call (.finishCall _ _) | .call (.finishCallMsg _ _ _) | .leave _ _ =>
      inferInstanceAs (Decidable (_ ∨ _))
  | .plain (.registerMethod _ _ _) | .plain (.beginHeaders _ _) | .plain (.header _ _ _ _ _)
  | .plain (.frameRecv _) | .plain (.dataChunkRecv _ _ _) | .plain (.streamClose _ _)
  | .plain (.api _) | .plain (.dispatch _) | .plain (.read _ _ _) | .plain (.consumePromise _ _)
  | .call (.writeCall _ _ _ _) | .call (.writeCallOwned _ _ _) | .call (.setCancelHook _ _)
  | .call (.setStreamPolicy _ _) | .refuse _ _ | .enter _ => .isTrue trivial

variable {turning next : Turning} {event : TurnEvent}

theorem Sound.recorded (sound : turning.Sound) {id : StreamId}
    (found : turning.conn.findStream id = some stream) :
    Recorded (turning.conn.logOf id) stream := by
  have stamped : (turning.conn.lane id).Stamped id :=
    sound.lane_invariant (Lane.empty_stamped id) fun _ _ stamped step => stamped.step step
  exact stamped.recorded stream found

theorem Sound.find_of_mem (sound : turning.Sound) (present : stream ∈ turning.conn.streams) :
    turning.conn.findStream stream.id = some stream :=
  (Table.lookup_eq_some_iff sound.distinct).mpr ⟨present, rfl⟩

theorem agreed_of_finish (status : GrpcStatus) (message : Option Bytes)
    (before : stream.out.finished = true → stream.status = stream.out.finalStatus)
    (fresh : stream.out.finished = false → stream.status = .ok)
    (ends : status = .ok ∨ stream.out.finished = true) :
    stream.status = (stream.out.finish status message).finalStatus := by
  cases finished : stream.out.finished with
  | true =>
      simp only [OutQueue.finish, finished, if_true]
      exact before finished
  | false =>
      have ok : status = .ok := ends.resolve_right (by simp [finished])
      simp [OutQueue.finish, finished, ok, fresh finished]

theorem agreed_of_return (rc : Int)
    (before : stream.out.finished = true → stream.status = stream.out.finalStatus)
    (ends : rc = 0 ∨ stream.out.finished = true)
    (finished : (concludeHandler rc stream).out.finished = true) :
    stream.status = (concludeHandler rc stream).out.finalStatus := by
  rw [concludeHandler_out ends] at finished ⊢
  exact before finished

/-- A turn that ends no stream with another status than `OK` keeps the agreement. -/
theorem Sound.agreed (sound : turning.Sound) (agreed : turning.conn.Agreed)
    (performed : turning.step event = some next) (ends : turning.EndsOk event) :
    next.conn.Agreed := by
  intro later present finished
  have after := (sound.step performed).find_of_mem present
  generalize later.id = id at after
  have fate := sound.fate performed id
  rw [after] at fate
  have before : ∀ {stream : StreamCtx}, turning.conn.findStream id = some stream →
      stream.out.finished = true → stream.status = stream.out.finalStatus :=
    fun found => agreed _ (Table.lookup_mem found)
  generalize looked : turning.conn.findStream id = earlier at fate
  cases fate with
  | opened => simp [StreamCtx.new, OutQueue.new] at finished
  | kept same =>
      rw [same.status, same.finish.2.1]
      exact before looked (same.finish.1 ▸ finished)
  | timed sent =>
      have agree := before looked
      exact agree finished
  | @swept stream now sent taken =>
      subst sent
      have due : stream ∈ turning.conn.dues now := List.mem_of_mem_take taken
      rw [show turning.conn.dues now = [] from ends] at due
      exact absurd due List.not_mem_nil
  | @finished stream call status message sent asked =>
      subst sent
      apply agreed_of_finish status message (before looked)
        (sound.recorded looked).status_of_unfinished
      cases call with
      | finishCall callId asks | finishCallMsg callId asks text =>
          obtain ⟨named, rfl, rfl⟩ := asked
          rw [EndsOk, looked] at ends
          exact ends
      | _ => simp [ApiCall.finish?] at asked
  | refused status same =>
      rw [same.status, same.finish.2.1]
      rfl
  | @returned stream _ rc submitRc position sent busy placed same =>
      subst sent
      rw [same.status, same.finish.2.1]
      apply agreed_of_return rc (before looked) _ (same.finish.1 ▸ finished)
      simpa [EndsOk, busy, placed] using ends

theorem grpcStatusFromI32_ne_ok {rc : Int} (failed : rc ≠ 0) : grpcStatusFromI32 rc ≠ .ok := by
  unfold grpcStatusFromI32
  split <;> simp_all

/-- A stream that was unfinished has the status it was opened with, so it is out of agreement
once it is finished with another. -/
theorem Sound.not_agreed_of_ended (sound : turning.Sound) {conn : Conn} {id : StreamId}
    {later : StreamCtx} (found : turning.conn.findStream id = some stream)
    (unfinished : stream.out.finished = false) (looked : conn.findStream id = some later)
    (status : later.status = stream.status) (finished : later.out.finished = true)
    (other : later.out.finalStatus ≠ .ok) : ¬ conn.Agreed := by
  intro agreed
  have fresh := (sound.recorded found).status_of_unfinished unfinished
  have equal := agreed later (Table.lookup_mem looked) finished
  exact other (equal.symm.trans (status.trans fresh))

theorem Sound.not_agreed_of_finish (sound : turning.Sound) {call : ApiCall} {id : StreamId}
    {status : GrpcStatus} {message : Option Bytes}
    (asked : call.finish? = some (id, status, message)) (other : status ≠ .ok)
    (open_ : (turning.conn.findStream id).all (fun stream => stream.out.finished) ≠ true) :
    ¬ (turning.conn.api call).2.Agreed := by
  obtain ⟨stream, found, unfinished⟩ : ∃ stream, turning.conn.findStream id = some stream ∧
      stream.out.finished = false := by
    cases found : turning.conn.findStream id with
    | none => simp [found] at open_
    | some stream => exact ⟨stream, rfl, by simpa [found] using open_⟩
  obtain ⟨named, changes⟩ := ApiCall.change_finish asked
  have looked := (turning.conn.api_touches call).findStream id
  rw [named, if_pos rfl, found, Option.map_some, changes] at looked
  apply sound.not_agreed_of_ended found unfinished looked rfl
  · simp [OutQueue.finish, unfinished]
  · simpa [OutQueue.finish, unfinished] using other

theorem Sound.not_agreed_of_expired (sound : turning.Sound) {now : Nat}
    (due : turning.conn.dues now ≠ []) : ¬ (turning.conn.expireDeadlines now).Agreed := by
  obtain ⟨stream, rest, dues⟩ := List.exists_cons_of_ne_nil due
  have taken : stream ∈ turning.conn.expired now := by
    rw [Conn.expired, firstDue, show turning.conn.streams.filter (StreamCtx.due now) = _ from dues]
    exact List.mem_cons_self
  obtain ⟨present, due⟩ := List.mem_filter.mp (List.mem_of_mem_take taken)
  have unfinished : stream.out.finished = false := by
    simp only [StreamCtx.due, Bool.and_eq_true] at due
    simpa using due.1.2
  have found := sound.find_of_mem present
  have looked := Conn.findStream_expireDeadlines sound.distinct now stream.id
  rw [found, Option.map_some, if_pos taken] at looked
  apply sound.not_agreed_of_ended found unfinished looked rfl
  · simp [StreamCtx.expire, StreamCtx.lapse, StreamCtx.disarm, OutQueue.finish, unfinished]
  · simp [StreamCtx.expire, StreamCtx.lapse, StreamCtx.disarm, OutQueue.finish, unfinished]

/-- A turn that ends a stream with another status than `OK` breaks the agreement. -/
theorem Sound.not_agreed (sound : turning.Sound) (performed : turning.step event = some next)
    (breaks : ¬ turning.EndsOk event) : ¬ next.conn.Agreed := by
  cases step_inv performed with
  | @plain event _ idle isPlain stepped =>
      cases event with
      | expireDeadlines now =>
          obtain ⟨_, rfl⟩ := Conn.step_eq_some_iff.mp stepped
          exact sound.not_agreed_of_expired breaks
      | _ => exact absurd trivial breaks
  | call call =>
      cases call with
      | finishCall callId status =>
          obtain ⟨other, open_⟩ := not_or.mp breaks
          exact sound.not_agreed_of_finish rfl other open_
      | finishCallMsg callId status message =>
          obtain ⟨other, open_⟩ := not_or.mp breaks
          exact sound.not_agreed_of_finish rfl other open_
      | _ => exact absurd trivial breaks
  | refuse => exact absurd trivial breaks
  | enter => exact absurd trivial breaks
  | @leave position rc submitRc stream busy found =>
      obtain ⟨failed, open_⟩ := not_or.mp breaks
      have unfinished : stream.out.finished = false := by simpa [busy, found] using open_
      obtain ⟨later, same, lookup⟩ := sound.settle_findStream found rc submitRc
      have looked := lookup stream.id
      rw [if_pos rfl] at looked
      obtain ⟨finished, finalStatus, _⟩ := same.finish
      apply sound.not_agreed_of_ended (Conn.findStream_of_getElem? sound.distinct found)
        unfinished looked same.status
      · rw [finished]
        simp [concludeHandler, failed, unfinished]
      · rw [finalStatus]
        simpa [concludeHandler, failed, unfinished] using grpcStatusFromI32_ne_ok failed

end Turning

/-- At every point at which the application can look, between two events and inside a
handler, the status in the context of a finished stream is the trailer's if and only if the
request was refused or the first finish asked for `OK`.  The two agree for every stream in
every state of a run if and only if no turn ends a stream, other than by a refusal, with
another status than `OK`. -/
theorem status_matches_trailer_iff {conn : Conn} (point : conn.Point) (methods : List MethodEntry)
    (maxMessageLen : UInt32) (fd : Int) {events : List TurnEvent} {final : Turning}
    (reached : run Turning.step (.start (.newServer methods maxMessageLen fd)) events =
      some final) :
    (∀ id stream, conn.findStream id = some stream → stream.out.finished = true →
      (stream.status = stream.out.finalStatus ↔
        (conn.logOf id).any Effect.isRefusal = true ∨
          ∃ message, firstFinish (conn.logOf id) = some (.ok, message))) ∧
    (Along Turning.step Turning.EndsOk
        (.start (.newServer methods maxMessageLen fd)) events ↔
      ∀ before after middle, events = before ++ after →
        run Turning.step (.start (.newServer methods maxMessageLen fd)) before =
          some middle → middle.conn.Agreed) := by
  constructor
  · intro id stream found finished
    have stamped := point.stamped id
    exact (stamped.recorded stream found).status_eq_iff (stamped.tracked found) finished
  · have fresh : (Turning.start (.newServer methods maxMessageLen fd)).conn.Agreed := by
      intro stream present
      exact absurd present List.not_mem_nil
    refine @along_iff_forall_reached _ _ Turning.step Turning.EndsOk Turning.Sound
      (fun turning => turning.conn.Agreed) (fun _ => True)
      (fun _ _ _ sound performed => sound.step performed) ?_ _ final events
      (Turning.Sound.newServer methods maxMessageLen fd) fresh (fun _ _ => trivial) reached
    intro turning event next sound agreed _ performed
    constructor
    · intro after
      by_contra breaks
      exact sound.not_agreed performed breaks after
    · exact sound.agreed agreed performed

/-- A request for no method is refused, and another stream is finished with `OK`; a stream
that the application finishes with `OK` between two events. -/
theorem status_matches_trailer_when_refused :
    let events : List TurnEvent :=
      [.plain (.beginHeaders ⟨1, nvHeaders, 0, .request⟩ true),
        .plain (.dataChunkRecv 1 [0, 0, 0, 0, 0] true),
        .plain (.frameRecv ⟨1, nvData, flagEndStream, .headers⟩), .refuse 0 0,
        .plain (.beginHeaders ⟨3, nvHeaders, 0, .request⟩ true), .call (.finishCall 3 .ok)]
    (∃ final, run Turning.step (.start (.newServer [] 64 3)) events = some final ∧
      final.conn.Agreed ∧
      final.conn.streams.map (fun stream => (stream.out.finished, stream.status)) =
        [(true, .unimplemented), (true, .ok)]) ∧
    ∃ conn : Conn, conn.Point ∧ ∃ stream, conn.findStream 1 = some stream ∧
      stream.out.finished = true ∧ stream.status = stream.out.finalStatus := by
  intro events
  have reachable : Conn.Reachable _ := ⟨[], 64, 3, [.beginHeaders ⟨1, nvHeaders, 0, .request⟩ true,
    .api (.finishCall 1 .ok)], rfl⟩
  obtain ⟨same, agree⟩ :=
    @status_matches_trailer_iff _ (.between reachable) [] 64 3 events _ rfl
  have meets : Along Turning.step Turning.EndsOk (.start (.newServer [] 64 3))
      events := by decide
  exact ⟨⟨_, rfl, agree.mp meets events [] _ (List.append_nil _).symm rfl, by decide⟩,
    _, .between reachable, _, rfl, by decide,
    (same 1 _ rfl (by decide)).mpr (.inr ⟨none, by decide⟩)⟩

/-- A call that the application finishes with `NOT_FOUND` is still `OK` in its context. -/
theorem status_differs_after_finish :
    ∃ conn : Conn, conn.Reachable ∧ ∃ stream ∈ conn.streams,
      stream.out.finished = true ∧ stream.out.finalStatus = .notFound ∧ stream.status = .ok :=
  ⟨_, ⟨[], 64, 3, [.beginHeaders ⟨1, nvHeaders, 0, .request⟩ true,
    .api (.finishCall 1 .notFound)], rfl⟩, _, List.mem_cons_self, by decide, by decide, by decide⟩

end GrpcUds.Server
