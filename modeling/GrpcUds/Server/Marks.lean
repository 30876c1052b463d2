import GrpcUds.Server.Expiry
import GrpcUds.Server.Refinement
import GrpcUds.Server.Turns

/-!
# What a turn does to the marks of a stream

The marks of a stream are its status, its finish and its deadline.  Most turns leave them
alone.  `Fate` says once which turn changes them and how; what follows a stream's marks
over a run is a case analysis on it.
-/

namespace GrpcUds.Server

open Headers

/-- Equal in the status, the finish and the deadline. -/
structure StreamCtx.SameMarks (stream later : StreamCtx) : Prop where
  status : later.status = stream.status
  finish : SameFinish stream.out later.out
  deadline : later.deadlineMs = stream.deadlineMs

variable (stream : StreamCtx)

theorem StreamCtx.SameMarks.refl : stream.SameMarks stream :=
  ⟨rfl, ⟨rfl, rfl, rfl⟩, rfl⟩

/-- A change of the queue that keeps its finish. -/
theorem StreamCtx.SameMarks.of_out {out : OutQueue} (same : SameFinish stream.out out) :
    stream.SameMarks { stream with out := out } :=
  ⟨rfl, same, rfl⟩

theorem StreamCtx.respond_sameMarks (rc : Int) (failed : StreamState) :
    stream.SameMarks (stream.respond rc failed) := by
  unfold StreamCtx.respond
  split <;> exact ⟨rfl, ⟨rfl, rfl, rfl⟩, rfl⟩

theorem StreamCtx.respond_id (rc : Int) (failed : StreamState) :
    (stream.respond rc failed).id = stream.id := by
  unfold StreamCtx.respond
  split <;> rfl

variable {stream : StreamCtx}

namespace Conn

/-- Every lookup finds the marks it found before. -/
def Unmarked (conn next : Conn) : Prop :=
  ∀ id, Option.Rel StreamCtx.SameMarks (conn.findStream id) (next.findStream id)

variable {conn next : Conn}

theorem Unmarked.of_same (same : ∀ id, next.findStream id = conn.findStream id) :
    conn.Unmarked next := by
  intro id
  rw [same id]
  cases conn.findStream id with
  | none => exact .none
  | some stream => exact .some (.refl stream)

theorem Unmarked.refl (conn : Conn) : conn.Unmarked conn := .of_same fun _ => rfl

theorem Touches.unmarked {target : StreamId} {change : StreamCtx → StreamCtx}
    (touches : Touches target change conn next)
    (same : ∀ stream, conn.findStream target = some stream → stream.SameMarks (change stream)) :
    conn.Unmarked next := by
  intro id
  rw [touches.findStream]
  split
  next named =>
    subst named
    cases found : conn.findStream target with
    | none => exact .none
    | some stream => exact .some (same stream found)
  next => exact Unmarked.refl conn id

theorem modify_unmarked (conn : Conn) (id : StreamId) {change : StreamCtx → StreamCtx}
    (kept : ∀ stream, (change stream).id = stream.id)
    (same : ∀ stream, conn.findStream id = some stream → stream.SameMarks (change stream)) :
    conn.Unmarked (conn.modify id change) :=
  (Touches.modify kept).unmarked same

theorem apply_touches (conn : Conn) (id : StreamId) (change : StreamCtx → StreamCtx)
    (effects : List Effect) (kept : ∀ stream, (change stream).id = stream.id) :
    Touches id change conn (conn.apply id change effects) :=
  ⟨kept, rfl, List.prefix_append _ _⟩

theorem onFrameRecv_unmarked (conn : Conn) (hd : FrameHd) :
    conn.Unmarked (conn.onFrameRecv hd) := by
  apply (conn.onFrameRecv_touches hd).unmarked
  intro stream _
  simp only [TableEvent.change]
  split
  · exact ⟨rfl, ⟨rfl, rfl, rfl⟩, rfl⟩
  · split <;> exact ⟨rfl, ⟨rfl, rfl, rfl⟩, rfl⟩

theorem onDataChunkRecv_unmarked (conn : Conn) (id : StreamId) (chunk : Bytes) (reserve : Bool) :
    conn.Unmarked (conn.onDataChunkRecv id chunk reserve).2 := by
  unfold onDataChunkRecv
  split
  · exact .refl conn
  · split
    · exact .refl conn
    · split
      · exact .refl conn
      · exact conn.modify_unmarked id (fun _ => rfl) fun _ _ => ⟨rfl, ⟨rfl, rfl, rfl⟩, rfl⟩

/-- A header other than the timeout. -/
theorem onHeader_unmarked (conn : Conn) (id : StreamId) {name : Bytes} (value : Bytes)
    (now : Nat) (reserve : Bool) (other : name ≠ nGrpcTimeout) :
    conn.Unmarked (conn.onHeader id name value now reserve).2 := by
  unfold onHeader
  simp only [other, if_false]
  split
  · exact .refl conn
  · split
    · split
      · exact .refl conn
      · exact conn.modify_unmarked id (fun _ => rfl) fun _ _ => ⟨rfl, ⟨rfl, rfl, rfl⟩, rfl⟩
    · exact .refl conn

/-- The timeout sets the deadline of its stream. -/
theorem onHeader_timeout_touches (conn : Conn) (id : StreamId) (value : Bytes) (now : Nat)
    (reserve : Bool) :
    Touches id (fun stream => { stream with
        deadlineMs := (parseGrpcTimeoutMs value).map fun ms => (now + ms) % 2 ^ 64 })
      conn (conn.onHeader id nGrpcTimeout value now reserve).2 := by
  have other : nGrpcTimeout ≠ nPath := by decide
  cases found : conn.findStream id with
  | none =>
      simp only [onHeader, found]
      exact .missing (fun _ => rfl) found
  | some stream =>
      simp only [onHeader, found, other, if_false, if_true]
      exact .modify fun _ => rfl

theorem reportRead_unmarked {id : StreamId} {out : OutQueue}
    (found : conn.findStream id = some stream) (same : SameFinish stream.out out)
    (outcome : ReadOutcome) : conn.Unmarked (conn.reportRead id out outcome) := by
  have stored : conn.Unmarked (conn.modify id fun stream => { stream with out := out }) := by
    refine conn.modify_unmarked id (fun _ => rfl) fun other looked => ?_
    obtain rfl := Option.some.inj (found.symm.trans looked)
    exact .of_out stream same
  exact stored

theorem dataProviderRead_unmarked (conn : Conn) (id : StreamId) (length : Nat)
    (trailerRc : Int) : conn.Unmarked (conn.dataProviderRead id length trailerRc).2 := by
  unfold dataProviderRead
  cases found : conn.findStream id with
  | none => exact .of_same fun _ => rfl
  | some stream =>
      have drained : SameFinish stream.out (stream.out.drainInto length).2 := ⟨rfl, rfl, rfl⟩
      dsimp only
      split
      · exact reportRead_unmarked found (Lane.promiseFront_sameFinish _ length) _
      · split
        · exact reportRead_unmarked found drained _
        · split
          · exact reportRead_unmarked (show (conn.emit _).findStream id = some stream from found)
              drained _
          · exact reportRead_unmarked found drained _

theorem consumePromise_unmarked (conn : Conn) (id : StreamId) (length : Nat) :
    conn.Unmarked (conn.consumePromise id length) :=
  conn.modify_unmarked id (fun _ => rfl) fun stream _ => .of_out stream ⟨rfl, rfl, rfl⟩

theorem registerMethodInner_unmarked (conn : Conn) (entry : MethodEntry) (copy reserve : Bool) :
    conn.Unmarked (conn.registerMethodInner entry copy reserve).2 := by
  unfold registerMethodInner
  split <;> exact .of_same fun _ => rfl

theorem write_sameMarks {enqueue : OutQueue → Except ConnError Unit × OutQueue} {body : Bytes}
    (spec : ∀ out, OutQueue.Enqueued out body (enqueue out).1 (enqueue out).2)
    (stream : StreamCtx) : stream.SameMarks (stream.write enqueue) := by
  unfold StreamCtx.write
  split
  · exact .refl stream
  · exact .of_out stream (sameFinish_of_enqueued (spec stream.out))

end Conn

/-- The stream, status and message of a finish. -/
def ApiCall.finish? : ApiCall → Option (StreamId × GrpcStatus × Option Bytes)
  | finishCall callId status => some (callId, status, none)
  | finishCallMsg callId status message => some (callId, status, some message)
  | _ => none

theorem ApiCall.change_sameMarks {call : ApiCall} (other : call.finish? = none)
    (stream : StreamCtx) : stream.SameMarks (call.change stream) := by
  cases call with
  | writeCall callId payload copy reserve =>
      exact Conn.write_sameMarks (fun out => out.enqueueFramed_spec payload copy reserve) stream
  | writeCallOwned callId payload reserve =>
      exact Conn.write_sameMarks (fun out => out.enqueueOwned_spec payload reserve) stream
  | finishCall | finishCallMsg => simp [finish?] at other
  | setCancelHook | setStreamPolicy => exact ⟨rfl, ⟨rfl, rfl, rfl⟩, rfl⟩

theorem ApiCall.change_finish {call : ApiCall} {target : StreamId} {status : GrpcStatus}
    {message : Option Bytes} (asked : call.finish? = some (target, status, message)) :
    call.callId = target ∧
      ∀ stream, call.change stream = { stream with out := stream.out.finish status message } := by
  cases call with
  | finishCall | finishCallMsg =>
      obtain ⟨rfl, rfl, rfl⟩ := asked
      exact ⟨rfl, fun _ => rfl⟩
  | _ => simp [finish?] at asked

/-- What one turn does to the stream that an id names. -/
inductive Fate (turning : Turning) (event : TurnEvent) (id : StreamId) :
    Option StreamCtx → Option StreamCtx → Prop where
  | absent : Fate turning event id none none
  | opened : Fate turning event id none (some (.new id))
  | closed {stream : StreamCtx} {errorCode : Nat}
      (sent : event = .plain (.streamClose id errorCode)) :
      Fate turning event id (some stream) none
  | kept {stream later : StreamCtx} (same : stream.SameMarks later) :
      Fate turning event id (some stream) (some later)
  | timed {stream : StreamCtx} {value : Bytes} {now : Nat} {reserve : Bool}
      (sent : event = .plain (.header id nGrpcTimeout value now reserve)) :
      Fate turning event id (some stream) (some { stream with
        deadlineMs := (parseGrpcTimeoutMs value).map fun ms => (now + ms) % 2 ^ 64 })
  | swept {stream : StreamCtx} {now : Nat} (sent : event = .plain (.expireDeadlines now))
      (taken : stream ∈ turning.conn.expired now) :
      Fate turning event id (some stream) (some stream.expire)
  | finished {stream : StreamCtx} {call : ApiCall} {status : GrpcStatus} {message : Option Bytes}
      (sent : event = .call call) (asked : call.finish? = some (id, status, message)) :
      Fate turning event id (some stream)
        (some { stream with out := stream.out.finish status message })
  | refused {stream later : StreamCtx} (status : GrpcStatus)
      (same : (finalizeError status stream).SameMarks later) :
      Fate turning event id (some stream) (some later)
  | returned {stream later : StreamCtx} {rc submitRc : Int} {position : Nat}
      (sent : event = .leave rc submitRc) (busy : turning.frame = some position)
      (placed : turning.conn.streams[position]? = some stream)
      (same : (concludeHandler rc stream).SameMarks later) :
      Fate turning event id (some stream) (some later)

namespace Fate

variable {turning : Turning} {event : TurnEvent} {id : StreamId}

theorem of_unmarked {next : Conn} (unmarked : turning.conn.Unmarked next) :
    Fate turning event id (turning.conn.findStream id) (next.findStream id) := by
  have same := unmarked id
  revert same
  generalize turning.conn.findStream id = before, next.findStream id = after
  intro same
  cases same with
  | none => exact .absent
  | some same => exact .kept same

/-- A stream that is not the one in question. -/
theorem of_other {next : Conn} (same : next.findStream id = turning.conn.findStream id) :
    Fate turning event id (turning.conn.findStream id) (next.findStream id) := by
  rw [same]
  cases turning.conn.findStream id with
  | none => exact .absent
  | some stream => exact .kept (.refl stream)

end Fate

namespace Conn

/-- The sweep, seen by one id. -/
theorem findStream_expireDeadlines {conn : Conn} (distinct : conn.Distinct) (now : Nat)
    (id : StreamId) :
    (conn.expireDeadlines now).findStream id =
      (conn.findStream id).map fun stream =>
        if stream ∈ conn.expired now then stream.expire else stream := by
  have kept : ∀ stream : StreamCtx,
      (if stream ∈ conn.expired now then stream.expire else stream).id = stream.id := by
    intro stream
    split <;> rfl
  unfold findStream Table.lookup
  rw [expireDeadlines_streams distinct, List.find?_map]
  simp only [Function.comp_def, kept]

end Conn

namespace Turning.Sound

variable {turning next : Turning} {event : TurnEvent}

theorem plain_fate (sound : turning.Sound) {event : ConnEvent} {next : Conn}
    (performed : turning.conn.step event = some next)
    (plain : event.isPlain = true) (id : StreamId) :
    Fate turning (.plain event) id (turning.conn.findStream id) (next.findStream id) := by
  obtain ⟨legal, rfl⟩ := Conn.step_eq_some_iff.mp performed
  cases event with
  | registerMethod entry copy reserve =>
      exact .of_unmarked (turning.conn.registerMethodInner_unmarked entry copy reserve)
  | beginHeaders hd reserve =>
      rcases turning.conn.onBeginHeaders_cases hd reserve with idle | pushed
      · rw [Conn.perform, idle]
        exact .of_other rfl
      · rw [Conn.perform, pushed]
        by_cases same : id = hd.streamId
        · subst same
          have missing := Conn.findStream_of_unopened sound.opened legal
          rw [missing, Conn.findStream_pushStream_self missing]
          exact .opened
        · exact .of_other (Conn.findStream_pushStream_other same)
  | header target name value now reserve =>
      by_cases timeout : name = nGrpcTimeout
      · subst timeout
        have touches := turning.conn.onHeader_timeout_touches target value now reserve
        rw [Conn.perform, touches.findStream]
        split
        next same =>
          subst same
          cases turning.conn.findStream target with
          | none => exact .absent
          | some stream => exact .timed rfl
        next => exact .of_other rfl
      · exact .of_unmarked (turning.conn.onHeader_unmarked target value now reserve timeout)
  | frameRecv hd => exact .of_unmarked (turning.conn.onFrameRecv_unmarked hd)
  | dataChunkRecv target chunk reserve =>
      exact .of_unmarked (turning.conn.onDataChunkRecv_unmarked target chunk reserve)
  | streamClose target errorCode =>
      by_cases same : id = target
      · subst same
        simp only [Conn.perform, Conn.findStream_onStreamClose_self sound.distinct]
        cases turning.conn.findStream id with
        | none => exact .absent
        | some stream => exact .closed rfl
      · exact .of_other (Conn.findStream_onStreamClose_other sound.distinct same errorCode)
  | api call => simp [ConnEvent.isPlain] at plain
  | expireDeadlines now =>
      simp only [Conn.perform, Conn.findStream_expireDeadlines sound.distinct]
      cases turning.conn.findStream id with
      | none => exact .absent
      | some stream =>
          simp only [Option.map_some]
          split
          next taken => exact .swept rfl taken
          next => exact .kept (.refl stream)
  | dispatch env => simp [ConnEvent.isPlain] at plain
  | read target length trailerRc =>
      exact .of_unmarked (turning.conn.dataProviderRead_unmarked target length trailerRc)
  | consumePromise target length =>
      exact .of_unmarked (turning.conn.consumePromise_unmarked target length)

theorem call_fate (turning : Turning) (call : ApiCall) (id : StreamId) :
    Fate turning (.call call) id (turning.conn.findStream id)
      ((turning.conn.api call).2.findStream id) := by
  have touches := turning.conn.api_touches call
  cases asked : call.finish? with
  | none => exact .of_unmarked (touches.unmarked fun stream _ => call.change_sameMarks asked stream)
  | some finish =>
      obtain ⟨target, status, message⟩ := finish
      obtain ⟨named, changes⟩ := ApiCall.change_finish asked
      rw [touches.findStream, named]
      split
      next same =>
        subst same
        cases turning.conn.findStream target with
        | none => exact .absent
        | some stream =>
            rw [Option.map_some, changes]
            exact .finished rfl asked
      next => exact .of_other rfl

variable (sound : turning.Sound)
include sound

/-- The first event of a handler's run. -/
theorem enter_unmarked {position : Nat} (found : turning.conn.streams[position]? = some stream)
    (entry : MethodEntry) (payload : Bytes) :
    
    turning.conn.Unmarked (turning.conn.handling position stream.id entry payload []) := by
  have kept := applyBackpressure_id entry.backpressure
  have configured : Conn.Touches stream.id (applyBackpressure entry.backpressure) turning.conn
      (turning.conn.modify stream.id (applyBackpressure entry.backpressure)) := .modify kept
  have unmarked := configured.unmarked fun stream _ => show stream.SameMarks _ by
    unfold applyBackpressure
    split <;> exact ⟨rfl, ⟨rfl, rfl, rfl⟩, rfl⟩
  rw [← Conn.modifyAt_eq_modify sound.distinct found] at unmarked
  exact unmarked

theorem refuse_fate {position : Nat} (found : turning.conn.streams[position]? = some stream)
    (event : TurnEvent) (status : GrpcStatus) (rc : Int) (id : StreamId) :
    Fate turning event id (turning.conn.findStream id)
      ((turning.conn.refuse position stream.id status rc).findStream id) := by
  rw [Conn.refuse_eq_apply sound.distinct found, (Conn.apply_touches _ _ _ _ ?_).findStream]
  split
  next named =>
    rw [← named, Conn.findStream_of_getElem? sound.distinct found]
    exact .refused status (StreamCtx.respond_sameMarks _ rc .dispatched)
  next => exact .of_other rfl
  · intro stream
    exact StreamCtx.respond_id _ rc .dispatched

/-- The end of a handler's run, for the stream that it serves. -/
theorem settle_findStream {position : Nat} (found : turning.conn.streams[position]? = some stream)
    (rc submitRc : Int) :
    ∃ later, (concludeHandler rc stream).SameMarks later ∧ ∀ id,
      (turning.conn.settle position stream.id rc submitRc).findStream id =
        if stream.id = id then some later else turning.conn.findStream id := by
  have looked := Conn.findStream_of_getElem? sound.distinct found
  rw [Conn.settle_eq_apply sound.distinct found]
  split
  · refine ⟨concludeHandler rc stream, .refl _, fun id => ?_⟩
    rw [(Conn.apply_touches _ _ _ _ ?_).findStream]
    · split
      next named =>
        rw [← named]
        exact congrArg (Option.map _) looked
      next => rfl
    · exact fun _ => rfl
  · refine ⟨_, StreamCtx.respond_sameMarks _ submitRc .cancelled, fun id => ?_⟩
    rw [(Conn.apply_touches _ _ _ _ ?_).findStream]
    · split
      next named =>
        rw [← named]
        exact congrArg (Option.map _) looked
      next => rfl
    · intro stream
      exact StreamCtx.respond_id _ submitRc .cancelled

theorem leave_fate {position : Nat} (busy : turning.frame = some position)
    (found : turning.conn.streams[position]? = some stream) (rc submitRc : Int) (id : StreamId) :
    Fate turning (.leave rc submitRc) id (turning.conn.findStream id)
      ((turning.conn.settle position stream.id rc submitRc).findStream id) := by
  obtain ⟨later, same, lookup⟩ := sound.settle_findStream found rc submitRc
  rw [lookup]
  split
  next named =>
    rw [← named, Conn.findStream_of_getElem? sound.distinct found]
    exact .returned rfl busy found same
  next => exact .of_other rfl

/-- What one turn does to any stream. -/
theorem fate (performed : turning.step event = some next) (id : StreamId) :
    Fate turning event id (turning.conn.findStream id) (next.conn.findStream id) := by
  cases step_inv performed with
  | plain idle isPlain stepped => exact sound.plain_fate stepped isPlain id
  | call call => exact call_fate turning call id
  | refuse idle found complete judged => exact sound.refuse_fate found _ _ _ id
  | enter idle found complete judged => exact .of_unmarked (sound.enter_unmarked found _ _)
  | leave busy found => exact sound.leave_fate busy found _ _ id

end Turning.Sound

end GrpcUds.Server
