import Mathlib.Data.Finset.Basic
import GrpcUds.Server.Finished

/-!
# The stream table as independent streams

The table is a list with linear lookup in which a removal moves the last entry.  Under
any interleaving of receive callbacks and API calls it behaves as a map from stream ids
to contexts, each of which sees the events of its own stream only.
-/

namespace GrpcUds.Server

open Transition Framing

/-- What happens to the streams of one connection: the receive callbacks of nghttp2 and
the calls of the application. -/
inductive TableEvent where
  | beginHeaders (hd : FrameHd) (reserve : Bool)
  | header (id : StreamId) (name value : Bytes) (now : Nat) (reserve : Bool)
  | dataChunkRecv (id : StreamId) (chunk : Bytes) (reserve : Bool)
  | frameRecv (hd : FrameHd)
  | streamClose (id : StreamId) (errorCode : Nat)
  | api (call : ApiCall)
  deriving DecidableEq

/-- A write on one stream alone. -/
def StreamCtx.write (enqueue : OutQueue → Except ConnError Unit × OutQueue)
    (stream : StreamCtx) : StreamCtx :=
  if stream.out.finished then stream else { stream with out := (enqueue stream.out).2 }

/-- An API call on one stream alone. -/
def ApiCall.change : ApiCall → StreamCtx → StreamCtx
  | writeCall _ payload copy reserve, stream =>
      stream.write fun out => out.enqueueFramed payload copy reserve
  | writeCallOwned _ payload reserve, stream =>
      stream.write fun out => out.enqueueOwned payload reserve
  | finishCall _ status, stream => { stream with out := stream.out.finish status none }
  | finishCallMsg _ status message, stream =>
      { stream with out := stream.out.finish status (some message) }
  | setCancelHook _ hook, stream => { stream with cancelHook := some hook }
  | setStreamPolicy _ backpressure, stream =>
      { stream with out := { stream.out with backpressure := backpressure } }

namespace TableEvent

def id : TableEvent → StreamId
  | beginHeaders hd _ => hd.streamId
  | header id _ _ _ _ => id
  | dataChunkRecv id _ _ => id
  | frameRecv hd => hd.streamId
  | streamClose id _ => id
  | api call => call.callId

/-- Request HEADERS open a stream. -/
def opens : TableEvent → Bool
  | beginHeaders hd _ => decide (hd.type = nvHeaders) && decide (hd.cat = .request)
  | _ => false

/-- An event on one stream alone, other than its opening and its close. -/
def change : TableEvent → StreamCtx → StreamCtx
  | header _ name value now _, stream =>
      if name = Headers.nPath then { stream with path := stream.path ++ value }
      else if name = Headers.nGrpcTimeout then
        { stream with
          deadlineMs := (Headers.parseGrpcTimeoutMs value).map fun ms => (now + ms) % 2 ^ 64 }
      else stream
  | dataChunkRecv _ chunk _, stream => { stream with request := stream.request ++ chunk }
  | frameRecv hd, stream =>
      if hd.endsStream then { stream with state := .complete }
      else if hd.type = nvHeaders then { stream with state := .bodyIn }
      else stream
  | api call, stream => call.change stream
  | beginHeaders _ _, stream | streamClose _ _, stream => stream

/-- One stream, folding its own events. -/
def own (current : Option StreamCtx) (event : TableEvent) : Option StreamCtx :=
  match event with
  | streamClose _ _ => none
  | event => if event.opens then some (.new event.id) else current.map event.change

/-- The ids that are opened and not yet closed. -/
def live (ids : Finset StreamId) (event : TableEvent) : Finset StreamId :=
  match event with
  | streamClose id _ => ids.erase id
  | event => if event.opens then insert event.id ids else ids

def perform (conn : Conn) : TableEvent → CallbackResult × Conn
  | beginHeaders hd reserve => conn.onBeginHeaders hd reserve
  | header id name value now reserve => conn.onHeader id name value now reserve
  | dataChunkRecv id chunk reserve => conn.onDataChunkRecv id chunk reserve
  | frameRecv hd => (.ok, conn.onFrameRecv hd)
  | streamClose id errorCode => (.ok, conn.onStreamClose id errorCode)
  | api call => (.ok, (conn.api call).2)

end TableEvent

namespace Conn

/-- nghttp2 opens each id at most once, and no callback returns an error. -/
def tableStep (conn : Conn) (event : TableEvent) : Option Conn :=
  if event.opens ∧ .opened event.id ∈ conn.log then none
  else
    match event.perform conn with
    | (.ok, next) => some next
    | (.callbackFailure, _) => none

/-- A stream in the table was opened, and none is there twice. -/
structure Tracked (conn : Conn) : Prop where
  distinct : conn.Distinct
  opened : ∀ stream ∈ conn.streams, .opened stream.id ∈ conn.log

/-- A change of one stream, found by its id. -/
structure Touches (id : StreamId) (change : StreamCtx → StreamCtx) (conn next : Conn) : Prop where
  kept : ∀ stream, (change stream).id = stream.id
  streams : next.streams = Table.update StreamCtx.id id change conn.streams
  log : conn.log <+: next.log

variable {conn next : Conn} {id : StreamId} {change : StreamCtx → StreamCtx}

theorem Touches.missing (kept : ∀ stream, (change stream).id = stream.id)
    (missing : conn.findStream id = none) : Touches id change conn conn :=
  ⟨kept, (Table.update_of_lookup_none missing).symm, List.prefix_rfl⟩

theorem Touches.modify (kept : ∀ stream, (change stream).id = stream.id) :
    Touches id change conn (conn.modify id change) :=
  ⟨kept, rfl, List.prefix_rfl⟩

theorem Touches.same {stream : StreamCtx} (kept : ∀ stream, (change stream).id = stream.id)
    (found : conn.findStream id = some stream) (same : change stream = stream) :
    Touches id change conn conn := by
  have modified : Touches id change conn (conn.modify id change) := .modify kept
  rwa [conn.modify_same found same] at modified

/-- Two changes that agree on the stream that is found. -/
theorem Touches.congr {other : StreamCtx → StreamCtx} {stream : StreamCtx}
    (touches : Touches id other conn next) (kept : ∀ stream, (change stream).id = stream.id)
    (found : conn.findStream id = some stream) (same : other stream = change stream) :
    Touches id change conn next :=
  ⟨kept, touches.streams.trans (Table.update_congr found same), touches.log⟩

variable (touches : Touches id change conn next)
include touches

theorem Touches.tracked (tracked : conn.Tracked) :
    next.Tracked := by
  have ids : next.streams.map StreamCtx.id = conn.streams.map StreamCtx.id := by
    rw [touches.streams]
    exact Table.map_update StreamCtx.id touches.kept _
  refine ⟨by rw [Distinct, ids]; exact tracked.distinct, fun stream present => ?_⟩
  have listed : stream.id ∈ conn.streams.map StreamCtx.id := by
    rw [← ids]
    exact List.mem_map.mpr ⟨stream, present, rfl⟩
  obtain ⟨before, there, named⟩ := List.mem_map.mp listed
  rw [← named]
  exact touches.log.subset (tracked.opened before there)

theorem Touches.findStream (other : StreamId) :
    next.findStream other =
      if id = other then (conn.findStream other).map change else conn.findStream other := by
  unfold Conn.findStream
  rw [touches.streams]
  split
  next same =>
    subst same
    exact Table.lookup_update_self touches.kept _
  next different => exact Table.lookup_update_other touches.kept (Ne.symm different) _

theorem Touches.emit (effect : Effect) :
    Touches id change conn (next.emit effect) :=
  ⟨touches.kept, touches.streams, touches.log.trans (List.prefix_append _ _)⟩

theorem Touches.resumeIfStarted (stream : StreamCtx) :
    Touches id change conn (next.resumeIfStarted id stream) := by
  unfold Conn.resumeIfStarted
  split
  · exact touches.emit _
  · exact touches

omit touches

theorem write_id (enqueue : OutQueue → Except ConnError Unit × OutQueue) (stream : StreamCtx) :
    (stream.write enqueue).id = stream.id := by
  unfold StreamCtx.write
  split <;> rfl

theorem writeCallWith_touches (conn : Conn) (id : StreamId)
    (enqueue : OutQueue → Except ConnError Unit × OutQueue) :
    Touches id (StreamCtx.write enqueue) conn (conn.writeCallWith id enqueue).2 := by
  unfold writeCallWith
  cases found : conn.findStream id with
  | none => exact .missing (write_id enqueue) found
  | some stream =>
      by_cases finished : stream.out.finished
      · simp only [finished, if_true]
        exact .same (write_id enqueue) found (by simp [StreamCtx.write, finished])
      · have written : Touches id (StreamCtx.write enqueue) conn (conn.modify id
            fun stream => { stream with out := (enqueue stream.out).2 }) :=
          Touches.congr (.modify fun _ => rfl) (write_id enqueue) found
            (by simp [StreamCtx.write, finished])
        simp only [finished]
        cases (enqueue stream.out).1 with
        | error error => exact written
        | ok => exact written.resumeIfStarted _

theorem finishCallInner_touches (conn : Conn) (id : StreamId) (status : GrpcStatus)
    (message : Option Bytes) :
    Touches id (fun stream => { stream with out := stream.out.finish status message }) conn
      (conn.finishCallInner id status message).2 := by
  unfold finishCallInner
  cases found : conn.findStream id with
  | none => exact .missing (fun _ => rfl) found
  | some stream =>
      have modified : Touches id (fun stream : StreamCtx =>
          { stream with out := stream.out.finish status message }) conn (conn.modify id _) :=
        .modify fun _ => rfl
      exact (modified.emit _).resumeIfStarted _

theorem configure_touches (conn : Conn) (id : StreamId)
    (kept : ∀ stream, (change stream).id = stream.id) :
    Touches id change conn (conn.configure id change).2 := by
  unfold configure
  cases found : conn.findStream id with
  | none => exact .missing kept found
  | some stream => exact .modify kept

/-- An API call is a change of the stream it names. -/
theorem api_touches (conn : Conn) (call : ApiCall) :
    Touches call.callId call.change conn (conn.api call).2 := by
  cases call with
  | writeCall callId payload copy reserve =>
      exact conn.writeCallWith_touches callId fun out => out.enqueueFramed payload copy reserve
  | writeCallOwned callId payload reserve =>
      exact conn.writeCallWith_touches callId fun out => out.enqueueOwned payload reserve
  | finishCall callId status => exact conn.finishCallInner_touches callId status none
  | finishCallMsg callId status message =>
      exact conn.finishCallInner_touches callId status (some message)
  | setCancelHook callId hook => exact conn.configure_touches callId fun _ => rfl
  | setStreamPolicy callId backpressure => exact conn.configure_touches callId fun _ => rfl

theorem change_id (event : TableEvent) (stream : StreamCtx) :
    (event.change stream).id = stream.id := by
  cases event with
  | header id name value now reserve =>
      simp only [TableEvent.change]
      split
      · rfl
      · split <;> rfl
  | frameRecv hd =>
      simp only [TableEvent.change]
      split
      · rfl
      · split <;> rfl
  | api call => exact (api_touches (newServer [] 0 0) call).kept stream
  | beginHeaders | dataChunkRecv | streamClose => rfl

theorem onHeader_touches {id : StreamId} {name value : Bytes} {now : Nat} {reserve : Bool}
    (performed : conn.onHeader id name value now reserve = (.ok, next)) :
    Touches id (TableEvent.header id name value now reserve).change conn next := by
  have kept := change_id (.header id name value now reserve)
  rw [onHeader] at performed
  cases found : conn.findStream id with
  | none =>
      rw [found] at performed
      obtain rfl := (Prod.mk.inj performed).2
      exact .missing kept found
  | some stream =>
      rw [found] at performed
      simp only at performed
      split at performed
      next isPath =>
        split at performed
        · simp at performed
        · obtain rfl := (Prod.mk.inj performed).2
          exact Touches.congr (.modify fun _ => rfl) kept found
            (by simp [TableEvent.change, isPath])
      next notPath =>
        split at performed
        next isTimeout =>
          obtain rfl := (Prod.mk.inj performed).2
          exact Touches.congr (.modify fun _ => rfl) kept found
            (by simp only [TableEvent.change, if_neg notPath, if_pos isTimeout])
        next notTimeout =>
          obtain rfl := (Prod.mk.inj performed).2
          exact .same kept found (by simp [TableEvent.change, notPath, notTimeout])

theorem onDataChunkRecv_touches {id : StreamId} {chunk : Bytes} {reserve : Bool}
    (performed : conn.onDataChunkRecv id chunk reserve = (.ok, next)) :
    Touches id (TableEvent.dataChunkRecv id chunk reserve).change conn next := by
  have kept := change_id (.dataChunkRecv id chunk reserve)
  rw [onDataChunkRecv] at performed
  cases found : conn.findStream id with
  | none =>
      rw [found] at performed
      obtain rfl := (Prod.mk.inj performed).2
      exact .missing kept found
  | some stream =>
      rw [found] at performed
      simp only at performed
      split at performed
      · simp at performed
      · split at performed
        · simp at performed
        · obtain rfl := (Prod.mk.inj performed).2
          exact .modify kept

theorem onFrameRecv_touches (conn : Conn) (hd : FrameHd) :
    Touches hd.streamId (TableEvent.frameRecv hd).change conn (conn.onFrameRecv hd) := by
  have kept := change_id (.frameRecv hd)
  unfold onFrameRecv
  cases found : conn.findStream hd.streamId with
  | none => exact .missing kept found
  | some stream =>
      simp only
      split
      next ends =>
        have completed : Touches hd.streamId (TableEvent.frameRecv hd).change conn
            (conn.modify hd.streamId fun stream => { stream with state := .complete }) :=
          Touches.congr (.modify fun _ => rfl) kept found (by simp [TableEvent.change, ends])
        exact completed.emit _
      next open_ =>
        split
        next isHeaders =>
          exact Touches.congr (.modify fun _ => rfl) kept found
            (by simp [TableEvent.change, open_, isHeaders])
        next other => exact .same kept found (by simp [TableEvent.change, open_, other])

/-- Every event but the opening and the close of a stream is a change of that stream. -/
theorem perform_touches {event : TableEvent} (inner : event.opens = false)
    (stays : ∀ id errorCode, event ≠ .streamClose id errorCode)
    (performed : event.perform conn = (.ok, next)) :
    Touches event.id event.change conn next := by
  cases event with
  | beginHeaders hd reserve =>
      have kept := change_id (.beginHeaders hd reserve)
      have still : conn = next := by
        simp only [TableEvent.perform, onBeginHeaders] at performed
        simp only [TableEvent.opens, Bool.and_eq_false_iff, decide_eq_false_iff_not] at inner
        split at performed
        · exact (Prod.mk.inj performed).2
        next isHeaders =>
          split at performed
          · exact (Prod.mk.inj performed).2
          next isRequest => exact absurd inner (by simp_all)
      subst still
      cases found : conn.findStream hd.streamId with
      | none => exact .missing kept found
      | some stream => exact .same kept found rfl
  | header id name value now reserve => exact onHeader_touches performed
  | dataChunkRecv id chunk reserve => exact onDataChunkRecv_touches performed
  | frameRecv hd =>
      obtain rfl := (Prod.mk.inj performed).2
      exact conn.onFrameRecv_touches hd
  | streamClose id errorCode => exact absurd rfl (stays id errorCode)
  | api call =>
      obtain rfl := (Prod.mk.inj performed).2
      exact conn.api_touches call

/-! ### Opening and closing -/

/-- Whatever an event does to the table, it does to its own stream alone. -/
structure Follows (event : TableEvent) (conn next : Conn) : Prop where
  tracked : next.Tracked
  findStream : ∀ id, next.findStream id =
    if event.id = id then TableEvent.own (conn.findStream id) event else conn.findStream id

variable (tracked : conn.Tracked)
include tracked

theorem Tracked.findStream_of_fresh (fresh : .opened id ∉ conn.log) :
    conn.findStream id = none := by
  apply Table.lookup_eq_none_iff.mpr
  intro stream present named
  exact fresh (named ▸ tracked.opened stream present)

theorem pushStream_follows {event : TableEvent} (opens : event.opens = true)
    (fresh : .opened event.id ∉ conn.log) :
    Follows event conn (conn.pushStream event.id) := by
  have missing := tracked.findStream_of_fresh fresh
  refine ⟨⟨?_, ?_⟩, fun other => ?_⟩
  · simp only [Distinct, pushStream, List.map_append, List.map_cons, List.map_nil]
    refine List.nodup_append.mpr ⟨tracked.distinct, List.nodup_singleton _, ?_⟩
    intro listed present added here
    rw [List.mem_singleton.mp here]
    rintro rfl
    obtain ⟨stream, there, named⟩ := List.mem_map.mp present
    exact Table.lookup_eq_none_iff.mp missing stream there named
  · intro stream present
    rcases Table.mem_concat.mp present with before | rfl
    · exact List.mem_append_left _ (tracked.opened stream before)
    · exact List.mem_append_right _ (List.mem_singleton.mpr rfl)
  · have begun : ∀ current, TableEvent.own current event = some (.new event.id) := by
      intro current
      cases event <;> simp_all [TableEvent.own, TableEvent.opens]
    split
    next same =>
      subst same
      rw [begun]
      have absent : Table.lookup StreamCtx.id (StreamCtx.new event.id).id conn.streams = none :=
        missing
      exact Table.lookup_append_new absent
    next different => exact Table.lookup_append_of_ne different

theorem onStreamClose_follows (id : StreamId) (errorCode : Nat) :
    Follows (.streamClose id errorCode) conn (conn.onStreamClose id errorCode) := by
  unfold onStreamClose
  cases found : conn.findStream id with
  | none =>
      refine ⟨tracked, fun other => ?_⟩
      change conn.findStream other = if id = other then none else conn.findStream other
      by_cases same : id = other
      · subst same
        rw [if_pos rfl]
        exact found
      · rw [if_neg same]
  | some stream =>
      simp only
      generalize (if errorCode ≠ 0 then stream.cancelHook else none) = hook
      refine ⟨⟨?_, ?_⟩, fun other => ?_⟩
      · rw [Distinct, dropStream_streams]
        exact Table.nodup_remove tracked.distinct
      · intro present member
        rw [dropStream_streams] at member
        rw [dropStream_log]
        exact List.mem_append_left _
          (tracked.opened present ((Table.mem_remove tracked.distinct).mp member).1)
      · change _ = if id = other then none else conn.findStream other
        unfold findStream
        rw [dropStream_streams]
        by_cases same : id = other
        · subst same
          rw [if_pos rfl]
          exact Table.lookup_remove_self tracked.distinct
        · rw [if_neg same]
          exact Table.lookup_remove_other tracked.distinct (Ne.symm same)

/-- One step of the table is one step of the stream it is about. -/
theorem tableStep_follows {event : TableEvent} (performed : conn.tableStep event = some next) :
    Follows event conn next := by
  unfold tableStep at performed
  split at performed
  · simp at performed
  next legal =>
    have ok : event.perform conn = (.ok, next) := by
      cases outcome : event.perform conn with
      | mk result after =>
          rw [outcome] at performed
          cases result with
          | ok => rw [Option.some.inj performed]
          | callbackFailure => simp at performed
    cases opens : event.opens with
    | true =>
        have fresh : .opened event.id ∉ conn.log := fun known => legal ⟨opens, known⟩
        have pushed : next = conn.pushStream event.id := by
          cases event with
          | beginHeaders hd reserve =>
              simp only [TableEvent.opens, Bool.and_eq_true, decide_eq_true_eq] at opens
              simp only [TableEvent.perform, onBeginHeaders, opens.1, opens.2, ne_eq,
                not_true_eq_false, if_false] at ok
              split at ok
              · simp at ok
              · exact (Prod.mk.inj ok).2.symm
          | _ => simp [TableEvent.opens] at opens
        exact pushed ▸ pushStream_follows tracked opens fresh
    | false =>
        by_cases closes : ∃ id errorCode, event = .streamClose id errorCode
        · obtain ⟨id, errorCode, rfl⟩ := closes
          obtain rfl := (Prod.mk.inj ok).2
          exact onStreamClose_follows tracked id errorCode
        · have stays : ∀ id errorCode, event ≠ .streamClose id errorCode :=
            fun id errorCode same => closes ⟨id, errorCode, same⟩
          have touches := perform_touches opens stays ok
          refine ⟨touches.tracked tracked, fun other => ?_⟩
          have own : ∀ current, TableEvent.own current event = current.map event.change := by
            intro current
            cases event <;> simp_all [TableEvent.own]
          rw [touches.findStream, own]

/-- A run of the table, seen at one id, is the fold of that id's events. -/
theorem run_findStream {events : List TableEvent}
    (reached : run tableStep conn events = some next) :
    next.Tracked ∧ ∀ id, next.findStream id =
      (events.filter fun event => event.id = id).foldl TableEvent.own (conn.findStream id) := by
  induction events generalizing conn with
  | nil =>
      obtain rfl := Option.some.inj reached
      exact ⟨tracked, fun _ => rfl⟩
  | cons event rest ih =>
      obtain ⟨middle, performed, continued⟩ := Option.bind_eq_some_iff.mp reached
      have follows := tableStep_follows tracked performed
      obtain ⟨final, folded⟩ := ih follows.tracked continued
      refine ⟨final, fun id => ?_⟩
      rw [folded id, follows.findStream id]
      by_cases same : event.id = id
      · simp [same]
      · simp [same]

end Conn

theorem live_of_other {event : TableEvent} {id : StreamId} (other : event.id ≠ id)
    (ids : Finset StreamId) : id ∈ event.live ids ↔ id ∈ ids := by
  cases event with
  | streamClose closed errorCode =>
      have different : id ≠ closed := Ne.symm other
      simp [TableEvent.live, different]
  | beginHeaders hd reserve =>
      simp only [TableEvent.live]
      split
      · simp [Ne.symm other]
      · rfl
  | header | dataChunkRecv | frameRecv | api => simp [TableEvent.live, TableEvent.opens]

/-- The fold of one id's events is there while the id is live. -/
theorem isSome_own_iff_live {id : StreamId} {current : Option StreamCtx} {ids : Finset StreamId}
    (start : current.isSome = true ↔ id ∈ ids) (events : List TableEvent) :
    ((events.filter fun event => event.id = id).foldl TableEvent.own current).isSome = true ↔
      id ∈ events.foldl TableEvent.live ids := by
  induction events generalizing current ids with
  | nil => exact start
  | cons event rest ih =>
      rw [List.foldl_cons]
      by_cases same : event.id = id
      · rw [List.filter_cons_of_pos (by simpa using same), List.foldl_cons]
        apply ih
        cases event with
        | streamClose closed errorCode =>
            obtain rfl : closed = id := same
            simp [TableEvent.own, TableEvent.live]
        | beginHeaders hd reserve =>
            simp only [TableEvent.own, TableEvent.live]
            split
            · simp [same]
            · simpa using start
        | header | dataChunkRecv | frameRecv | api =>
            simpa [TableEvent.own, TableEvent.live, TableEvent.opens] using start
      · rw [List.filter_cons_of_neg (by simpa using same)]
        apply ih
        rw [start]
        exact (live_of_other same ids).symm

/-- Under every interleaving of receive callbacks and API calls, the table holds each
open id once; each stream's context is what its own events alone make of it; and an API
call for one id leaves every other stream as it was. -/
theorem table_refines_streams {methods : List MethodEntry} {maxMessageLen : UInt32} {fd : Int}
    {events : List TableEvent} {conn : Conn}
    (reached : run Conn.tableStep (Conn.newServer methods maxMessageLen fd) events =
      some conn) :
    (conn.streams.map StreamCtx.id).Nodup ∧
    (∀ id, id ∈ conn.streams.map StreamCtx.id ↔ id ∈ events.foldl TableEvent.live ∅) ∧
    (∀ id, conn.findStream id =
      (events.filter fun event => event.id = id).foldl TableEvent.own none) ∧
    ∀ call other, other ≠ call.callId →
      (conn.api call).2.findStream other = conn.findStream other := by
  have start : (Conn.newServer methods maxMessageLen fd).Tracked :=
    ⟨List.nodup_nil, fun stream present => absurd present (by simp [Conn.newServer])⟩
  obtain ⟨tracked, folded⟩ := Conn.run_findStream start reached
  refine ⟨tracked.distinct, fun id => ?_, folded, fun call other different => ?_⟩
  · rw [← Table.isSome_lookup, ← isSome_own_iff_live (by simp : (none : Option StreamCtx).isSome =
      true ↔ id ∈ (∅ : Finset StreamId))]
    exact iff_of_eq (congrArg (fun found => Option.isSome found = true) (folded id))
  · rw [(conn.api_touches call).findStream, if_neg (Ne.symm different)]

/-- Two interleaved streams, the first of which is closed while the second is open. -/
def interleaved : List TableEvent :=
  [.beginHeaders ⟨1, nvHeaders, 0, .request⟩ true, .beginHeaders ⟨3, nvHeaders, 0, .request⟩ true,
    .header 1 Headers.nPath [47, 65] 0 true, .header 3 Headers.nPath [47, 66] 5 true,
    .api (.finishCall 1 .ok), .dataChunkRecv 3 [9] true, .streamClose 1 0,
    .frameRecv ⟨3, nvData, flagEndStream, .headers⟩]

theorem table_refines_two_streams :
    ∃ conn, run Conn.tableStep (Conn.newServer [] 100 (-1)) interleaved = some conn ∧
      (∀ id, id ∈ conn.streams.map StreamCtx.id ↔ id = 3) ∧
      conn.findStream 3 = some
        { StreamCtx.new 3 with path := [47, 66], request := [9], state := .complete } := by
  obtain ⟨conn, reached⟩ : ∃ conn,
      run Conn.tableStep (Conn.newServer [] 100 (-1)) interleaved = some conn := ⟨_, rfl⟩
  obtain ⟨_, listed, folded, _⟩ := table_refines_streams reached
  refine ⟨conn, reached, fun id => ?_, ?_⟩
  · have live : interleaved.foldl TableEvent.live ∅ = {3} := by decide
    rw [listed, live, Finset.mem_singleton]
  · rw [folded]
    rfl

end GrpcUds.Server
