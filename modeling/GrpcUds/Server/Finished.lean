import GrpcUds.Server.Answer

/-!
# Calls on a finished stream

The application reaches the call API between two events and from inside a handler.  At
each of these points a stream is finished exactly if one of the effects recorded for it
finished it, in whichever of the ways there are; and the calls that answer a finished
stream change nothing.
-/

namespace GrpcUds.Server

open Relation

/-- The stream that a write or a finish answers. -/
def ApiCall.answers? : ApiCall → Option StreamId
  | writeCall callId _ _ _ | writeCallOwned callId _ _ => some callId
  | finishCall callId _ | finishCallMsg callId _ _ => some callId
  | setCancelHook _ _ | setStreamPolicy _ _ => none

def ApiCall.isWrite : ApiCall → Bool
  | writeCall _ _ _ _ | writeCallOwned _ _ _ => true
  | _ => false

namespace Conn

/-- The points at which the application calls the API: between two events, and inside
the handler that a dispatch pass runs at a position, after any of the handler's calls. -/
inductive Point : Conn → Prop where
  | between {conn : Conn} (reachable : conn.Reachable) : Point conn
  | inside {conn : Conn} (reachable : conn.Reachable) (env : DispatchEnv) {position : Nat}
      {stream : StreamCtx}
      (placed : ((List.range position).foldl (dispatchAt env) (0, conn)).2.streams[position]? =
        some stream)
      (complete : stream.state = .complete) (entry : MethodEntry) (payload : Bytes)
      (calls : List ApiCall) :
      Point (((List.range position).foldl (dispatchAt env) (0, conn)).2.handling position
        stream.id entry payload calls)

theorem Point.lanes {conn : Conn} (point : conn.Point) (id : StreamId) :
    ReflTransGen (LaneStep id) .empty (conn.lane id) := by
  cases point with
  | between reachable => exact reachable.lanes id
  | @inside conn reachable env position stream placed complete entry payload calls =>
      have wellFormed := reachable.wellFormed
      have turns := turns_act env (List.range position) (0, conn) wellFormed.distinct
        wellFormed.idle
      have inside := (handling_lanes (turns.distinct wellFormed.distinct)
        (turns.running.trans wellFormed.idle) placed complete entry payload calls).2.2 id
      exact (reachable.lanes id).trans
        (ReflTransGen.mono (fun _ _ => LaneStep.call) _ _ ((turns.lanes id).trans inside))

theorem Point.answer {conn : Conn} (point : conn.Point) (id : StreamId) :
    (conn.lane id).Answer id :=
  LaneStep.invariant (point.lanes id) (Lane.empty_answer id) fun _ _ answer step => answer.step step

/-- A stream is finished if and only if something finished it. -/
theorem Point.finished_iff {conn : Conn} (point : conn.Point) {id : StreamId}
    {stream : StreamCtx} (found : conn.findStream id = some stream) :
    stream.out.finished = true ↔ ∃ effect ∈ conn.logOf id, effect.asFinish.isSome = true := by
  have settled := ((point.answer id).owes stream found).settled
  rw [settled.tracked, firstFinish, List.findSome?_isSome_iff]
  rfl

theorem modify_same (conn : Conn) {id : StreamId} {change : StreamCtx → StreamCtx}
    {stream : StreamCtx} (found : conn.findStream id = some stream)
    (same : change stream = stream) : conn.modify id change = conn := by
  have fixed : Table.update StreamCtx.id id change conn.streams = conn.streams :=
    (Table.update_congr found same).trans (Table.update_id _)
  simp only [modify, fixed]

theorem resumeIfStarted_streams (conn : Conn) (id : StreamId) (stream : StreamCtx) :
    (conn.resumeIfStarted id stream).streams = conn.streams := by
  unfold resumeIfStarted
  split <;> rfl

/-- What a write or a finish does to a finished stream. -/
theorem api_of_finished {conn : Conn} {id : StreamId} {stream : StreamCtx}
    (found : conn.findStream id = some stream) (finished : stream.out.finished = true)
    {call : ApiCall} (answers : call.answers? = some id) :
    (conn.api call).1 = (if call.isWrite then .error .streamFinished else .ok ()) ∧
      (conn.api call).2.streams = conn.streams := by
  have written : ∀ enqueue, conn.writeCallWith id enqueue = (.error .streamFinished, conn) := by
    intro enqueue
    simp [writeCallWith, found, finished]
  have ended : ∀ status message, (conn.finishCallInner id status message).1 = .ok () ∧
      (conn.finishCallInner id status message).2.streams = conn.streams := by
    intro status message
    have same : ({ stream with out := stream.out.finish status message } : StreamCtx) = stream := by
      simp [OutQueue.finish, finished]
    simp only [finishCallInner, found, resumeIfStarted_streams, emit]
    exact ⟨trivial, congrArg Conn.streams (conn.modify_same found same)⟩
  cases call with
  | writeCall | writeCallOwned =>
      obtain rfl := Option.some.inj answers
      simp only [api, writeCall, writeCallOwned, written]
      exact ⟨rfl, trivial⟩
  | finishCall | finishCallMsg =>
      obtain rfl := Option.some.inj answers
      exact ended _ _
  | setCancelHook | setStreamPolicy => simp [ApiCall.answers?] at answers

end Conn

end GrpcUds.Server
