import GrpcUds.Server.Finished
import GrpcUds.Server.Invocation

/-!
# The messages of a stream

Of all that happens on a connection, only a write puts a message into a stream's
queue, and only a read or the send of a promised frame takes bytes out of it.  Every
other event keeps the queued messages of every stream.
-/

namespace GrpcUds.Server

open Framing

/-- The queued messages, and how much of the first has been shipped. -/
def StreamCtx.content (stream : StreamCtx) : List OutMsg × Nat :=
  (stream.out.messages, stream.out.frontOffset)

/-- A change to a stream that leaves its messages alone. -/
def Silent (change : StreamCtx → StreamCtx) : Prop :=
  ∀ stream, (change stream).id = stream.id ∧ (change stream).content = stream.content

theorem silent_finish (status : GrpcStatus) (message : Option Bytes) :
    Silent fun stream => { stream with out := stream.out.finish status message } := by
  intro stream
  refine ⟨rfl, ?_⟩
  simp only [StreamCtx.content, OutQueue.finish]
  split <;> rfl

theorem silent_applyBackpressure (backpressure : Option Backpressure) :
    Silent (applyBackpressure backpressure) := by
  intro stream
  cases backpressure <;> exact ⟨rfl, rfl⟩

theorem silent_concludeHandler (rc : Int) : Silent (concludeHandler rc) := by
  intro stream
  refine ⟨rfl, ?_⟩
  simp only [StreamCtx.content, concludeHandler]
  split <;> rfl

namespace Conn

def contents (conn : Conn) : List (StreamId × List OutMsg × Nat) :=
  conn.streams.map fun stream => (stream.id, stream.content)

variable {id : StreamId} {stream later : StreamCtx}

section Silent

variable {conn next : Conn} {change : StreamCtx → StreamCtx}

theorem contents_modify (conn : Conn) (id : StreamId) (silent : Silent change) :
    (conn.modify id change).contents = conn.contents := by
  apply Table.map_update
  intro stream
  rw [(silent stream).1, (silent stream).2]

theorem contents_modifyAt (conn : Conn) (position : Nat) (silent : Silent change) :
    (conn.modifyAt position change).contents = conn.contents := by
  apply Table.map_modify_of_kept
  intro stream
  rw [(silent stream).1, (silent stream).2]

theorem find?_contents (conn : Conn) (id : StreamId) :
    conn.contents.find? (fun entry => entry.1 = id) =
      (conn.findStream id).map fun stream => (stream.id, stream.content) := by
  rw [contents, List.find?_map]
  rfl

/-- A stream keeps its place with its messages. -/
theorem findStream_of_contents (same : next.contents = conn.contents)
    (found : conn.findStream id = some stream) :
    ∃ later, next.findStream id = some later ∧ later.content = stream.content := by
  have looked := next.find?_contents id
  rw [same, conn.find?_contents, found, Option.map_some] at looked
  obtain ⟨later, present, equal⟩ := Option.map_eq_some_iff.mp looked.symm
  exact ⟨later, present, congrArg Prod.snd equal⟩

end Silent

/-! ### Calls -/

variable (conn : Conn)

theorem contents_finishCallInner (id : StreamId) (status : GrpcStatus) (message : Option Bytes) :
    (conn.finishCallInner id status message).2.contents = conn.contents := by
  unfold finishCallInner
  split
  · rfl
  · rw [contents, resumeIfStarted_streams]
    exact conn.contents_modify id (silent_finish status message)

theorem contents_configure (id : StreamId) {change : StreamCtx → StreamCtx} (silent : Silent change)
    :
    (conn.configure id change).2.contents = conn.contents := by
  unfold configure
  split
  · rfl
  · exact conn.contents_modify id silent

/-- The message that a call asks to queue, and its stream. -/
def written? : ApiCall → Option (StreamId × Bytes)
  | .writeCall id payload _ _ => some (id, payload)
  | .writeCallOwned id payload _ => some (id, payload)
  | _ => none

theorem contents_api {call : ApiCall} (silent : written? call = none) (conn : Conn) :
    (conn.api call).2.contents = conn.contents := by
  cases call with
  | writeCall | writeCallOwned => simp [written?] at silent
  | finishCall id status => exact conn.contents_finishCallInner id status none
  | finishCallMsg id status message => exact conn.contents_finishCallInner id status (some message)
  | setCancelHook id hook => exact conn.contents_configure id fun _ => ⟨rfl, rfl⟩
  | setStreamPolicy id backpressure => exact conn.contents_configure id fun _ => ⟨rfl, rfl⟩

theorem writeCallWith_other {other : StreamId} (different : other ≠ id)
    (enqueue : OutQueue → Except ConnError Unit × OutQueue) :
    (conn.writeCallWith id enqueue).2.findStream other = conn.findStream other := by
  unfold writeCallWith
  split
  · rfl
  · split
    · rfl
    · dsimp only
      split
      · exact conn.findStream_modify_other different fun _ => rfl
      · rw [findStream, resumeIfStarted_streams]
        exact conn.findStream_modify_other different fun _ => rfl

/-- A call on one stream leaves the messages of the others. -/
theorem content_api_other {call : ApiCall}
    (different : ∀ payload, written? call ≠ some (id, payload))
    (found : conn.findStream id = some stream) :
    ∃ later, (conn.api call).2.findStream id = some later ∧ later.content = stream.content := by
  cases asked : written? call with
  | none => exact findStream_of_contents (contents_api asked conn) found
  | some written =>
      obtain ⟨target, payload⟩ := written
      have apart : id ≠ target := by
        rintro rfl
        exact different payload asked
      cases call with
      | writeCall | writeCallOwned =>
          obtain ⟨rfl, rfl⟩ := Prod.mk.inj (Option.some.inj asked)
          refine ⟨stream, ?_, rfl⟩
          simp only [api, writeCall, writeCallOwned]
          rw [conn.writeCallWith_other apart, found]
      | _ => simp [written?] at asked

/-- A write that finds its stream open and without messages is accepted if it fits and
there is memory, and then it is the stream's only message. -/
theorem writeCallOwned_of_empty (found : conn.findStream id = some stream)
    (unfinished : stream.out.finished = false) (empty : stream.out.messages = []) {payload : Bytes}
    (fits : payload.length ≤ u32Max) :
    (conn.writeCallOwned id payload true).1 = .ok () ∧
      ∃ later, (conn.writeCallOwned id payload true).2.findStream id = some later ∧
        later.out.messages.map OutMsg.body = [payload] ∧ later.out.frontOffset = 0 := by
  have offset : stream.out.frontOffset = 0 := by
    have bounded := stream.out.offsetLe
    rw [empty] at bounded
    exact Nat.le_zero.mp bounded
  have room : stream.out.rejects = false := by
    unfold OutQueue.rejects
    split
    next capacity _ => simp [OutQueue.unstartedCount, empty]
    next => rfl
  have kept : stream.out.evictedMessages = [] := by
    unfold OutQueue.evictedMessages OutQueue.evicts
    rw [empty]
    split
    next => rfl
    next evicted =>
      split at evicted
      next => simp at evicted
      next => simp at evicted
  have accepted : (stream.out.enqueueOwned payload true).1 = .ok () ∧
      (stream.out.enqueueOwned payload true).2.messages.map OutMsg.body = [payload] ∧
      (stream.out.enqueueOwned payload true).2.frontOffset = 0 := by
    simp [OutQueue.enqueueOwned, Nat.not_lt.mpr fits, room, kept, offset]
  obtain ⟨ok, messages, started⟩ := accepted
  simp only [writeCallOwned, writeCallWith, found, unfinished, ok]
  refine ⟨rfl, { stream with out := (stream.out.enqueueOwned payload true).2 }, ?_, messages,
    started⟩
  simp only [Bool.false_eq_true, if_false]
  rw [findStream, resumeIfStarted_streams]
  refine (conn.findStream_modify_self id ?_).trans ?_
  · exact fun _ => rfl
  · rw [found]
    rfl

/-! ### Passes and sweeps -/

theorem contents_expireDeadlines (now : Nat) :
    (conn.expireDeadlines now).contents = conn.contents := by
  have sweep : ∀ (positions : List Nat) (progress : Conn × List StreamId),
      (positions.foldl (expireAt now) progress).1.contents = progress.1.contents := by
    intro positions
    induction positions with
    | nil => exact fun _ => rfl
    | cons position rest ih =>
        intro progress
        rw [List.foldl_cons, ih]
        unfold expireAt
        split
        · rfl
        · split
          · rfl
          next stream _ =>
            split
            · cases stream.cancelHook <;>
                exact progress.1.contents_modifyAt position fun _ => ⟨rfl, rfl⟩
            · rfl
  have finish : ∀ (ids : List StreamId) (conn : Conn),
      (ids.foldl (fun conn id => (conn.finishCallMsg id .deadlineExceeded
        (Headers.ascii "deadline exceeded")).2) conn).contents = conn.contents := by
    intro ids
    induction ids with
    | nil => exact fun _ => rfl
    | cons id rest ih =>
        intro conn
        rw [List.foldl_cons, ih]
        exact conn.contents_finishCallInner id _ _
  unfold expireDeadlines
  rw [finish, sweep]

theorem contents_submitResponseFor (id : StreamId) (rc : Int) :
    (conn.submitResponseFor id rc).2.contents = conn.contents := by
  unfold submitResponseFor
  split
  · rfl
  · exact (conn.emit _).contents_modify id fun _ => ⟨rfl, rfl⟩

theorem contents_refuse (position : Nat) (id : StreamId) (status : GrpcStatus) (submitRc : Int) :
    (conn.refuse position id status submitRc).contents = conn.contents := by
  unfold refuse
  rw [contents_submitResponseFor]
  exact conn.contents_modifyAt position fun _ => ⟨rfl, rfl⟩

theorem contents_settle (position : Nat) (id : StreamId) (rc submitRc : Int) :
    (conn.settle position id rc submitRc).contents = conn.contents := by
  have concluded : ((conn.leave id rc).modifyAt position (concludeHandler rc)).contents =
      conn.contents := (conn.leave id rc).contents_modifyAt position (silent_concludeHandler rc)
  unfold settle respondOnce
  split
  · exact concluded
  · split
    · exact concluded
    · have submitted := contents_submitResponseFor
        ((conn.leave id rc).modifyAt position (concludeHandler rc)) id submitRc
      split
      next accepted => rw [accepted] at submitted; exact submitted.trans concluded
      next _ failed =>
        rw [failed] at submitted
        refine (contents_modifyAt _ position ?_).trans (submitted.trans concluded)
        exact fun _ => ⟨rfl, rfl⟩

theorem contents_handling (position : Nat) (id : StreamId) (entry : MethodEntry) (payload : Bytes) :
    (conn.handling position id entry payload []).contents = conn.contents :=
  conn.contents_modifyAt position (silent_applyBackpressure entry.backpressure)

/-- A pass whose handlers make no calls. -/
theorem contents_dispatch {env : DispatchEnv}
    (quiet : ∀ position, (env.handler position).calls = []) :
    (conn.dispatch env).2.contents = conn.contents := by
  have served : ∀ (conn : Conn) position id entry payload submitRc,
      (conn.serve position id entry payload (env.handler position) submitRc).contents =
        conn.contents := by
    intro conn position id entry payload submitRc
    have settled : conn.serve position id entry payload (env.handler position) submitRc =
        (conn.handling position id entry payload (env.handler position).calls).settle position id
          (env.handler position).rc submitRc := rfl
    rw [settled, contents_settle, quiet, contents_handling]
  have turns : ∀ (positions : List Nat) (progress : Nat × Conn),
      (positions.foldl (dispatchAt env) progress).2.contents = progress.2.contents := by
    intro positions
    induction positions with
    | nil => exact fun _ => rfl
    | cons position rest ih =>
        intro progress
        rw [List.foldl_cons, ih]
        unfold dispatchAt
        split
        · rfl
        · split
          · rfl
          · rw [dispatchStream_eq_verdict]
            split
            · exact contents_refuse _ _ _ _ _
            · exact served _ _ _ _ _ _
  exact turns _ _

/-! ### Bytes on their way out -/

/-- The bytes that an event hands out of a stream's queue. -/
def ships (id : StreamId) (conn : Conn) : ConnEvent → Bytes
  | .read reader length trailerRc =>
      if reader = id then
        match (conn.dataProviderRead reader length trailerRc).1 with
        | .copied bytes => bytes
        | _ => []
      else []
  | .consumePromise reader length =>
      if reader = id then
        match conn.findStream reader with
        | none => []
        | some stream => (stream.out.frontRegions length).1 ++ (stream.out.frontRegions length).2
      else []
  | _ => []

/-- The bytes `shipped` have left the front of a stream's queue. -/
structure Sheds (stream : StreamCtx) (shipped : Bytes) (later : StreamCtx) : Prop where
  bytes : shipped ++ later.out.unshipped = stream.out.unshipped
  empty : stream.out.messages = [] → later.out.messages = []

theorem Sheds.of_content (same : later.content = stream.content) :
    Sheds stream [] later := by
  have messages : later.out.messages = stream.out.messages := congrArg Prod.fst same
  have offset : later.out.frontOffset = stream.out.frontOffset := congrArg Prod.snd same
  refine ⟨?_, fun empty => messages.trans empty⟩
  rw [List.nil_append, OutQueue.unshipped, OutQueue.unshipped, messages, offset]

theorem Sheds.of_contents {conn next : Conn} (same : next.contents = conn.contents)
    (found : conn.findStream id = some stream) (present : next.findStream id = some later) :
    Sheds stream [] later := by
  obtain ⟨other, looked, content⟩ := findStream_of_contents same found
  obtain rfl := Option.some.inj (looked.symm.trans present)
  exact .of_content content

theorem dataProviderRead_other {reader : StreamId} (different : id ≠ reader) (length : Nat)
    (trailerRc : Int) :
    (conn.dataProviderRead reader length trailerRc).2.findStream id = conn.findStream id := by
  have reported : ∀ (conn : Conn) (out : OutQueue) (outcome : ReadOutcome),
      (conn.reportRead reader out outcome).findStream id = conn.findStream id := by
    intro conn out outcome
    exact conn.findStream_modify_other different fun _ => rfl
  unfold dataProviderRead
  split
  · rfl
  · dsimp only
    split
    · exact reported _ _ _
    · split
      · exact reported _ _ _
      · split <;> exact reported _ _ _

theorem sheds_read {conn : Conn} {length : Nat} {trailerRc : Int}
    (found : conn.findStream id = some stream)
    (present : (conn.dataProviderRead id length trailerRc).2.findStream id = some later) :
    Sheds stream (conn.ships id (.read id length trailerRc)) later := by
  have reported : ∀ (conn' : Conn) (out : OutQueue) (outcome : ReadOutcome),
      conn'.findStream id = some stream →
        (conn'.reportRead id out outcome).findStream id = some later →
        later.out = out := by
    intro conn' out outcome known looked
    have changed := conn'.findStream_modify_self id
      (show ∀ stream : StreamCtx, ({ stream with out := out } : StreamCtx).id = stream.id from
        fun _ => rfl)
    rw [known] at changed
    exact congrArg StreamCtx.out (Option.some.inj (looked.symm.trans changed))
  have drained := (stream.out.drainInto_ships length).unshipped
  simp only [ships, if_true]
  simp only [dataProviderRead, found] at present ⊢
  split at present
  next promises =>
    rw [if_pos promises]
    have out := reported conn _ _ found present
    refine .of_content ?_
    rw [StreamCtx.content, out]
    simp only [OutQueue.promiseFront]
    split <;> rfl
  next copies =>
    rw [if_neg copies]
    have sheds : ∀ shipped, shipped = (stream.out.drainInto length).1 →
        later.out = (stream.out.drainInto length).2 → Sheds stream shipped later := by
      rintro shipped rfl out
      refine ⟨?_, fun empty => ?_⟩
      · rw [out]
        exact drained.symm
      · rw [out]
        simp [OutQueue.drainInto, empty, OutQueue.drainMessages]
    split at present
    next some' =>
      rw [if_pos some']
      exact sheds _ rfl (reported conn _ _ found present)
    next none =>
      rw [if_neg none]
      have nothing : [] = (stream.out.drainInto length).1 := by simpa using (not_not.mp none).symm
      split at present
      next finished =>
        rw [if_pos finished]
        split
        next outcome =>
          split at outcome <;> simp at outcome
        next => exact sheds _ nothing (reported (conn.emit _) _ _ found present)
      next unfinished =>
        rw [if_neg unfinished]
        exact sheds _ nothing (reported conn _ _ found present)

theorem sheds_consumePromise {conn : Conn} {length : Nat} (found : conn.findStream id = some stream)
    (present : (conn.consumePromise id length).findStream id = some later) :
    Sheds stream (conn.ships id (.consumePromise id length)) later := by
  have out : later.out = stream.out.consumeFront length := by
    have changed := conn.findStream_modify_self id
      (show ∀ stream : StreamCtx,
        ({ stream with out := stream.out.consumeFront length } : StreamCtx).id = stream.id from
          fun _ => rfl)
    rw [found] at changed
    exact congrArg StreamCtx.out (Option.some.inj (present.symm.trans changed))
  simp only [ships, if_true, found]
  refine ⟨?_, fun empty => ?_⟩
  · rw [out]
    exact (stream.out.consumeFront_ships length).unshipped.symm
  · rw [out]
    simp [OutQueue.consumeFront, OutQueue.consumeMessages, empty]

/-- An event of nghttp2 or a sweep takes bytes out of a stream's queue and puts none in. -/
theorem sheds_perform {conn : Conn} (wellFormed : conn.WellFormed) {event : ConnEvent}
    (quiet : ∀ env, event = .dispatch env → ∀ position, (env.handler position).calls = [])
    (uncalled : ∀ call, event ≠ .api call) (found : conn.findStream id = some stream)
    (present : (conn.perform event).findStream id = some later) :
    Sheds stream (conn.ships id event) later := by
  cases event with
  | registerMethod entry copy reserve =>
      refine .of_contents ?_ found present
      simp only [perform, registerMethodInner]
      split <;> rfl
  | beginHeaders hd reserve =>
      have same : (conn.perform (.beginHeaders hd reserve)).findStream id = some stream := by
        rcases conn.onBeginHeaders_cases hd reserve with same | pushed
        · rw [perform, same]
          exact found
        · have known : conn.streams.find? (fun stream => stream.id = id) = some stream := found
          rw [perform, pushed]
          simp [pushStream, findStream, Table.lookup, List.find?_append, known]
      obtain rfl := Option.some.inj (same.symm.trans present)
      exact .of_content rfl
  | header reader name value now reserve =>
      refine .of_contents ?_ found present
      simp only [perform, onHeader]
      repeat' split
      all_goals first | rfl | exact conn.contents_modify reader fun _ => ⟨rfl, rfl⟩
  | frameRecv hd =>
      refine .of_contents ?_ found present
      simp only [perform, onFrameRecv]
      repeat' split
      all_goals first | rfl | exact conn.contents_modify hd.streamId fun _ => ⟨rfl, rfl⟩
  | dataChunkRecv reader chunk reserve =>
      refine .of_contents ?_ found present
      simp only [perform, onDataChunkRecv]
      repeat' split
      all_goals first | rfl | exact conn.contents_modify reader fun _ => ⟨rfl, rfl⟩
  | streamClose closing errorCode =>
      by_cases same : closing = id
      · subst same
        have gone := findStream_onStreamClose_self wellFormed.distinct closing errorCode
        exact absurd (gone.symm.trans present) (by simp)
      · have kept := findStream_onStreamClose_other wellFormed.distinct (Ne.symm same) errorCode
        obtain rfl := Option.some.inj ((kept.trans found).symm.trans present)
        exact .of_content rfl
  | api call => exact absurd rfl (uncalled call)
  | expireDeadlines now => exact .of_contents (conn.contents_expireDeadlines now) found present
  | dispatch env => exact .of_contents (conn.contents_dispatch (quiet env rfl)) found present
  | read reader length trailerRc =>
      by_cases same : reader = id
      · subst same
        exact sheds_read found present
      · have kept := conn.dataProviderRead_other (Ne.symm same) length trailerRc
        obtain rfl := Option.some.inj ((kept.trans found).symm.trans present)
        simp only [ships, same, if_false]
        exact .of_content rfl
  | consumePromise reader length =>
      by_cases same : reader = id
      · subst same
        exact sheds_consumePromise found present
      · have kept : (conn.consumePromise reader length).findStream id = conn.findStream id :=
          conn.findStream_modify_other (Ne.symm same) fun _ => rfl
        obtain rfl := Option.some.inj ((kept.trans found).symm.trans present)
        simp only [ships, same, if_false]
        exact .of_content rfl

end Conn

end GrpcUds.Server
