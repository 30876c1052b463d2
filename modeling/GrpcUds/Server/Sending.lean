import GrpcUds.Server.Contents
import GrpcUds.Server.Unanswered

/-!
# What a stream has sent

The payloads that a stream accepted are what it has sent and what is still queued, as
long as there is at most one of them; the trailer comes after the last byte.  With
more than one payload a bounded queue may have dropped some.
-/

namespace GrpcUds.Server

open Framing

variable {conn : Conn} {id : StreamId}

namespace Conn

/-! ### A stream that comes up -/

theorem findStream_of_ids {next : Conn}
    (ids : next.streams.map StreamCtx.id = conn.streams.map StreamCtx.id)
    (missing : conn.findStream id = none) : next.findStream id = none := by
  rw [findStream, Table.lookup_eq_none_iff] at missing ⊢
  intro stream present named
  obtain ⟨other, known, same⟩ :=
    List.mem_map.mp (ids ▸ List.mem_map_of_mem present : stream.id ∈ _)
  exact missing other known (same.trans named)

/-- A call opens no stream. -/
theorem exists_of_api {call : ApiCall} {later : StreamCtx}
    (present : (conn.api call).2.findStream id = some later) :
    ∃ stream, conn.findStream id = some stream := by
  cases found : conn.findStream id with
  | none =>
      have missing := findStream_of_ids (conn.api_acts call).ids found
      exact absurd (missing.symm.trans present) (by simp)
  | some stream => exact ⟨stream, rfl⟩

/-- A stream that was not there before an event was opened by it. -/
theorem findStream_new (wellFormed : conn.WellFormed) {event : ConnEvent} (legal : conn.Legal event)
    {later : StreamCtx} (missing : conn.findStream id = none)
    (present : (conn.perform event).findStream id = some later) :
    later = .new id ∧ .opened id ∉ conn.logOf id := by
  have absent : ∀ {next : Conn}, conn.Keeps next → next.findStream id ≠ some later := by
    intro next keeps found
    exact absurd ((findStream_of_ids keeps.ids missing).symm.trans found) nofun
  cases event with
  | beginHeaders hd reserve =>
      rcases conn.onBeginHeaders_cases hd reserve with idle | pushed
      · rw [perform, idle] at present
        exact absurd (missing.symm.trans present) nofun
      · rw [perform, pushed] at present
        by_cases same : hd.streamId = id
        · subst same
          have looked := findStream_pushStream_self missing
          exact ⟨Option.some.inj (present.symm.trans looked), legal⟩
        · have kept := conn.findStream_pushStream_other (Ne.symm same)
          exact absurd ((kept.trans missing).symm.trans present) nofun
  | registerMethod entry copy reserve =>
      have kept : (conn.perform (.registerMethod entry copy reserve)).findStream id =
          conn.findStream id := by
        simp only [perform, registerMethodInner]
        split <;> rfl
      exact absurd ((kept.trans missing).symm.trans present) nofun
  | streamClose closing errorCode =>
      have gone : (conn.onStreamClose closing errorCode).findStream id = none := by
        by_cases same : id = closing
        · exact same ▸ findStream_onStreamClose_self wellFormed.distinct closing errorCode
        · exact (findStream_onStreamClose_other wellFormed.distinct same errorCode).trans missing
      exact absurd (gone.symm.trans present) nofun
  | header reader name value now reserve =>
      exact absurd present (absent (onHeader_acts conn reader name value now reserve).toKeeps)
  | frameRecv hd => exact absurd present (absent (onFrameRecv_acts conn hd legal.2).toKeeps)
  | dataChunkRecv reader chunk reserve =>
      exact absurd present (absent (onDataChunkRecv_acts conn reader chunk reserve).toKeeps)
  | api call => exact absurd present (absent (conn.api_acts call).toKeeps)
  | expireDeadlines now =>
      exact absurd present (absent (conn.expireDeadlines_acts now wellFormed.distinct).toKeeps)
  | dispatch env =>
      exact absurd present
        (absent (conn.dispatch_acts env wellFormed.distinct wellFormed.idle).toKeeps)
  | read reader length trailerRc =>
      exact absurd present
        (absent (conn.dataProviderRead_acts reader legal.1 legal.2 trailerRc).toKeeps)
  | consumePromise reader length =>
      exact absurd present (absent (conn.consumePromise_acts reader length).toKeeps)

/-- Nothing leaves a stream that is not there. -/
theorem ships_of_missing (missing : conn.findStream id = none) (event : ConnEvent) :
    conn.ships id event = [] := by
  cases event with
  | read reader length trailerRc =>
      by_cases same : reader = id
      · subst same
        simp [ships, dataProviderRead, missing]
      · simp [ships, same]
  | consumePromise reader length =>
      by_cases same : reader = id
      · subst same
        simp [ships, missing]
      · simp [ships, same]
  | _ => rfl

/-- What leaves a stream was queued. -/
theorem ships_of_unshipped {stream : StreamCtx} (found : conn.findStream id = some stream)
    (nothing : stream.out.unshipped = []) (event : ConnEvent) : conn.ships id event = [] := by
  cases event with
  | read reader length trailerRc =>
      by_cases same : reader = id
      · subst same
        have drained : (stream.out.drainInto length).1 = [] := by
          rw [OutQueue.drainInto_eq_take, nothing, List.take_nil]
        simp only [ships, if_true, dataProviderRead, found, drained, ne_eq, not_true_eq_false,
          if_false]
        by_cases promises : 0 ≤ conn.fd ∧ nocopyMin ≤ stream.out.frontRemaining
        · simp [promises]
        · by_cases finished : (stream.out.drainInto length).2.finished
          · by_cases failed : trailerRc = 0 <;> simp [promises, finished, failed]
          · simp [promises, finished]
      · simp [ships, same]
  | consumePromise reader length =>
      by_cases same : reader = id
      · subst same
        have moved := (stream.out.consumeFront_ships length).unshipped
        rw [show (wire stream.out.messages).drop stream.out.frontOffset = [] from nothing] at moved
        simp only [ships, if_true, found]
        exact (List.append_eq_nil_iff.mp moved.symm).1
      · simp [ships, same]
  | _ => rfl

/-! ### Payloads and bytes -/

/-- The payloads that a stream accepted and the bytes that have left it, if it accepted
at most one. -/
structure Delivered (id : StreamId) (conn : Conn) (payloads : List Bytes) (sent : Bytes) :
    Prop where
  unopened : .opened id ∉ conn.logOf id → sent = [] ∧ payloads = []
  queued : ∀ stream, conn.findStream id = some stream → payloads.length ≤ 1 →
    sent ++ stream.out.unshipped = payloads.flatMap frame ∧
      (payloads = [] → stream.out.messages = [])
  trailed : 0 < trailers (conn.logOf id) → payloads.length ≤ 1 → sent = payloads.flatMap frame

namespace Delivered

variable {id : StreamId} {conn next : Conn} {payloads : List Bytes} {sent : Bytes}

theorem newServer (methods : List MethodEntry) (maxMessageLen : UInt32) (fd : Int)
    (id : StreamId) : Delivered id (.newServer methods maxMessageLen fd) [] [] where
  unopened := fun _ => ⟨rfl, rfl⟩
  queued := fun stream found => by simp [findStream, Conn.newServer, Table.lookup] at found
  trailed := fun _ _ => rfl

/-- An event that writes nothing. -/
theorem step (delivered : Delivered id conn payloads sent) (wellFormed : conn.WellFormed)
    {event : ConnEvent} (performed : conn.step event = some next)
    (quiet : ∀ env, event = .dispatch env → ∀ position, (env.handler position).calls = [])
    (uncalled : ∀ call, event ≠ .api call) :
    Delivered id next payloads (sent ++ conn.ships id event) := by
  have grows := wellFormed.logOf_grows performed id
  obtain ⟨legal, rfl⟩ := step_eq_some_iff.mp performed
  refine ⟨fun unopened => ?_, fun later present few => ?_, fun trailed few => ?_⟩
  · have fresh : .opened id ∉ conn.logOf id := fun opened => unopened (grows.subset opened)
    obtain ⟨rfl, rfl⟩ := delivered.unopened fresh
    refine ⟨?_, rfl⟩
    cases found : conn.findStream id with
    | none => rw [ships_of_missing found, List.append_nil]
    | some stream => exact absurd (wellFormed.opened_of_found found) fresh
  · cases found : conn.findStream id with
    | none =>
        obtain ⟨rfl, fresh⟩ := findStream_new wellFormed legal found present
        obtain ⟨rfl, rfl⟩ := delivered.unopened fresh
        rw [ships_of_missing found]
        exact ⟨rfl, fun _ => rfl⟩
    | some stream =>
        obtain ⟨bytes, empty⟩ := delivered.queued stream found few
        have sheds := sheds_perform wellFormed quiet uncalled found present
        refine ⟨?_, fun none => sheds.empty (empty none)⟩
        rw [List.append_assoc, sheds.bytes, bytes]
  · by_cases before : 0 < trailers (conn.logOf id)
    · have same := delivered.trailed before few
      have nothing : conn.ships id event = [] := by
        cases found : conn.findStream id with
        | none => exact ships_of_missing found event
        | some stream =>
            refine ships_of_unshipped found ?_ event
            have bytes := (delivered.queued stream found few).1
            rw [← same] at bytes
            exact List.append_right_eq_self.mp bytes
      rw [nothing, List.append_nil]
      exact same
    · have submits : trailers (conn.logOf id) < trailers ((conn.perform event).logOf id) := by
        omega
      obtain ⟨stream, found, _, nothing⟩ := trailer_after_last_byte wellFormed performed submits
      have bytes := (delivered.queued stream found few).1
      rw [nothing, List.append_nil] at bytes
      rw [ships_of_unshipped found nothing, List.append_nil]
      exact bytes

theorem trailers_api (conn : Conn) (call : ApiCall) (id : StreamId) :
    trailers ((conn.api call).2.logOf id) = trailers (conn.logOf id) :=
  calls_trailers ((conn.api_acts call).lanes id)

/-- Steps of the call API that leave the stream's messages alone. -/
theorem keep (delivered : Delivered id conn payloads sent)
    (steps : Relation.ReflTransGen (CallStep id) (conn.lane id) (next.lane id))
    (kept : ∀ later, next.findStream id = some later →
      ∃ stream, conn.findStream id = some stream ∧ later.content = stream.content) :
    Delivered id next payloads sent := by
  have grows := steps_log_grow CallStep.log_grows steps
  refine ⟨fun unopened => delivered.unopened fun opened => unopened (grows.subset opened),
    fun later present few => ?_, fun trailed => ?_⟩
  · obtain ⟨stream, found, content⟩ := kept later present
    have sheds : Sheds stream [] later := .of_content content
    obtain ⟨bytes, empty⟩ := delivered.queued stream found few
    refine ⟨?_, fun none => sheds.empty (empty none)⟩
    rw [← bytes, ← sheds.bytes, List.nil_append]
  · have same : trailers (next.logOf id) = trailers (conn.logOf id) := calls_trailers steps
    rw [same] at trailed
    exact delivered.trailed trailed

/-- A call that does not write to the stream. -/
theorem call (delivered : Delivered id conn payloads sent) {call : ApiCall}
    (silent : ∀ payload, written? call ≠ some (id, payload)) :
    Delivered id (conn.api call).2 payloads sent := by
  apply delivered.keep ((conn.api_acts call).lanes id)
  intro later present
  obtain ⟨stream, found⟩ := exists_of_api present
  obtain ⟨other, looked, content⟩ := conn.content_api_other silent found
  obtain rfl := Option.some.inj (looked.symm.trans present)
  exact ⟨stream, found, content⟩

/-- The first write. -/
theorem write (delivered : Delivered id conn [] sent) (opened : .opened id ∈ conn.logOf id)
    (untrailed : trailers (conn.logOf id) = 0) {stream : StreamCtx}
    (found : conn.findStream id = some stream) {call : ApiCall} {payload : Bytes}
    {later : StreamCtx} (present : (conn.api call).2.findStream id = some later)
    (messages : later.out.messages.map OutMsg.body = [payload])
    (offset : later.out.frontOffset = 0) :
    Delivered id (conn.api call).2 [payload] sent := by
  have grows := steps_log_grow CallStep.log_grows ((conn.api_acts call).lanes id)
  refine ⟨fun unopened => absurd (grows.subset opened) unopened, fun other looked _ => ?_,
    fun trailed => ?_⟩
  · obtain rfl := Option.some.inj (present.symm.trans looked)
    obtain ⟨bytes, _⟩ := delivered.queued stream found (by simp)
    obtain ⟨rfl, _⟩ := List.append_eq_nil_iff.mp bytes
    obtain ⟨message, shape, body⟩ : ∃ message, later.out.messages = [message] ∧
        message.body = payload := by
      obtain ⟨message, rest, shape, body, none⟩ := List.map_eq_cons_iff.mp messages
      obtain rfl := List.map_eq_nil_iff.mp none
      exact ⟨message, shape, body⟩
    refine ⟨?_, nofun⟩
    simp [OutQueue.unshipped, shape, offset, message.bytes_eq_frame, body]
  · rw [trailers_api, untrailed] at trailed
    exact absurd trailed (Nat.lt_irrefl _)

end Delivered

end Conn

/-! ### The finish that a trailer carries -/

/-- The first finish of a call, asked for after its dispatch. -/
structure Concluded (finish : GrpcStatus × Option Bytes) (log : List Effect) : Prop where
  first : firstFinish log = some finish
  timely : finishedEarly log = false
  dispatched : 0 < dispatches log

namespace Concluded

theorem grow {finish : GrpcStatus × Option Bytes} {log later : List Effect}
    (concluded : Concluded finish log) (grows : log <+: later) : Concluded finish later := by
  have dispatched := concluded.dispatched
  refine ⟨?_, ?_, dispatched.trans_le (dispatches_mono grows)⟩
  · obtain ⟨added, rfl⟩ := grows
    rw [firstFinish_append, concluded.first]
    rfl
  · obtain ⟨added, rfl⟩ := grows
    rw [finishedEarly_append, concluded.timely, decide_eq_false (Nat.ne_of_gt dispatched)]
    rfl

/-- A finish of a stream that is open and not finished. -/
theorem of_finish (answer : (conn.lane id).Answer id) {stream : StreamCtx}
    (found : conn.findStream id = some stream) (unfinished : stream.out.finished = false)
    (dispatched : 0 < dispatches (conn.logOf id)) (status : GrpcStatus) (message : Option Bytes) :
    Concluded (status, message) ((conn.finishCallInner id status message).2.logOf id) := by
  have none : firstFinish (conn.logOf id) = none := answer.firstFinish_eq_none found unfinished
  have concluded : Concluded (status, message) (conn.logOf id ++ [.finish id status message]) := by
    refine ⟨?_, ?_, ?_⟩
    · rw [firstFinish_append, none]
      rfl
    · rw [finishedEarly_append, finishedEarly_of_unfinished none,
        decide_eq_false (Nat.ne_of_gt dispatched)]
      rfl
    · rw [dispatches_append]
      exact Nat.lt_add_right _ dispatched
  refine concluded.grow ?_
  unfold Conn.finishCallInner
  rw [found]
  simp only [Conn.resumeIfStarted, Conn.emit, Conn.logOf]
  split <;> simp [Effect.id, Conn.modify]

theorem trailer_eq (answer : (conn.lane id).Answer id) {finish : GrpcStatus × Option Bytes}
    (concluded : Concluded finish (conn.logOf id)) {nva : List Headers.Nv} {rc : Int}
    (submitted : .submitTrailer id nva rc ∈ conn.logOf id) :
    nva = trailerOf finish := by
  obtain ⟨asked, first, carried⟩ :=
    answer.trailed.carried concluded.timely nva rc submitted
  rw [carried, Option.some.inj (first.symm.trans concluded.first)]

end Concluded

end GrpcUds.Server
