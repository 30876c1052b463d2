import GrpcUds.Server.Pass

/-!
# The receiving side of a stream

Apart from the dispatch of a complete stream, only a stream's own receive
callbacks change its state, its request and its path.
-/

namespace GrpcUds.Server

/-- The event is not a receive callback for the stream. -/
def ConnEvent.Spares (id : StreamId) : ConnEvent → Prop
  | beginHeaders hd _ => hd.streamId ≠ id
  | header other _ _ _ _ => other ≠ id
  | frameRecv hd => hd.streamId ≠ id
  | dataChunkRecv other _ _ => other ≠ id
  | streamClose other _ => other ≠ id
  | _ => True

def ConnEvent.isDispatch : ConnEvent → Bool
  | dispatch _ => true
  | _ => false

/-- Equal on the receiving side. -/
structure StreamCtx.SameRequest (stream later : StreamCtx) : Prop where
  request : later.request = stream.request
  path : later.path = stream.path
  state : later.state = stream.state

theorem StreamCtx.SameRequest.refl (stream : StreamCtx) : stream.SameRequest stream :=
  ⟨rfl, rfl, rfl⟩

variable {stream : StreamCtx}

theorem StreamCtx.Follows.sameRequest {later : StreamCtx} (follows : stream.Follows later) :
    stream.SameRequest later :=
  ⟨follows.request, follows.path, follows.state⟩

namespace Conn

theorem findStream_position {conn : Conn} {id : StreamId} (found : conn.findStream id = some stream)
    :
    
    ∃ position : Nat, conn.streams[position]? = some stream ∧ stream.id = id := by
  obtain ⟨position, placed⟩ := List.mem_iff_getElem?.mp (Table.lookup_mem found)
  exact ⟨position, placed, Table.lookup_key found⟩

/-- A change of one stream's other fields keeps every request. -/
theorem modify_sameRequest {conn : Conn} {id : StreamId} (found : conn.findStream id = some stream)
    (other : StreamId) {change : StreamCtx → StreamCtx}
    (kept : ∀ stream, (change stream).id = stream.id)
    (same : ∀ stream : StreamCtx, stream.SameRequest (change stream)) :
    ∃ later, (conn.modify other change).findStream id = some later ∧ stream.SameRequest later := by
  by_cases own : id = other
  · subst own
    exact ⟨change stream, by rw [findStream_modify_self conn id kept, found]; rfl, same stream⟩
  · exact ⟨stream, by rw [findStream_modify_other conn own kept, found], .refl stream⟩

theorem Sends.sameRequest {conn next : Conn} (sends : conn.Sends next) (distinct : next.Distinct)
    {id : StreamId} (found : conn.findStream id = some stream) :
    ∃ later, next.findStream id = some later ∧ stream.SameRequest later := by
  obtain ⟨position, placed, rfl⟩ := findStream_position found
  obtain ⟨later, placedLater, follows⟩ := sends.streams position stream placed
  exact ⟨later, follows.id ▸ findStream_of_getElem? distinct placedLater, follows.sameRequest⟩

theorem expireAt_sends (now : Nat) (progress : Conn × List StreamId) (position : Nat)
    (distinct : progress.1.Distinct) : progress.1.Sends (expireAt now progress position).1 := by
  unfold expireAt
  split
  · exact .refl _
  · cases found : progress.1.streams[position]? with
    | none => exact .refl _
    | some stream =>
        dsimp only
        split
        · rw [fireHook_modifyAt distinct found]
          refine sends_apply (fun _ => ⟨rfl, rfl, rfl, rfl, fun _ => ⟨rfl, rfl, rfl⟩⟩) ?_
          refine List.filter_eq_nil_iff.mpr fun effect membership => ?_
          obtain ⟨fired, rfl⟩ := mem_hookEffects membership
          simp [Effect.isInvoked]
        · exact .refl _

theorem expireDeadlines_sends (conn : Conn) (now : Nat) (distinct : conn.Distinct) :
    conn.Sends (conn.expireDeadlines now) := by
  have sweeps : ∀ (positions : List Nat) (progress : Conn × List StreamId),
      progress.1.Distinct → progress.1.Sends (positions.foldl (expireAt now) progress).1 := by
    intro positions
    induction positions with
    | nil => exact fun _ _ => .refl _
    | cons position rest ih =>
        intro progress distinct
        have acts := expireAt_acts now progress position distinct
        exact (expireAt_sends now progress position distinct).trans
          (ih _ (acts.distinct distinct))
  have finishes : ∀ (ids : List StreamId) (conn : Conn), conn.Sends (ids.foldl (fun conn id =>
      (conn.finishCallMsg id .deadlineExceeded (Headers.ascii "deadline exceeded")).2) conn) := by
    intro ids
    induction ids with
    | nil => exact fun conn => .refl conn
    | cons id rest ih =>
        exact fun conn => (finishCallInner_sends conn id _ _).trans (ih _)
  exact (sweeps _ (conn, []) distinct).trans (finishes _ _)

theorem dataProviderRead_sameRequest {conn : Conn} {id : StreamId}
    (found : conn.findStream id = some stream) (reader : StreamId) (length : Nat) (trailerRc : Int)
    :
    
    ∃ later, (conn.dataProviderRead reader length trailerRc).2.findStream id = some later ∧
      stream.SameRequest later := by
  have stored : ∀ out : OutQueue, ∃ later,
      (conn.modify reader fun stream => { stream with out := out }).findStream id = some later ∧
        stream.SameRequest later := fun out =>
    modify_sameRequest found reader (fun _ => rfl) fun _ => ⟨rfl, rfl, rfl⟩
  unfold dataProviderRead
  cases conn.findStream reader with
  | none => exact ⟨stream, found, .refl stream⟩
  | some current =>
      dsimp only
      split
      · exact stored _
      · split
        · exact stored _
        · split
          · exact stored _
          · exact stored _

/-! A receive callback of another stream leaves this one alone. -/

section Elsewhere

variable {conn : Conn} {id other : StreamId}

theorem onBeginHeaders_findStream_other {hd : FrameHd} (different : hd.streamId ≠ id)
    (reserve : Bool) : (conn.onBeginHeaders hd reserve).2.findStream id = conn.findStream id := by
  rcases conn.onBeginHeaders_cases hd reserve with same | pushed
  · rw [same]
  · rw [pushed]
    exact findStream_pushStream_other different.symm

theorem onHeader_findStream_other (different : other ≠ id) (name value : Bytes) (now : Nat)
    (reserve : Bool) :
    (conn.onHeader other name value now reserve).2.findStream id = conn.findStream id := by
  unfold onHeader
  cases conn.findStream other with
  | none => rfl
  | some current =>
      dsimp only
      split
      · split
        · rfl
        · exact findStream_modify_other conn different.symm fun _ => rfl
      · split
        · exact findStream_modify_other conn different.symm fun _ => rfl
        · rfl

theorem onFrameRecv_findStream_other {hd : FrameHd} (different : hd.streamId ≠ id) :
    (conn.onFrameRecv hd).findStream id = conn.findStream id := by
  unfold onFrameRecv
  cases conn.findStream hd.streamId with
  | none => rfl
  | some current =>
      dsimp only
      split
      · exact findStream_modify_other conn different.symm fun _ => rfl
      · split
        · exact findStream_modify_other conn different.symm fun _ => rfl
        · rfl

theorem onDataChunkRecv_findStream_other (different : other ≠ id) (chunk : Bytes) (reserve : Bool) :
    (conn.onDataChunkRecv other chunk reserve).2.findStream id = conn.findStream id := by
  unfold onDataChunkRecv
  cases conn.findStream other with
  | none => rfl
  | some current =>
      dsimp only
      split
      · rfl
      · split
        · rfl
        · exact findStream_modify_other conn different.symm fun _ => rfl

theorem onStreamClose_findStream_other (distinct : conn.Distinct) (different : other ≠ id)
    (errorCode : Nat) :
    (conn.onStreamClose other errorCode).findStream id = conn.findStream id := by
  unfold onStreamClose
  cases conn.findStream other with
  | none => rfl
  | some current =>
      dsimp only
      rw [findStream, dropStream_streams, Table.lookup_remove_other distinct different.symm]
      rfl

end Elsewhere

/-- Between its own receive callbacks a stream keeps its receiving side, unless
it is complete and dispatch takes it up. -/
theorem step_spares {conn next : Conn} (wellFormed : conn.WellFormed) {event : ConnEvent}
    {id : StreamId} (spares : event.Spares id) (performed : conn.step event = some next)
    (found : conn.findStream id = some stream)
    (waiting : event.isDispatch = true → stream.state ≠ .complete) :
    ∃ later, next.findStream id = some later ∧ stream.SameRequest later := by
  obtain ⟨legal, rfl⟩ := step_eq_some_iff.mp performed
  have untouched : ∀ {next : Conn}, next.findStream id = conn.findStream id →
      ∃ later, next.findStream id = some later ∧ stream.SameRequest later :=
    fun same => ⟨stream, same.trans found, .refl stream⟩
  cases event with
  | registerMethod entry copy reserve =>
      simp only [perform, registerMethodInner]
      split <;> exact untouched rfl
  | beginHeaders hd reserve => exact untouched (onBeginHeaders_findStream_other spares reserve)
  | header other name value now reserve =>
      exact untouched (onHeader_findStream_other spares name value now reserve)
  | frameRecv hd => exact untouched (onFrameRecv_findStream_other spares)
  | dataChunkRecv other chunk reserve =>
      exact untouched (onDataChunkRecv_findStream_other spares chunk reserve)
  | streamClose other errorCode =>
      exact untouched (onStreamClose_findStream_other wellFormed.distinct spares errorCode)
  | api call =>
      exact (conn.api_sends call).sameRequest ((conn.api_acts call).distinct wellFormed.distinct)
        found
  | expireDeadlines now =>
      exact (conn.expireDeadlines_sends now wellFormed.distinct).sameRequest
        ((conn.expireDeadlines_acts now wellFormed.distinct).distinct wellFormed.distinct) found
  | dispatch env =>
      have pass := conn.dispatch_pass env wellFormed.distinct wellFormed.idle
      obtain ⟨position, placed, rfl⟩ := findStream_position found
      have inside : position < conn.streams.length := (List.getElem?_eq_some_iff.mp placed).1
      obtain ⟨later, placedLater, visited⟩ := pass.behind position stream inside placed
      have follows := visited.untouched (waiting rfl)
      exact ⟨later, visited.id ▸ findStream_of_getElem? (pass.acts.distinct wellFormed.distinct)
        placedLater, follows.sameRequest⟩
  | read reader length trailerRc =>
      exact dataProviderRead_sameRequest found reader length trailerRc
  | consumePromise reader length =>
      exact modify_sameRequest found reader (fun _ => rfl) fun _ => ⟨rfl, rfl, rfl⟩

end Conn

end GrpcUds.Server
