import GrpcUds.Server.Projection

/-!
# Runs of a connection, stream by stream

Every step of a connection moves each of its lanes by lane steps.  What lane
steps keep therefore holds of every stream of every reachable connection.
-/

namespace GrpcUds.Server

open Relation

variable {id : StreamId}

theorem CallStep.log_grows {lane next : Lane} (step : CallStep id lane next) :
    lane.log <+: next.log := by
  cases step <;> exact List.prefix_append _ _

theorem TransportStep.log_grows {lane next : Lane} (step : TransportStep id lane next) :
    lane.log <+: next.log := by
  cases step <;> exact List.prefix_append _ _

theorem LaneStep.log_grows {lane next : Lane} (step : LaneStep id lane next) :
    lane.log <+: next.log := by
  cases step with
  | call step => exact step.log_grows
  | transport step => exact step.log_grows

theorem steps_log_grow {Step : Lane → Lane → Prop}
    (grows : ∀ {lane next}, Step lane next → lane.log <+: next.log) {lane next : Lane}
    (steps : ReflTransGen Step lane next) : lane.log <+: next.log := by
  induction steps with
  | refl => exact List.prefix_rfl
  | tail _ step ih => exact ih.trans (grows step)

/-- What every step of a lane keeps holds of whatever a stream comes to. -/
theorem LaneStep.invariant {lane : Lane} {Invariant : Lane → Prop}
    (steps : ReflTransGen (LaneStep id) .empty lane) (start : Invariant .empty)
    (preserved : ∀ lane next, Invariant lane → LaneStep id lane next → Invariant next) :
    Invariant lane := by
  induction steps with
  | refl => exact start
  | tail _ step ih => exact preserved _ _ ih step

namespace Conn

/-- What holds between two events of every run. -/
structure WellFormed (conn : Conn) : Prop where
  distinct : conn.Distinct
  idle : conn.running = none
  opened : ∀ stream ∈ conn.streams, .opened stream.id ∈ conn.logOf stream.id

theorem newServer_wellFormed (methods : List MethodEntry) (maxMessageLen : UInt32) (fd : Int) :
    (newServer methods maxMessageLen fd).WellFormed where
  distinct := List.nodup_nil
  idle := rfl
  opened := by simp [newServer]

variable {conn next : Conn} {event : ConnEvent}

theorem WellFormed.opened_of_found (wellFormed : conn.WellFormed) {stream : StreamCtx}
    (found : conn.findStream id = some stream) :
    .opened id ∈ conn.logOf id := by
  have opened := wellFormed.opened stream (Table.lookup_mem found)
  rwa [Table.lookup_key found] at opened

/-- A step of a well-formed connection, seen lane by lane. -/
structure Moves (Step : StreamId → Lane → Lane → Prop) (conn next : Conn) : Prop where
  wellFormed : next.WellFormed
  lanes : ∀ id, ReflTransGen (Step id) (conn.lane id) (next.lane id)

theorem Moves.toLaneStep {Step : StreamId → Lane → Lane → Prop} (moves : conn.Moves Step next)
    (included : ∀ id lane next, Step id lane next → LaneStep id lane next) :
    conn.Moves LaneStep next :=
  ⟨moves.wellFormed, fun id => ReflTransGen.mono (included id) _ _ (moves.lanes id)⟩

theorem Acts.moves {Step : StreamId → Lane → Lane → Prop} (acts : conn.Acts Step next)
    (grows : ∀ {id lane next}, Step id lane next → lane.log <+: next.log)
    (wellFormed : conn.WellFormed) : conn.Moves Step next where
  wellFormed :=
    { distinct := acts.distinct wellFormed.distinct
      idle := acts.running.trans wellFormed.idle
      opened := by
        intro stream membership
        have listed : stream.id ∈ conn.streams.map StreamCtx.id :=
          acts.ids ▸ List.mem_map_of_mem membership
        obtain ⟨earlier, present, named⟩ := List.mem_map.mp listed
        have opened := wellFormed.opened earlier present
        rw [named] at opened
        exact (steps_log_grow grows (acts.lanes stream.id)).subset opened }
  lanes := acts.lanes

theorem Moves.refl {Step : StreamId → Lane → Lane → Prop} (wellFormed : conn.WellFormed) :
    conn.Moves Step conn :=
  ⟨wellFormed, fun _ => .refl⟩

theorem registerMethodInner_moves (wellFormed : conn.WellFormed) (entry : MethodEntry)
    (copy reserve : Bool) :
    conn.Moves CallStep (conn.registerMethodInner entry copy reserve).2 := by
  unfold registerMethodInner
  split
  · exact ⟨⟨wellFormed.distinct, wellFormed.idle, wellFormed.opened⟩, fun _ => .refl⟩
  · exact .refl wellFormed

/-! ### Opening and closing streams -/

section Open

variable {conn : Conn} {id : StreamId}

/-- The callback opens a stream or leaves the connection alone. -/
theorem onBeginHeaders_cases (conn : Conn) (hd : FrameHd) (reserve : Bool) :
    (conn.onBeginHeaders hd reserve).2 = conn ∨
      (conn.onBeginHeaders hd reserve).2 = conn.pushStream hd.streamId := by
  unfold onBeginHeaders
  split
  · exact .inl rfl
  split
  · exact .inl rfl
  split
  · exact .inl rfl
  · exact .inr rfl

theorem findStream_of_unopened
    (opened : ∀ stream ∈ conn.streams, .opened stream.id ∈ conn.logOf stream.id)
    (fresh : .opened id ∉ conn.logOf id) : conn.findStream id = none := by
  apply Table.lookup_eq_none_iff.mpr
  intro stream membership same
  exact fresh (same ▸ opened stream membership)

theorem findStream_pushStream_self (missing : conn.findStream id = none) :
    (conn.pushStream id).findStream id = some (.new id) := by
  have absent : conn.streams.find? (fun stream => stream.id = id) = none := missing
  simp [findStream, Table.lookup, pushStream, List.find?_append, absent, StreamCtx.new]

theorem findStream_pushStream_other {other : StreamId} (different : other ≠ id) :
    (conn.pushStream id).findStream other = conn.findStream other := by
  have named : (StreamCtx.new id).id ≠ other := Ne.symm different
  exact Table.lookup_append_of_ne named

theorem lane_pushStream_self (missing : conn.findStream id = none) :
    (conn.pushStream id).lane id = (conn.lane id).put (.new id) [.opened id] := by
  have about : ∀ effect ∈ [Effect.opened id], effect.id = id := by simp [Effect.id]
  exact Lane.ext (findStream_pushStream_self missing) rfl (logOf_append_self about)

theorem lane_pushStream_other {other : StreamId} (different : other ≠ id) :
    (conn.pushStream id).lane other = conn.lane other := by
  have about : ∀ effect ∈ [Effect.opened id], effect.id = id := by simp [Effect.id]
  exact Lane.ext (findStream_pushStream_other different) rfl (logOf_append_other about different)

theorem pushStream_moves (wellFormed : conn.WellFormed) (fresh : .opened id ∉ conn.logOf id) :
    conn.Moves CallStep (conn.pushStream id) := by
  have missing := findStream_of_unopened wellFormed.opened fresh
  have lanes : ∀ other, ReflTransGen (CallStep other) (conn.lane other)
      ((conn.pushStream id).lane other) := by
    intro other
    by_cases same : other = id
    · subst same
      exact lane_pushStream_self missing ▸ .single (.opened fresh)
    · rw [lane_pushStream_other same]
  refine ⟨⟨?_, wellFormed.idle, ?_⟩, lanes⟩
  · have ids : (conn.pushStream id).streams.map StreamCtx.id =
        conn.streams.map StreamCtx.id ++ [id] := by simp [pushStream, StreamCtx.new]
    rw [Distinct, ids, List.nodup_append]
    refine ⟨wellFormed.distinct, List.nodup_singleton _, ?_⟩
    intro listed membership last isLast
    obtain ⟨stream, present, rfl⟩ := List.mem_map.mp membership
    rw [List.mem_singleton.mp isLast]
    exact Table.lookup_eq_none_iff.mp missing stream present
  · intro stream membership
    rcases List.mem_append.mp membership with old | new
    · have grown := steps_log_grow CallStep.log_grows (lanes stream.id)
      exact grown.subset (wellFormed.opened stream old)
    · obtain rfl := List.mem_singleton.mp new
      have own := congrArg Lane.log (lane_pushStream_self missing)
      rw [show (conn.pushStream id).logOf (StreamCtx.new id).id = _ from own]
      simp [StreamCtx.new]

theorem dropStream_log (errorCode : Nat) (hook : Option CancelHook) :
    (conn.dropStream id errorCode hook).log =
      conn.log ++ .closed id errorCode :: hookEffects id hook := by
  cases hook <;> simp [dropStream, fireHook, emit, hookEffects]

theorem dropStream_streams (errorCode : Nat) (hook : Option CancelHook) :
    (conn.dropStream id errorCode hook).streams = Table.remove StreamCtx.id id conn.streams := by
  cases hook <;> rfl

theorem dropStream_running (errorCode : Nat) (hook : Option CancelHook) :
    (conn.dropStream id errorCode hook).running = conn.running := by
  cases hook <;> rfl

theorem about_drop (errorCode : Nat) (hook : Option CancelHook) :
    ∀ effect ∈ .closed id errorCode :: hookEffects id hook, effect.id = id := by
  intro effect membership
  rcases List.mem_cons.mp membership with rfl | fired
  · rfl
  · obtain ⟨_, rfl⟩ := mem_hookEffects fired
    rfl

theorem lane_dropStream_self (distinct : conn.Distinct) (errorCode : Nat)
    (hook : Option CancelHook) :
    (conn.dropStream id errorCode hook).lane id =
      { conn.lane id with
        ctx := none
        log := (conn.lane id).log ++ .closed id errorCode :: hookEffects id hook } := by
  have gone : (conn.dropStream id errorCode hook).findStream id = none := by
    rw [findStream, dropStream_streams]
    exact Table.lookup_remove_self distinct
  have logged : (conn.dropStream id errorCode hook).logOf id =
      conn.logOf id ++ .closed id errorCode :: hookEffects id hook := by
    rw [logOf, dropStream_log]
    exact logOf_append_self (about_drop errorCode hook)
  exact Lane.ext gone (by simp [lane, dropStream_running]) logged

theorem lane_dropStream_other (distinct : conn.Distinct) (errorCode : Nat)
    (hook : Option CancelHook) {other : StreamId} (different : other ≠ id) :
    (conn.dropStream id errorCode hook).lane other = conn.lane other := by
  have looked : (conn.dropStream id errorCode hook).findStream other = conn.findStream other := by
    rw [findStream, dropStream_streams]
    exact Table.lookup_remove_other distinct different
  have logged : (conn.dropStream id errorCode hook).logOf other = conn.logOf other := by
    rw [logOf, dropStream_log]
    exact logOf_append_other (about_drop errorCode hook) different
  exact Lane.ext looked (by simp [lane, dropStream_running]) logged

theorem findStream_onStreamClose_self (distinct : conn.Distinct) (id : StreamId)
    (errorCode : Nat) : (conn.onStreamClose id errorCode).findStream id = none := by
  unfold onStreamClose
  split
  next missing => exact missing
  next => exact congrArg Lane.ctx (lane_dropStream_self distinct errorCode _)

theorem findStream_onStreamClose_other (distinct : conn.Distinct) {closing : StreamId}
    (different : id ≠ closing) (errorCode : Nat) :
    (conn.onStreamClose closing errorCode).findStream id = conn.findStream id := by
  unfold onStreamClose
  split
  · rfl
  · exact congrArg Lane.ctx (lane_dropStream_other distinct errorCode _ different)

theorem dropStream_moves (wellFormed : conn.WellFormed) {stream : StreamCtx}
    (found : conn.findStream id = some stream) (errorCode : Nat) (hook : Option CancelHook) :
    conn.Moves CallStep (conn.dropStream id errorCode hook) := by
  have resting : (conn.lane id).running = false := by simp [lane, wellFormed.idle]
  have lanes : ∀ other, ReflTransGen (CallStep other) (conn.lane other)
      ((conn.dropStream id errorCode hook).lane other) := by
    intro other
    by_cases same : other = id
    · subst same
      rw [lane_dropStream_self wellFormed.distinct]
      exact .single (.closed found resting errorCode hook)
    · rw [lane_dropStream_other wellFormed.distinct errorCode hook same]
  refine ⟨⟨?_, (dropStream_running errorCode hook).trans wellFormed.idle, ?_⟩, lanes⟩
  · rw [Distinct, dropStream_streams]
    exact Table.nodup_remove wellFormed.distinct
  · intro stream membership
    rw [dropStream_streams] at membership
    exact (steps_log_grow CallStep.log_grows (lanes stream.id)).subset
      (Table.forall_remove wellFormed.opened stream membership)

end Open

/-! ### Callbacks on an open stream -/

theorem onHeader_acts (conn : Conn) (id : StreamId) (name value : Bytes) (now : Nat)
    (reserve : Bool) : conn.Acts CallStep (conn.onHeader id name value now reserve).2 := by
  unfold onHeader
  cases found : conn.findStream id with
  | none => exact .refl conn
  | some stream =>
      dsimp only
      split
      · split
        · exact .refl conn
        · exact acts_modify (fun _ => rfl) found
            (.header found (stream.path ++ value) stream.deadlineMs)
      · split
        · exact acts_modify (fun _ => rfl) found (.header found stream.path _)
        · exact .refl conn

theorem onFrameRecv_acts (conn : Conn) (hd : FrameHd)
    (once : hd.endsStream ∨ hd.type = nvHeaders → .endStream hd.streamId ∉ conn.logOf hd.streamId) :
    conn.Acts CallStep (conn.onFrameRecv hd) := by
  unfold onFrameRecv
  cases found : conn.findStream hd.streamId with
  | none => exact .refl conn
  | some stream =>
      dsimp only
      split
      next ends =>
        exact acts_modify_emit (fun _ => rfl) rfl found (.ended found (once (.inl ends)))
      next =>
        split
        next headers => exact acts_modify (fun _ => rfl) found (.bodyIn found (once (.inr headers)))
        next => exact .refl conn

theorem onDataChunkRecv_acts (conn : Conn) (id : StreamId) (chunk : Bytes) (reserve : Bool) :
    conn.Acts CallStep (conn.onDataChunkRecv id chunk reserve).2 := by
  unfold onDataChunkRecv
  cases found : conn.findStream id with
  | none => exact .refl conn
  | some stream =>
      dsimp only
      split
      · exact .refl conn
      · split
        · exact .refl conn
        · exact acts_modify (fun _ => rfl) found (.received found chunk)

theorem missedRead_acts (missing : conn.findStream id = none)
    (readable : Readable id (conn.logOf id)) :
    conn.Acts TransportStep (conn.emit (.readReturned id .temporalFailure)) where
  toKeeps := ⟨rfl, rfl, rfl, rfl, rfl⟩
  running := rfl
  lanes := by
    have about : ∀ effect ∈ [Effect.readReturned id .temporalFailure], effect.id = id := by
      simp [Effect.id]
    intro other
    by_cases same : other = id
    · subst same
      have after : (conn.emit (.readReturned other .temporalFailure)).lane other =
          { conn.lane other with
            log := (conn.lane other).log ++ [.readReturned other .temporalFailure] } :=
        Lane.ext rfl rfl (logOf_append_self about)
      exact after ▸ .single (.missed missing readable)
    · have after : (conn.emit (.readReturned id .temporalFailure)).lane other =
          conn.lane other := Lane.ext rfl rfl (logOf_append_other about same)
      rw [after]

theorem emit_reportRead (conn : Conn) (id : StreamId) (out : OutQueue) (effect : Effect)
    (outcome : ReadOutcome) :
    (conn.emit effect).reportRead id out outcome =
      conn.apply id (fun stream => { stream with out := out })
        [effect, .readReturned id outcome] := by
  simp [reportRead, emit, apply, modify]

theorem dataProviderRead_acts (conn : Conn) (id : StreamId) {length : Nat} (room : 0 < length)
    (readable : Readable id (conn.logOf id)) (trailerRc : Int) :
    conn.Acts TransportStep (conn.dataProviderRead id length trailerRc).2 := by
  unfold dataProviderRead
  cases found : conn.findStream id with
  | none => exact missedRead_acts found readable
  | some stream =>
      dsimp only
      split
      · exact acts_modify_emit (fun _ => rfl) rfl found (.promised found length readable)
      · split
        · exact acts_modify_emit (fun _ => rfl) rfl found (.copied found length readable)
        next copiedNothing =>
          have nothing : (stream.out.drainInto length).1 = [] := by simpa using copiedNothing
          split
          next finished =>
            rw [emit_reportRead]
            exact acts_apply (fun _ => rfl) (by simp [Effect.id]) found
              (.trailed found room readable nothing finished trailerRc)
          next unfinished =>
            have still : stream.out.finished = false := Bool.eq_false_iff.mpr unfinished
            exact acts_modify_emit (fun _ => rfl) rfl found
              (.paused found room readable nothing still)

theorem consumePromise_acts (conn : Conn) (id : StreamId) (length : Nat) :
    conn.Acts TransportStep (conn.consumePromise id length) := by
  unfold consumePromise
  cases found : conn.findStream id with
  | none =>
      have unchanged : ∀ change, conn.modify id change = conn := fun change => by
        rw [modify, Table.update_of_lookup_none found]
      rw [unchanged]
      exact .refl conn
  | some stream => exact acts_modify (fun _ => rfl) found (.consumed found length)

/-! ### Steps and runs -/

theorem perform_calls (wellFormed : conn.WellFormed) (legal : conn.Legal event)
    (notTransport : event.isTransport = false) :
    conn.Moves CallStep (conn.perform event) := by
  have acted : ∀ {next}, conn.Acts CallStep next → conn.Moves CallStep next := fun acts =>
    acts.moves CallStep.log_grows wellFormed
  cases event with
  | registerMethod entry copy reserve =>
      exact registerMethodInner_moves wellFormed entry copy reserve
  | beginHeaders hd reserve =>
      rcases conn.onBeginHeaders_cases hd reserve with same | pushed
      · rw [perform, same]
        exact .refl wellFormed
      · rw [perform, pushed]
        exact pushStream_moves wellFormed legal
  | header id name value now reserve => exact acted (onHeader_acts conn id name value now reserve)
  | frameRecv hd => exact acted (onFrameRecv_acts conn hd legal.2)
  | dataChunkRecv id chunk reserve => exact acted (onDataChunkRecv_acts conn id chunk reserve)
  | streamClose id errorCode =>
      simp only [perform, onStreamClose]
      cases found : conn.findStream id with
      | none => exact .refl wellFormed
      | some stream => exact dropStream_moves wellFormed found errorCode _
  | api call => exact acted (conn.api_acts call)
  | expireDeadlines now => exact acted (conn.expireDeadlines_acts now wellFormed.distinct)
  | dispatch env => exact acted (conn.dispatch_acts env wellFormed.distinct wellFormed.idle)
  | read id length trailerRc => simp [ConnEvent.isTransport] at notTransport
  | consumePromise id length => simp [ConnEvent.isTransport] at notTransport

theorem perform_moves (wellFormed : conn.WellFormed) (legal : conn.Legal event) :
    conn.Moves LaneStep (conn.perform event) := by
  cases kind : event.isTransport with
  | false =>
      exact (perform_calls wellFormed legal kind).toLaneStep fun _ _ _ step => .call step
  | true =>
      have acted : ∀ {next}, conn.Acts TransportStep next → conn.Moves LaneStep next := fun acts =>
        (acts.moves TransportStep.log_grows wellFormed).toLaneStep fun _ _ _ step => .transport step
      cases event with
      | read id length trailerRc =>
          exact acted (conn.dataProviderRead_acts id legal.1 legal.2 trailerRc)
      | consumePromise id length => exact acted (conn.consumePromise_acts id length)
      | _ => simp [ConnEvent.isTransport] at kind

theorem step_moves (wellFormed : conn.WellFormed) (performed : conn.step event = some next) :
    conn.Moves LaneStep next := by
  obtain ⟨legal, rfl⟩ := step_eq_some_iff.mp performed
  exact perform_moves wellFormed legal

theorem WellFormed.logOf_grows (wellFormed : conn.WellFormed)
    (performed : conn.step event = some next) (id : StreamId) :
    conn.logOf id <+: next.logOf id :=
  steps_log_grow LaneStep.log_grows ((step_moves wellFormed performed).lanes id)

/-- What every event leaves alone; the method list only grows. -/
structure SameSettings (conn next : Conn) : Prop where
  methods : conn.methods <+: next.methods
  maxMessageLen : next.maxMessageLen = conn.maxMessageLen
  fd : next.fd = conn.fd
  outPending : next.outPending = conn.outPending

theorem SameSettings.refl (conn : Conn) : conn.SameSettings conn :=
  ⟨List.prefix_rfl, rfl, rfl, rfl⟩

theorem Keeps.sameSettings (keeps : conn.Keeps next) : conn.SameSettings next :=
  ⟨keeps.methods ▸ List.prefix_rfl, keeps.maxMessageLen, keeps.fd, keeps.outPending⟩

theorem onStreamClose_settings (conn : Conn) (id : StreamId) (errorCode : Nat) :
    conn.SameSettings (conn.onStreamClose id errorCode) := by
  unfold onStreamClose
  cases conn.findStream id with
  | none => exact .refl conn
  | some stream =>
      dsimp only
      generalize (if errorCode ≠ 0 then stream.cancelHook else none) = hook
      cases hook <;> exact ⟨List.prefix_rfl, rfl, rfl, rfl⟩

theorem step_settings (wellFormed : conn.WellFormed) (performed : conn.step event = some next) :
    conn.SameSettings next := by
  obtain ⟨legal, rfl⟩ := step_eq_some_iff.mp performed
  cases event with
  | registerMethod entry copy reserve =>
      simp only [perform, registerMethodInner]
      split
      · exact ⟨List.prefix_append _ _, rfl, rfl, rfl⟩
      · exact .refl conn
  | beginHeaders hd reserve =>
      rcases conn.onBeginHeaders_cases hd reserve with same | pushed
      · rw [perform, same]
        exact .refl conn
      · rw [perform, pushed]
        exact ⟨List.prefix_rfl, rfl, rfl, rfl⟩
  | header id name value now reserve =>
      exact (onHeader_acts conn id name value now reserve).toKeeps.sameSettings
  | frameRecv hd => exact (onFrameRecv_acts conn hd legal.2).toKeeps.sameSettings
  | dataChunkRecv id chunk reserve =>
      exact (onDataChunkRecv_acts conn id chunk reserve).toKeeps.sameSettings
  | streamClose id errorCode => exact conn.onStreamClose_settings id errorCode
  | api call => exact (conn.api_acts call).toKeeps.sameSettings
  | expireDeadlines now =>
      exact (conn.expireDeadlines_acts now wellFormed.distinct).toKeeps.sameSettings
  | dispatch env =>
      exact (conn.dispatch_acts env wellFormed.distinct wellFormed.idle).toKeeps.sameSettings
  | read id length trailerRc =>
      exact (conn.dataProviderRead_acts id legal.1 legal.2 trailerRc).toKeeps.sameSettings
  | consumePromise id length => exact (conn.consumePromise_acts id length).toKeeps.sameSettings

/-- The connections that some run of events reaches. -/
def Reachable (conn : Conn) : Prop :=
  ∃ methods maxMessageLen fd events,
    Transition.run step (newServer methods maxMessageLen fd) events = some conn

variable (reachable : conn.Reachable)
include reachable

theorem Reachable.run {events : List ConnEvent}
    (performed : Transition.run step conn events = some next) : next.Reachable := by
  obtain ⟨methods, maxMessageLen, fd, earlier, reached⟩ := reachable
  exact ⟨methods, maxMessageLen, fd, earlier ++ events, by
    rw [Transition.run_append, reached]
    exact performed⟩

theorem Reachable.step (performed : conn.step event = some next) :
    next.Reachable :=
  reachable.run (show Transition.run Conn.step conn [event] = some next by simp [performed])

theorem Reachable.wellFormed : conn.WellFormed := by
  obtain ⟨methods, maxMessageLen, fd, events, reached⟩ := reachable
  exact Transition.run_invariant
    (fun _ _ _ wellFormed performed => (step_moves wellFormed performed).wellFormed)
    (newServer_wellFormed methods maxMessageLen fd) reached

/-- Every stream of a reachable connection has come about by lane steps. -/
theorem Reachable.lanes (id : StreamId) :
    ReflTransGen (LaneStep id) .empty (conn.lane id) := by
  obtain ⟨methods, maxMessageLen, fd, events, reached⟩ := reachable
  let Grown : Conn → Prop := fun conn =>
    conn.WellFormed ∧ ReflTransGen (LaneStep id) .empty (conn.lane id)
  have start : Grown (newServer methods maxMessageLen fd) :=
    ⟨newServer_wellFormed methods maxMessageLen fd, .refl⟩
  have preserved : ∀ conn event next, Grown conn → conn.step event = some next → Grown next := by
    intro conn event next grown performed
    have moves := step_moves grown.1 performed
    exact ⟨moves.wellFormed, grown.2.trans (moves.lanes id)⟩
  exact (Transition.run_invariant preserved start reached).2

/-- What lane steps keep holds of every stream of every reachable connection. -/
theorem Reachable.lane_invariant {Invariant : Lane → Prop} (start : Invariant .empty)
    (preserved : ∀ lane next, Invariant lane → LaneStep id lane next → Invariant next) :
    Invariant (conn.lane id) :=
  LaneStep.invariant (reachable.lanes id) start preserved

end Conn

end GrpcUds.Server
