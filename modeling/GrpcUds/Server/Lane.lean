import GrpcUds.Server.Machine
import GrpcUds.Server.Shipping

/-!
# One stream of a connection

A lane is everything a connection knows about one stream id: its context, if
it has one, whether its handler is on the stack, and the effects that concern
it.  `CallStep` and `TransportStep` say once what can happen to a lane.  The
connection is the product of its lanes: every event moves every lane by such
steps, so a fact kept by them holds of every stream in every run.
-/

namespace GrpcUds.Server

open Relation

@[ext]
structure Lane where
  ctx : Option StreamCtx
  running : Bool
  log : List Effect

namespace Lane

/-- The lane of an id that was never used. -/
def empty : Lane where
  ctx := none
  running := false
  log := []

/-- Store a context and record effects. -/
def put (lane : Lane) (stream : StreamCtx) (effects : List Effect) : Lane :=
  { lane with ctx := some stream, log := lane.log ++ effects }

@[simp]
theorem put_ctx (lane : Lane) (stream : StreamCtx) (effects : List Effect) :
    (lane.put stream effects).ctx = some stream := rfl

@[simp]
theorem put_running (lane : Lane) (stream : StreamCtx) (effects : List Effect) :
    (lane.put stream effects).running = lane.running := rfl

@[simp]
theorem put_log (lane : Lane) (stream : StreamCtx) (effects : List Effect) :
    (lane.put stream effects).log = lane.log ++ effects := rfl

end Lane

/-- The resume a write or finish issues once the response is under way. -/
def resumeEffects (id : StreamId) (stream : StreamCtx) : List Effect :=
  if stream.state = .dispatched ∧ stream.out.responseStarted then [.resumeData id] else []

def hookEffects (id : StreamId) : Option CancelHook → List Effect
  | none => []
  | some hook => [.hookFired id hook]

/-- The context after `nghttp2_submit_response` returned `rc`. -/
def StreamCtx.respond (stream : StreamCtx) (rc : Int) (failed : StreamState) : StreamCtx :=
  if rc = 0 then startResponse stream else { stream with state := failed }

/-- What the receive callbacks, the call API, the deadline sweep and dispatch do
to one stream. -/
inductive CallStep (id : StreamId) (lane : Lane) : Lane → Prop where
  | opened (fresh : .opened id ∉ lane.log) :
      CallStep id lane (lane.put (.new id) [.opened id])
  | header {stream : StreamCtx} (found : lane.ctx = some stream) (path : Bytes)
      (deadline : Option Nat) :
      CallStep id lane (lane.put { stream with path := path, deadlineMs := deadline } [])
  | received {stream : StreamCtx} (found : lane.ctx = some stream) (chunk : Bytes) :
      CallStep id lane (lane.put { stream with request := stream.request ++ chunk } [])
  | ended {stream : StreamCtx} (found : lane.ctx = some stream)
      (once : .endStream id ∉ lane.log) :
      CallStep id lane (lane.put { stream with state := .complete } [.endStream id])
  | bodyIn {stream : StreamCtx} (found : lane.ctx = some stream)
      (once : .endStream id ∉ lane.log) :
      CallStep id lane (lane.put { stream with state := .bodyIn } [])
  | closed {stream : StreamCtx} (found : lane.ctx = some stream) (idle : lane.running = false)
      (errorCode : Nat) (fired : Option CancelHook) :
      CallStep id lane
        { lane with
          ctx := none
          log := lane.log ++ .closed id errorCode :: hookEffects id fired }
  | wrote {stream : StreamCtx} (found : lane.ctx = some stream)
      (unfinished : stream.out.finished = false) {body : Bytes} {out : OutQueue}
      {result : Except ConnError Unit} (enqueued : OutQueue.Enqueued stream.out body result out) :
      CallStep id lane (lane.put { stream with out := out }
        (if result.isOk then resumeEffects id { stream with out := out } else []))
  | finish {stream : StreamCtx} (found : lane.ctx = some stream) (status : GrpcStatus)
      (message : Option Bytes) :
      CallStep id lane (lane.put { stream with out := stream.out.finish status message }
        (.finish id status message ::
          resumeEffects id { stream with out := stream.out.finish status message }))
  | configured {stream : StreamCtx} (found : lane.ctx = some stream) (hook : Option CancelHook)
      (backpressure : Backpressure) :
      CallStep id lane (lane.put
        { stream with
          cancelHook := hook
          out := { stream.out with backpressure := backpressure } } [])
  | disarmed {stream : StreamCtx} (found : lane.ctx = some stream) :
      CallStep id lane (lane.put stream.disarm (hookEffects id stream.cancelHook))
  | refused {stream : StreamCtx} (found : lane.ctx = some stream)
      (complete : stream.state = .complete) (idle : lane.running = false)
      (status : GrpcStatus) (rc : Int) :
      CallStep id lane (lane.put ((finalizeError status stream).respond rc .dispatched)
        [.refused id status, .submitResponse id rc])
  | invoked {stream : StreamCtx} (found : lane.ctx = some stream)
      (complete : stream.state = .complete) (idle : lane.running = false)
      (handler userData : Nat) (payload : Bytes) :
      CallStep id lane
        { lane.put stream [.invoked id handler userData payload] with running := true }
  | returned {stream : StreamCtx} (found : lane.ctx = some stream)
      (running : lane.running = true) (unstarted : stream.out.responseStarted = false)
      (rc submitRc : Int) :
      CallStep id lane
        { lane.put ((concludeHandler rc stream).respond submitRc .cancelled)
            [.returned id rc, .submitResponse id submitRc] with running := false }
  | returnedStarted {stream : StreamCtx} (found : lane.ctx = some stream)
      (running : lane.running = true) (started : stream.out.responseStarted = true) (rc : Int) :
      CallStep id lane
        { lane.put (concludeHandler rc stream) [.returned id rc] with running := false }

/-- What nghttp2's reads and sends do to one stream. -/
inductive TransportStep (id : StreamId) (lane : Lane) : Lane → Prop where
  | promised {stream : StreamCtx} (found : lane.ctx = some stream) (length : Nat)
      (readable : Readable id lane.log) :
      TransportStep id lane (lane.put { stream with out := (stream.out.promiseFront length).2 }
        [.readReturned id (.noCopy (stream.out.promiseFront length).1)])
  | copied {stream : StreamCtx} (found : lane.ctx = some stream) (length : Nat)
      (readable : Readable id lane.log) :
      TransportStep id lane (lane.put { stream with out := (stream.out.drainInto length).2 }
        [.readReturned id (.copied (stream.out.drainInto length).1)])
  | trailed {stream : StreamCtx} (found : lane.ctx = some stream) {length : Nat}
      (room : 0 < length) (readable : Readable id lane.log)
      (nothing : (stream.out.drainInto length).1 = []) (finished : stream.out.finished = true)
      (rc : Int) :
      TransportStep id lane (lane.put { stream with out := (stream.out.drainInto length).2 }
        [.submitTrailer id (trailerFor stream.out) rc,
          .readReturned id (if rc ≠ 0 then .callbackFailure else .eof)])
  | paused {stream : StreamCtx} (found : lane.ctx = some stream) {length : Nat}
      (room : 0 < length) (readable : Readable id lane.log)
      (nothing : (stream.out.drainInto length).1 = []) (unfinished : stream.out.finished = false) :
      TransportStep id lane (lane.put { stream with out := (stream.out.drainInto length).2 }
        [.readReturned id .deferred])
  | missed (absent : lane.ctx = none) (readable : Readable id lane.log) :
      TransportStep id lane
        { lane with log := lane.log ++ [.readReturned id .temporalFailure] }
  | consumed {stream : StreamCtx} (found : lane.ctx = some stream) (length : Nat) :
      TransportStep id lane (lane.put { stream with out := stream.out.consumeFront length } [])

/-- Everything that can happen to one stream. -/
inductive LaneStep (id : StreamId) (lane next : Lane) : Prop where
  | call (step : CallStep id lane next)
  | transport (step : TransportStep id lane next)

namespace Conn

def lane (conn : Conn) (id : StreamId) : Lane where
  ctx := conn.findStream id
  running := decide (conn.running = some id)
  log := conn.logOf id

/-- The table holds each stream id once. -/
def Distinct (conn : Conn) : Prop := (conn.streams.map StreamCtx.id).Nodup

/-- The table keeps its positions and the settings stay. -/
structure Keeps (conn next : Conn) : Prop where
  ids : next.streams.map StreamCtx.id = conn.streams.map StreamCtx.id
  methods : next.methods = conn.methods
  maxMessageLen : next.maxMessageLen = conn.maxMessageLen
  fd : next.fd = conn.fd
  outPending : next.outPending = conn.outPending

/-- What an operation inside the library does to a connection: it keeps the
table and the settings, and it moves every lane by steps of one kind. -/
structure Acts (Step : StreamId → Lane → Lane → Prop) (conn next : Conn) : Prop
    extends Keeps conn next where
  running : next.running = conn.running
  lanes : ∀ id, ReflTransGen (Step id) (conn.lane id) (next.lane id)

theorem Keeps.trans {first second third : Conn} (before : first.Keeps second)
    (after : second.Keeps third) : first.Keeps third where
  ids := after.ids.trans before.ids
  methods := after.methods.trans before.methods
  maxMessageLen := after.maxMessageLen.trans before.maxMessageLen
  fd := after.fd.trans before.fd
  outPending := after.outPending.trans before.outPending

namespace Acts

variable {Step : StreamId → Lane → Lane → Prop}

theorem refl (conn : Conn) : conn.Acts Step conn where
  ids := rfl
  methods := rfl
  maxMessageLen := rfl
  fd := rfl
  outPending := rfl
  running := rfl
  lanes := fun _ => .refl

theorem trans {first second third : Conn} (before : first.Acts Step second)
    (after : second.Acts Step third) : first.Acts Step third where
  toKeeps := before.toKeeps.trans after.toKeeps
  running := after.running.trans before.running
  lanes := fun id => (before.lanes id).trans (after.lanes id)

end Acts

theorem Keeps.distinct {conn next : Conn} (keeps : conn.Keeps next) (distinct : conn.Distinct) :
    next.Distinct := by
  simpa [Distinct, keeps.ids] using distinct

/-- A position keeps its stream. -/
theorem Keeps.position {conn next : Conn} (keeps : conn.Keeps next) {position : Nat}
    {stream : StreamCtx} (found : conn.streams[position]? = some stream) :
    ∃ later, next.streams[position]? = some later ∧ later.id = stream.id := by
  have ids := congrArg (fun ids : List StreamId => ids[position]?) keeps.ids
  simpa [found] using ids

theorem findStream_modify_other (conn : Conn) {id other : StreamId} (different : id ≠ other)
    {change : StreamCtx → StreamCtx} (kept : ∀ stream, (change stream).id = stream.id) :
    (conn.modify other change).findStream id = conn.findStream id :=
  Table.lookup_update_other kept different conn.streams

theorem findStream_modify_self (conn : Conn) (id : StreamId) {change : StreamCtx → StreamCtx}
    (kept : ∀ stream, (change stream).id = stream.id) :
    (conn.modify id change).findStream id = (conn.findStream id).map change :=
  Table.lookup_update_self kept conn.streams

/-- Change one stream and record effects about it. -/
def apply (conn : Conn) (id : StreamId) (change : StreamCtx → StreamCtx)
    (effects : List Effect) : Conn :=
  { conn.modify id change with log := conn.log ++ effects }

theorem apply_nil (conn : Conn) (id : StreamId) (change : StreamCtx → StreamCtx) :
    conn.apply id change [] = conn.modify id change := by
  simp [apply, modify]

theorem emit_apply (conn : Conn) (id : StreamId) (change : StreamCtx → StreamCtx)
    (effects : List Effect) (effect : Effect) :
    (conn.apply id change effects).emit effect = conn.apply id change (effects ++ [effect]) := by
  simp [apply, emit]

theorem modify_apply (conn : Conn) (id : StreamId) {change : StreamCtx → StreamCtx}
    (kept : ∀ stream, (change stream).id = stream.id) (again : StreamCtx → StreamCtx)
    (effects : List Effect) :
    (conn.apply id change effects).modify id again =
      conn.apply id (fun stream => again (change stream)) effects := by
  simp [apply, modify, Table.update_update kept]

section Apply

variable {Step : StreamId → Lane → Lane → Prop} {conn : Conn} {id : StreamId}
  {stream : StreamCtx} {change : StreamCtx → StreamCtx} {effects : List Effect}

theorem logOf_append_self (about : ∀ effect ∈ effects, effect.id = id) :
    ({ conn with log := conn.log ++ effects } : Conn).logOf id = conn.logOf id ++ effects := by
  have all : effects.filter (fun effect => effect.id = id) = effects :=
    List.filter_eq_self.mpr fun effect membership => by simpa using about effect membership
  simp [logOf, all]

theorem logOf_append_other (about : ∀ effect ∈ effects, effect.id = id) {other : StreamId}
    (different : other ≠ id) :
    ({ conn with log := conn.log ++ effects } : Conn).logOf other = conn.logOf other := by
  have none : effects.filter (fun effect => effect.id = other) = [] :=
    List.filter_eq_nil_iff.mpr fun effect membership => by
      simpa [about effect membership] using different.symm
  simp [logOf, none]

theorem lane_apply_self (kept : ∀ stream, (change stream).id = stream.id)
    (about : ∀ effect ∈ effects, effect.id = id) (found : conn.findStream id = some stream) :
    (conn.apply id change effects).lane id = (conn.lane id).put (change stream) effects := by
  have looked : (conn.apply id change effects).findStream id = some (change stream) := by
    have updated : (conn.apply id change effects).findStream id =
        (conn.findStream id).map change := Table.lookup_update_self kept conn.streams
    rw [updated, found]
    rfl
  have logged : (conn.apply id change effects).logOf id = conn.logOf id ++ effects :=
    logOf_append_self about
  exact Lane.ext looked rfl logged

theorem lane_apply_other (kept : ∀ stream, (change stream).id = stream.id)
    (about : ∀ effect ∈ effects, effect.id = id) {other : StreamId} (different : other ≠ id) :
    (conn.apply id change effects).lane other = conn.lane other := by
  have looked : (conn.apply id change effects).findStream other = conn.findStream other :=
    Table.lookup_update_other kept different conn.streams
  have logged : (conn.apply id change effects).logOf other = conn.logOf other :=
    logOf_append_other about different
  exact Lane.ext looked rfl logged

theorem keeps_apply (kept : ∀ stream, (change stream).id = stream.id) :
    conn.Keeps (conn.apply id change effects) where
  ids := Table.map_update StreamCtx.id kept conn.streams
  methods := rfl
  maxMessageLen := rfl
  fd := rfl
  outPending := rfl

/-- An operation on one stream acts on the connection as its lane step says. -/
theorem acts_apply (kept : ∀ stream, (change stream).id = stream.id)
    (about : ∀ effect ∈ effects, effect.id = id) (found : conn.findStream id = some stream)
    (step : Step id (conn.lane id) ((conn.lane id).put (change stream) effects)) :
    conn.Acts Step (conn.apply id change effects) where
  toKeeps := keeps_apply kept
  running := rfl
  lanes := by
    intro other
    by_cases same : other = id
    · subst same
      rw [lane_apply_self kept about found]
      exact .single step
    · rw [lane_apply_other kept about same]

theorem acts_modify (kept : ∀ stream, (change stream).id = stream.id)
    (found : conn.findStream id = some stream)
    (step : Step id (conn.lane id) ((conn.lane id).put (change stream) [])) :
    conn.Acts Step (conn.modify id change) :=
  apply_nil conn id change ▸ acts_apply kept (by simp) found step

theorem acts_modify_emit {effect : Effect} (kept : ∀ stream, (change stream).id = stream.id)
    (about : effect.id = id) (found : conn.findStream id = some stream)
    (step : Step id (conn.lane id) ((conn.lane id).put (change stream) [effect])) :
    conn.Acts Step ((conn.modify id change).emit effect) :=
  acts_apply kept (by simpa using about) found step

end Apply

end Conn

end GrpcUds.Server
