import GrpcUds.Server.Invocation
import GrpcUds.Server.Reachable

/-!
# The history of a call's cancel hook

`Session` is a connection until its owner drops it.  For one call, the history
of a run lists what concerns its hook, in the order it happens: installations,
the ways in which the call can end, and the firings that the connection logs.
`Phase` is the law of such histories: one slot that an installation fills, and
that a firing empties when an expiry or a reset asks for it.
-/

namespace GrpcUds.Server

inductive HookEvent where
  | installed (hook : CancelHook)
  /-- A finish call of the application returned success. -/
  | finish
  /-- Dispatch answered the call: with a refusal or with the handler's error code. -/
  | concluded
  /-- The deadline sweep ended the call. -/
  | expired
  | closed (errorCode : Nat) (finished : Bool)
  /-- The connection was dropped with the stream still open. -/
  | dropped (finished : Bool)
  | fired (hook : CancelHook)
  deriving DecidableEq

def Effect.asFired : Effect → Option CancelHook
  | hookFired _ hook => some hook
  | _ => none

/-- What a successful call says about the hook of one stream. -/
def ApiCall.hookEvents (id : StreamId) : ApiCall → List HookEvent
  | setCancelHook callId hook => if callId = id then [.installed hook] else []
  | finishCall callId _ => if callId = id then [.finish] else []
  | finishCallMsg callId _ _ => if callId = id then [.finish] else []
  | _ => []

namespace Conn

def callEvents (id : StreamId) (conn : Conn) (call : ApiCall) : List HookEvent :=
  if (conn.api call).1.isOk then call.hookEvents id else []

/-- The calls of a handler, in order. -/
def callsEvents (id : StreamId) : Conn → List ApiCall → List HookEvent
  | _, [] => []
  | conn, call :: rest => conn.callEvents id call ++ callsEvents id (conn.api call).2 rest

/-- Control as it stands when the handler's first call runs. -/
def enterAt (conn : Conn) (position : Nat) (callId : StreamId) (entry : MethodEntry)
    (payload : Bytes) : Conn :=
  (conn.modifyAt position (applyBackpressure entry.backpressure)).enter callId entry payload

/-- One turn of the dispatch loop. -/
def turnEvents (id : StreamId) (env : DispatchEnv) (conn : Conn) (position : Nat) :
    List HookEvent :=
  match conn.streams[position]? with
  | none => []
  | some stream =>
      if stream.state ≠ .complete then []
      else
        match conn.verdict stream with
        | .refuse _ => if stream.id = id then [.concluded] else []
        | .call entry payload =>
            let run := env.handler position
            (conn.enterAt position stream.id entry payload).callsEvents id run.calls ++
              if stream.id = id ∧ run.rc ≠ 0 then [.concluded] else []

def passEvents (id : StreamId) (env : DispatchEnv) : Nat × Conn → List Nat → List HookEvent
  | _, [] => []
  | progress, position :: rest =>
      turnEvents id env progress.2 position ++
        passEvents id env (dispatchAt env progress position) rest

/-- The calls that a deadline sweep ends. -/
def expiring (conn : Conn) (now : Nat) : List StreamId :=
  ((List.range conn.streams.length).foldl (expireAt now) (conn, [])).2

/-- What an event says about the hook of one stream, its firings apart. -/
def hookMarks (id : StreamId) (conn : Conn) : ConnEvent → List HookEvent
  | .api call => conn.callEvents id call
  | .dispatch env => passEvents id env (0, conn) (List.range conn.streams.length)
  | .expireDeadlines now => if id ∈ conn.expiring now then [.expired] else []
  | .streamClose closing errorCode =>
      if closing = id then
        (conn.findStream id).toList.map fun stream => .closed errorCode stream.out.finished
      else []
  | _ => []

/-- The hooks of one stream that the connection has fired between two states. -/
def firedSince (id : StreamId) (conn next : Conn) : List CancelHook :=
  ((next.logOf id).drop (conn.logOf id).length).filterMap Effect.asFired

def hookEvents (id : StreamId) (conn : Conn) (event : ConnEvent) : List HookEvent :=
  conn.hookMarks id event ++ (conn.firedSince id (conn.perform event)).map .fired

end Conn

/-- A connection and whether its owner has dropped it.  `Drop` closes the socket
and deletes the nghttp2 session, which runs no stream-close callback. -/
structure Session where
  conn : Conn
  dropped : Bool

inductive SessionEvent where
  | conn (event : ConnEvent)
  | drop

namespace Session

def newServer (methods : List MethodEntry) (maxMessageLen : UInt32) (fd : Int) : Session where
  conn := .newServer methods maxMessageLen fd
  dropped := false

def step (session : Session) (event : SessionEvent) : Option Session :=
  if session.dropped then none
  else
    match event with
    | .conn event => (session.conn.step event).map fun next => { session with conn := next }
    | .drop => some { session with dropped := true }

def hookEvents (id : StreamId) (session : Session) : SessionEvent → List HookEvent
  | .conn event => session.conn.hookEvents id event
  | .drop => (session.conn.findStream id).toList.map fun stream => .dropped stream.out.finished

/-- Everything that happens to the hook of one stream in a run. -/
def hookHistory (id : StreamId) : Session → List SessionEvent → List HookEvent :=
  Transition.observe step (hookEvents id)

end Session

/-! ### The law of a history -/

/-- Where a call stands with its hook.  A stream that is not open yet is live with
an empty slot. -/
inductive Phase where
  | live (hook : Option CancelHook) (finished : Bool)
  /-- The hook runs now; `closing` says whether the stream is gone with it. -/
  | owing (hook : CancelHook) (closing : Bool)
  | gone
  deriving DecidableEq

namespace Phase

def next : Phase → HookEvent → Option Phase
  | live _ finished, .installed hook => some (live (some hook) finished)
  | live hook _, .finish => some (live hook true)
  | live hook _, .concluded => some (live hook true)
  | live (some hook) false, .expired => some (owing hook false)
  | live none false, .expired => some (live none true)
  | live hook finished, .closed errorCode answered =>
      if finished ≠ answered then none
      else
        match hook with
        | some hook => if errorCode ≠ 0 then some (owing hook true) else some gone
        | none => some gone
  | live hook finished, .dropped answered =>
      if finished ≠ answered then none
      else if finished = false ∧ hook ≠ none then none
      else some gone
  | owing hook closing, .fired other =>
      if hook ≠ other then none else some (if closing then gone else live none true)
  | _, _ => none

/-- A hook runs to its end within the event that fires it. -/
def Settled : Phase → Prop
  | owing _ _ => False
  | _ => True

end Phase

def Lane.phase (id : StreamId) (lane : Lane) : Phase :=
  match lane.ctx with
  | some stream => .live stream.cancelHook stream.out.finished
  | none => if .opened id ∈ lane.log then .gone else .live none false

def Session.phase (id : StreamId) (session : Session) : Phase :=
  let lane := session.conn.lane id
  Lane.phase id (if session.dropped then { lane with ctx := none } else lane)

end GrpcUds.Server
