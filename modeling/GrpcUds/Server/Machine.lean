import GrpcUds.Lib.Transition
import GrpcUds.Server.Dispatch

/-!
# The connection as a machine

One event is one entry into the library on an open connection: a callback of
nghttp2, a call of the application, a deadline sweep or a dispatch pass.  The
guards of `Conn.step` are what nghttp2 guarantees about its own calls.
-/

namespace GrpcUds.Server

/-- A read callback that set the EOF flag; nghttp2 does not read on. -/
def ReadOutcome.isFinal : ReadOutcome → Bool
  | eof => true
  | callbackFailure => true
  | _ => false

/-- How an effect changes whether nghttp2 holds the stream's DATA back. -/
def deferStep (held : Bool) : Effect → Bool
  | .readReturned _ outcome => decide (outcome = .deferred)
  | .resumeData _ => false
  | _ => held

/-- Is the stream's DATA deferred after these effects on it: the last read
returned `DEFERRED` and no resume was issued since. -/
def deferred (log : List Effect) : Bool := log.foldl deferStep false

/-- The data provider has reported the end of the stream's DATA. -/
def readEnded (log : List Effect) : Bool :=
  log.any fun effect =>
    match effect with
    | .readReturned _ outcome => outcome.isFinal
    | _ => false

/-- nghttp2 reads from a stream whose response was submitted, unless its DATA
is deferred or has ended. -/
def Readable (id : StreamId) (log : List Effect) : Prop :=
  .submitResponse id 0 ∈ log ∧ deferred log = false ∧ readEnded log = false

instance (id : StreamId) (log : List Effect) : Decidable (Readable id log) :=
  inferInstanceAs (Decidable (_ ∧ _ ∧ _))

namespace Conn

/-- The effects that concern one stream. -/
def logOf (conn : Conn) (id : StreamId) : List Effect :=
  conn.log.filter fun effect => effect.id = id

end Conn

inductive ConnEvent where
  | registerMethod (entry : MethodEntry) (copy reserve : Bool)
  | beginHeaders (hd : FrameHd) (reserve : Bool)
  | header (id : StreamId) (name value : Bytes) (now : Nat) (reserve : Bool)
  | frameRecv (hd : FrameHd)
  | dataChunkRecv (id : StreamId) (chunk : Bytes) (reserve : Bool)
  | streamClose (id : StreamId) (errorCode : Nat)
  | api (call : ApiCall)
  | expireDeadlines (now : Nat)
  | dispatch (env : DispatchEnv)
  | read (id : StreamId) (length : Nat) (trailerRc : Int)
  | consumePromise (id : StreamId) (length : Nat)

/-- The events in which nghttp2 pulls response bytes. -/
def ConnEvent.isTransport : ConnEvent → Bool
  | read _ _ _ => true
  | consumePromise _ _ => true
  | _ => false

namespace Conn

/-- What nghttp2 guarantees: it opens a stream id once, reports the end of a
request once and on DATA or HEADERS only, sends no HEADERS after it, and reads
only where `Readable` says so, with room for at least one byte. -/
def Legal (conn : Conn) : ConnEvent → Prop
  | .beginHeaders hd _ => .opened hd.streamId ∉ conn.logOf hd.streamId
  | .frameRecv hd =>
      (hd.endsStream → hd.type = nvData ∨ hd.type = nvHeaders) ∧
        (hd.endsStream ∨ hd.type = nvHeaders → .endStream hd.streamId ∉ conn.logOf hd.streamId)
  | .read id length _ => 0 < length ∧ Readable id (conn.logOf id)
  | _ => True

instance (conn : Conn) : (event : ConnEvent) → Decidable (conn.Legal event)
  | .registerMethod .. => inferInstanceAs (Decidable True)
  | .beginHeaders .. => inferInstanceAs (Decidable (_ ∉ _))
  | .header .. => inferInstanceAs (Decidable True)
  | .frameRecv _ => inferInstanceAs (Decidable ((_ → _ ∨ _) ∧ (_ ∨ _ → _ ∉ _)))
  | .dataChunkRecv .. => inferInstanceAs (Decidable True)
  | .streamClose .. => inferInstanceAs (Decidable True)
  | .api _ => inferInstanceAs (Decidable True)
  | .expireDeadlines _ => inferInstanceAs (Decidable True)
  | .dispatch _ => inferInstanceAs (Decidable True)
  | .read .. => inferInstanceAs (Decidable (_ < _ ∧ Readable _ _))
  | .consumePromise .. => inferInstanceAs (Decidable True)

def perform (conn : Conn) : ConnEvent → Conn
  | .registerMethod entry copy reserve => (conn.registerMethodInner entry copy reserve).2
  | .beginHeaders hd reserve => (conn.onBeginHeaders hd reserve).2
  | .header id name value now reserve => (conn.onHeader id name value now reserve).2
  | .frameRecv hd => conn.onFrameRecv hd
  | .dataChunkRecv id chunk reserve => (conn.onDataChunkRecv id chunk reserve).2
  | .streamClose id errorCode => conn.onStreamClose id errorCode
  | .api call => (conn.api call).2
  | .expireDeadlines now => conn.expireDeadlines now
  | .dispatch env => (conn.dispatch env).2
  | .read id length trailerRc => (conn.dataProviderRead id length trailerRc).2
  | .consumePromise id length => conn.consumePromise id length

def step (conn : Conn) (event : ConnEvent) : Option Conn :=
  if conn.Legal event then some (conn.perform event) else none

theorem step_eq_some_iff {conn next : Conn} {event : ConnEvent} :
    conn.step event = some next ↔ conn.Legal event ∧ conn.perform event = next := by
  simp [step]

end Conn

end GrpcUds.Server
