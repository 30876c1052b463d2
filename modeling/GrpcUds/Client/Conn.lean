import GrpcUds.Client.CallState

/-!
# The blocking client connection

One connection, one nghttp2 client session and one call state.  A call is
submitted and then driven by pumps: flush what nghttp2 wants to send, wait for
the deadline at most, and feed one read to the session.  The environment of a
pump says what the system calls return and which callbacks nghttp2 makes.
-/

namespace GrpcUds.Client

open Framing

inductive ClientError where
  | connect
  | session
  | io
  | protocol
  deriving DecidableEq, Repr

/-- A stream that nghttp2 knows, with the request it was opened for and the body
bytes it has been supplied with. -/
structure Stream where
  id : Nat
  request : Bytes
  supplied : Bytes
  deriving DecidableEq

/-- A client connection.  `streams` are the streams open in the session, all with
the address of `state` as their user data.  The last five fields record what
happened: the streams that are gone, and for the current call its request, what
happened to its own stream and to the connection, the DATA bytes that reached the
deframer, and the messages the reader took. -/
structure ClientConn where
  kind : Kind
  state : CallState
  streams : List Stream
  nextStreamId : Nat
  timeoutMs : Option Nat
  deadlineMs : Option Nat
  currentSid : Nat
  broken : Bool
  gone : List Stream
  request : Bytes
  history : List Happening
  fed : Bytes
  returned : List Bytes
  deriving DecidableEq

/-- A callback of nghttp2 for a stream. -/
inductive SessionEvent where
  | header (sid : Nat) (name value : Bytes)
  | data (sid : Nat) (bytes : Bytes)
  | close (sid : Nat) (errorCode : Nat)
  | read (sid : Nat) (length : Nat)
  deriving DecidableEq

namespace SessionEvent

def sid : SessionEvent → Nat
  | header sid _ _ => sid
  | data sid _ => sid
  | close sid _ => sid
  | read sid _ => sid

def happening : SessionEvent → Happening
  | header _ name value => .header name value
  | data _ bytes => .data bytes
  | close _ errorCode => .close errorCode
  | read _ length => .read length

end SessionEvent

/-- The DATA bytes of one happening. -/
def Happening.dataBytes : Happening → Bytes
  | data bytes => bytes
  | _ => []

/-- The callbacks nghttp2 makes while it sends, and whether the bytes it produced
could be written. -/
structure FlushEnv where
  events : List SessionEvent
  written : Bool

/-- The outcome of reconnecting, whether nghttp2 accepts the request, and the rest
of the environment of a submit. -/
structure SubmitEnv where
  connected : Bool
  accepted : Bool
  now : Nat
  flush : FlushEnv

inductive PollResult where
  | ready
  | timedOut
  | interrupted
  | failed
  deriving DecidableEq, Repr

/-- What one `read` returns, and what nghttp2 makes of the bytes. -/
inductive ReadResult where
  | received (events : List SessionEvent)
  | refused (events : List SessionEvent)
  | endOfFile
  | interrupted
  | failed

structure PumpEnv where
  flush : FlushEnv
  now : Nat
  poll : PollResult
  read : ReadResult
  /-- The flush that follows the cancellation of an expired call. -/
  cancel : FlushEnv

namespace ClientConn

def connect (kind : Kind) : ClientConn where
  kind := kind
  state := .new
  streams := []
  nextStreamId := 1
  timeoutMs := none
  deadlineMs := none
  currentSid := 0
  broken := false
  gone := []
  request := []
  history := []
  fed := []
  returned := []

/-- A callback finds the call state through its stream; for a stream that nghttp2
does not know there is none.  Every open stream leads to the one state. -/
def onSession (client : ClientConn) (event : SessionEvent) : ClientConn :=
  match client.streams.find? fun stream => stream.id = event.sid with
  | none => client
  | some stream =>
      let own := event.sid = client.currentSid
      let noted :=
        { client with
          state := client.state.happen client.kind event.happening
          history := if own then client.history ++ [event.happening] else client.history
          fed := client.fed ++ event.happening.dataBytes }
      match event with
      | .close sid _ =>
          { noted with
            streams := client.streams.filter fun stream => stream.id ≠ sid
            gone := client.gone ++ [stream] }
      | .read sid length =>
          { noted with
            streams := client.streams.map fun stream =>
              if stream.id = sid then
                { stream with supplied := stream.supplied ++ client.state.supply length }
              else stream }
      | _ => noted

/-- What happens to the call without a callback. -/
def note (client : ClientConn) (happening : Happening) : ClientConn :=
  { client with
    state := client.state.happen client.kind happening
    history := client.history ++ [happening] }

def feed (client : ClientConn) (events : List SessionEvent) : ClientConn :=
  events.foldl onSession client

/-- Send what nghttp2 has.  The core client marks the connection broken here, the
std client in most callers. -/
def flushSend (client : ClientConn) (env : FlushEnv) : Bool × ClientConn :=
  let sent := client.feed env.events
  if env.written then (true, sent)
  else (false, { sent with broken := sent.broken || decide (sent.kind = .core) })

/-- A fresh session on a fresh socket; only the timeout setting survives. -/
def reconnect (client : ClientConn) : ClientConn :=
  { connect client.kind with
    timeoutMs := client.timeoutMs
    gone := client.gone ++ client.streams }

/-- Arm the call state for a framed request. -/
def arm (client : ClientConn) (framed : Bytes) : ClientConn :=
  { client with
    state := .reset framed
    request := framed
    history := []
    fed := []
    returned := [] }

/-- nghttp2 accepted the request; the deadline of the call starts. -/
def openStream (client : ClientConn) (now : Nat) : ClientConn :=
  { client with
    streams := client.streams ++ [⟨client.nextStreamId, client.request, []⟩]
    nextStreamId := client.nextStreamId + 2
    currentSid := client.nextStreamId
    deadlineMs := client.timeoutMs.map (now + ·) }

/-- Frame the request, arm the call state and open a stream for it.  A broken
connection is replaced first. -/
def submit (client : ClientConn) (request : Bytes) (env : SubmitEnv) :
    Except ClientError Nat × ClientConn :=
  if client.broken ∧ env.connected = false then (.error .connect, client)
  else
    let armed := (if client.broken then client.reconnect else client).arm (frame request)
    if env.accepted then
      match (armed.openStream env.now).flushSend env.flush with
      | (true, sent) => (.ok armed.nextStreamId, sent)
      | (false, sent) => (.error .io, { sent with broken := true })
    else (.error .protocol, armed)

def setTimeout (client : ClientConn) (timeout : Option Nat) : ClientConn :=
  { client with timeoutMs := timeout }

/-- The setter of the core client and the C ABI, where 0 clears the timeout. -/
def setTimeoutMs (client : ClientConn) (ms : Nat) : ClientConn :=
  client.setTimeout (if ms = 0 then none else some ms)

/-- Fail the call locally and cancel its stream. -/
def expireCall (client : ClientConn) (env : FlushEnv) : ClientConn :=
  let expired := { client.note .expired with deadlineMs := none }
  if 0 < client.currentSid then (expired.flushSend env).2 else expired

def disconnect (client : ClientConn) : ClientConn :=
  { client.note .disconnected with broken := true }

/-- One read of the socket. -/
def pumpRead (client : ClientConn) : ReadResult → Except ClientError Unit × ClientConn
  | .endOfFile => (.ok (), client.disconnect)
  | .interrupted => (.ok (), client)
  | .failed => (.error .io, client.disconnect)
  | .received events => (.ok (), client.feed events)
  | .refused events => (.error .protocol, { client.feed events with broken := true })

def pump (client : ClientConn) (env : PumpEnv) : Except ClientError Unit × ClientConn :=
  match client.flushSend env.flush with
  | (false, sent) => (.error .io, { sent with broken := true })
  | (true, sent) =>
      match sent.deadlineMs with
      | none => sent.pumpRead env.read
      | some deadline =>
          if deadline ≤ env.now then (.ok (), sent.expireCall env.cancel)
          else
            match env.poll with
            | .timedOut => (.ok (), sent.expireCall env.cancel)
            | .interrupted => (.ok (), sent)
            | .failed => (.error .io, sent.disconnect)
            | .ready => sent.pumpRead env.read

/-- The reader takes the next message. -/
def take (client : ClientConn) : ClientConn :=
  { client.note .taken with returned := client.returned ++ client.state.messages.head?.toList }

end ClientConn

/-- What the application does to a connection, call by call. -/
inductive ClientEvent where
  | setTimeout (timeout : Option Nat)
  | submit (request : Bytes) (env : SubmitEnv)
  | pump (env : PumpEnv)
  | take

def ClientEvent.isSubmit : ClientEvent → Bool
  | submit _ _ => true
  | _ => false

def ClientConn.step (client : ClientConn) : ClientEvent → ClientConn
  | .setTimeout timeout => client.setTimeout timeout
  | .submit request env => (client.submit request env).2
  | .pump env => (client.pump env).2
  | .take => client.take

/-- The connection after a run of events. -/
def ClientConn.run (client : ClientConn) (events : List ClientEvent) : ClientConn :=
  events.foldl ClientConn.step client

end GrpcUds.Client
