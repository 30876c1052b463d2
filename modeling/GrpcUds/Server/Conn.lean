import GrpcUds.Lib.Table
import GrpcUds.Server.OutQueue

/-!
# Connection state and the call API

`Conn` is one server connection: its stream table, its registered methods and
the tail of bytes that did not fit on the socket.  What nghttp2 and the
application ask of a stream, and what the connection asks of them, is appended
to `log`, which no operation reads.

Results of code outside the library are arguments: allocation outcomes are
Booleans, nghttp2 return codes are integers and clock readings are numbers.
-/

namespace GrpcUds.Server

abbrev StreamId := Int

inductive StreamState where
  | headersIn
  | bodyIn
  | complete
  | dispatched
  | closed
  | cancelled
  deriving DecidableEq, Repr

/-- A callback and its user data, as opaque addresses. -/
structure CancelHook where
  callback : Nat
  userData : Nat
  deriving DecidableEq, Repr

structure StreamCtx where
  id : StreamId
  state : StreamState
  /-- Accumulated DATA bytes, still framed. -/
  request : Bytes
  path : Bytes
  out : OutQueue
  status : GrpcStatus
  cancelHook : Option CancelHook
  /-- Absolute expiry on the monotonic clock. -/
  deadlineMs : Option Nat
  deriving DecidableEq

def StreamCtx.new (id : StreamId) : StreamCtx where
  id := id
  state := .headersIn
  request := []
  path := []
  out := .new
  status := .ok
  cancelHook := none
  deadlineMs := none

structure MethodEntry where
  path : Bytes
  handler : Nat
  userData : Nat
  backpressure : Option Backpressure
  deriving DecidableEq

/-- What one call of the data provider returned to nghttp2. -/
inductive ReadOutcome where
  | copied (bytes : Bytes)
  | noCopy (length : Nat)
  | eof
  | deferred
  | temporalFailure
  | callbackFailure
  deriving DecidableEq

/-- One interaction of a connection with its surroundings about one stream. -/
inductive Effect where
  | opened (id : StreamId)
  | endStream (id : StreamId)
  | closed (id : StreamId) (errorCode : Nat)
  /-- The request was answered with an error and no handler. -/
  | refused (id : StreamId) (status : GrpcStatus)
  | invoked (id : StreamId) (handler userData : Nat) (payload : Bytes)
  | returned (id : StreamId) (rc : Int)
  | finish (id : StreamId) (status : GrpcStatus) (message : Option Bytes)
  | submitResponse (id : StreamId) (rc : Int)
  | resumeData (id : StreamId)
  | readReturned (id : StreamId) (outcome : ReadOutcome)
  | submitTrailer (id : StreamId) (nva : List Headers.Nv) (rc : Int)
  | hookFired (id : StreamId) (hook : CancelHook)
  deriving DecidableEq

def Effect.id : Effect → StreamId
  | opened id => id
  | endStream id => id
  | closed id _ => id
  | refused id _ => id
  | invoked id _ _ _ => id
  | returned id _ => id
  | finish id _ _ => id
  | submitResponse id _ => id
  | resumeData id => id
  | readReturned id _ => id
  | submitTrailer id _ _ => id
  | hookFired id _ => id

structure Conn where
  streams : List StreamCtx
  methods : List MethodEntry
  maxMessageLen : UInt32
  /-- Socket for the direct-send path, negative when there is none. -/
  fd : Int
  /-- Bytes that must reach the socket before any other. -/
  outPending : Bytes
  /-- The stream whose handler is on the stack. -/
  running : Option StreamId
  log : List Effect
  deriving DecidableEq

/-- The encoded form of a message that a finish carries; an empty one is none. -/
def finalMessageOf : Option Bytes → Option Bytes
  | none => none
  | some raw => if raw.isEmpty then none else some (Headers.percentEncodeMessage raw)

/-- Mark a queue finished.  Only the first finish sets the status and message. -/
def OutQueue.finish (queue : OutQueue) (status : GrpcStatus) (message : Option Bytes) : OutQueue :=
  if queue.finished then queue
  else
    { queue with
      finished := true
      finalStatus := status
      finalMessage := (finalMessageOf message).or queue.finalMessage }

/-- Dispatched, unfinished and past its deadline. -/
def StreamCtx.due (now : Nat) (stream : StreamCtx) : Bool :=
  decide (stream.state = .dispatched) && !stream.out.finished &&
    match stream.deadlineMs with
    | none => false
    | some deadline => decide (deadline ≤ now)

/-- What the deadline sweep does to a stream that is due. -/
def StreamCtx.disarm (stream : StreamCtx) : StreamCtx :=
  { stream with deadlineMs := none, cancelHook := none }

namespace Conn

def newServer (methods : List MethodEntry) (maxMessageLen : UInt32) (fd : Int) : Conn where
  streams := []
  methods := methods
  maxMessageLen := maxMessageLen
  fd := fd
  outPending := []
  running := none
  log := []

def findStream (conn : Conn) (id : StreamId) : Option StreamCtx :=
  Table.lookup StreamCtx.id id conn.streams

/-- Mutate the stream that `findStream` returns. -/
def modify (conn : Conn) (id : StreamId) (change : StreamCtx → StreamCtx) : Conn :=
  { conn with streams := Table.update StreamCtx.id id change conn.streams }

/-- Mutate the stream at a position of the table. -/
def modifyAt (conn : Conn) (position : Nat) (change : StreamCtx → StreamCtx) : Conn :=
  { conn with streams := conn.streams.modify position change }

def emit (conn : Conn) (effect : Effect) : Conn :=
  { conn with log := conn.log ++ [effect] }

/-- Append a method.  `copy` and `reserve` are the two allocation outcomes. -/
def registerMethodInner (conn : Conn) (entry : MethodEntry) (copy reserve : Bool) :
    Except ConnError Unit × Conn :=
  if copy && reserve then (.ok (), { conn with methods := conn.methods ++ [entry] })
  else (.error .outOfMemory, conn)

/-- `nghttp2_session_resume_data`, issued when the response is under way. -/
def resumeIfStarted (conn : Conn) (callId : StreamId) (stream : StreamCtx) : Conn :=
  if stream.state = .dispatched ∧ stream.out.responseStarted then conn.emit (.resumeData callId)
  else conn

def writeCallWith (conn : Conn) (callId : StreamId)
    (enqueue : OutQueue → Except ConnError Unit × OutQueue) : Except ConnError Unit × Conn :=
  match conn.findStream callId with
  | none => (.error .streamNotFound, conn)
  | some stream =>
      if stream.out.finished then (.error .streamFinished, conn)
      else
        let write := fun stream : StreamCtx => { stream with out := (enqueue stream.out).2 }
        let written := conn.modify callId write
        match (enqueue stream.out).1 with
        | .error error => (.error error, written)
        | .ok () => (.ok (), written.resumeIfStarted callId (write stream))

def writeCall (conn : Conn) (callId : StreamId) (payload : Bytes) (copy reserve : Bool) :
    Except ConnError Unit × Conn :=
  conn.writeCallWith callId fun out => out.enqueueFramed payload copy reserve

def writeCallOwned (conn : Conn) (callId : StreamId) (payload : Bytes) (reserve : Bool) :
    Except ConnError Unit × Conn :=
  conn.writeCallWith callId fun out => out.enqueueOwned payload reserve

def finishCallInner (conn : Conn) (callId : StreamId) (status : GrpcStatus)
    (message : Option Bytes) : Except ConnError Unit × Conn :=
  match conn.findStream callId with
  | none => (.error .streamNotFound, conn)
  | some stream =>
      let finish := fun stream : StreamCtx =>
        { stream with out := stream.out.finish status message }
      let finished := (conn.modify callId finish).emit (.finish callId status message)
      (.ok (), finished.resumeIfStarted callId (finish stream))

def finishCall (conn : Conn) (callId : StreamId) (status : GrpcStatus) :
    Except ConnError Unit × Conn :=
  conn.finishCallInner callId status none

def finishCallMsg (conn : Conn) (callId : StreamId) (status : GrpcStatus) (message : Bytes) :
    Except ConnError Unit × Conn :=
  conn.finishCallInner callId status (some message)

/-- Change one setting of an open call. -/
def configure (conn : Conn) (callId : StreamId) (change : StreamCtx → StreamCtx) :
    Except ConnError Unit × Conn :=
  match conn.findStream callId with
  | none => (.error .streamNotFound, conn)
  | some _ => (.ok (), conn.modify callId change)

def setCancelHook (conn : Conn) (callId : StreamId) (hook : CancelHook) :
    Except ConnError Unit × Conn :=
  conn.configure callId fun stream => { stream with cancelHook := some hook }

def setStreamPolicy (conn : Conn) (callId : StreamId) (backpressure : Backpressure) :
    Except ConnError Unit × Conn :=
  conn.configure callId fun stream =>
    { stream with out := { stream.out with backpressure := backpressure } }

/-- Run an installed cancel hook. -/
def fireHook (conn : Conn) (id : StreamId) : Option CancelHook → Conn
  | none => conn
  | some hook => conn.emit (.hookFired id hook)

/-- Calls that expire in one sweep; the rest expire on the next tick. -/
def maxExpired : Nat := 8

/-- One position of the deadline sweep. -/
def expireAt (now : Nat) (progress : Conn × List StreamId) (position : Nat) :
    Conn × List StreamId :=
  if progress.2.length = maxExpired then progress
  else
    match progress.1.streams[position]? with
    | none => progress
    | some stream =>
        if stream.due now then
          ((progress.1.modifyAt position StreamCtx.disarm).fireHook stream.id stream.cancelHook,
            progress.2 ++ [stream.id])
        else progress

/-- Finish every call that is due with `DEADLINE_EXCEEDED`. -/
def expireDeadlines (conn : Conn) (now : Nat) : Conn :=
  let swept := (List.range conn.streams.length).foldl (expireAt now) (conn, [])
  swept.2.foldl (fun conn id =>
    (conn.finishCallMsg id .deadlineExceeded (Headers.ascii "deadline exceeded")).2) swept.1

/-- Milliseconds until the earliest armed deadline. -/
def nextDeadlineMs (conn : Conn) (now : Nat) : Option Nat :=
  ((conn.streams.filter fun stream =>
    decide (stream.state = .dispatched) && !stream.out.finished).filterMap
      StreamCtx.deadlineMs).min?.map fun deadline => deadline - now

end Conn

/-- One call of the application on an open connection. -/
inductive ApiCall where
  | writeCall (callId : StreamId) (payload : Bytes) (copy reserve : Bool)
  | writeCallOwned (callId : StreamId) (payload : Bytes) (reserve : Bool)
  | finishCall (callId : StreamId) (status : GrpcStatus)
  | finishCallMsg (callId : StreamId) (status : GrpcStatus) (message : Bytes)
  | setCancelHook (callId : StreamId) (hook : CancelHook)
  | setStreamPolicy (callId : StreamId) (backpressure : Backpressure)
  deriving DecidableEq

def ApiCall.callId : ApiCall → StreamId
  | writeCall callId _ _ _ => callId
  | writeCallOwned callId _ _ => callId
  | finishCall callId _ => callId
  | finishCallMsg callId _ _ => callId
  | setCancelHook callId _ => callId
  | setStreamPolicy callId _ => callId

def Conn.api (conn : Conn) : ApiCall → Except ConnError Unit × Conn
  | .writeCall callId payload copy reserve => conn.writeCall callId payload copy reserve
  | .writeCallOwned callId payload reserve => conn.writeCallOwned callId payload reserve
  | .finishCall callId status => conn.finishCall callId status
  | .finishCallMsg callId status message => conn.finishCallMsg callId status message
  | .setCancelHook callId hook => conn.setCancelHook callId hook
  | .setStreamPolicy callId backpressure => conn.setStreamPolicy callId backpressure

end GrpcUds.Server
