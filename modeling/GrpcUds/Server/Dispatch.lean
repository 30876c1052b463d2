import GrpcUds.Server.Callbacks

/-!
# Handler dispatch and the response data provider

A dispatch pass visits every position of the stream table once.  A handler is
any list of API calls followed by a return code, chosen by the environment for
the position at which it runs.
-/

namespace GrpcUds.Server

open Framing

/-- Remaining size of the head message from which it is sent without a copy. -/
def nocopyMin : Nat := 4096

/-- What a handler does before it returns. -/
structure HandlerRun where
  calls : List ApiCall
  rc : Int
  deriving DecidableEq

/-- Outcomes of a pass that its environment decides, by table position. -/
structure DispatchEnv where
  handler : Nat → HandlerRun
  submitRc : Nat → Int

/-- Answer a stream with an error and without a handler. -/
def finalizeError (status : GrpcStatus) (stream : StreamCtx) : StreamCtx :=
  { stream with
    status := status
    state := .dispatched
    out := { stream.out with finished := true, finalStatus := status } }

/-- After the handler returned: a non-zero code finishes an unfinished call. -/
def concludeHandler (rc : Int) (stream : StreamCtx) : StreamCtx :=
  { stream with
    state := .dispatched
    out :=
      if rc ≠ 0 ∧ stream.out.finished = false then
        { stream.out with finished := true, finalStatus := grpcStatusFromI32 rc }
      else stream.out }

def startResponse (stream : StreamCtx) : StreamCtx :=
  { stream with out := { stream.out with responseStarted := true } }

def applyBackpressure (backpressure : Option Backpressure) (stream : StreamCtx) : StreamCtx :=
  match backpressure with
  | none => stream
  | some chosen => { stream with out := { stream.out with backpressure := chosen } }

theorem applyBackpressure_id (backpressure : Option Backpressure) (stream : StreamCtx) :
    (applyBackpressure backpressure stream).id = stream.id := by
  cases backpressure <;> rfl

/-- The trailer block of a finished queue. -/
def trailerFor (queue : OutQueue) : List Headers.Nv :=
  match queue.finalMessage with
  | none => Headers.trailer queue.finalStatus
  | some message =>
      if message.isEmpty then Headers.trailer queue.finalStatus
      else Headers.trailerWithMessage queue.finalStatus message

namespace Conn

/-- `rc` is the result of `nghttp2_submit_response`. -/
def submitResponseFor (conn : Conn) (callId : StreamId) (rc : Int) :
    Except ConnError Unit × Conn :=
  if rc ≠ 0 then (.error (.nghttp2 rc), conn.emit (.submitResponse callId rc))
  else (.ok (), (conn.emit (.submitResponse callId rc)).modify callId startResponse)

/-- The error exits of the dispatch loop. -/
def refuse (conn : Conn) (position : Nat) (callId : StreamId) (status : GrpcStatus)
    (submitRc : Int) : Conn :=
  (((conn.modifyAt position (finalizeError status)).emit
    (.refused callId status)).submitResponseFor callId submitRc).2

/-- Control passes to the handler. -/
def enter (conn : Conn) (callId : StreamId) (entry : MethodEntry) (payload : Bytes) : Conn :=
  { conn.emit (.invoked callId entry.handler entry.userData payload) with running := some callId }

/-- Control comes back from the handler. -/
def leave (conn : Conn) (callId : StreamId) (rc : Int) : Conn :=
  { conn.emit (.returned callId rc) with running := none }

/-- The handler's calls, between its invocation and its return. -/
def runHandler (conn : Conn) (callId : StreamId) (entry : MethodEntry) (payload : Bytes)
    (run : HandlerRun) : Conn :=
  let entered := conn.enter callId entry payload
  let ran := run.calls.foldl (fun conn call => (conn.api call).2) entered
  ran.leave callId run.rc

/-- Issue the response once; a stream whose submission fails is cancelled. -/
def respondOnce (conn : Conn) (position : Nat) (callId : StreamId) (submitRc : Int) : Conn :=
  match conn.streams[position]? with
  | none => conn
  | some stream =>
      if stream.out.responseStarted then conn
      else
        match conn.submitResponseFor callId submitRc with
        | (.ok (), submitted) => submitted
        | (.error _, failed) =>
            failed.modifyAt position fun stream => { stream with state := .cancelled }

/-- Run the handler of one stream and start its response. -/
def serve (conn : Conn) (position : Nat) (callId : StreamId) (entry : MethodEntry)
    (payload : Bytes) (run : HandlerRun) (submitRc : Int) : Conn :=
  let configured := conn.modifyAt position (applyBackpressure entry.backpressure)
  let ran := configured.runHandler callId entry payload run
  (ran.modifyAt position (concludeHandler run.rc)).respondOnce position callId submitRc

/-- One turn of the dispatch loop on a stream that is complete. -/
def dispatchStream (conn : Conn) (env : DispatchEnv) (position : Nat) (stream : StreamCtx) : Conn :=
  match decodeHeader stream.request conn.maxMessageLen with
  | .error _ => conn.refuse position stream.id .internal (env.submitRc position)
  | .ok header =>
      let payloadLen := header.payloadLen.toNat
      if stream.request.length < frameHeaderLen + payloadLen then
        conn.refuse position stream.id .internal (env.submitRc position)
      else
        match conn.methods.find? fun entry => entry.path = stream.path with
        | none => conn.refuse position stream.id .unimplemented (env.submitRc position)
        | some entry =>
            let payload := (stream.request.drop frameHeaderLen).take payloadLen
            conn.serve position stream.id entry payload (env.handler position)
              (env.submitRc position)

/-- One turn of the dispatch loop, with the count of dispatched streams. -/
def dispatchAt (env : DispatchEnv) (progress : Nat × Conn) (position : Nat) : Nat × Conn :=
  match progress.2.streams[position]? with
  | none => progress
  | some stream =>
      if stream.state ≠ .complete then progress
      else (progress.1 + 1, progress.2.dispatchStream env position stream)

/-- Dispatch every stream that is complete. -/
def dispatch (conn : Conn) (env : DispatchEnv) : Nat × Conn :=
  (List.range conn.streams.length).foldl (dispatchAt env) (0, conn)

/-- Store the queue a read left behind and report the outcome. -/
def reportRead (conn : Conn) (id : StreamId) (out : OutQueue) (outcome : ReadOutcome) : Conn :=
  (conn.modify id fun stream => { stream with out := out }).emit (.readReturned id outcome)

/-- Pull source for response DATA.  `trailerRc` is the result of
`nghttp2_submit_trailer`. -/
def dataProviderRead (conn : Conn) (id : StreamId) (length : Nat) (trailerRc : Int) :
    ReadOutcome × Conn :=
  match conn.findStream id with
  | none => (.temporalFailure, conn.emit (.readReturned id .temporalFailure))
  | some stream =>
      if 0 ≤ conn.fd ∧ nocopyMin ≤ stream.out.frontRemaining then
        let promise := stream.out.promiseFront length
        (.noCopy promise.1, conn.reportRead id promise.2 (.noCopy promise.1))
      else
        let drained := stream.out.drainInto length
        if drained.1 ≠ [] then
          (.copied drained.1, conn.reportRead id drained.2 (.copied drained.1))
        else if drained.2.finished then
          let outcome := if trailerRc ≠ 0 then ReadOutcome.callbackFailure else .eof
          (outcome, (conn.emit (.submitTrailer id (trailerFor drained.2) trailerRc)).reportRead
            id drained.2 outcome)
        else (.deferred, conn.reportRead id drained.2 .deferred)

/-- The queue's part of a `NO_COPY` send. -/
def consumePromise (conn : Conn) (id : StreamId) (length : Nat) : Conn :=
  conn.modify id fun stream => { stream with out := stream.out.consumeFront length }

end Conn

end GrpcUds.Server
