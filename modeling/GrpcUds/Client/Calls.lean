import GrpcUds.Client.Conn

/-!
# Calls

The blocking call loops of both clients and of the C ABI.  A loop takes its
environment turn by turn; with no turn left it is still waiting, and its result
is missing.
-/

namespace GrpcUds.Client

open Framing Headers

/-- One turn of a call loop: whether nghttp2 is idle, and the pump that follows if
the loop goes on. -/
structure Turn where
  idle : Bool
  pump : PumpEnv

/-- A status of the std client. -/
structure Status where
  code : GrpcStatus
  message : Option Bytes
  deriving DecidableEq

/-- A unary response of the C ABI. -/
structure Response where
  body : Bytes
  status : Int
  message : Option Bytes
  deriving DecidableEq

/-- A stream reader of the C ABI. -/
structure StreamReader where
  done : Bool
  status : Int
  message : Option Bytes
  deriving DecidableEq

def StreamReader.new : StreamReader := ⟨false, 0, none⟩

namespace ClientConn

/-- The loop of every call: check whether to stop, then pump.  The condition may ask
whether nghttp2 is idle. -/
def drive (stop : Bool → ClientConn → Bool) :
    List Turn → ClientConn → Option (Except ClientError Unit) × ClientConn
  | [], client => if stop false client then (some (.ok ()), client) else (none, client)
  | turn :: turns, client =>
      if stop turn.idle client then (some (.ok ()), client)
      else
        match client.pump turn.pump with
        | (.error error, client) => (some (.error error), client)
        | (.ok (), client) => drive stop turns client

/-- A message is queued, or the stream has ended. -/
def readable (idle : Bool) (client : ClientConn) : Bool :=
  !client.state.messages.isEmpty || client.state.closed ||
    (idle && client.state.grpcStatus.isSome)

/-- The receive loop that `recv`, `recv_current` and `message` share: a queued message,
or the end of the stream. -/
def receive (turns : List Turn) (client : ClientConn) :
    Option (Except ClientError (Option Bytes)) × ClientConn :=
  match drive readable turns client with
  | (none, client) => (none, client)
  | (some (.error error), client) => (some (.error error), client)
  | (some (.ok ()), client) =>
      match client.state.messages with
      | message :: _ => (some (.ok (some message)), client.take)
      | [] => (some (.ok none), client)

def recvCurrent (client : ClientConn) (turns : List Turn) :
    Option (Except ClientError (Option Bytes)) × ClientConn :=
  receive turns client

/-! ### The core client and the C ABI -/

/-- `ClientConn::unary`: drive the call until its stream closes. -/
def unaryCore (client : ClientConn) (request : Bytes) (env : SubmitEnv) (turns : List Turn) :
    Option (Except ClientError Unit) × ClientConn :=
  match client.submit request env with
  | (.error error, client) => (some (.error error), client)
  | (.ok _, client) => drive (fun _ client => client.state.closed) turns client

/-- `grpcuds_client_unary` on valid pointers; an inner `none` is NULL. -/
def grpcudsClientUnary (client : ClientConn) (request : Bytes) (env : SubmitEnv)
    (turns : List Turn) : Option (Option Response) × ClientConn :=
  match client.unaryCore request env turns with
  | (none, client) => (none, client)
  | (some (.error _), client) => (some none, client)
  | (some (.ok ()), client) =>
      let received := client.recvCurrent []
      (some (some
        { body :=
            match received.1 with
            | some (.ok (some message)) => message
            | _ => []
          status := client.state.grpcStatus.getD 2
          message := client.state.grpcMessage }),
        received.2)

/-- `grpcuds_stream_next` on a valid pointer; an inner `none` is NULL. -/
def grpcudsStreamNext (client : ClientConn) (reader : StreamReader) (turns : List Turn) :
    Option (Option Bytes) × StreamReader × ClientConn :=
  if reader.done then (some none, reader, client)
  else
    match client.recvCurrent turns with
    | (none, client) => (none, reader, client)
    | (some (.ok (some message)), client) => (some (some message), reader, client)
    | (some (.ok none), client) =>
        (some none,
          { done := true
            status := client.state.grpcStatus.getD 0
            message := client.state.grpcMessage }, client)
    | (some (.error _), client) =>
        (some none, { reader with done := true, status := 14 }, client)

/-! ### The std client -/

/-- The status of a failed pump.  The text of an I/O error is the operating system's
and is left out. -/
def statusOf : ClientError → Status
  | .protocol => ⟨.internal, some (ascii "nghttp2 mem_recv failed")⟩
  | _ => ⟨.unavailable, none⟩

def statusOfSubmit : ClientError → Status
  | .protocol => ⟨.internal, some (ascii "nghttp2 submit_request failed")⟩
  | _ => ⟨.unavailable, none⟩

/-- `{:?}` of an optional number. -/
def debugText : Option Nat → String
  | none => "None"
  | some value => "Some(" ++ toString value ++ ")"

/-- The result a call ends with: a zero grpc-status, or none at all after HTTP 200. -/
def finalStatus (client : ClientConn) : Except Status Unit :=
  match client.state.grpcStatus with
  | some code =>
      if code = 0 then .ok () else .error ⟨grpcStatusFromI32 code, client.state.grpcMessage⟩
  | none =>
      if client.state.httpStatus = some 200 then .ok ()
      else
        .error ⟨.unavailable, some (ascii ("stream closed without grpc-status (http :status " ++
          debugText client.state.httpStatus ++ ", nghttp2 err " ++
          toString client.state.closeError ++ ")"))⟩

/-- The std client also stops at a message with a status, before the stream closes. -/
def answered (_idle : Bool) (client : ClientConn) : Bool :=
  client.state.closed || (!client.state.messages.isEmpty && client.state.grpcStatus.isSome)

/-- `Client::unary`. -/
def unary (client : ClientConn) (request : Bytes) (env : SubmitEnv) (turns : List Turn) :
    Option (Except Status Bytes) × ClientConn :=
  match client.submit request env with
  | (.error error, client) => (some (.error (statusOfSubmit error)), client)
  | (.ok _, client) =>
      match drive answered turns client with
      | (none, client) => (none, client)
      | (some (.error error), client) => (some (.error (statusOf error)), client)
      | (some (.ok ()), client) =>
          match client.finalStatus with
          | .error status => (some (.error status), client)
          | .ok () =>
              match client.state.messages with
              | [] =>
                  (some (.error ⟨.internal, some (ascii "unary response had no message")⟩), client)
              | message :: _ => (some (.ok message), client.take)

/-- `ServerStreaming::message`. -/
def message (client : ClientConn) (turns : List Turn) :
    Option (Except Status (Option Bytes)) × ClientConn :=
  match receive turns client with
  | (none, client) => (none, client)
  | (some (.error error), client) => (some (.error (statusOf error)), client)
  | (some (.ok (some message)), client) => (some (.ok (some message)), client)
  | (some (.ok none), client) => (some (client.finalStatus.map fun _ => none), client)

end ClientConn

end GrpcUds.Client
