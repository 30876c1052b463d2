import GrpcUds.Server.Conn

/-!
# Receive-side callbacks

nghttp2 calls these while it parses what the peer sent.  Each one looks its
stream up by id and does nothing for an unknown stream.
-/

namespace GrpcUds.Server

open Framing

/-- What a callback tells nghttp2.  A failure ends the session. -/
inductive CallbackResult where
  | ok
  | callbackFailure
  deriving DecidableEq, Repr

inductive HeadersCategory where
  | request
  | response
  | pushResponse
  | headers
  deriving DecidableEq, Repr

/-- The header of a received frame.  `cat` is read on HEADERS frames only. -/
structure FrameHd where
  streamId : StreamId
  type : UInt8
  flags : UInt8
  cat : HeadersCategory
  deriving DecidableEq

def nvData : UInt8 := 0

def nvHeaders : UInt8 := 1

def flagEndStream : UInt8 := 1

def FrameHd.endsStream (hd : FrameHd) : Bool := decide (hd.flags &&& flagEndStream ≠ 0)

namespace Conn

def pushStream (conn : Conn) (id : StreamId) : Conn :=
  { conn with
    streams := conn.streams ++ [StreamCtx.new id]
    log := conn.log ++ [.opened id] }

def onBeginHeaders (conn : Conn) (hd : FrameHd) (reserve : Bool) : CallbackResult × Conn :=
  if hd.type ≠ nvHeaders then (.ok, conn)
  else if hd.cat ≠ .request then (.ok, conn)
  else if !reserve then (.callbackFailure, conn)
  else (.ok, conn.pushStream hd.streamId)

/-- `now` is the clock reading at the callback; its sum with the timeout is a `u64`. -/
def onHeader (conn : Conn) (id : StreamId) (name value : Bytes) (now : Nat) (reserve : Bool) :
    CallbackResult × Conn :=
  match conn.findStream id with
  | none => (.ok, conn)
  | some _ =>
      if name = Headers.nPath then
        if !reserve then (.callbackFailure, conn)
        else (.ok, conn.modify id fun stream => { stream with path := stream.path ++ value })
      else if name = Headers.nGrpcTimeout then
        let deadline := (Headers.parseGrpcTimeoutMs value).map fun ms => (now + ms) % 2 ^ 64
        (.ok, conn.modify id fun stream => { stream with deadlineMs := deadline })
      else (.ok, conn)

def onFrameRecv (conn : Conn) (hd : FrameHd) : Conn :=
  match conn.findStream hd.streamId with
  | none => conn
  | some _ =>
      if hd.endsStream then
        (conn.modify hd.streamId fun stream => { stream with state := .complete }).emit
          (.endStream hd.streamId)
      else if hd.type = nvHeaders then
        conn.modify hd.streamId fun stream => { stream with state := .bodyIn }
      else conn

def onDataChunkRecv (conn : Conn) (id : StreamId) (chunk : Bytes) (reserve : Bool) :
    CallbackResult × Conn :=
  match conn.findStream id with
  | none => (.ok, conn)
  | some stream =>
      if conn.maxMessageLen.toNat < stream.request.length + chunk.length then
        (.callbackFailure, conn)
      else if !reserve then (.callbackFailure, conn)
      else (.ok, conn.modify id fun stream => { stream with request := stream.request ++ chunk })

/-- `swap_remove` the stream and run the hook it is dropped with, if any. -/
def dropStream (conn : Conn) (id : StreamId) (errorCode : Nat) (hook : Option CancelHook) : Conn :=
  let removed := { conn with streams := Table.remove StreamCtx.id id conn.streams }
  (removed.emit (.closed id errorCode)).fireHook id hook

/-- The last callback for a stream drops its context; an error fires the hook. -/
def onStreamClose (conn : Conn) (id : StreamId) (errorCode : Nat) : Conn :=
  match conn.findStream id with
  | none => conn
  | some stream =>
      conn.dropStream id errorCode (if errorCode ≠ 0 then stream.cancelHook else none)

end Conn

end GrpcUds.Server
