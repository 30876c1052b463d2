import GrpcUds.Server.Machine

/-!
# The connection on its socket

Two writers share the pending tail of a connection: the flush loop of the I/O
layer, and the send callback that runs inside `nghttp2_session_mem_send` and
writes large DATA frames directly.  The environment is a schedule: what each
system call returns, and what nghttp2 does inside each call into it.
-/

namespace GrpcUds.Server

open Framing

/-- What one `send` or `sendmsg` returns.  The kernel takes at most what it is
offered. -/
inductive SendResult where
  | sent (count : Nat)
  | interrupted
  | wouldBlock
  | failed (errno : Int)
  deriving DecidableEq, Repr

inductive IoError where
  | errno (code : Int)
  | conn (error : ConnError)
  deriving DecidableEq, Repr

inductive TickStatus where
  | live
  | closed
  deriving DecidableEq, Repr

/-- The write loop over `length` bytes: how many went out, and the results of the
system calls that are still to come.  A socket without further results is full. -/
def writeSome (length : Nat) : Nat → List SendResult → Except IoError (Nat × List SendResult)
  | written, [] => .ok (written, [])
  | written, result :: results =>
      if written < length then
        match result with
        | .sent count => writeSome length (written + min count (length - written)) results
        | .interrupted => writeSome length written results
        | .wouldBlock => .ok (written, results)
        | .failed errno => .error (.errno errno)
      else .ok (written, result :: results)

/-- The single gather write: retried when interrupted, 0 when the socket is full. -/
def sendmsg (total : Nat) : List SendResult → Except IoError (Nat × List SendResult)
  | [] => .ok (0, [])
  | .sent count :: results => .ok (min count total, results)
  | .interrupted :: results => sendmsg total results
  | .wouldBlock :: results => .ok (0, results)
  | .failed errno :: _ => .error (.errno errno)

/-- The bytes of the parts after the first `skip`. -/
def unsentTail : Nat → List Bytes → Bytes
  | _, [] => []
  | skip, part :: parts =>
      if part.length ≤ skip then unsentTail (skip - part.length) parts
      else part.drop skip ++ unsentTail 0 parts

/-- A DATA frame that nghttp2 has promised but not sent.  The promised bytes are
those at the head of the queue when the promise was made. -/
structure NoCopyFrame where
  id : StreamId
  length : Nat
  promised : Bytes
  deriving DecidableEq

inductive Writer where
  | tail
  | chunk
  | frame
  deriving DecidableEq, Repr

/-- A connection and its socket.  `active` is nghttp2's current outbound item;
the last four fields record what happened. -/
structure Wire where
  conn : Conn
  active : Option NoCopyFrame
  /-- What the socket has accepted. -/
  sent : Bytes
  /-- What nghttp2 has emitted. -/
  emitted : Bytes
  /-- Each write, with the pending tail at that time. -/
  writes : List (Writer × Bytes)
  /-- The pending tails that the send callback has replaced. -/
  replaced : List Bytes

namespace Wire

def new (conn : Conn) : Wire where
  conn := conn
  active := none
  sent := []
  emitted := []
  writes := []
  replaced := []

/-- The socket accepts the first `count` bytes of `data`. -/
def put (wire : Wire) (writer : Writer) (data : Bytes) (count : Nat) : Wire :=
  { wire with
    sent := wire.sent ++ data.take count
    writes := wire.writes ++ [(writer, wire.conn.outPending)] }

def setPending (wire : Wire) (pending : Bytes) : Wire :=
  { wire with conn := { wire.conn with outPending := pending } }

def consumePending (wire : Wire) (count : Nat) : Wire :=
  if wire.conn.outPending.length ≤ count then wire.setPending []
  else wire.setPending (wire.conn.outPending.drop count)

def stashPending (wire : Wire) (bytes : Bytes) : Wire :=
  wire.setPending (wire.conn.outPending ++ bytes)

/-- The loop over the pending tail.  The flag says that the socket is full.  Every
turn but the last one shortens the tail, so its length bounds the turns. -/
def flushPending : Nat → Wire → List SendResult → Except IoError (Bool × Wire × List SendResult)
  | 0, wire, results => .ok (false, wire, results)
  | fuel + 1, wire, results =>
      if wire.conn.outPending = [] then .ok (false, wire, results)
      else do
        let (written, results) ← writeSome wire.conn.outPending.length 0 results
        let wire := wire.put .tail wire.conn.outPending written
        if written = 0 then return (true, wire, results)
        flushPending fuel (wire.consumePending written) results

inductive SendDataResult where
  | ok
  | pause
  | wouldBlock
  | temporalFailure
  | callbackFailure
  deriving DecidableEq, Repr

/-- The nine bytes nghttp2 puts before the payload of a frame. -/
abbrev FrameHeader := { bytes : Bytes // bytes.length = 9 }

def sendData (wire : Wire) (id : StreamId) (length : Nat) (hd : FrameHeader) (padlen : Nat)
    (results : List SendResult) : SendDataResult × Wire × List SendResult :=
  if wire.conn.fd < 0 ∨ wire.conn.outPending ≠ [] then (.wouldBlock, wire, results)
  else if padlen ≠ 0 then (.callbackFailure, wire, results)
  else
    match wire.conn.findStream id with
    | none => (.temporalFailure, wire, results)
    | some stream =>
        let (a, b) := stream.out.frontRegions length
        if a.length + b.length ≠ length then (.temporalFailure, wire, results)
        else
          let total := hd.val.length + length
          match sendmsg total results with
          | .error _ => (.callbackFailure, wire, results)
          | .ok (written, results) =>
              let wire := wire.put .frame (hd.val ++ a ++ b) written
              if written = 0 then (.wouldBlock, wire, results)
              else
                let consumed := { wire with conn := wire.conn.consumePromise id length }
                if written < total then
                  (.pause,
                    { consumed.setPending (unsentTail written [hd.val, a, b]) with
                      replaced := wire.replaced ++ [wire.conn.outPending] },
                    results)
                else (.ok, consumed, results)

/-- `NGHTTP2_ERR_CALLBACK_FAILURE`. -/
def nghttp2ErrCallbackFailure : Int := -902

/-- What nghttp2 does inside one `nghttp2_session_mem_send`. -/
inductive SendAction where
  | read (id : StreamId) (length : Nat) (trailerRc : Int)
  | offer (hd : FrameHeader) (padlen : Nat)
  | close (id : StreamId) (errorCode : Nat)

/-- A call of `nghttp2_session_mem_send`: its callbacks, and what it returns if
none of them stops it. -/
structure Pull where
  actions : List SendAction
  result : Except Int Bytes

/-- The bytes that a promise of `length` bytes covers. -/
def promisedBytes (conn : Conn) (id : StreamId) (length : Nat) : Bytes :=
  match conn.findStream id with
  | none => []
  | some stream => (stream.out.frontRegions length).1 ++ (stream.out.frontRegions length).2

/-- `nghttp2_session_mem_send`.  It works on one item at a time: it reads only
when no promised frame is left, and it keeps the frame it offers until the
callback takes it.  An action that is not possible does not happen. -/
def memSend (result : Except Int Bytes) :
    List SendAction → Wire → List SendResult → Except IoError (Bytes × Wire × List SendResult)
  | [], wire, results =>
      match result with
      | .error code => .error (.conn (.nghttp2 code))
      | .ok chunk => .ok (chunk, { wire with emitted := wire.emitted ++ chunk }, results)
  | .close id errorCode :: actions, wire, results =>
      memSend result actions { wire with conn := wire.conn.onStreamClose id errorCode } results
  | .read id length trailerRc :: actions, wire, results =>
      if wire.active = none ∧ wire.conn.Legal (.read id length trailerRc) then
        let (outcome, conn) := wire.conn.dataProviderRead id length trailerRc
        match outcome with
        | .callbackFailure => .error (.conn (.nghttp2 nghttp2ErrCallbackFailure))
        | .noCopy count =>
            memSend result actions
              { wire with
                conn := conn
                active := some ⟨id, count, promisedBytes conn id count⟩ } results
        | _ => memSend result actions { wire with conn := conn } results
      else memSend result actions wire results
  | .offer hd padlen :: actions, wire, results =>
      match wire.active with
      | none => memSend result actions wire results
      | some frame =>
          let (answer, wire, results) := wire.sendData frame.id frame.length hd padlen results
          let processed :=
            { wire with
              active := none
              emitted := wire.emitted ++ (hd.val ++ frame.promised) }
          match answer with
          | .ok => memSend result actions processed results
          | .pause => .ok ([], processed, results)
          | .wouldBlock => .ok ([], wire, results)
          | .temporalFailure => memSend result actions { wire with active := none } results
          | .callbackFailure => .error (.conn (.nghttp2 nghttp2ErrCallbackFailure))

/-- The status after a flush.  `wants` says whether nghttp2 wants to read or write. -/
def status (wire : Wire) (wants : Bool) : TickStatus :=
  if wants ∨ wire.conn.outPending ≠ [] then .live else .closed

/-- Flush the pending tail, then pull from nghttp2 until the socket would block or
nghttp2 has nothing more.  A missing pull is one that returns nothing. -/
def flushWrites (wants : Bool) :
    List Pull → Wire → List SendResult → Except IoError (TickStatus × Wire)
  | pulls, wire, results => do
      let (full, wire, results) ← wire.flushPending wire.conn.outPending.length results
      if full then return (.live, wire)
      match pulls with
      | [] => return (wire.status wants, wire)
      | pull :: pulls =>
          let (chunk, wire, results) ← memSend pull.result pull.actions wire results
          if chunk = [] then return (wire.status wants, wire)
          let (written, results) ← writeSome chunk.length 0 results
          let wire := wire.put .chunk chunk written
          if written < chunk.length then
            return (.live, wire.stashPending (chunk.drop written))
          flushWrites wants pulls wire results

end Wire

/-- The callbacks of `nghttp2_session_mem_recv`. -/
def ConnEvent.isReceive : ConnEvent → Bool
  | beginHeaders _ _ => true
  | header _ _ _ _ _ => true
  | frameRecv _ => true
  | dataChunkRecv _ _ _ => true
  | streamClose _ _ => true
  | _ => false

/-- What the application may do between ticks. -/
def ConnEvent.isApplication : ConnEvent → Bool
  | registerMethod _ _ _ => true
  | api _ => true
  | _ => false

/-- Perform an event of a kind, if it is one and nghttp2 allows it. -/
def Conn.offer (conn : Conn) (kind : ConnEvent → Bool) (event : ConnEvent) : Conn :=
  if kind event then (conn.step event).getD conn else conn

/-- What one `read` returns, and what nghttp2 makes of the bytes. -/
inductive ReadResult where
  | received (events : List ConnEvent)
  | refused (code : Int)
  | endOfFile
  | interrupted
  | failed (errno : Int)

/-- The environment of one tick. -/
structure TickEnv where
  now : Nat
  reads : List ReadResult
  dispatch : DispatchEnv
  pulls : List Wire.Pull
  sends : List SendResult
  wants : Bool

inductive WireEvent where
  | tickRead (env : TickEnv)
  | tickWrite (env : TickEnv)
  | application (event : ConnEvent)

namespace Wire

def receive (wire : Wire) (events : List ConnEvent) : Wire :=
  { wire with
    conn := events.foldl (fun conn event => conn.offer ConnEvent.isReceive event) wire.conn }

/-- Read until the socket has nothing more; a status ends the tick. -/
def drainReads : List ReadResult → Wire → Except IoError (Option TickStatus × Wire)
  | [], wire => .ok (none, wire)
  | .received events :: reads, wire => drainReads reads (wire.receive events)
  | .refused code :: _, _ => .error (.conn (.nghttp2 code))
  | .endOfFile :: _, wire => .ok (some .closed, wire)
  | .interrupted :: reads, wire => drainReads reads wire
  | .failed errno :: _, _ => .error (.errno errno)

def expireDeadlines (wire : Wire) (now : Nat) : Wire :=
  { wire with conn := wire.conn.expireDeadlines now }

def dispatch (wire : Wire) (env : DispatchEnv) : Wire :=
  { wire with conn := (wire.conn.dispatch env).2 }

def tickRead (wire : Wire) (env : TickEnv) : Except IoError (TickStatus × Wire) := do
  let (ended, wire) ← drainReads env.reads (wire.expireDeadlines env.now)
  match ended with
  | some status => return (status, wire)
  | none => flushWrites env.wants env.pulls (wire.dispatch env.dispatch) env.sends

def tickWrite (wire : Wire) (env : TickEnv) : Except IoError (TickStatus × Wire) :=
  flushWrites env.wants env.pulls (wire.expireDeadlines env.now) env.sends

/-- A run ends at the first fatal error. -/
def step (wire : Wire) : WireEvent → Option Wire
  | .tickRead env => (wire.tickRead env).toOption.map Prod.snd
  | .tickWrite env => (wire.tickWrite env).toOption.map Prod.snd
  | .application event => some { wire with conn := wire.conn.offer ConnEvent.isApplication event }

end Wire

end GrpcUds.Server
