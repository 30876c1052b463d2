import GrpcUds.Ffi.Direct
import GrpcUds.Ffi.Fifo
import GrpcUds.Server.Served

/-!
# Completing a unary call

A generated `UnaryResponder` completes its call with `Respond` or `Fail`, and the C
mode with the generated `_respond` helper or with `grpcuds_call_finish`.  Each is a
short sequence of calls of the C ABI that stops at the first error.  On the I/O
thread these calls go to the core; on any other thread each of them is queued on its
own, and the drain and other threads come in between.
-/

namespace GrpcUds.Ffi

open Framing Server

/-- `grpcuds_call_ref`. -/
structure CallRef where
  call : Handle
  callId : StreamId
  deriving DecidableEq

/-- The calls of the C ABI that answer a call. -/
inductive AbiCall where
  | write (data : Bytes)
  | finish (status : Int)
  | finishMsg (status : Int) (msg : Bytes)
  deriving DecidableEq

namespace AbiCall

/-- On the I/O thread. -/
def apiCall (callId : StreamId) (copy reserve : Bool) : AbiCall → ApiCall
  | write data => .writeCall callId data copy reserve
  | finish status => .finishCall callId (grpcStatusFromI32 status)
  | finishMsg status msg => .finishCallMsg callId (grpcStatusFromI32 status) msg

/-- On any other thread. -/
def event (ref : CallRef) (copy reserve : Bool) : AbiCall → HostEvent
  | write data => .callWrite (some ref.call) ref.callId data copy reserve
  | finish status => .callFinish (some ref.call) ref.callId status reserve
  | finishMsg status msg => .callFinishMsg (some ref.call) ref.callId status msg copy reserve

end AbiCall

/-- One completion of a call.  `encoded` is what `pb_encode` made of the response, if it
succeeded. -/
inductive Completion where
  /-- `UnaryResponder::Respond`. -/
  | respond (encoded : Option Bytes)
  /-- `UnaryResponder::Fail`. -/
  | fail (status : Int) (message : Bytes)
  /-- The generated `_respond` of the C mode. -/
  | cRespond (encoded : Option Bytes)
  /-- `grpcuds_call_finish` of the C mode. -/
  | cFinish (status : Int)
  deriving DecidableEq

namespace Completion

def okCode : Int := 0

def internalCode : Int := 13

/-- The calls of a completion, each made if the one before returned 0. -/
def script : Completion → List AbiCall
  | respond none => [.finishMsg internalCode (Headers.ascii "response encode failed")]
  | respond (some message) => [.write message, .finishMsg okCode []]
  | fail status message => [.finishMsg status message]
  | cRespond none => []
  | cRespond (some message) => [.write message, .finish okCode]
  | cFinish status => [.finish status]

/-- A completion whose response does not encode returns an error, whatever its calls
return. -/
def encodes : Completion → Bool
  | respond encoded | cRespond encoded => encoded.isSome
  | fail _ _ | cFinish _ => true

end Completion

/-- A sequence of calls on the I/O thread: whether all of them returned 0. -/
def runScript (callId : StreamId) (copy reserve : Bool) : List AbiCall → Conn → Bool × Conn
  | [], conn => (true, conn)
  | call :: rest, conn =>
      let result := conn.api (call.apiCall callId copy reserve)
      if resultToC result.1 = 0 then runScript callId copy reserve rest result.2
      else (false, result.2)

/-- A completion on the I/O thread: whether it returned success. -/
def Completion.onIoThread (completion : Completion) (callId : StreamId) (copy reserve : Bool)
    (conn : Conn) : Bool × Conn :=
  let result := runScript callId copy reserve completion.script conn
  (result.1 && completion.encodes, result.2)

def Connection.handle (connection : Connection) : Handle := ⟨connection.address, connection.serial⟩

/-- The process, and the completions of one call.  `frame` is the connection and table
position of the handler that is on the stack of the I/O thread; `issued` says that the
handler of the call has been entered, so that there is a responder to copy.  `pending`
are the completions in progress on other threads with the calls they have yet to make,
and `returned` are those that came back, with whether they returned success. -/
structure Desk where
  host : Host
  frame : Option (Address × Nat)
  issued : Bool
  pending : List (Completion × List AbiCall)
  returned : List (Completion × Bool)

/-- `complete` is made on the I/O thread; in between its calls other threads only touch the
mailbox, so it is one event.  `begin` and `proceed` are a completion on another thread.
`turn` and `produce` are what the application and nghttp2 do otherwise. -/
inductive DeskEvent where
  | accept (address : Address) (methods : List MethodEntry) (maxMessageLen : UInt32) (fd : Int)
  | free (address : Address) (reserve : Bool)
  | turn (address : Address) (event : TurnEvent)
  | produce (event : HostEvent)
  | drain
  | replay (copy reserve : Bool)
  | complete (completion : Completion) (copy reserve : Bool)
  | begin (completion : Completion)
  | proceed (index : Nat) (copy reserve : Bool)

/-- A queued call is for the call. -/
def CallRef.owns (ref : CallRef) (item : Item) : Bool :=
  decide (item.owner = ref.call.serial) && decide (item.callId = ref.callId)

namespace Desk

def new : Desk := ⟨.new, none, false, [], []⟩

/-- The table position on the stack, if the handler belongs to the connection at an
address. -/
def frameAt (desk : Desk) (address : Address) : Option Nat :=
  (desk.frame.filter fun frame => frame.1 = address).map Prod.snd

/-- The I/O thread works on one connection at a time. -/
def turningAt (desk : Desk) (address : Address) : Option (Connection × Turning) :=
  if desk.host.batch = [] ∧ desk.frame.all (fun frame => frame.1 = address) then
    (desk.host.lookup address).map fun connection =>
      (connection, ⟨connection.conn, desk.frameAt address⟩)
  else none

/-- The application answers the call through its completions only. -/
def elsewhere (ref : CallRef) (connection : Connection) : TurnEvent → Bool
  | .call call => decide (connection.handle ≠ ref.call) || decide (call.answers? ≠ some ref.callId)
  | _ => true

def turn (ref : CallRef) (desk : Desk) (address : Address) (event : TurnEvent) : Option Desk := do
  let (connection, turning) ← desk.turningAt address
  if elsewhere ref connection event then
    let next ← turning.step event
    return { desk with
      host := desk.host.modify address fun _ => next.conn
      frame := next.frame.map fun position => (address, position)
      issued := desk.issued ||
        (decide (connection.handle = ref.call) && turning.enters ref.callId event) }
  else none

/-- The connection of the call, if it has not been freed. -/
def connection? (ref : CallRef) (desk : Desk) : Option Connection :=
  (desk.host.lookup ref.call.address).filter fun connection => connection.handle = ref.call

def complete (ref : CallRef) (desk : Desk) (completion : Completion) (copy reserve : Bool) :
    Option Desk := do
  let connection ← desk.connection? ref
  if desk.host.batch = [] ∧ desk.issued = true then
    let result := completion.onIoThread ref.callId copy reserve connection.conn
    return { desk with
      host := desk.host.modify ref.call.address fun _ => result.2
      returned := desk.returned ++ [(completion, result.1)] }
  else none

/-- The next call of a completion on another thread. -/
def proceed (ref : CallRef) (desk : Desk) (index : Nat) (copy reserve : Bool) : Option Desk := do
  let (completion, calls) ← desk.pending[index]?
  match calls with
  | [] =>
      return { desk with
        pending := desk.pending.eraseIdx index
        returned := desk.returned ++ [(completion, completion.encodes)] }
  | call :: rest =>
      let event := call.event ref copy reserve
      let host ← desk.host.step event
      if desk.host.code event ≠ some 0 then
        return { desk with
          host := host
          pending := desk.pending.eraseIdx index
          returned := desk.returned ++ [(completion, false)] }
      else if rest = [] then
        return { desk with
          host := host
          pending := desk.pending.eraseIdx index
          returned := desk.returned ++ [(completion, completion.encodes)] }
      else
        return { desk with host := host, pending := desk.pending.set index (completion, rest) }

def step (ref : CallRef) (desk : Desk) : DeskEvent → Option Desk
  | .accept address methods maxMessageLen fd =>
      if desk.frame = none then
        (desk.host.step (.accept address (.newServer methods maxMessageLen fd))).map fun host =>
          { desk with host := host }
      else none
  | .free address reserve =>
      if desk.frame = none then
        (desk.host.step (.free address reserve)).map fun host => { desk with host := host }
      else none
  | .turn address event => desk.turn ref address event
  | .produce event =>
      if event.item?.any fun item => !ref.owns item then
        (desk.host.step event).map fun host => { desk with host := host }
      else none
  | .drain =>
      if desk.frame = none then
        (desk.host.step .drain).map fun host => { desk with host := host }
      else none
  | .replay copy reserve =>
      if desk.frame = none then
        (desk.host.step (.replay copy reserve)).map fun host => { desk with host := host }
      else none
  | .complete completion copy reserve => desk.complete ref completion copy reserve
  | .begin completion =>
      if desk.issued then
        some { desk with pending := desk.pending ++ [(completion, completion.script)] }
      else none
  | .proceed index copy reserve => desk.proceed ref index copy reserve

/-- The bytes that an event hands out of the call's queue. -/
def ships (ref : CallRef) (desk : Desk) : DeskEvent → Bytes
  | .turn address event =>
      match desk.turningAt address with
      | some (connection, turning) =>
          if connection.handle = ref.call then turning.ships ref.callId event else []
      | none => []
  | _ => []

/-- The completions that returned success. -/
def successes (desk : Desk) : List Completion :=
  (desk.returned.filter Prod.snd).map Prod.fst

end Desk

end GrpcUds.Ffi
