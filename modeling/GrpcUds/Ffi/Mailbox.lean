import GrpcUds.Server.Machine

/-!
# The outbound mailbox of the C ABI

Producer threads queue copies of their calls, and the I/O thread replays them into
the connections.  A call names its connection by address.  Freeing a connection
nulls what is queued for it and leaves a tombstone at its address; accepting a
connection at the address clears the tombstone.
-/

namespace GrpcUds.Ffi

open Framing Server

abbrev Address := Nat

/-- A call handle: the address of a connection.  The serial number tells which of the
connections accepted so far it was made for; the program does not have it. -/
@[ext]
structure Handle where
  address : Address
  serial : Nat
  deriving DecidableEq

/-- A queued call.  A missing `call` is the null pointer; `owner` is the serial number
of the handle the producer used. -/
structure Item where
  call : Option Address
  callId : StreamId
  payload : Bytes
  finish : Bool
  status : GrpcStatus
  owner : Nat
  deriving DecidableEq

structure Mailbox where
  queue : List Item
  /-- The tombstones. -/
  dead : List Address
  deriving DecidableEq

namespace Mailbox

def new : Mailbox := ⟨[], []⟩

def push (mailbox : Mailbox) (item : Item) (reserve : Bool) : Except Unit Unit × Mailbox :=
  if reserve then (.ok (), { mailbox with queue := mailbox.queue ++ [item] })
  else (.error (), mailbox)

def enqueueWrite (mailbox : Mailbox) (call : Handle) (callId : StreamId) (data : Bytes)
    (copy reserve : Bool) : Except Unit Unit × Mailbox :=
  if copy then mailbox.push ⟨some call.address, callId, data, false, .ok, call.serial⟩ reserve
  else (.error (), mailbox)

def enqueueFinish (mailbox : Mailbox) (call : Handle) (callId : StreamId) (status : GrpcStatus)
    (msg : Bytes) (copy reserve : Bool) : Except Unit Unit × Mailbox :=
  if copy then mailbox.push ⟨some call.address, callId, msg, true, status, call.serial⟩ reserve
  else (.error (), mailbox)

/-- Clear the tombstone at an address, on accept. -/
def registerCall (mailbox : Mailbox) (call : Address) : Mailbox :=
  { mailbox with dead := Table.remove id call mailbox.dead }

/-- Null what is queued for an address and leave a tombstone there if one can be
allocated, on free. -/
def unregisterCall (mailbox : Mailbox) (call : Address) (reserve : Bool) : Mailbox where
  queue := mailbox.queue.map fun item =>
    if item.call = some call then { item with call := none } else item
  dead := if call ∉ mailbox.dead ∧ reserve = true then mailbox.dead ++ [call] else mailbox.dead

end Mailbox

def errNomem : Int := -12

def errInval : Int := -22

/-- The code of a queued call. -/
def callResult : Except Unit Unit × Mailbox → Int × Mailbox
  | (.ok (), mailbox) => (0, mailbox)
  | (.error (), mailbox) => (errNomem, mailbox)

/-- `grpcuds_call_write` off the I/O thread. -/
def grpcudsCallWrite (mailbox : Mailbox) (call : Option Handle) (callId : StreamId)
    (data : Bytes) (copy reserve : Bool) : Int × Mailbox :=
  match call with
  | none => (errInval, mailbox)
  | some call => callResult (mailbox.enqueueWrite call callId data copy reserve)

/-- `grpcuds_call_finish_msg` off the I/O thread. -/
def grpcudsCallFinishMsg (mailbox : Mailbox) (call : Option Handle) (callId : StreamId)
    (status : Int) (msg : Bytes) (copy reserve : Bool) : Int × Mailbox :=
  match call with
  | none => (errInval, mailbox)
  | some call =>
      callResult (mailbox.enqueueFinish call callId (grpcStatusFromI32 status) msg copy reserve)

/-- `grpcuds_call_finish` off the I/O thread; it copies no message. -/
def grpcudsCallFinish (mailbox : Mailbox) (call : Option Handle) (callId : StreamId)
    (status : Int) (reserve : Bool) : Int × Mailbox :=
  grpcudsCallFinishMsg mailbox call callId status [] true reserve

/-- A connection that has been accepted and not freed. -/
structure Connection where
  address : Address
  serial : Nat
  conn : Conn

/-- A queued call that a drain replayed, with the serial number of the connection it
reached; there is none in freed memory. -/
structure Replay where
  item : Item
  target : Option Nat
  deriving DecidableEq

/-- The process: the mailbox, the connections, and what a running drain has taken and
not yet looked at.  `accepted` are all handles that were ever made, and `replayed` is
what the drains did. -/
structure Host where
  mailbox : Mailbox
  conns : List Connection
  batch : List Item
  accepted : List Handle
  replayed : List Replay

/-- Producers make the first three calls on any thread, and the I/O thread does the
rest.  A drain takes the queue in one event and looks at one item in each later one, so
producers come in between. -/
inductive HostEvent where
  | callWrite (call : Option Handle) (callId : StreamId) (data : Bytes) (copy reserve : Bool)
  | callFinish (call : Option Handle) (callId : StreamId) (status : Int) (reserve : Bool)
  | callFinishMsg (call : Option Handle) (callId : StreamId) (status : Int) (msg : Bytes)
      (copy reserve : Bool)
  | accept (address : Address) (conn : Conn)
  | free (address : Address) (reserve : Bool)
  | tick (address : Address) (event : ConnEvent)
  | drain
  | replay (copy reserve : Bool)

/-- The handle a producer uses. -/
def HostEvent.handle? : HostEvent → Option Handle
  | callWrite call _ _ _ _ => call
  | callFinish call _ _ _ => call
  | callFinishMsg call _ _ _ _ _ => call
  | _ => none

/-- The core call that a queued call stands for. -/
def Item.apiCall (item : Item) (copy reserve : Bool) : ApiCall :=
  if item.finish then .finishCallMsg item.callId item.status item.payload
  else .writeCall item.callId item.payload copy reserve

namespace Host

def new : Host := ⟨.new, [], [], [], []⟩

def lookup (host : Host) (address : Address) : Option Connection :=
  Table.lookup Connection.address address host.conns

/-- Change the connection at an address. -/
def modify (host : Host) (address : Address) (change : Conn → Conn) : Host :=
  { host with
    conns := Table.update Connection.address address
      (fun connection => { connection with conn := change connection.conn }) host.conns }

/-- A producer uses a handle that was made at some time.  The I/O thread does one thing
at a time, and the allocator returns no address that is in use. -/
def Legal (host : Host) : HostEvent → Prop
  | .accept address _ => host.batch = [] ∧ host.lookup address = none
  | .free address _ => host.batch = [] ∧ host.lookup address ≠ none
  | .tick address event =>
      host.batch = [] ∧ ∃ connection ∈ host.lookup address, connection.conn.Legal event
  | .drain => host.batch = []
  | .replay _ _ => host.batch ≠ []
  | event => ∀ handle ∈ event.handle?, handle ∈ host.accepted

instance (host : Host) : (event : HostEvent) → Decidable (host.Legal event)
  | .callWrite .. => inferInstanceAs (Decidable (∀ handle ∈ _, handle ∈ host.accepted))
  | .callFinish .. => inferInstanceAs (Decidable (∀ handle ∈ _, handle ∈ host.accepted))
  | .callFinishMsg .. => inferInstanceAs (Decidable (∀ handle ∈ _, handle ∈ host.accepted))
  | .accept .. => inferInstanceAs (Decidable (_ ∧ _))
  | .free .. => inferInstanceAs (Decidable (_ ∧ _))
  | .tick .. => inferInstanceAs (Decidable (_ ∧ ∃ connection ∈ host.lookup _, _))
  | .drain => inferInstanceAs (Decidable (_ = _))
  | .replay .. => inferInstanceAs (Decidable (_ ≠ _))

/-- The part of `grpcuds_server_accept` after the connection is set up. -/
def accept (host : Host) (address : Address) (conn : Conn) : Host :=
  { host with
    mailbox := host.mailbox.registerCall address
    conns := host.conns ++ [⟨address, host.accepted.length, conn⟩]
    accepted := host.accepted ++ [⟨address, host.accepted.length⟩] }

/-- `grpcuds_conn_free`. -/
def free (host : Host) (address : Address) (reserve : Bool) : Host :=
  { host with
    mailbox := host.mailbox.unregisterCall address reserve
    conns := host.conns.filter fun connection => connection.address ≠ address }

/-- The drain takes the queue. -/
def drain (host : Host) : Host :=
  { host with
    mailbox := { host.mailbox with queue := [] }
    batch := host.mailbox.queue }

/-- The drain looks at its next item, and skips it if it is nulled or at a tombstone.
The look at the tombstones is under the lock and the call is not; producers in between
change neither. -/
def replay (host : Host) (copy reserve : Bool) : Host :=
  match host.batch with
  | [] => host
  | item :: rest =>
      let next := { host with batch := rest }
      match item.call with
      | none => next
      | some address =>
          if address ∈ host.mailbox.dead then next
          else
            { next.modify address fun conn => (conn.api (item.apiCall copy reserve)).2 with
              replayed := host.replayed ++
                [⟨item, (host.lookup address).map Connection.serial⟩] }

def perform (host : Host) : HostEvent → Host
  | .callWrite call callId data copy reserve =>
      { host with mailbox := (grpcudsCallWrite host.mailbox call callId data copy reserve).2 }
  | .callFinish call callId status reserve =>
      { host with mailbox := (grpcudsCallFinish host.mailbox call callId status reserve).2 }
  | .callFinishMsg call callId status msg copy reserve =>
      { host with
        mailbox := (grpcudsCallFinishMsg host.mailbox call callId status msg copy reserve).2 }
  | .accept address conn => host.accept address conn
  | .free address reserve => host.free address reserve
  | .tick address event => host.modify address fun conn => conn.perform event
  | .drain => host.drain
  | .replay copy reserve => host.replay copy reserve

def step (host : Host) (event : HostEvent) : Option Host :=
  if host.Legal event then some (host.perform event) else none

theorem step_eq_some_iff {host next : Host} {event : HostEvent} :
    host.step event = some next ↔ host.Legal event ∧ host.perform event = next := by
  simp [step]

end Host

end GrpcUds.Ffi
