import GrpcUds.Ffi.Mailbox
import GrpcUds.Serve.Loop
import GrpcUds.Server.Hooks

/-!
# The health service of the C ABI

The registry is global to the process: a table of statuses and the `Watch`
subscriptions, under one lock.  A subscription names its call by the address of
the connection, and only its cancel hook marks it dead.  `set_status` stores and
takes a snapshot of the live watchers under the lock and hands them to
`grpcuds_call_write` after it has released the lock.

The I/O thread accepts, ticks, drains and frees, and runs the `Watch` handler; a
dispatch pass enters the handler, whose own steps then follow as events.  Calls of
other services are left out: they have streams of their own.
-/

namespace GrpcUds.Ffi

open Framing Server

/-! ### Wire helpers -/

def unknown : Int := 0

def serving : Int := 1

def serviceUnknown : Int := 3

/-- A `HealthCheckResponse`.  It is empty if it cannot be allocated. -/
def encodeResponse (status : Int) (reserve : Bool) : Bytes :=
  if status = unknown then []
  else if reserve then [0x08, UInt8.ofNat (status % 256).toNat]
  else []

/-- The varint at the front, and what follows it. -/
def decodeVarint : Bytes → Nat → Nat → Option (Nat × Bytes)
  | [], _, _ => none
  | byte :: rest, shift, len =>
      if 64 ≤ shift then none
      else
        let len := len ||| ((byte &&& 0x7f).toNat <<< shift) % 2 ^ 64
        if byte &&& 0x80 = 0 then some (len, rest) else decodeVarint rest (shift + 7) len

/-- The fields of a request; every one takes at least a byte off the fuel. -/
def decodeFields : Nat → Bytes → Bytes → Option Bytes
  | _, [], service => some service
  | 0, _ :: _, _ => none
  | fuel + 1, tag :: rest, _ =>
      if tag ≠ 0x0a then none
      else
        match decodeVarint rest 0 0 with
        | none => none
        | some (len, rest) =>
            if rest.length < len then none
            else decodeFields fuel (rest.drop len) (rest.take len)

/-- The service that a `HealthCheckRequest` names. -/
def decodeCheckRequest (request : Bytes) : Option Bytes := decodeFields request.length request []

/-! ### The registry -/

/-- The code addresses of `on_cancel` and `watch_tr`. -/
def onCancelFn : Nat := 1

def watchTrFn : Nat := 2

/-- A `Watch` subscription.  `box` is its own address, the user data of its hook. -/
structure Watcher where
  box : Nat
  call : Handle
  callId : StreamId
  service : Bytes
  live : Bool
  deriving DecidableEq

def Watcher.hook (watcher : Watcher) : CancelHook := ⟨onCancelFn, watcher.box⟩

/-- What `set_status` hands to `grpcuds_call_write`. -/
structure Target where
  call : Handle
  callId : StreamId
  deriving DecidableEq

def Watcher.target (watcher : Watcher) : Target := ⟨watcher.call, watcher.callId⟩

structure HealthState where
  statuses : List (Bytes × Int)
  watchers : List Watcher
  deriving DecidableEq

namespace HealthState

/-- What `grpcuds_health_register` leaves: the server overall is `SERVING`. -/
def registered : HealthState := ⟨[([], serving)], []⟩

def find (state : HealthState) (service : Bytes) : Option Int :=
  (Table.lookup Prod.fst service state.statuses).map Prod.snd

/-- The status a `Watch` of the service is answered with. -/
def current (state : HealthState) (service : Bytes) : Int :=
  (state.find service).getD serviceUnknown

/-- A new name is not stored if it cannot be allocated. -/
def set (state : HealthState) (service : Bytes) (status : Int) (reserve : Bool) : HealthState :=
  match Table.lookup Prod.fst service state.statuses with
  | some _ =>
      { state with
        statuses := Table.update Prod.fst service (fun entry => (entry.1, status)) state.statuses }
  | none =>
      if reserve then { state with statuses := state.statuses ++ [(service, status)] } else state

/-- The live watchers of a service, as far as there is `room` for them. -/
def snapshot (state : HealthState) (service : Bytes) (room : Nat) : List Target :=
  ((state.watchers.filter fun watcher => watcher.live && watcher.service = service).map
    Watcher.target).take room

/-- `on_cancel`, for every hook that ran. -/
def onCancel (state : HealthState) (fired : List CancelHook) : HealthState :=
  { state with
    watchers := state.watchers.map fun watcher =>
      if watcher.hook ∈ fired then { watcher with live := false } else watcher }

/-- The handler up to its first core call, with the calls it goes on to make: decode
the request, reap the dead watchers and register a live one.  `copy` and `reserve` are
its own allocations, the rest those of the answer. -/
def watchTr (state : HealthState) (call : Handle) (callId : StreamId) (request : Bytes)
    (box : Nat) (copy reserve encoded writeCopy writeReserve : Bool) :
    HealthState × List ApiCall :=
  match decodeCheckRequest request with
  | none =>
      (state, [.finishCallMsg callId .invalidArgument
        (Headers.ascii "malformed HealthCheckRequest")])
  | some service =>
      if copy then
        let answer := ApiCall.writeCall callId (encodeResponse (state.current service) encoded)
          writeCopy writeReserve
        let kept := state.watchers.filter Watcher.live
        if reserve then
          ({ state with watchers := kept ++ [⟨box, call, callId, service, true⟩] },
            [.setCancelHook callId ⟨onCancelFn, box⟩, answer])
        else ({ state with watchers := kept }, [answer])
      else (state, [.finishCallMsg callId .internal []])

end HealthState

/-! ### The process -/

/-- A `set_status` call that has released the lock. -/
structure Notify where
  service : Bytes
  message : Bytes
  targets : List Target
  inline : Bool

/-- A `Watch` handler that a dispatch pass has entered. -/
structure Entered where
  call : Handle
  callId : StreamId
  request : Bytes

def Entered.target (entered : Entered) : Target := ⟨entered.call, entered.callId⟩

/-- A handler that has yet to make its core calls. -/
structure Greeting where
  call : Handle
  callId : StreamId
  calls : List ApiCall

def Greeting.target (greeting : Greeting) : Target := ⟨greeting.call, greeting.callId⟩

/-- A registration, by the serial number of its connection. -/
structure Watched where
  serial : Nat
  callId : StreamId
  service : Bytes
  deriving DecidableEq

/-- A message that the core accepted. -/
structure Written where
  serial : Nat
  callId : StreamId
  payload : Bytes
  deriving DecidableEq

/-- The process with its health registry.  `watched` and `written` record the
registrations and what was written to any call; no operation reads them. -/
structure Health where
  host : Host
  state : HealthState
  calls : List Notify
  entered : List Entered
  greeting : Option Greeting
  watched : List Watched
  written : List Written

inductive HealthEvent where
  | accept (address : Address) (methods : List MethodEntry) (maxMessageLen : UInt32) (fd : Int)
  | free (address : Address) (reserve : Bool)
  /-- A callback or a sweep of a tick. -/
  | tick (address : Address) (event : ConnEvent)
  | dispatch (address : Address) (submitRc : Nat → Int)
  /-- The first of the entered handlers runs `watch_tr` up to its core calls. -/
  | watch (box : Nat) (copy reserve encoded writeCopy writeReserve : Bool)
  | greet
  /-- `set_status` up to the release of the lock, on the I/O thread or on another. -/
  | setStatus (service : Bytes) (status : Int) (inline stored encoded : Bool) (room : Nat)
  /-- The `set_status` call at a position hands over its next target. -/
  | notify (position : Nat) (copy reserve : Bool)
  | returned (position : Nat)
  | drain
  | replay (copy reserve : Bool)

/-- The writes among the calls that the connection accepts. -/
def acceptedWrites : Conn → List ApiCall → List (StreamId × Bytes)
  | _, [] => []
  | conn, call :: rest =>
      (match call with
      | .writeCall callId payload _ _ => if (conn.api call).1.isOk then [(callId, payload)] else []
      | _ => []) ++ acceptedWrites (conn.api call).2 rest

/-- The hooks that ran between two states of a connection. -/
def firedHooks (conn next : Conn) : List CancelHook :=
  (conn.streams.map StreamCtx.id).flatMap fun id => conn.firedSince id next

/-- The `Watch` handlers that a pass has entered. -/
def enteredWatches (call : Handle) (effects : List Effect) : List Entered :=
  effects.filterMap fun effect =>
    match effect with
    | .invoked id handler _ payload =>
        if handler = watchTrFn then some ⟨call, id, payload⟩ else none
    | _ => none

namespace Health

def new : Health where
  host := .new
  state := .registered
  calls := []
  entered := []
  greeting := none
  watched := []
  written := []

/-- The I/O thread is in no `Watch` handler and in no `set_status` call. -/
def idle (health : Health) : Bool :=
  health.greeting.isNone && health.calls.all fun call => !call.inline

/-- No dispatch pass is under way either. -/
def atRest (health : Health) : Bool := health.entered.isEmpty && health.idle

/-- Core calls on the connection at an address; there is none in freed memory. -/
def callCore (health : Health) (address : Address) (calls : List ApiCall) : Health :=
  match health.host.lookup address with
  | none => health
  | some connection =>
      { health with
        host := health.host.modify address fun conn =>
          calls.foldl (fun conn call => (conn.api call).2) conn
        written := health.written ++ (acceptedWrites connection.conn calls).map fun write =>
          ⟨connection.serial, write.1, write.2⟩ }

def tick (health : Health) (address : Address) (event : ConnEvent) : Option Health := do
  let connection ← health.host.lookup address
  let host ← health.host.step (.tick address event)
  return { health with
    host := host
    state := health.state.onCancel (firedHooks connection.conn (connection.conn.perform event)) }

def dispatch (health : Health) (address : Address) (submitRc : Nat → Int) : Option Health := do
  let connection ← health.host.lookup address
  let host ← health.host.step (.tick address (.dispatch (Serve.trampolines submitRc)))
  let next := (connection.conn.dispatch (Serve.trampolines submitRc)).2
  return { health with
    host := host
    entered := enteredWatches ⟨address, connection.serial⟩
      (next.log.drop connection.conn.log.length) }

/-- The address of a new subscription is not that of one in use. -/
def watch (health : Health) (box : Nat) (copy reserve encoded writeCopy writeReserve : Bool) :
    Option Health :=
  match health.entered with
  | [] => none
  | entered :: rest =>
      if health.idle &&
          !health.state.watchers.any fun watcher => watcher.live && watcher.box = box then
        let (state, calls) := health.state.watchTr entered.call entered.callId entered.request
          box copy reserve encoded writeCopy writeReserve
        some { health with
          state := state
          entered := rest
          greeting := some ⟨entered.call, entered.callId, calls⟩
          watched := health.watched ++
            if copy && reserve then
              (decodeCheckRequest entered.request).toList.map fun service =>
                ⟨entered.call.serial, entered.callId, service⟩
            else [] }
      else none

def greet (health : Health) : Option Health := do
  let greeting ← health.greeting
  return { health.callCore greeting.call.address greeting.calls with greeting := none }

def setStatus (health : Health) (service : Bytes) (status : Int) (inline stored encoded : Bool)
    (room : Nat) : Health :=
  let state := health.state.set service status stored
  { health with
    state := state
    calls := health.calls ++
      [⟨service, encodeResponse status encoded, state.snapshot service room, inline⟩] }

/-- `grpcuds_call_write`: on the I/O thread directly, else through the mailbox. -/
def callWrite (health : Health) (inline : Bool) (target : Target) (message : Bytes)
    (copy reserve : Bool) : Option Health :=
  if inline then
    some (health.callCore target.call.address [.writeCall target.callId message copy reserve])
  else
    (health.host.step (.callWrite (some target.call) target.callId message copy reserve)).map
      fun host => { health with host := host }

def notify (health : Health) (position : Nat) (copy reserve : Bool) : Option Health := do
  let call ← health.calls[position]?
  match call.targets with
  | [] => none
  | target :: rest =>
      let next ← health.callWrite call.inline target call.message copy reserve
      return { next with calls := health.calls.set position { call with targets := rest } }

def returned (health : Health) (position : Nat) : Option Health := do
  let call ← health.calls[position]?
  if call.targets.isEmpty then return { health with calls := health.calls.eraseIdx position }
  else none

/-- What a replay writes to the call it is for. -/
def replayWrites (health : Health) (copy reserve : Bool) : List Written :=
  match health.host.batch with
  | [] => []
  | item :: _ =>
      match item.call with
      | none => []
      | some address =>
          if address ∈ health.host.mailbox.dead then []
          else
            match health.host.lookup address with
            | none => []
            | some connection =>
                (acceptedWrites connection.conn [item.apiCall copy reserve]).map fun write =>
                  ⟨connection.serial, write.1, write.2⟩

def step (health : Health) : HealthEvent → Option Health
  | .accept address methods maxMessageLen fd =>
      if health.atRest then
        (health.host.step (.accept address (.newServer methods maxMessageLen fd))).map
          fun host => { health with host := host }
      else none
  | .free address reserve =>
      if health.atRest then
        (health.host.step (.free address reserve)).map fun host => { health with host := host }
      else none
  | .tick address event =>
      if health.atRest && Serve.ticks event then health.tick address event else none
  | .dispatch address submitRc =>
      if health.atRest then health.dispatch address submitRc else none
  | .watch box copy reserve encoded writeCopy writeReserve =>
      health.watch box copy reserve encoded writeCopy writeReserve
  | .greet => health.greet
  | .setStatus service status inline stored encoded room =>
      if !inline || health.idle && health.host.batch.isEmpty then
        some (health.setStatus service status inline stored encoded room)
      else none
  | .notify position copy reserve => health.notify position copy reserve
  | .returned position => health.returned position
  | .drain =>
      if health.atRest then (health.host.step .drain).map fun host => { health with host := host }
      else none
  | .replay copy reserve =>
      (health.host.step (.replay copy reserve)).map fun host =>
        { health with
          host := host
          written := health.written ++ health.replayWrites copy reserve }

/-- What one step does. -/
inductive Steps (health : Health) : HealthEvent → Health → Prop where
  | accept {address : Address} {methods : List MethodEntry} {maxMessageLen : UInt32} {fd : Int}
      (rest : health.atRest = true) (vacant : health.host.lookup address = none) :
      Steps health (.accept address methods maxMessageLen fd)
        { health with host := health.host.accept address (.newServer methods maxMessageLen fd) }
  | free {address : Address} {reserve : Bool} (rest : health.atRest = true)
      (idle : health.host.batch = []) :
      Steps health (.free address reserve) { health with host := health.host.free address reserve }
  | tick {address : Address} {event : ConnEvent} {connection : Connection}
      (rest : health.atRest = true) (allowed : Serve.ticks event = true)
      (present : health.host.lookup address = some connection)
      (legal : connection.conn.Legal event) :
      Steps health (.tick address event)
        { health with
          host := health.host.modify address fun conn => conn.perform event
          state := health.state.onCancel
            (firedHooks connection.conn (connection.conn.perform event)) }
  | dispatch {address : Address} {submitRc : Nat → Int} {connection : Connection}
      (rest : health.atRest = true) (idle : health.host.batch = [])
      (present : health.host.lookup address = some connection) :
      Steps health (.dispatch address submitRc)
        { health with
          host := health.host.modify address fun conn =>
            (conn.dispatch (Serve.trampolines submitRc)).2
          entered := enteredWatches ⟨address, connection.serial⟩
            ((connection.conn.dispatch (Serve.trampolines submitRc)).2.log.drop
              connection.conn.log.length) }
  | watch {box : Nat} {copy reserve encoded writeCopy writeReserve : Bool} {entered : Entered}
      {rest : List Entered} (pending : health.entered = entered :: rest)
      (idle : health.idle = true)
      (fresh : ∀ watcher ∈ health.state.watchers, watcher.live = true → watcher.box ≠ box) :
      Steps health (.watch box copy reserve encoded writeCopy writeReserve)
        { health with
          state := (health.state.watchTr entered.call entered.callId entered.request box copy
            reserve encoded writeCopy writeReserve).1
          entered := rest
          greeting := some ⟨entered.call, entered.callId,
            (health.state.watchTr entered.call entered.callId entered.request box copy reserve
              encoded writeCopy writeReserve).2⟩
          watched := health.watched ++
            if copy && reserve then
              (decodeCheckRequest entered.request).toList.map fun service =>
                ⟨entered.call.serial, entered.callId, service⟩
            else [] }
  | greet {greeting : Greeting} (pending : health.greeting = some greeting) :
      Steps health .greet
        { health.callCore greeting.call.address greeting.calls with greeting := none }
  | setStatus {service : Bytes} {status : Int} {inline stored encoded : Bool} {room : Nat}
      (may : inline = true → health.idle = true ∧ health.host.batch = []) :
      Steps health (.setStatus service status inline stored encoded room)
        (health.setStatus service status inline stored encoded room)
  | notifyInline {position : Nat} {copy reserve : Bool} {call : Notify} {target : Target}
      {rest : List Target} (listed : health.calls[position]? = some call)
      (targets : call.targets = target :: rest) (direct : call.inline = true) :
      Steps health (.notify position copy reserve)
        { health.callCore target.call.address
            [.writeCall target.callId call.message copy reserve] with
          calls := health.calls.set position { call with targets := rest } }
  | notifyQueued {position : Nat} {copy reserve : Bool} {call : Notify} {target : Target}
      {rest : List Target} (listed : health.calls[position]? = some call)
      (targets : call.targets = target :: rest) (queued : call.inline = false) :
      Steps health (.notify position copy reserve)
        { health with
          host :=
            { health.host with
              mailbox := (grpcudsCallWrite health.host.mailbox (some target.call) target.callId
                call.message copy reserve).2 }
          calls := health.calls.set position { call with targets := rest } }
  | returned {position : Nat} {call : Notify} (listed : health.calls[position]? = some call)
      (done : call.targets = []) :
      Steps health (.returned position) { health with calls := health.calls.eraseIdx position }
  | drain (rest : health.atRest = true) (idle : health.host.batch = []) :
      Steps health .drain { health with host := health.host.drain }
  | replay {copy reserve : Bool} :
      Steps health (.replay copy reserve)
        { health with
          host := health.host.replay copy reserve
          written := health.written ++ health.replayWrites copy reserve }

section Inversion

variable {health next : Health}

theorem notify_inv {position : Nat} {copy reserve : Bool}
    (performed : health.notify position copy reserve = some next) :
    health.Steps (.notify position copy reserve) next := by
  unfold notify at performed
  obtain ⟨call, listed, performed⟩ := Option.bind_eq_some_iff.mp performed
  cases targets : call.targets with
  | nil => simp [targets] at performed
  | cons target rest =>
      rw [targets] at performed
      obtain ⟨written, wrote, returned⟩ := Option.bind_eq_some_iff.mp performed
      obtain rfl := Option.some.inj returned
      by_cases direct : call.inline = true
      · rw [callWrite, if_pos direct] at wrote
        obtain rfl := Option.some.inj wrote
        exact .notifyInline listed targets direct
      · rw [callWrite, if_neg direct] at wrote
        obtain ⟨host, queued, rfl⟩ := Option.map_eq_some_iff.mp wrote
        obtain ⟨_, rfl⟩ := Host.step_eq_some_iff.mp queued
        exact .notifyQueued listed targets (Bool.eq_false_iff.mpr direct)

theorem watch_inv {box : Nat} {copy reserve encoded writeCopy writeReserve : Bool}
    (performed : health.watch box copy reserve encoded writeCopy writeReserve = some next) :
    health.Steps (.watch box copy reserve encoded writeCopy writeReserve) next := by
  unfold watch at performed
  split at performed
  next => simp at performed
  next entered rest pending =>
    obtain ⟨guard, performed⟩ := Option.ite_none_right_eq_some.mp performed
    obtain ⟨idle, unused⟩ := Bool.and_eq_true_iff.mp guard
    obtain rfl := Option.some.inj performed
    refine .watch pending idle fun watcher member live same => ?_
    have used : (health.state.watchers.any fun watcher => watcher.live && watcher.box = box) =
      true := List.any_eq_true.mpr ⟨watcher, member, by simp [live, same]⟩
    simp [used] at unused

theorem step_inv {event : HealthEvent} (performed : health.step event = some next) :
    health.Steps event next := by
  cases event with
  | accept address methods maxMessageLen fd =>
      obtain ⟨rest, performed⟩ := Option.ite_none_right_eq_some.mp performed
      obtain ⟨host, moved, rfl⟩ := Option.map_eq_some_iff.mp performed
      obtain ⟨legal, rfl⟩ := Host.step_eq_some_iff.mp moved
      exact .accept rest legal.2
  | free address reserve =>
      obtain ⟨rest, performed⟩ := Option.ite_none_right_eq_some.mp performed
      obtain ⟨host, moved, rfl⟩ := Option.map_eq_some_iff.mp performed
      obtain ⟨legal, rfl⟩ := Host.step_eq_some_iff.mp moved
      exact .free rest legal.1
  | tick address event =>
      obtain ⟨allowed, performed⟩ := Option.ite_none_right_eq_some.mp performed
      obtain ⟨rest, allowed⟩ := Bool.and_eq_true_iff.mp allowed
      unfold tick at performed
      obtain ⟨connection, present, performed⟩ := Option.bind_eq_some_iff.mp performed
      obtain ⟨host, moved, returned⟩ := Option.bind_eq_some_iff.mp performed
      obtain rfl := Option.some.inj returned
      obtain ⟨⟨_, other, found, legal⟩, rfl⟩ := Host.step_eq_some_iff.mp moved
      obtain rfl := Option.some.inj (present.symm.trans found)
      exact .tick rest allowed present legal
  | dispatch address submitRc =>
      obtain ⟨rest, performed⟩ := Option.ite_none_right_eq_some.mp performed
      unfold dispatch at performed
      obtain ⟨connection, present, performed⟩ := Option.bind_eq_some_iff.mp performed
      obtain ⟨host, moved, returned⟩ := Option.bind_eq_some_iff.mp performed
      obtain rfl := Option.some.inj returned
      obtain ⟨legal, rfl⟩ := Host.step_eq_some_iff.mp moved
      exact .dispatch rest legal.1 present
  | watch box copy reserve encoded writeCopy writeReserve => exact watch_inv performed
  | greet =>
      simp only [step, greet] at performed
      obtain ⟨greeting, pending, returned⟩ := Option.bind_eq_some_iff.mp performed
      obtain rfl := Option.some.inj returned
      exact .greet pending
  | setStatus service status inline stored encoded room =>
      obtain ⟨may, performed⟩ := Option.ite_none_right_eq_some.mp performed
      obtain rfl := Option.some.inj performed
      refine .setStatus ?_
      rintro rfl
      simpa using may
  | notify position copy reserve => exact notify_inv performed
  | returned position =>
      simp only [step, returned] at performed
      obtain ⟨call, listed, performed⟩ := Option.bind_eq_some_iff.mp performed
      obtain ⟨done, performed⟩ := Option.ite_none_right_eq_some.mp performed
      obtain rfl := Option.some.inj performed
      exact .returned listed (List.isEmpty_iff.mp done)
  | drain =>
      obtain ⟨rest, performed⟩ := Option.ite_none_right_eq_some.mp performed
      obtain ⟨host, moved, rfl⟩ := Option.map_eq_some_iff.mp performed
      obtain ⟨legal, rfl⟩ := Host.step_eq_some_iff.mp moved
      exact .drain rest legal
  | replay copy reserve =>
      simp only [step] at performed
      obtain ⟨host, moved, rfl⟩ := Option.map_eq_some_iff.mp performed
      obtain ⟨_, rfl⟩ := Host.step_eq_some_iff.mp moved
      exact .replay

end Inversion

end Health

end GrpcUds.Ffi
