import GrpcUds.Serve.Shutdown

/-!
# The health reporter of the std server

`set_status` and the `Watch` handler each hold the lock of the registry from the
access to `statuses` to the last send.  The sends are ordinary calls on the
writers of the watchers, so between their steps the loop and any other producer
may run; what cannot run is a second holder of the lock.

A reporter is modelled with the one server that registers it.  Nothing panics
while it holds the lock, so the lock is never poisoned.  The encoder of a
`HealthCheckResponse` is derived by prost, and is a parameter here.
-/

namespace GrpcUds.Serve

inductive ServingStatus where
  | unknown
  | serving
  | notServing
  | serviceUnknown
  deriving DecidableEq, Repr

namespace ServingStatus

/-- `status as i32`. -/
def number : ServingStatus → Int
  | unknown => 0
  | serving => 1
  | notServing => 2
  | serviceUnknown => 3

/-- The op that a send of the status queues. -/
def op (encodeToVec : Int → Bytes) (status : ServingStatus) : OpKind :=
  (Request.writeOwned (encodeToVec status.number)).kind

end ServingStatus

namespace Mailbox

/-- The calls on a writer that returned, each with whether it was `Ok`. -/
def results (mailbox : Mailbox) (index : Nat) : List (OpKind × Bool) :=
  (mailbox.returned.filter fun entry => entry.1.writer = index).map fun entry =>
    (entry.1.request.kind, entry.2.isOk)

/-- The ops that calls on a writer pushed. -/
def pushedBy (mailbox : Mailbox) (index : Nat) : List OpKind :=
  (mailbox.pushed.filter fun op => op.writer = index).map OutOp.kind

/-- Nobody has called the writer. -/
def untouched (mailbox : Mailbox) (index : Nat) : Bool :=
  mailbox.calls.all (fun call => call.writer != index) &&
    mailbox.returned.all (fun entry => entry.1.writer != index) &&
      mailbox.pushed.all fun op => op.writer != index

end Mailbox

/-- What the holder of the lock still has to do: send `status` to the writers in
`pending`.  Those in `kept` stay watchers of the service.  `call` says that the send
to the first one is in progress and how many calls on it returned before. -/
structure Section where
  service : Bytes
  status : ServingStatus
  inline : Bool
  kept : List Nat
  pending : List Nat
  call : Option Nat

/-- A `Watch` call: the writer it was given, and what the registry held. -/
structure Watch where
  service : Bytes
  writer : Nat
  initial : ServingStatus
  /-- How many `set_status` calls had taken effect. -/
  since : Nat

/-- The reporter and its server.  `effects` records the `set_status` calls in the order
in which they took effect. -/
structure Reporter where
  loop : Loop
  statuses : Bytes → Option ServingStatus
  watchers : Bytes → List Nat
  lock : Option Section
  effects : List (Bytes × ServingStatus)
  watches : List Watch

inductive ReporterEvent where
  | loop (event : LoopEvent)
  /-- `set_status` gets the lock. -/
  | setStatus (service : Bytes) (status : ServingStatus) (inline : Bool)
  /-- The `Watch` handler gets the lock. -/
  | watch (service : Bytes) (writer : Nat)
  | send
  | sent
  | unlock

namespace Reporter

def new (loop : Loop) : Reporter where
  loop := loop
  statuses := fun service => if service = [] then some .serving else none
  watchers := fun _ => []
  lock := none
  effects := []
  watches := []

/-- What a `Watch` of the service is answered. -/
def current (reporter : Reporter) (service : Bytes) : ServingStatus :=
  (reporter.statuses service).getD .serviceUnknown

/-- The I/O thread holds the lock. -/
def busy (reporter : Reporter) : Bool :=
  match reporter.lock with
  | some held => held.inline
  | none => false

/-- The writer of a `Watch` call is known to the reporter only, and the I/O thread does
nothing else while it holds the lock. -/
def admits (reporter : Reporter) : LoopEvent → Bool
  | .begin writer _ inline =>
      reporter.watches.all (fun watch => watch.writer != writer) && !(inline && reporter.busy)
  | .advance _ => true
  | _ => !reporter.busy

/-- The writer that the trampoline hands to the `Watch` handler. -/
def fresh (reporter : Reporter) (writer : Nat) : Bool :=
  decide (writer < reporter.loop.mailbox.writers.length) &&
    reporter.loop.mailbox.untouched writer &&
      reporter.watches.all fun watch => watch.writer != writer

def setStatus (reporter : Reporter) (service : Bytes) (status : ServingStatus) (inline : Bool) :
    Reporter :=
  { reporter with
    statuses := Function.update reporter.statuses service (some status)
    lock := some
      { service := service
        status := status
        inline := inline
        kept := []
        pending := reporter.watchers service
        call := none }
    effects := reporter.effects ++ [(service, status)] }

def watch (reporter : Reporter) (service : Bytes) (writer : Nat) : Reporter :=
  { reporter with
    lock := some
      { service := service
        status := reporter.current service
        inline := true
        kept := reporter.watchers service
        pending := [writer]
        call := none }
    watches := reporter.watches ++
      [{ service := service
         writer := writer
         initial := reporter.current service
         since := reporter.effects.length }] }

section Sending

variable (encodeToVec : Int → Bytes)

/-- The holder of the lock enters the next send. -/
def send (reporter : Reporter) : Option Reporter := do
  let held ← reporter.lock
  match held.pending, held.call with
  | writer :: _, none =>
      let loop ← reporter.loop.step
        (.begin writer (.writeOwned (encodeToVec held.status.number)) held.inline)
      let before := (reporter.loop.mailbox.results writer).length
      return { reporter with loop := loop, lock := some { held with call := some before } }
  | _, _ => none

/-- The send has returned; a watcher whose writer is closed is dropped. -/
def sent (reporter : Reporter) : Option Reporter := do
  let held ← reporter.lock
  match held.pending, held.call with
  | writer :: pending, some before =>
      let (_, isOk) ← (reporter.loop.mailbox.results writer)[before]?
      let kept := if isOk then held.kept ++ [writer] else held.kept
      return { reporter with
        lock := some { held with kept := kept, pending := pending, call := none } }
  | _, _ => none

def unlock (reporter : Reporter) : Option Reporter := do
  let held ← reporter.lock
  match held.pending with
  | [] =>
      return { reporter with
        watchers := Function.update reporter.watchers held.service held.kept
        lock := none }
  | _ => none

def step (reporter : Reporter) (event : ReporterEvent) : Option Reporter :=
  match event, reporter.lock with
  | .loop event, _ =>
      if reporter.admits event then
        (reporter.loop.step event).map fun loop => { reporter with loop := loop }
      else none
  | .setStatus service status inline, none =>
      if reporter.loop.mayBegin inline then
        some (reporter.setStatus service status inline) else none
  | .watch service writer, none =>
      if reporter.loop.mayBegin true && reporter.fresh writer then
        some (reporter.watch service writer)
      else none
  | .send, _ => reporter.send encodeToVec
  | .sent, _ => reporter.sent
  | .unlock, _ => reporter.unlock
  | _, _ => none

/-- What one step does. -/
inductive Steps (reporter : Reporter) : ReporterEvent → Reporter → Prop where
  | loop {event : LoopEvent} {next : Loop} (admitted : reporter.admits event = true)
      (performed : reporter.loop.step event = some next) :
      Steps reporter (.loop event) { reporter with loop := next }
  | setStatus {service : Bytes} {status : ServingStatus} {inline : Bool}
      (free : reporter.lock = none) :
      Steps reporter (.setStatus service status inline) (reporter.setStatus service status inline)
  | watch {service : Bytes} {writer : Nat} (free : reporter.lock = none)
      (fresh : reporter.fresh writer = true) :
      Steps reporter (.watch service writer) (reporter.watch service writer)
  | send {held : Section} {writer : Nat} {rest : List Nat} {next : Loop}
      (locked : reporter.lock = some held) (pending : held.pending = writer :: rest)
      (idle : held.call = none)
      (performed : reporter.loop.step
        (.begin writer (.writeOwned (encodeToVec held.status.number)) held.inline) = some next) :
      Steps reporter .send
        { reporter with
          loop := next
          lock := some
            { held with call := some (reporter.loop.mailbox.results writer).length } }
  | sent {held : Section} {writer : Nat} {rest : List Nat} {before : Nat} {kind : OpKind}
      {isOk : Bool} (locked : reporter.lock = some held) (pending : held.pending = writer :: rest)
      (sending : held.call = some before)
      (result : (reporter.loop.mailbox.results writer)[before]? = some (kind, isOk)) :
      Steps reporter .sent
        { reporter with
          lock := some
            { held with
              kept := if isOk then held.kept ++ [writer] else held.kept
              pending := rest
              call := none } }
  | unlock {held : Section} (locked : reporter.lock = some held) (pending : held.pending = []) :
      Steps reporter .unlock
        { reporter with
          watchers := Function.update reporter.watchers held.service held.kept
          lock := none }

end Sending

theorem step_inv {encodeToVec : Int → Bytes} {reporter next : Reporter} {event : ReporterEvent}
    (performed : reporter.step encodeToVec event = some next) :
    reporter.Steps encodeToVec event next := by
  unfold step at performed
  split at performed
  next event _ =>
    split at performed
    next admitted =>
      obtain ⟨loop, moved, rfl⟩ := Option.map_eq_some_iff.mp performed
      exact .loop admitted moved
    next => simp at performed
  next free =>
    split at performed
    · obtain rfl := Option.some.inj performed
      exact .setStatus free
    · simp at performed
  next free =>
    split at performed
    next allowed =>
      obtain rfl := Option.some.inj performed
      exact .watch free (Bool.and_eq_true_iff.mp allowed).2
    next => simp at performed
  next =>
    unfold send at performed
    obtain ⟨held, locked, performed⟩ := Option.bind_eq_some_iff.mp performed
    split at performed
    next writer rest pending idle =>
      obtain ⟨loop, entered, returned⟩ := Option.bind_eq_some_iff.mp performed
      obtain rfl := Option.some.inj returned
      exact .send locked pending idle entered
    next => simp at performed
  next =>
    unfold sent at performed
    obtain ⟨held, locked, performed⟩ := Option.bind_eq_some_iff.mp performed
    split at performed
    next writer rest before pending sending =>
      obtain ⟨⟨kind, isOk⟩, result, returned⟩ := Option.bind_eq_some_iff.mp performed
      obtain rfl := Option.some.inj returned
      exact .sent locked pending sending result
    next => simp at performed
  next =>
    unfold unlock at performed
    obtain ⟨held, locked, performed⟩ := Option.bind_eq_some_iff.mp performed
    split at performed
    next pending =>
      obtain rfl := Option.some.inj performed
      exact .unlock locked pending
    next => simp at performed
  next => simp at performed

end Reporter

end GrpcUds.Serve
