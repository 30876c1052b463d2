import GrpcUds.Serve.Mailbox
import GrpcUds.Server.Machine

/-!
# The poll loop of `Server::serve`

One iteration polls, accepts, clears the wakeup counter, ticks the connections
that were polled, applies the queued ops, flushes and drops dead connections.
Producers on other threads take their steps between any two steps of the loop.
Handlers run inside a tick; they touch the mailbox and nothing else, so their
calls are the inline ones that the I/O thread makes while it is in a tick.

What `poll` and the socket calls report is chosen by the events.
-/

namespace GrpcUds.Serve

open Server

/-- `serial` numbers the accepted connections; no operation reads it. -/
structure ConnSlot where
  serial : Nat
  token : Nat
  conn : Conn
  dead : Bool

/-- Where the I/O thread stands.  `count` is the number of polled connections. -/
inductive Phase where
  /-- At the head of the loop, before the pollfds are built. -/
  | top
  /-- About to enter or inside `poll`. -/
  | poll (count : Nat)
  | accept (count : Nat) (woken : Bool)
  | drainWakeup (count : Nat)
  | ticking (position count : Nat)
  | inTick (position count : Nat)
  | apply (batch : List OutOp)
  | flushing (position : Nat)
  | inFlush (position : Nat)
  | returned
  deriving DecidableEq

/-- What became of an op that was taken from the mailbox.  `policy` is the bound of
the queue that it found. -/
inductive Outcome where
  | unrouted
  | applied (connection : Nat) (policy : Option Backpressure) (result : Except ConnError Unit)
  deriving DecidableEq

structure Processed where
  op : OutOp
  outcome : Outcome
  deriving DecidableEq

/-- The state of `serve`.  `accepted` and `processed` record what happened. -/
structure Loop where
  methods : List MethodEntry
  maxMessageLen : UInt32
  mailbox : Mailbox
  conns : List ConnSlot
  nextToken : Nat
  currentToken : Nat
  phase : Phase
  accepted : Nat
  processed : List Processed

inductive LoopEvent where
  | begin (writer : Nat) (request : Request) (inline : Bool)
  | advance (position : Nat)
  | shutdown
  | enterPoll
  | interrupted
  | pollFailed
  | pollReturned (listener : Bool)
  | accept (registered : Bool) (fd : Int)
  | acceptDone
  | readWakeup
  | skip
  | tickStart
  | conn (event : ConnEvent)
  | dispatch (submitRc : Nat → Int)
  | tickEnd (live : Bool)
  | take
  | applyOp (reserve : Bool)
  | applyDone
  | flushSkip
  | flushStart
  | flushEnd (live : Bool)
  | retain

/-- The callbacks and sweeps of `tick_read` and `tick_write`, dispatch apart. -/
def ticks : ConnEvent → Bool
  | .registerMethod .. => false
  | .api _ => false
  | .dispatch _ => false
  | _ => true

/-- The callbacks and sweeps of `tick_write`. -/
def flushes : ConnEvent → Bool
  | .streamClose .. => true
  | .expireDeadlines _ => true
  | .read .. => true
  | .consumePromise .. => true
  | _ => false

/-- The streams whose handlers ran. -/
def invokedIds (effects : List Effect) : List StreamId :=
  effects.filterMap fun effect =>
    match effect with
    | .invoked id _ _ _ => some id
    | _ => none

/-- The core call that applies an op. -/
def OutOp.apiCall (op : OutOp) (reserve : Bool) : ApiCall :=
  match op.kind with
  | .write payload => .writeCallOwned op.callId payload reserve
  | .finish status (some message) => .finishCallMsg op.callId status message
  | .finish status none => .finishCall op.callId status
  | .policy backpressure => .setStreamPolicy op.callId backpressure

/-- The trampoline makes no core calls and returns 0. -/
def trampolines (submitRc : Nat → Int) : DispatchEnv := ⟨fun _ => ⟨[], 0⟩, submitRc⟩

namespace Loop

def new (methods : List MethodEntry) (maxMessageLen : UInt32) : Loop where
  methods := methods
  maxMessageLen := maxMessageLen
  mailbox := .new
  conns := []
  nextToken := 1
  currentToken := 0
  phase := .top
  accepted := 0
  processed := []

def modifyConn (loop : Loop) (position : Nat) (change : ConnSlot → ConnSlot) : Loop :=
  { loop with conns := loop.conns.modify position change }

/-- No handler is in the middle of a call. -/
def quiet (loop : Loop) : Bool := loop.mailbox.calls.all fun call => !call.inline

/-- A handler runs inside a tick and makes one call at a time. -/
def mayBegin (loop : Loop) (inline : Bool) : Bool :=
  match loop.phase with
  | .inTick _ _ => !inline || loop.quiet
  | _ => !inline

/-- A connection that was accepted; one whose methods cannot be registered is dropped. -/
def accept (loop : Loop) (registered : Bool) (fd : Int) : Loop :=
  if registered then
    { loop with
      conns := loop.conns ++
        [{ serial := loop.accepted
           token := loop.nextToken
           conn := .newServer loop.methods loop.maxMessageLen fd
           dead := false }]
      nextToken := loop.nextToken + 1
      accepted := loop.accepted + 1 }
  else { loop with accepted := loop.accepted + 1 }

/-- The writer that the trampoline makes for a call. -/
def writerFor (loop : Loop) (slot : ConnSlot) (id : StreamId) : Writer where
  token := loop.currentToken
  callId := id
  finished := false
  dead := false
  overflow := false
  origin := slot.serial

/-- A dispatch pass on the connection at a position. -/
def dispatch (loop : Loop) (position : Nat) (slot : ConnSlot) (submitRc : Nat → Int) : Loop :=
  let next := (slot.conn.dispatch (trampolines submitRc)).2
  let writers := (invokedIds (next.log.drop slot.conn.log.length)).map (loop.writerFor slot)
  { loop.modifyConn position fun slot => { slot with conn := next } with
    mailbox := { loop.mailbox with writers := loop.mailbox.writers ++ writers } }

def conclude (loop : Loop) (position : Nat) (live : Bool) : Loop :=
  if live then loop else loop.modifyConn position fun slot => { slot with dead := true }

/-- The live connection that an op is for. -/
def route (loop : Loop) (op : OutOp) : Option Nat :=
  loop.conns.findIdx? fun slot => slot.token = op.token && !slot.dead

/-- Report an op that could not be applied. -/
def report (mailbox : Mailbox) (writer : Nat) : Except ConnError Unit → Mailbox
  | .ok () => mailbox
  | .error .queueFull => mailbox.setOverflow writer
  | .error _ => mailbox.setDead writer

def applyOp (loop : Loop) (op : OutOp) (reserve : Bool) : Loop :=
  match (loop.route op).bind fun position =>
      (loop.conns[position]?).map fun slot => (position, slot) with
  | none =>
      { loop with
        mailbox := loop.mailbox.setDead op.writer
        processed := loop.processed ++ [⟨op, .unrouted⟩] }
  | some (position, slot) =>
      let (result, conn) := slot.conn.api (op.apiCall reserve)
      let policy := (slot.conn.findStream op.callId).map fun stream => stream.out.backpressure
      { loop.modifyConn position fun slot => { slot with conn := conn } with
        mailbox := report loop.mailbox op.writer result
        processed := loop.processed ++ [⟨op, .applied slot.serial policy result⟩] }

/-- A connection event inside a tick or a flush. -/
def onConn (loop : Loop) (position : Nat) (allowed : ConnEvent → Bool) (event : ConnEvent) :
    Option Loop := do
  let slot ← loop.conns[position]?
  if allowed event then
    let next ← slot.conn.step event
    return loop.modifyConn position fun slot => { slot with conn := next }
  else none

def step (loop : Loop) (event : LoopEvent) : Option Loop :=
  match event, loop.phase with
  | .begin writer request inline, _ =>
      if loop.mayBegin inline then
        (loop.mailbox.begin writer request inline).map fun mailbox =>
          { loop with mailbox := mailbox }
      else none
  | .advance position, _ =>
      (loop.mailbox.advance position).map fun mailbox => { loop with mailbox := mailbox }
  | .shutdown, .top => some { loop with phase := .returned }
  | .enterPoll, .top => some { loop with phase := .poll loop.conns.length }
  | .interrupted, .poll _ => some { loop with phase := .top }
  | .pollFailed, .poll _ => some { loop with phase := .returned }
  | .pollReturned listener, .poll count =>
      let woken := decide (0 < loop.mailbox.wakeup)
      if listener then some { loop with phase := .accept count woken }
      else some { loop with phase := if woken then .drainWakeup count else .ticking 0 count }
  | .accept registered fd, .accept _ _ => some (loop.accept registered fd)
  | .acceptDone, .accept count woken =>
      some { loop with phase := if woken then .drainWakeup count else .ticking 0 count }
  | .readWakeup, .drainWakeup count =>
      if loop.mailbox.wakeup = 0 then some { loop with phase := .ticking 0 count }
      else some { loop with mailbox := loop.mailbox.clearWakeup }
  | .skip, .ticking position count =>
      if position < count then some { loop with phase := .ticking (position + 1) count } else none
  | .tickStart, .ticking position count => do
      let slot ← loop.conns[position]?
      if position < count then
        return { loop with phase := .inTick position count, currentToken := slot.token }
      else none
  | .conn event, .inTick position _ => loop.onConn position ticks event
  | .dispatch submitRc, .inTick position _ => do
      let slot ← loop.conns[position]?
      return loop.dispatch position slot submitRc
  | .tickEnd live, .inTick position count =>
      if loop.quiet then
        some { loop.conclude position live with phase := .ticking (position + 1) count }
      else none
  | .take, .ticking position count =>
      if position < count then none
      else
        let (batch, mailbox) := loop.mailbox.take
        some { loop with mailbox := mailbox, phase := .apply batch }
  | .applyOp reserve, .apply (op :: batch) =>
      some { loop.applyOp op reserve with phase := .apply batch }
  | .applyDone, .apply [] => some { loop with phase := .flushing 0 }
  | .flushSkip, .flushing position =>
      if position < loop.conns.length then some { loop with phase := .flushing (position + 1) }
      else none
  | .flushStart, .flushing position => do
      let slot ← loop.conns[position]?
      if slot.dead then none else return { loop with phase := .inFlush position }
  | .conn event, .inFlush position => loop.onConn position flushes event
  | .flushEnd live, .inFlush position =>
      some { loop.conclude position live with phase := .flushing (position + 1) }
  | .retain, .flushing position =>
      if position < loop.conns.length then none
      else
        some { loop with conns := loop.conns.filter fun slot => !slot.dead, phase := .top }
  | _, _ => none

/-- The end of a tick or a flush changes no connection but its flag. -/
theorem mem_conclude {loop : Loop} {position : Nat} {live : Bool} {slot : ConnSlot}
    (member : slot ∈ (loop.conclude position live).conns) :
    ∃ old ∈ loop.conns, slot.conn = old.conn ∧ slot.serial = old.serial := by
  unfold conclude at member
  split at member
  · exact ⟨slot, member, rfl, rfl⟩
  · obtain ⟨index, found⟩ := List.mem_iff_getElem?.mp member
    simp only [modifyConn, List.getElem?_modify] at found
    obtain ⟨old, known, changed⟩ := Option.map_eq_some_iff.mp found
    refine ⟨old, List.mem_of_getElem? known, ?_⟩
    split at changed <;> exact changed ▸ ⟨rfl, rfl⟩

/-- What one step does. -/
inductive Steps (loop : Loop) : LoopEvent → Loop → Prop where
  | begin {writer : Nat} {request : Request} {inline : Bool} {mailbox : Mailbox}
      (entered : loop.mailbox.begin writer request inline = some mailbox)
      (inTick : inline = true → ∃ position count, loop.phase = .inTick position count) :
      Steps loop (.begin writer request inline) { loop with mailbox := mailbox }
  | advance {position : Nat} {mailbox : Mailbox}
      (advanced : loop.mailbox.advance position = some mailbox) :
      Steps loop (.advance position) { loop with mailbox := mailbox }
  | shutdown (phase : loop.phase = .top) : Steps loop .shutdown { loop with phase := .returned }
  | enterPoll (phase : loop.phase = .top) :
      Steps loop .enterPoll { loop with phase := .poll loop.conns.length }
  | interrupted {count : Nat} (phase : loop.phase = .poll count) :
      Steps loop .interrupted { loop with phase := .top }
  | pollFailed {count : Nat} (phase : loop.phase = .poll count) :
      Steps loop .pollFailed { loop with phase := .returned }
  | pollAccepts {count : Nat} (phase : loop.phase = .poll count) :
      Steps loop (.pollReturned true)
        { loop with phase := .accept count (decide (0 < loop.mailbox.wakeup)) }
  | pollReturned {count : Nat} (phase : loop.phase = .poll count) :
      Steps loop (.pollReturned false)
        { loop with
          phase := if decide (0 < loop.mailbox.wakeup) then .drainWakeup count
            else .ticking 0 count }
  | accept {registered : Bool} {fd : Int} {count : Nat} {woken : Bool}
      (phase : loop.phase = .accept count woken) :
      Steps loop (.accept registered fd) (loop.accept registered fd)
  | acceptDone {count : Nat} {woken : Bool} (phase : loop.phase = .accept count woken) :
      Steps loop .acceptDone
        { loop with phase := if woken then .drainWakeup count else .ticking 0 count }
  | wakeupDrained {count : Nat} (phase : loop.phase = .drainWakeup count)
      (drained : loop.mailbox.wakeup = 0) :
      Steps loop .readWakeup { loop with phase := .ticking 0 count }
  | wakeupRead {count : Nat} (phase : loop.phase = .drainWakeup count) :
      Steps loop .readWakeup { loop with mailbox := loop.mailbox.clearWakeup }
  | skip {position count : Nat} (phase : loop.phase = .ticking position count) :
      Steps loop .skip { loop with phase := .ticking (position + 1) count }
  | tickStart {position count : Nat} {slot : ConnSlot}
      (phase : loop.phase = .ticking position count) (present : loop.conns[position]? = some slot) :
      Steps loop .tickStart
        { loop with phase := .inTick position count, currentToken := slot.token }
  | conn {event : ConnEvent} {position : Nat} {slot : ConnSlot} {next : Conn}
      (phase : (∃ count, loop.phase = .inTick position count) ∨ loop.phase = .inFlush position)
      (present : loop.conns[position]? = some slot) (allowed : ticks event = true)
      (performed : slot.conn.step event = some next) :
      Steps loop (.conn event) (loop.modifyConn position fun slot => { slot with conn := next })
  | dispatch {submitRc : Nat → Int} {position count : Nat} {slot : ConnSlot}
      (phase : loop.phase = .inTick position count) (present : loop.conns[position]? = some slot) :
      Steps loop (.dispatch submitRc) (loop.dispatch position slot submitRc)
  | tickEnd {live : Bool} {position count : Nat} (phase : loop.phase = .inTick position count)
      (quiet : loop.quiet = true) :
      Steps loop (.tickEnd live)
        { loop.conclude position live with phase := .ticking (position + 1) count }
  | take {position count : Nat} (phase : loop.phase = .ticking position count) :
      Steps loop .take
        { loop with mailbox := loop.mailbox.take.2, phase := .apply loop.mailbox.take.1 }
  | applyOp {reserve : Bool} {op : OutOp} {batch : List OutOp}
      (phase : loop.phase = .apply (op :: batch)) :
      Steps loop (.applyOp reserve) { loop.applyOp op reserve with phase := .apply batch }
  | applyDone (phase : loop.phase = .apply []) :
      Steps loop .applyDone { loop with phase := .flushing 0 }
  | flushSkip {position : Nat} (phase : loop.phase = .flushing position) :
      Steps loop .flushSkip { loop with phase := .flushing (position + 1) }
  | flushStart {position : Nat} {slot : ConnSlot} (phase : loop.phase = .flushing position)
      (present : loop.conns[position]? = some slot) (live : slot.dead = false) :
      Steps loop .flushStart { loop with phase := .inFlush position }
  | flushEnd {live : Bool} {position : Nat} (phase : loop.phase = .inFlush position) :
      Steps loop (.flushEnd live)
        { loop.conclude position live with phase := .flushing (position + 1) }
  | retain {position : Nat} (phase : loop.phase = .flushing position) :
      Steps loop .retain
        { loop with conns := loop.conns.filter fun slot => !slot.dead, phase := .top }

theorem onConn_inv {loop next : Loop} {position : Nat} {allowed : ConnEvent → Bool}
    {event : ConnEvent} (performed : loop.onConn position allowed event = some next) :
    ∃ slot conn, loop.conns[position]? = some slot ∧ allowed event = true ∧
      slot.conn.step event = some conn ∧
      loop.modifyConn position (fun slot => { slot with conn := conn }) = next := by
  unfold onConn at performed
  obtain ⟨slot, present, performed⟩ := Option.bind_eq_some_iff.mp performed
  obtain ⟨permitted, performed⟩ := Option.ite_none_right_eq_some.mp performed
  obtain ⟨conn, stepped, ended⟩ := Option.bind_eq_some_iff.mp performed
  exact ⟨slot, conn, present, permitted, stepped, Option.some.inj ended⟩

theorem ticks_of_flushes {event : ConnEvent} (allowed : flushes event = true) :
    ticks event = true := by
  cases event <;> simp_all [flushes, ticks]

theorem mayBegin_inline {loop : Loop} (allowed : loop.mayBegin true = true) :
    ∃ position count, loop.phase = .inTick position count := by
  unfold mayBegin at allowed
  split at allowed
  next position count phase => exact ⟨position, count, phase⟩
  next => simp at allowed

theorem step_inv {loop next : Loop} {event : LoopEvent} (performed : loop.step event = some next) :
    loop.Steps event next := by
  cases event with
  | begin writer request inline =>
      obtain ⟨allowed, mailbox, entered, rfl⟩ : loop.mayBegin inline = true ∧
          ∃ mailbox, loop.mailbox.begin writer request inline = some mailbox ∧
            { loop with mailbox := mailbox } = next := by simpa [step] using performed
      exact .begin entered fun isInline => mayBegin_inline (isInline ▸ allowed)
  | advance position =>
      obtain ⟨mailbox, advanced, rfl⟩ : ∃ mailbox, loop.mailbox.advance position = some mailbox ∧
          { loop with mailbox := mailbox } = next := by simpa [step] using performed
      exact .advance advanced
  | shutdown =>
      cases phase : loop.phase <;> simp [step, phase] at performed
      exact performed ▸ .shutdown phase
  | enterPoll =>
      cases phase : loop.phase <;> simp [step, phase] at performed
      exact performed ▸ .enterPoll phase
  | interrupted =>
      cases phase : loop.phase <;> simp [step, phase] at performed
      exact performed ▸ .interrupted phase
  | pollFailed =>
      cases phase : loop.phase <;> simp [step, phase] at performed
      exact performed ▸ .pollFailed phase
  | pollReturned listener =>
      cases phase : loop.phase <;> simp only [step, phase, reduceCtorEq] at performed
      cases listener with
      | true => exact Option.some.inj performed ▸ .pollAccepts phase
      | false => exact Option.some.inj performed ▸ .pollReturned phase
  | accept registered fd =>
      cases phase : loop.phase <;> simp [step, phase] at performed
      exact performed ▸ .accept phase
  | acceptDone =>
      cases phase : loop.phase <;> simp [step, phase] at performed
      exact performed ▸ .acceptDone phase
  | readWakeup =>
      cases phase : loop.phase <;> simp only [step, phase, reduceCtorEq] at performed
      split at performed
      next drained => exact Option.some.inj performed ▸ .wakeupDrained phase drained
      next =>
        obtain rfl := Option.some.inj performed
        rw [← phase]
        exact .wakeupRead phase
  | skip =>
      cases phase : loop.phase <;> simp [step, phase] at performed
      exact performed.2 ▸ .skip phase
  | tickStart =>
      cases phase : loop.phase <;> simp only [step, phase, reduceCtorEq] at performed
      obtain ⟨slot, present, performed⟩ := Option.bind_eq_some_iff.mp performed
      split at performed
      · exact Option.some.inj performed ▸ .tickStart phase present
      · simp at performed
  | conn event =>
      cases phase : loop.phase <;> simp only [step, phase, reduceCtorEq] at performed
      case inTick position count =>
        obtain ⟨slot, conn, present, allowed, stepped, rfl⟩ := onConn_inv performed
        exact .conn (.inl ⟨count, phase⟩) present allowed stepped
      case inFlush position =>
        obtain ⟨slot, conn, present, allowed, stepped, rfl⟩ := onConn_inv performed
        exact .conn (.inr phase) present (ticks_of_flushes allowed) stepped
  | dispatch submitRc =>
      cases phase : loop.phase <;> simp only [step, phase, reduceCtorEq] at performed
      obtain ⟨slot, present, performed⟩ := Option.bind_eq_some_iff.mp performed
      exact Option.some.inj performed ▸ .dispatch phase present
  | tickEnd live =>
      cases phase : loop.phase <;> simp [step, phase] at performed
      exact performed.2 ▸ .tickEnd phase performed.1
  | take =>
      cases phase : loop.phase <;> simp [step, phase] at performed
      exact performed.2 ▸ .take phase
  | applyOp reserve =>
      cases phase : loop.phase <;> simp only [step, phase, reduceCtorEq] at performed
      rename_i batch
      cases batch with
      | nil => simp at performed
      | cons op batch => exact Option.some.inj performed ▸ .applyOp phase
  | applyDone =>
      cases phase : loop.phase <;> simp only [step, phase, reduceCtorEq] at performed
      rename_i batch
      cases batch with
      | nil => exact Option.some.inj performed ▸ .applyDone phase
      | cons op batch => simp at performed
  | flushSkip =>
      cases phase : loop.phase <;> simp [step, phase] at performed
      exact performed.2 ▸ .flushSkip phase
  | flushStart =>
      cases phase : loop.phase <;> simp only [step, phase, reduceCtorEq] at performed
      obtain ⟨slot, present, performed⟩ := Option.bind_eq_some_iff.mp performed
      split at performed
      · simp at performed
      next live =>
        exact Option.some.inj performed ▸ .flushStart phase present (Bool.eq_false_iff.mpr live)
  | flushEnd live =>
      cases phase : loop.phase <;> simp [step, phase] at performed
      exact performed ▸ .flushEnd phase
  | retain =>
      cases phase : loop.phase <;> simp [step, phase] at performed
      exact performed.2 ▸ .retain phase

/-- A loop that serves one method. -/
def oneMethod : Loop := new [⟨Headers.ascii "/S/M", 7, 0, none⟩] 100

/-- A connection is accepted, its first call is dispatched on stream 1, and the loop
polls again with the call open. -/
def openCall : List LoopEvent :=
  [.enterPoll, .pollReturned true, .accept true (-1), .acceptDone, .take, .applyDone, .flushSkip,
    .retain,
    .enterPoll, .pollReturned false, .tickStart,
    .conn (.beginHeaders ⟨1, nvHeaders, 0, .request⟩ true),
    .conn (.header 1 Headers.nPath (Headers.ascii "/S/M") 0 true),
    .conn (.dataChunkRecv 1 (Framing.frame [9]) true),
    .conn (.frameRecv ⟨1, nvData, flagEndStream, .headers⟩),
    .dispatch (fun _ => 0), .tickEnd true, .take, .applyDone, .flushSkip, .retain, .enterPoll]

end Loop

end GrpcUds.Serve
