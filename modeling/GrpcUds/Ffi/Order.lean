import GrpcUds.Ffi.Fifo
import GrpcUds.Lib.Ledger
import GrpcUds.Server.Finished
import GrpcUds.Server.Invocation

/-!
# The order of calls from different threads

A call on the I/O thread reaches the core at once, and one from another thread when a
drain comes to it.  So a call on the I/O thread passes whatever is queued for the same
stream at that time, and it passes nothing else.
-/

namespace GrpcUds.Server.Conn

/-- Calls in a row, each with the connection as it finds it. -/
def callsFrom : Conn → List ApiCall → List (Conn × ApiCall)
  | _, [] => []
  | conn, call :: rest => (conn, call) :: callsFrom (conn.api call).2 rest

/-- The calls of the handler that one turn of the dispatch loop runs. -/
def turnCalls (env : DispatchEnv) (conn : Conn) (position : Nat) : List (Conn × ApiCall) :=
  match conn.streams[position]? with
  | none => []
  | some stream =>
      if stream.state ≠ .complete then []
      else
        match conn.verdict stream with
        | .refuse _ => []
        | .call entry payload =>
            (conn.handling position stream.id entry payload []).callsFrom
              (env.handler position).calls

def passCalls (env : DispatchEnv) : Nat × Conn → List Nat → List (Conn × ApiCall)
  | _, [] => []
  | progress, position :: rest =>
      turnCalls env progress.2 position ++ passCalls env (dispatchAt env progress position) rest

/-- The calls that the application makes on the I/O thread within an event. -/
def callsOf (conn : Conn) : ConnEvent → List (Conn × ApiCall)
  | .api call => [(conn, call)]
  | .dispatch env => passCalls env (0, conn) (List.range conn.streams.length)
  | _ => []

/-- The streams of the writes and finishes among them that returned success. -/
def answered (conn : Conn) (event : ConnEvent) : List StreamId :=
  (conn.callsOf event).filterMap fun made =>
    if (made.1.api made.2).1.isOk then made.2.answers? else none

end GrpcUds.Server.Conn

namespace GrpcUds.Ffi

open Transition Server

/-- The stream that a write or a finish is for. -/
structure Op where
  owner : Nat
  callId : StreamId
  deriving DecidableEq

def Item.op (item : Item) : Op := ⟨item.owner, item.callId⟩

/-- The process, with a record of the writes and finishes that returned 0.  An operation
is done when the core call for it is made on its own connection. -/
structure Record where
  host : Host
  ledger : Ledger Op

namespace Record

def new : Record := ⟨.new, .new⟩

/-- The item that a replay looks at reaches the connection it was queued for. -/
def reaches (host : Host) (event : HostEvent) : Bool :=
  ((host.perform event).replayed.drop host.replayed.length).any fun replay =>
    replay.target = some replay.item.owner

def note (host : Host) (ledger : Ledger Op) : HostEvent → Ledger Op
  | .tick address event =>
      match host.lookup address with
      | none => ledger
      | some connection =>
          (connection.conn.answered event).foldl
            (fun ledger id => ledger.perform ⟨connection.serial, id⟩) ledger
  | .replay copy reserve => ledger.take (reaches host (.replay copy reserve))
  | event => (host.enqueues event).foldl (fun ledger item => ledger.post item.op) ledger

def step (record : Record) (event : HostEvent) : Option Record :=
  (record.host.step event).map fun next => ⟨next, note record.host record.ledger event⟩

/-- The record only watches: every run of the process has one. -/
theorem run_host (record : Record) (events : List HostEvent) :
    (run step record events).map Record.host =
      run Host.step record.host events := by
  induction events generalizing record with
  | nil => rfl
  | cons event rest ih =>
      simp only [run_cons, step]
      cases record.host.step event with
      | none => rfl
      | some next => exact ih ⟨next, _⟩

end Record

/-- The connection was made and has been freed. -/
def Host.Gone (host : Host) (op : Op) : Prop :=
  op.owner < host.accepted.length ∧ op.owner ∉ host.serials

theorem Host.serials_step {host next : Host} {event : HostEvent}
    (performed : host.step event = some next) :
    host.accepted.length ≤ next.accepted.length ∧
      ∀ serial ∈ next.serials, serial ∈ host.serials ∨ host.accepted.length ≤ serial := by
  have happened := Host.step_hostStep performed
  have modified : ∀ address change, (host.modify address change).serials = host.serials :=
    fun address change => congrArg (List.map Handle.serial) (host.live_modify address change)
  cases happened with
  | accepted address conn asked idle =>
      refine ⟨by simp [Host.accept], fun serial present => ?_⟩
      rw [Host.serials, Host.live_accept, List.map_append] at present
      rcases List.mem_append.mp present with before | new
      · exact .inl before
      · exact .inr (by simpa using (List.mem_singleton.mp new).ge)
  | freed address reserve asked =>
      refine ⟨le_refl _, fun serial present => .inl ?_⟩
      obtain ⟨handle, alive, rfl⟩ := List.mem_map.mp present
      exact List.mem_map_of_mem (Host.mem_live_free.mp alive).1
  | modified address change =>
      rw [modified]
      exact ⟨le_refl _, fun _ present => .inl present⟩
  | replayed item rest taken address call alive copy reserve =>
      refine ⟨le_refl _, fun serial present => .inl ?_⟩
      rw [← modified address fun conn => (conn.api (item.apiCall copy reserve)).2]
      exact present
  | _ => exact ⟨le_refl _, fun _ present => .inl present⟩

theorem Host.Gone.step {host next : Host} {event : HostEvent} {op : Op} (gone : host.Gone op)
    (performed : host.step event = some next) : next.Gone op := by
  obtain ⟨grows, serials⟩ := Host.serials_step performed
  refine ⟨lt_of_lt_of_le gone.1 grows, fun present => ?_⟩
  rcases serials op.owner present with before | new
  · exact gone.2 before
  · exact absurd gone.1 (not_lt.mpr new)

namespace Record

/-- The record tells what waits in the mailbox. -/
structure Sound (record : Record) : Prop where
  registered : Registered record.host
  ordered : record.ledger.Ordered record.host.Gone
  queue : record.ledger.queue = record.host.waiting.map fun item => some item.op

theorem new_sound : new.Sound :=
  ⟨.new, .new, rfl⟩

/-- What is looked at leaves the front, and what is queued joins the end. -/
theorem step_ops {host next : Host} {event : HostEvent} (performed : host.step event = some next) :
    ((host.looks event).map fun look => some look.item.op) ++
        (next.waiting.map fun item => some item.op) =
      (host.waiting.map fun item => some item.op) ++
        (host.enqueues event).map fun item => some item.op := by
  have moved := congrArg (List.map fun item => some item.op) (Host.step_waiting performed)
  simp only [List.map_append, List.map_map] at moved
  exact moved

theorem reaches_iff {host : Host} (registered : Registered host) {item : Item} {rest : List Item}
    (taken : host.batch = item :: rest) (copy reserve : Bool) :
    reaches host (.replay copy reserve) = true ↔ item.owner ∈ host.serials := by
  unfold reaches Host.perform
  constructor
  · intro reached
    obtain ⟨replay, listed, owner⟩ := List.any_eq_true.mp reached
    simp only [Host.replay, taken] at listed
    split at listed
    next => simp at listed
    next address call =>
      split at listed
      next => simp at listed
      next =>
        obtain rfl : replay = ⟨item, (host.lookup address).map Connection.serial⟩ := by
          simpa using listed
        have alive := Host.lookup_serial (of_decide_eq_true owner)
        exact List.mem_map.mpr ⟨_, alive, rfl⟩
  · intro there
    simp [registered.replay_live taken there]

theorem gone_iff {host : Host} (registered : Registered host) {item : Item}
    (pending : item ∈ host.pending) : host.Gone item.op ↔ item.owner ∉ host.serials := by
  obtain ⟨handle, made, owner, _⟩ := registered.waiting item pending
  have known : item.owner < host.accepted.length := owner ▸ registered.serial_lt made
  exact and_iff_right known

theorem perform_all {gone : Op → Prop} {ledger : Ledger Op} (ordered : ledger.Ordered gone)
    {serial : Nat} (there : ∀ id, ¬ gone ⟨serial, id⟩) (ids : List StreamId) :
    let next := ids.foldl (fun ledger id => ledger.perform ⟨serial, id⟩) ledger
    next.Ordered gone ∧ next.queue = ledger.queue := by
  induction ids generalizing ledger with
  | nil => exact ⟨ordered, rfl⟩
  | cons id rest ih =>
      obtain ⟨later, queue⟩ := ih (ordered.perform (there id))
      exact ⟨later, queue.trans (ordered.queue_perform _)⟩

theorem post_all {gone : Op → Prop} {ledger : Ledger Op} (ordered : ledger.Ordered gone)
    (items : List Item) :
    let next := items.foldl (fun ledger item => ledger.post item.op) ledger
    next.Ordered gone ∧ next.queue = ledger.queue ++ items.map fun item => some item.op := by
  induction items generalizing ledger with
  | nil => exact ⟨ordered, by simp⟩
  | cons item rest ih =>
      obtain ⟨later, queue⟩ := ih (ordered.post item.op)
      refine ⟨later, queue.trans ?_⟩
      rw [ordered.queue_post, List.append_assoc]
      rfl

variable {record : Record} {next : Host}

/-- What the record holds after a step, before the connections are looked at again. -/
theorem Sound.note_tick (sound : record.Sound) (address : Address) (event : ConnEvent) :
    (note record.host record.ledger (.tick address event)).Ordered record.host.Gone ∧
      (note record.host record.ledger (.tick address event)).queue = record.ledger.queue := by
  simp only [note]
  cases present : record.host.lookup address with
  | none => exact ⟨sound.ordered, rfl⟩
  | some connection =>
      refine perform_all sound.ordered (fun id gone => gone.2 ?_) _
      have alive : ⟨address, connection.serial⟩ ∈ record.host.live :=
        Host.lookup_serial (by rw [present, Option.map_some])
      exact List.mem_map.mpr ⟨_, alive, rfl⟩

theorem Sound.note_replay (sound : record.Sound) {copy reserve : Bool}
    (busy : record.host.batch ≠ []) :
    (note record.host record.ledger (.replay copy reserve)).Ordered record.host.Gone ∧
      (note record.host record.ledger (.replay copy reserve)).queue =
        record.ledger.queue.tail := by
  obtain ⟨item, rest, taken⟩ := List.exists_cons_of_ne_nil busy
  have queue := sound.queue
  simp only [Ledger.queue, Host.waiting, taken, List.cons_append, List.map_cons] at queue
  obtain ⟨number, numbers, head, found, _⟩ := List.map_eq_cons_iff.mp queue
  have pending : item ∈ record.host.pending := by simp [Host.pending, taken]
  refine ⟨sound.ordered.take head found ?_, Ledger.Ordered.queue_take _ _⟩
  rw [reaches_iff sound.registered taken, gone_iff sound.registered pending, not_not]

theorem Sound.step {event : HostEvent} (sound : record.Sound) {later : Record}
    (performed : record.step event = some later) : later.Sound := by
  obtain ⟨next, stepped, rfl⟩ := Option.map_eq_some_iff.mp performed
  have ops := step_ops stepped
  have grows : ∀ op, record.host.Gone op → next.Gone op := fun _ gone => gone.step stepped
  have queue := sound.queue
  have legal := (Host.step_eq_some_iff.mp stepped).1
  have posted := post_all sound.ordered (record.host.enqueues event)
  refine ⟨sound.registered.step stepped, ?_, ?_⟩
  · cases event with
    | tick address event => exact (sound.note_tick address event).1.mono fun op _ => grows op
    | replay copy reserve => exact (sound.note_replay legal).1.mono fun op _ => grows op
    | _ => exact posted.1.mono fun op _ => grows op
  · cases event with
    | tick address event =>
        refine (sound.note_tick address event).2.trans (queue.trans ?_)
        simpa [Host.looks, Host.enqueues, Host.code] using ops.symm
    | replay copy reserve =>
        refine (sound.note_replay legal).2.trans ?_
        obtain ⟨item, rest, taken⟩ := List.exists_cons_of_ne_nil legal
        rw [queue]
        have shifted : some item.op :: (next.waiting.map fun item => some item.op) =
            record.host.waiting.map fun item => some item.op := by
          simpa [Host.looks, Host.enqueues, Host.code, taken] using ops
        rw [← shifted]
        rfl
    | callWrite | callFinish | callFinishMsg | accept | free | drain =>
        refine posted.2.trans ?_
        rw [queue]
        simpa [Host.looks] using ops.symm

end Record

/-- Of two writes or finishes on one call that returned 0, the core does each at most
once.  If it does the later one, it does the earlier one before it, unless the earlier
one was still queued when the later one was made on the I/O thread. -/
theorem calls_take_effect_in_order {events : List HostEvent} {record : Record}
    (reached : run Record.step .new events = some record) {earlier later : Nat} {op : Op}
    (first : record.ledger.ops[earlier]? = some op) (second : record.ledger.ops[later]? = some op)
    (before : earlier < later) (done : later ∈ record.ledger.done) :
    record.ledger.done.Nodup ∧
      (List.Sublist [earlier, later] record.ledger.done ↔
        (earlier, later) ∉ record.ledger.passed) := by
  have sound : record.Sound := run_invariant
    (fun _ _ _ sound performed => sound.step performed) Record.new_sound reached
  exact ⟨sound.ordered.once, sound.ordered.order earlier later op first second before done⟩

/-- A connection with one call whose handler has returned and left it open. -/
def openCall : List HostEvent :=
  [.accept 8 (Conn.newServer [⟨Headers.ascii "/S/M", 7, 0, none⟩] 100 (-1)),
    .tick 8 (.beginHeaders ⟨1, nvHeaders, 0, .request⟩ true),
    .tick 8 (.header 1 Headers.nPath (Headers.ascii "/S/M") 0 true),
    .tick 8 (.dataChunkRecv 1 (Framing.frame [9]) true),
    .tick 8 (.frameRecv ⟨1, nvData, flagEndStream, .headers⟩),
    .tick 8 (.dispatch ⟨fun _ => ⟨[], 0⟩, fun _ => 0⟩)]

/-- A worker writes, the mailbox is drained, and then the I/O thread finishes. -/
theorem drained_write_precedes_finish :
    ∃ record, run Record.step .new (openCall ++
        [.callWrite (some ⟨8, 0⟩) 1 [5] true true, .drain, .replay true true,
          .tick 8 (.api (.finishCall 1 .ok))]) = some record ∧
      record.ledger.ops = [⟨0, 1⟩, ⟨0, 1⟩] ∧ List.Sublist [0, 1] record.ledger.done := by
  obtain ⟨record, reached, ops, done, passed⟩ : ∃ record, run Record.step .new (openCall ++
        [.callWrite (some ⟨8, 0⟩) 1 [5] true true, .drain, .replay true true,
          .tick 8 (.api (.finishCall 1 .ok))]) = some record ∧
      record.ledger.ops = [⟨0, 1⟩, ⟨0, 1⟩] ∧ 1 ∈ record.ledger.done ∧
      (0, 1) ∉ record.ledger.passed := ⟨_, rfl, by decide, by decide, by decide⟩
  have order := (@calls_take_effect_in_order _ record reached 0 1 ⟨0, 1⟩ (by rw [ops]; rfl)
    (by rw [ops]; rfl) (by decide) done).2
  exact ⟨record, reached, ops, order.mpr passed⟩

/-- A worker's write returns 0, and then the I/O thread finishes the call.  The finish is
done first and the trailer goes out; the core then refuses the write. -/
theorem finish_passes_queued_write :
    ∃ record, run Record.step .new (openCall ++
        [.callWrite (some ⟨8, 0⟩) 1 [5] true true, .tick 8 (.api (.finishCall 1 .ok)),
          .tick 8 (.read 1 100 0), .drain, .replay true true]) = some record ∧
      record.ledger.ops = [⟨0, 1⟩, ⟨0, 1⟩] ∧ record.ledger.done = [1, 0] ∧
      ¬ List.Sublist [0, 1] record.ledger.done ∧
      record.host.conns.map (fun connection => (connection.conn.streams.map fun stream =>
        stream.out.messages.map OutMsg.body, connection.conn.log.getLast?)) =
          [([[]], some (.readReturned 1 .eof))] :=
  ⟨_, rfl, by decide, by decide, by decide, by decide⟩

end GrpcUds.Ffi
