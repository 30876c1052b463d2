import GrpcUds.Ffi.Watchers

/-!
# The order of status changes

What one step does to the watchers, to the `set_status` calls in progress, to the
messages on their way and to the connections they are for; and what is true of them
as long as the calls for one service do not overlap, none of them writes directly to a
watcher that has messages queued, and no write is lost.
-/

namespace GrpcUds.Server

open Framing

/-- The payload of a write. -/
def ApiCall.payload? : ApiCall → Option Bytes
  | writeCall _ payload _ _ => some payload
  | _ => none

/-- The stream does not refuse a message. -/
def Conn.hasRoom (conn : Conn) (id : StreamId) : Bool :=
  match conn.findStream id with
  | none => true
  | some stream => !stream.out.rejects

theorem Conn.writeCall_isOk {conn : Conn} {id : StreamId} {payload : Bytes}
    (awaits : conn.Awaits id) (room : conn.hasRoom id = true) (short : payload.length ≤ 2) :
    (conn.api (.writeCall id payload true true)).1.isOk = true := by
  obtain ⟨stream, found, unfinished⟩ := awaits
  have fits : ¬ u32Max < payload.length := by
    unfold u32Max
    omega
  have accepted : (stream.out.enqueueFramed payload true true).1 = .ok () := by
    simp only [hasRoom, found, Bool.not_eq_true'] at room
    simp [OutQueue.enqueueFramed, OutQueue.enqueueOwned, fits, room]
  simp [api, writeCall, writeCallWith, found, unfinished, accepted, Except.isOk, Except.toBool]

end GrpcUds.Server

namespace GrpcUds.Ffi

open Framing Server

/-! ### Writes -/

/-- What was written to a call, in order. -/
def heardBy (written : List Written) (target : Target) : List Bytes :=
  (written.filter fun write =>
    write.serial = target.call.serial && write.callId = target.callId).map Written.payload

theorem heardBy_append (written more : List Written) (target : Target) :
    heardBy (written ++ more) target = heardBy written target ++ heardBy more target := by
  simp [heardBy]

theorem acceptedWrites_about {conn : Conn} {calls : List ApiCall} {own : StreamId}
    (about : ∀ call ∈ calls, call.callId = own) :
    ∀ write ∈ acceptedWrites conn calls, write.1 = own := by
  induction calls generalizing conn with
  | nil => simp [acceptedWrites]
  | cons call rest ih =>
      obtain ⟨first, later⟩ := List.forall_mem_cons.mp about
      intro write member
      rcases List.mem_append.mp member with made | made
      · cases call with
        | writeCall callId payload copy reserve =>
            simp only at made
            split at made
            · obtain rfl := List.mem_singleton.mp made
              exact first
            · simp at made
        | _ => simp at made
      · exact ih later write made

variable {target : Target} {health : Health}

/-- Writes to another call are not heard. -/
theorem heardBy_other {conn : Conn} {calls : List ApiCall} {own : StreamId} {serial : Nat}
    (about : ∀ call ∈ calls, call.callId = own)
    (other : serial = target.call.serial → own ≠ target.callId) :
    heardBy ((acceptedWrites conn calls).map fun write => ⟨serial, write.1, write.2⟩) target =
      [] := by
  unfold heardBy
  rw [List.map_eq_nil_iff, List.filter_eq_nil_iff]
  intro written member
  obtain ⟨write, made, rfl⟩ := List.mem_map.mp member
  have same := acceptedWrites_about about write made
  simp only [Bool.and_eq_true, decide_eq_true_eq, not_and]
  intro served
  rw [same]
  exact other served

theorem heardBy_write {conn : Conn} {serial : Nat} {payload : Bytes}
    (accepted : (conn.api (.writeCall target.callId payload true true)).1.isOk = true)
    (served : serial = target.call.serial) :
    heardBy ((acceptedWrites conn [.writeCall target.callId payload true true]).map
      fun write => ⟨serial, write.1, write.2⟩) target = [payload] := by
  simp [acceptedWrites, accepted, heardBy, served]

theorem length_encodeResponse (status : Int) (reserve : Bool) :
    (encodeResponse status reserve).length ≤ 2 := by
  unfold encodeResponse
  split
  · simp
  · split <;> simp

/-! ### The registry -/

namespace HealthState

variable {state next : HealthState}

theorem current_of_statuses (same : next.statuses = state.statuses) (service : Bytes) :
    next.current service = state.current service := by
  simp [current, find, same]

theorem current_set_self (state : HealthState) (service : Bytes) (status : Int) :
    (state.set service status true).current service = status := by
  have keyed (entry : Bytes × Int) : ((entry.1, status) : Bytes × Int).1 = entry.1 := rfl
  cases known : Table.lookup Prod.fst service state.statuses with
  | none =>
      have known' : Table.lookup Prod.fst ((service, status) : Bytes × Int).1 state.statuses =
        none := known
      simp [set, known, current, find, Table.lookup_append_new known']
  | some entry =>
      simp [set, known, current, find, Table.lookup_update_self keyed]

theorem current_set_other {service other : Bytes} (different : other ≠ service) (status : Int)
    (reserve : Bool) : (state.set service status reserve).current other = state.current other := by
  have keyed (entry : Bytes × Int) : ((entry.1, status) : Bytes × Int).1 = entry.1 := rfl
  unfold set
  split
  next =>
    simp only [current, find]
    rw [Table.lookup_update_other keyed different]
  next =>
    split
    · have apart : ((service, status) : Bytes × Int).1 ≠ other := Ne.symm different
      simp only [current, find]
      rw [Table.lookup_append_of_ne apart]
    · rfl

end HealthState

/-! ### Serial numbers and tombstones -/

/-- A serial number names one connection, and no connection has a tombstone. -/
structure Host.Tidy (host : Host) : Prop where
  serials : (host.live.map Handle.serial).Nodup
  bounded : ∀ handle ∈ host.live, handle.serial < host.accepted.length
  distinct : host.mailbox.dead.Nodup
  alive : ∀ handle ∈ host.live, handle.address ∉ host.mailbox.dead

theorem Host.Holds.mem_live {host : Host} {call : Handle} {Fact : Conn → Prop}
    (holds : host.Holds call Fact) : call ∈ host.live := by
  obtain ⟨connection, present, serial, _⟩ := holds
  apply Host.lookup_serial
  rw [present, ← serial]
  rfl

namespace Host.Tidy

variable {host : Host}

theorem new : Host.new.Tidy := by
  constructor <;> simp [Host.new, Host.live, Mailbox.new]

theorem of_same (tidy : host.Tidy) {next : Host} (live : next.live = host.live)
    (accepted : next.accepted = host.accepted) (dead : next.mailbox.dead = host.mailbox.dead) :
    next.Tidy where
  serials := live ▸ tidy.serials
  bounded := by
    rw [live, accepted]
    exact tidy.bounded
  distinct := dead ▸ tidy.distinct
  alive := by
    rw [live, dead]
    exact tidy.alive

theorem accept (tidy : host.Tidy) (address : Address) (conn : Conn) :
    (host.accept address conn).Tidy := by
  have keys : (host.mailbox.dead.map id).Nodup := by simpa using tidy.distinct
  have length : (host.accept address conn).accepted.length = host.accepted.length + 1 := by
    simp [Host.accept]
  refine ⟨?_, ?_, ?_, ?_⟩
  · rw [Host.live_accept, List.map_append, List.nodup_append]
    refine ⟨tidy.serials, by simp, ?_⟩
    intro serial member other new
    obtain ⟨handle, known, rfl⟩ := List.mem_map.mp member
    obtain rfl := List.mem_singleton.mp new
    exact Nat.ne_of_lt (tidy.bounded handle known)
  · rw [Host.live_accept, length]
    intro handle member
    rcases Table.mem_concat.mp member with old | rfl
    · exact Nat.lt_succ_of_lt (tidy.bounded handle old)
    · exact Nat.lt_succ_self _
  · have removed : (Table.remove id address host.mailbox.dead).Nodup := by
      simpa using Table.nodup_remove keys
    exact removed
  · rw [Host.live_accept]
    intro handle member buried
    obtain ⟨dead, elsewhere⟩ := (Table.mem_remove keys).mp buried
    rcases Table.mem_concat.mp member with old | rfl
    · exact tidy.alive handle old dead
    · exact elsewhere rfl

theorem free (tidy : host.Tidy) (address : Address) (reserve : Bool) :
    (host.free address reserve).Tidy := by
  have fewer : (host.free address reserve).live.Sublist host.live := by
    apply List.Sublist.map
    exact List.filter_sublist
  refine ⟨tidy.serials.sublist (fewer.map _), fun handle member => ?_, ?_, ?_⟩
  · exact tidy.bounded handle (fewer.subset member)
  · exact Mailbox.nodup_unregisterCall tidy.distinct address reserve
  · intro handle member buried
    obtain ⟨known, elsewhere⟩ := Host.mem_live_free.mp member
    simp only [Host.free, Mailbox.unregisterCall] at buried
    split at buried
    · rcases List.mem_append.mp buried with dead | new
      · exact tidy.alive handle known dead
      · exact elsewhere (List.mem_singleton.mp new)
    · exact tidy.alive handle known buried

/-- Two handles of connections that are there and have one serial number are the same. -/
theorem handle_eq (tidy : host.Tidy) {first second : Handle} {Fact Other : Conn → Prop}
    (holds : host.Holds first Fact) (also : host.Holds second Other)
    (same : first.serial = second.serial) : first = second :=
  List.inj_on_of_nodup_map tidy.serials holds.mem_live also.mem_live same

end Host.Tidy

theorem Host.Tidy.callCore (tidy : health.host.Tidy) (address : Address) (calls : List ApiCall) :
    (health.callCore address calls).host.Tidy := by
  unfold Health.callCore
  split
  · exact tidy
  · apply tidy.of_same
    · exact Host.live_modify _ _ _
    · rfl
    · rfl

theorem Host.Tidy.replay {host : Host} (tidy : host.Tidy) (copy reserve : Bool) :
    (host.replay copy reserve).Tidy := by
  unfold Host.replay
  split
  next => exact tidy
  next item rest taken =>
    split
    next => exact tidy.of_same rfl rfl rfl
    next address named =>
      split
      · exact tidy.of_same rfl rfl rfl
      · apply tidy.of_same
        · exact Host.live_modify host address fun conn =>
            (conn.api (item.apiCall copy reserve)).2
        · rfl
        · rfl

/-! ### What is on its way to a call -/

/-- A queued call is for a target. -/
def Item.isFor (target : Target) (item : Item) : Bool :=
  item.call = some target.call.address && item.callId = target.callId &&
    item.owner = target.call.serial

namespace Health

/-- What is queued for a call, in the order in which it is replayed. -/
def queuedFor (health : Health) (target : Target) : List Bytes :=
  ((health.host.batch ++ health.host.mailbox.queue).filter (Item.isFor target)).map Item.payload

/-- What the handler of a call has yet to write. -/
def greetingFor (health : Health) (target : Target) : List Bytes :=
  match health.greeting with
  | none => []
  | some greeting =>
      if greeting.target = target then greeting.calls.filterMap ApiCall.payload? else []

/-- What the call was told and what is on its way to it. -/
def trail (health : Health) (target : Target) : List Bytes :=
  heardBy health.written target ++ (health.greetingFor target ++ health.queuedFor target)

/-- The stream at an address does not refuse a message. -/
def hasRoom (health : Health) (address : Address) (id : StreamId) : Bool :=
  match health.host.lookup address with
  | none => true
  | some connection => connection.conn.hasRoom id

/-- The `set_status` calls for one service do not overlap, one on the I/O thread finds
nothing queued for a watcher of the service, no allocation fails and no stream refuses
a message. -/
def orderly (health : Health) (event : HealthEvent) : Bool :=
  health.keeps event &&
    match event with
    | .watch _ copy reserve encoded writeCopy writeReserve =>
        !(copy && reserve) || (encoded && writeCopy && writeReserve)
    | .greet =>
        health.greeting.all fun greeting => health.hasRoom greeting.call.address greeting.callId
    | .setStatus service _ inline stored encoded room =>
        let watching := health.state.watchers.filter fun watcher =>
          watcher.live && watcher.service = service
        stored && encoded && watching.length ≤ room &&
          health.calls.all (fun call => call.service ≠ service) &&
          (!inline || watching.all fun watcher => (health.queuedFor watcher.target).isEmpty)
    | .notify position copy reserve =>
        copy && reserve && health.calls[position]?.all fun call =>
          !call.inline || call.targets.head?.all fun target =>
            health.hasRoom target.call.address target.callId
    | .replay copy reserve =>
        copy && reserve && health.host.batch.head?.all fun item =>
          item.call.all fun address => health.hasRoom address item.callId
    | _ => true

section Steps

variable {health next : Health} {event : HealthEvent}

theorem Sound.known_callCore (sound : health.Sound) {call : Handle} {id : StreamId}
    (known : health.host.Holds call (Known · id)) (address : Address) (calls : List ApiCall) :
    (health.callCore address calls).host.Holds call (Known · id) := by
  unfold callCore
  split
  · exact known
  · apply known.modify
    intro other found _ _ known
    exact known.calls (sound.tame.lookup found).reachable

/-- A call that has been dispatched stays so until its connection is freed. -/
theorem Sound.known_step (sound : health.Sound) (performed : health.step event = some next)
    {call : Handle} {id : StreamId} (known : health.host.Holds call (Known · id))
    (stays : ∀ reserve, event ≠ .free call.address reserve) :
    next.host.Holds call (Known · id) := by
  have ticked {address : Address} {event : ConnEvent}
      (legal : ∀ connection, health.host.lookup address = some connection →
        connection.conn.Legal event) :
      (health.host.modify address fun conn => conn.perform event).Holds call (Known · id) := by
    apply known.modify
    intro other found _ _ known
    exact known.step (sound.tame.lookup found).reachable.wellFormed
      (Conn.step_eq_some_iff.mpr ⟨legal other found, rfl⟩)
  cases step_inv performed with
  | accept rest vacant => exact known.accept vacant _
  | free rest idle =>
      apply known.free
      rintro rfl
      exact stays _ rfl
  | tick rest allowed present legal =>
      apply ticked
      intro other found
      obtain rfl := Option.some.inj (present.symm.trans found)
      exact legal
  | @dispatch address submitRc connection rest idle present =>
      have legal : ∀ connection, health.host.lookup address = some connection →
        connection.conn.Legal (.dispatch (Serve.trampolines submitRc)) := fun _ _ => trivial
      exact ticked legal
  | greet pending => exact sound.known_callCore known _ _
  | notifyInline listed targets direct => exact sound.known_callCore known _ _
  | replay => exact (Carries.replay sound.tame sound.plain _ _).known _ _ known
  | _ => exact known

/-- A pending call is nulled, was pending before, or has just been handed over. -/
theorem pending_step (performed : health.step event = some next) {item : Item}
    (waiting : item ∈ next.host.pending) :
    item.call = none ∨
      (item ∈ health.host.pending ∧
        ∀ address reserve, event = .free address reserve → item.call ≠ some address) ∨
      ∃ position copy reserve call target rest, event = .notify position copy reserve ∧
        health.calls[position]? = some call ∧ call.targets = target :: rest ∧
        call.inline = false ∧
        item = ⟨some target.call.address, target.callId, call.message, false, .ok,
          target.call.serial⟩ := by
  have before (same : item ∈ health.host.pending)
      (remains : ∀ address reserve, event ≠ .free address reserve) :
      item ∈ health.host.pending ∧
        ∀ address reserve, event = .free address reserve → item.call ≠ some address :=
    ⟨same, fun address reserve freed => absurd freed (remains address reserve)⟩
  cases step_inv performed with
  | @free address reserve rest idle =>
      rcases List.mem_append.mp waiting with queued | taken
      · obtain ⟨old, present, rfl⟩ := List.mem_map.mp queued
        split
        next => exact .inl rfl
        next elsewhere =>
          refine .inr (.inl ⟨List.mem_append_left _ present, ?_⟩)
          rintro _ _ ⟨⟩
          exact elsewhere
      · simp [Host.free, idle] at taken
  | greet pending =>
      rw [Host.pending, callCore_mailbox, callCore_batch] at waiting
      exact .inr (.inl (before waiting (by simp)))
  | notifyInline listed targets direct =>
      rw [Host.pending, callCore_mailbox, callCore_batch] at waiting
      exact .inr (.inl (before waiting (by simp)))
  | notifyQueued listed targets queued =>
      rw [Mailbox.queue_callWrite] at waiting
      split at waiting
      · rcases List.mem_append.mp waiting with entries | taken
        · rcases Table.mem_concat.mp entries with old | rfl
          · exact .inr (.inl (before (List.mem_append_left _ old) (by simp)))
          · exact .inr (.inr ⟨_, _, _, _, _, _, rfl, listed, targets, queued, rfl⟩)
        · exact .inr (.inl (before (List.mem_append_right _ taken) (by simp)))
      · exact .inr (.inl (before waiting (by simp)))
  | drain rest idle =>
      refine .inr (.inl (before ?_ (by simp)))
      simpa [Host.pending, Host.drain, idle] using waiting
  | replay => exact .inr (.inl (before (Host.mem_pending_of_replay waiting) (by simp)))
  | _ => exact .inr (.inl (before waiting (by simp)))

/-- The handler of a call makes a watcher and has yet to greet it. -/
inductive Made (health next : Health) : HealthEvent → Watcher → Prop where
  | watch {box : Nat} {copy reserve encoded writeCopy writeReserve : Bool} {entered : Entered}
      {rest : List Entered} {service : Bytes} (first : health.entered = entered :: rest)
      (decoded : decodeCheckRequest entered.request = some service)
      (granted : (copy && reserve) = true)
      (greets : next.greeting = some ⟨entered.call, entered.callId,
        [.setCancelHook entered.callId ⟨onCancelFn, box⟩,
          .writeCall entered.callId (encodeResponse (health.state.current service) encoded)
            writeCopy writeReserve]⟩) :
      Made health next (.watch box copy reserve encoded writeCopy writeReserve)
        ⟨box, entered.call, entered.callId, service, true⟩

/-- A live watcher was there before, or the handler of its call has just made it. -/
theorem watchers_step (performed : health.step event = some next) {watcher : Watcher}
    (member : watcher ∈ next.state.watchers) (live : watcher.live = true) :
    watcher ∈ health.state.watchers ∨ Made health next event watcher := by
  cases step_inv performed with
  | tick rest allowed present legal =>
      obtain ⟨old, oldMember, rfl⟩ := List.mem_map.mp member
      split at live
      · simp at live
      next unfired =>
        rw [if_neg unfired]
        exact .inl oldMember
  | watch pending idle fresh =>
      refine (HealthState.watchTr_cases .. |>.watchers watcher member).imp_right ?_
      rintro ⟨service, rfl, decoded, granted, calls⟩
      refine .watch pending decoded granted ?_
      rw [calls]
      rfl
  | greet pending =>
      rw [callCore_state] at member
      exact .inl member
  | setStatus may =>
      rw [setStatus, HealthState.watchers_set] at member
      exact .inl member
  | notifyInline listed targets direct =>
      rw [callCore_state] at member
      exact .inl member
  | _ => exact .inl member

/-- A call in progress has lost some targets, or has just taken its snapshot. -/
theorem calls_step (performed : health.step event = some next) {call : Notify}
    (member : call ∈ next.calls) :
    (∃ old ∈ health.calls, old.service = call.service ∧ old.message = call.message ∧
      old.inline = call.inline ∧ ∀ target ∈ call.targets, target ∈ old.targets) ∨
    ∃ service status inline stored encoded room,
      event = .setStatus service status inline stored encoded room ∧
      call = ⟨service, encodeResponse status encoded,
        (health.state.set service status stored).snapshot service room, inline⟩ := by
  have kept (listed : call ∈ health.calls) : ∃ old ∈ health.calls, old.service = call.service ∧
      old.message = call.message ∧ old.inline = call.inline ∧
      ∀ target ∈ call.targets, target ∈ old.targets := ⟨call, listed, rfl, rfl, rfl, fun _ => id⟩
  have shrunk {position : Nat} {made : Notify} {target : Target} {rest : List Target}
      (listed : health.calls[position]? = some made) (targets : made.targets = target :: rest)
      (among : call ∈ health.calls.set position { made with targets := rest }) :
      ∃ old ∈ health.calls, old.service = call.service ∧ old.message = call.message ∧
        old.inline = call.inline ∧ ∀ target ∈ call.targets, target ∈ old.targets := by
    rcases List.mem_or_eq_of_mem_set among with old | rfl
    · exact kept old
    · refine ⟨made, List.mem_of_getElem? listed, rfl, rfl, rfl, fun later held => ?_⟩
      rw [targets]
      exact List.mem_cons_of_mem _ held
  cases step_inv performed with
  | greet pending =>
      rw [callCore_calls] at member
      exact .inl (kept member)
  | setStatus may =>
      rcases List.mem_append.mp member with old | new
      · exact .inl (kept old)
      · exact .inr ⟨_, _, _, _, _, _, rfl, List.mem_singleton.mp new⟩
  | notifyInline listed targets direct => exact .inl (shrunk listed targets member)
  | notifyQueued listed targets queued => exact .inl (shrunk listed targets member)
  | returned listed done => exact .inl (kept (List.mem_of_mem_eraseIdx member))
  | _ => exact .inl (kept member)

/-- A handler that a pass enters is for a call that had not been dispatched. -/
theorem Sound.entered_step (sound : health.Sound) (performed : health.step event = some next)
    {entered : Entered} (member : entered ∈ next.entered) :
    entered ∈ health.entered ∨
      ∃ connection, health.host.lookup entered.call.address = some connection ∧
        ¬ Known connection.conn entered.callId := by
  cases step_inv performed with
  | @dispatch address submitRc connection rest idle present =>
      obtain ⟨call, invoked⟩ := mem_enteredWatches member
      obtain ⟨undispatched, _⟩ :=
        Serve.awaits_of_invoked (sound.tame.lookup present) submitRc invoked
      refine .inr ⟨connection, call ▸ present, ?_⟩
      unfold Known
      omega
  | watch pending idle fresh =>
      rw [pending]
      exact .inl (List.mem_cons_of_mem _ member)
  | greet pending =>
      rw [callCore_entered] at member
      exact .inl member
  | notifyInline listed targets direct =>
      rw [callCore_entered] at member
      exact .inl member
  | _ => exact .inl member

/-- What the registry holds changes only when a status is stored. -/
theorem current_step (performed : health.step event = some next) {service : Bytes}
    (other : ∀ status inline stored encoded room,
      event ≠ .setStatus service status inline stored encoded room) :
    next.state.current service = health.state.current service := by
  cases step_inv performed with
  | watch pending idle fresh =>
      exact HealthState.current_of_statuses (HealthState.watchTr_cases ..).statuses _
  | greet pending => rw [callCore_state]
  | @setStatus stored status inline _ encoded room may =>
      apply HealthState.current_set_other
      rintro rfl
      exact other _ _ _ _ _ rfl
  | notifyInline listed targets direct => rw [callCore_state]
  | _ => rfl

end Steps

/-! ### One thing at a time -/

/-- The I/O thread replays while it does nothing else, and it writes directly while it is
in no handler. -/
structure Exclusive (health : Health) : Prop where
  resting : health.host.batch = [] ∨ health.atRest = true
  calm : health.greeting = none ∨ ∀ call ∈ health.calls, call.inline = false

theorem Exclusive.batch_of_greeting (exclusive : health.Exclusive) {greeting : Greeting}
    (pending : health.greeting = some greeting) : health.host.batch = [] := by
  apply exclusive.resting.resolve_right
  intro rest
  simp [(atRest_iff.mp rest).2.1] at pending

theorem Exclusive.of_inline (exclusive : health.Exclusive) {call : Notify}
    (member : call ∈ health.calls) (direct : call.inline = true) :
    health.host.batch = [] ∧ health.greeting = none := by
  constructor
  · apply exclusive.resting.resolve_right
    intro rest
    simp [(atRest_iff.mp rest).2.2 call member] at direct
  · apply exclusive.calm.resolve_right
    intro quiet
    simp [quiet call member] at direct

theorem Exclusive.step {next : Health} {event : HealthEvent} (exclusive : health.Exclusive)
    (performed : health.step event = some next) :
    next.Exclusive := by
  have shrunk {call : Notify} (member : call ∈ next.calls)
      (unset : ∀ service status inline stored encoded room,
        event ≠ .setStatus service status inline stored encoded room) :
      ∃ old ∈ health.calls, old.inline = call.inline := by
    rcases calls_step performed member with ⟨old, listed, _, _, same, _⟩ | made
    · exact ⟨old, listed, same⟩
    · obtain ⟨service, status, inline, stored, encoded, room, rfl, _⟩ := made
      exact absurd rfl (unset _ _ _ _ _ _)
  -- a step that starts no direct write and enters no handler
  have kept (batch : next.host.batch = [] ∨ health.host.batch = next.host.batch)
      (entered : next.entered = health.entered) (greeting : next.greeting = health.greeting)
      (unset : ∀ service status inline stored encoded room,
        event ≠ .setStatus service status inline stored encoded room) : next.Exclusive := by
    have quiet (before : ∀ call ∈ health.calls, call.inline = false) :
        ∀ call ∈ next.calls, call.inline = false := by
      intro call member
      obtain ⟨old, listed, same⟩ := shrunk member unset
      rw [← same]
      exact before old listed
    refine ⟨?_, greeting ▸ exclusive.calm.imp_right quiet⟩
    rcases batch with empty | same
    · exact .inl empty
    · rw [← same]
      refine exclusive.resting.imp_right fun rest => ?_
      obtain ⟨nobody, calm, before⟩ := atRest_iff.mp rest
      exact atRest_iff.mpr ⟨entered.trans nobody, greeting.trans calm, quiet before⟩
  cases step_inv performed with
  | dispatch rest idle present =>
      exact ⟨.inl idle, .inl (atRest_iff.mp rest).2.1⟩
  | watch pending idle fresh =>
      refine ⟨.inl ?_, .inr (idle_iff.mp idle).2⟩
      apply exclusive.resting.resolve_right
      intro rest
      simp [(atRest_iff.mp rest).1] at pending
  | greet pending =>
      refine ⟨.inl ?_, .inl rfl⟩
      rw [callCore_batch]
      exact exclusive.batch_of_greeting pending
  | @setStatus service status inline stored encoded room may =>
      cases inline with
      | true => exact ⟨.inl (may rfl).2, .inl (idle_iff.mp (may rfl).1).1⟩
      | false =>
          have quiet (before : ∀ call ∈ health.calls, call.inline = false) :
              ∀ call ∈ (health.setStatus service status false stored encoded room).calls,
                call.inline = false := by
            intro call member
            rcases Table.mem_concat.mp member with old | rfl
            · exact before call old
            · rfl
          refine ⟨exclusive.resting.imp_right fun rest => ?_, exclusive.calm.imp_right quiet⟩
          obtain ⟨nobody, calm, before⟩ := atRest_iff.mp rest
          exact atRest_iff.mpr ⟨nobody, calm, quiet before⟩
  | notifyInline listed targets direct =>
      apply kept
      · exact .inr (callCore_batch ..).symm
      · exact callCore_entered ..
      · exact callCore_greeting ..
      · simp
  | drain rest idle =>
      obtain ⟨_, calm, _⟩ := atRest_iff.mp rest
      exact ⟨.inr rest, .inl calm⟩
  | replay =>
      rcases exclusive.resting with empty | rest
      · refine kept (.inr ?_) rfl rfl (by simp)
        simp [Host.replay, empty]
      · exact ⟨.inr rest, .inl (atRest_iff.mp rest).2.1⟩
  | _ => exact kept (.inr rfl) rfl rfl (by simp)

/-- At most one call for a service is in progress, and it tells what the registry holds. -/
structure Serialized (health : Health) : Prop where
  services : (health.calls.map Notify.service).Nodup
  messages : ∀ call ∈ health.calls,
    call.message = encodeResponse (health.state.current call.service) true

/-- What the condition says of a `set_status` call. -/
theorem orderly_setStatus {service : Bytes} {status : Int} {inline stored encoded : Bool}
    {room : Nat}
    (orderly : health.orderly (.setStatus service status inline stored encoded room) = true) :
    stored = true ∧ encoded = true ∧
      (health.state.watchers.filter fun watcher =>
        watcher.live && watcher.service = service).length ≤ room ∧
      (∀ call ∈ health.calls, call.service ≠ service) ∧
      (inline = true → ∀ watcher ∈ health.state.watchers, watcher.live = true →
        watcher.service = service → health.queuedFor watcher.target = []) := by
  simp only [Health.orderly, Bool.and_eq_true, decide_eq_true_eq, List.all_eq_true,
    Bool.or_eq_true, Bool.not_eq_true', List.mem_filter, List.isEmpty_iff] at orderly
  obtain ⟨_, ⟨⟨⟨⟨hasStored, hasEncoded⟩, enough⟩, alone⟩, clear⟩⟩ := orderly
  refine ⟨hasStored, hasEncoded, enough, alone, ?_⟩
  rintro direct watcher member live rfl
  exact (clear.resolve_left (by simp [direct])) watcher ⟨member, live, rfl⟩

theorem map_service_set {calls : List Notify} {position : Nat} {call : Notify}
    (listed : calls[position]? = some call) (rest : List Target) :
    (calls.set position { call with targets := rest }).map Notify.service =
      calls.map Notify.service := by
  apply List.ext_getElem?
  intro index
  by_cases here : position = index
  · subst here
    obtain ⟨bound, rfl⟩ := List.getElem?_eq_some_iff.mp listed
    simp [bound]
  · simp [List.getElem?_set_ne here]

theorem Serialized.step {next : Health} {event : HealthEvent} (serialized : health.Serialized)
    (orderly : health.orderly event = true) (performed : health.step event = some next) :
    next.Serialized where
  services := by
    cases step_inv performed with
    | greet pending =>
        rw [callCore_calls]
        exact serialized.services
    | @setStatus service status inline stored encoded room may =>
        obtain ⟨_, _, _, alone, _⟩ := orderly_setStatus orderly
        have absent : service ∉ health.calls.map Notify.service := by
          intro listed
          obtain ⟨call, member, same⟩ := List.mem_map.mp listed
          exact alone call member same
        simpa [setStatus] using serialized.services.concat absent
    | notifyInline listed targets direct =>
        rw [map_service_set listed]
        exact serialized.services
    | notifyQueued listed targets queued =>
        rw [map_service_set listed]
        exact serialized.services
    | returned listed done =>
        exact serialized.services.sublist ((List.eraseIdx_sublist _ _).map _)
    | _ => exact serialized.services
  messages := by
    intro call member
    rcases calls_step performed member with ⟨old, listed, service, message, _⟩ | made
    · rw [← message, ← service, serialized.messages old listed]
      congr 1
      apply (current_step performed _).symm
      rintro status inline stored encoded room rfl
      obtain ⟨_, _, _, alone, _⟩ := orderly_setStatus orderly
      exact alone old listed rfl
    · obtain ⟨service, status, inline, stored, encoded, room, rfl, rfl⟩ := made
      obtain ⟨rfl, rfl, _⟩ := orderly_setStatus orderly
      cases step_inv performed with
      | setStatus may =>
          simp only [setStatus]
          rw [HealthState.current_set_self]

end Health

/-! ### Messages and their calls -/

theorem Item.isFor_iff {item : Item} :
    item.isFor target = true ↔ item.call = some target.call.address ∧
      item.callId = target.callId ∧ item.owner = target.call.serial := by
  simp [Item.isFor, and_assoc]

theorem Item.isFor_made {other : Target} {message : Bytes} :
    (⟨some target.call.address, target.callId, message, false, .ok, target.call.serial⟩ :
      Item).isFor other = true ↔ target = other := by
  rw [Item.isFor_iff]
  constructor
  · rintro ⟨address, id, owner⟩
    cases target
    cases other
    exact congrArg₂ Target.mk (Handle.ext (Option.some.inj address) owner) id
  · rintro rfl
    exact ⟨rfl, rfl, rfl⟩

namespace Health

/-- What the messages on their way and the live watchers have to do with each other. -/
structure Delivery (health : Health) : Prop where
  /-- A queued message is a status for a call that has been dispatched. -/
  items : ∀ item ∈ health.host.pending, ∀ address ∈ item.call,
    item.payload.length ≤ 2 ∧
      health.host.Holds ⟨address, item.owner⟩ (Known · item.callId)
  /-- Nothing is on its way to a call whose handler has not run. -/
  apart : ∀ entered ∈ health.entered,
    (∀ call ∈ health.calls, entered.target ∉ call.targets) ∧
      ∀ item ∈ health.host.pending, item.isFor entered.target = false
  single : ∀ watcher ∈ health.state.watchers, watcher.live = true →
    ∀ other ∈ health.state.watchers, other.live = true → watcher.target = other.target →
      watcher.service = other.service
  agree : ∀ call ∈ health.calls, ∀ watcher ∈ health.state.watchers, watcher.live = true →
    watcher.target ∈ call.targets → watcher.service = call.service
  /-- A direct write overtakes nothing. -/
  direct : ∀ call ∈ health.calls, call.inline = true →
    ∀ watcher ∈ health.state.watchers, watcher.live = true → watcher.target ∈ call.targets →
      ∀ item ∈ health.host.pending, item.isFor watcher.target = false

namespace Delivery

variable {health next : Health} {event : HealthEvent}

variable (delivery : health.Delivery)
include delivery

theorem items_step (sound : health.Sound) (serialized : health.Serialized)
    (performed : health.step event = some next) :
    ∀ item ∈ next.host.pending, ∀ address ∈ item.call,
      item.payload.length ≤ 2 ∧
        next.host.Holds ⟨address, item.owner⟩ (Known · item.callId) := by
  intro item waiting address named
  rcases pending_step performed waiting with nulled | ⟨before, elsewhere⟩ | made
  · simp [nulled] at named
  · obtain ⟨short, known⟩ := delivery.items item before address named
    refine ⟨short, sound.known_step performed known ?_⟩
    intro reserve freed
    exact elsewhere _ _ freed named
  · obtain ⟨position, _, _, call, target, rest, rfl, listed, targets, queued, rfl⟩ := made
    obtain rfl := Option.some.inj named
    have member := List.mem_of_getElem? listed
    obtain ⟨_, known⟩ := sound.targets call member target (by simp [targets])
    refine ⟨?_, sound.known_step performed known (by simp)⟩
    rw [serialized.messages call member]
    exact length_encodeResponse _ _

/-- A call that has not been dispatched has no watcher, and nothing is on its way to it. -/
theorem unseen (sound : health.Sound) {connection : Connection}
    (present : health.host.lookup target.call.address = some connection)
    (unknown : ¬ Known connection.conn target.callId) :
    (∀ call ∈ health.calls, target ∉ call.targets) ∧
      (∀ item ∈ health.host.pending, item.isFor target = false) ∧
      ∀ watcher ∈ health.state.watchers, watcher.live = true → watcher.target ≠ target := by
  have absurdly {call : Handle} (known : health.host.Holds call (Known · target.callId))
      (same : call.address = target.call.address) : False := by
    obtain ⟨other, found, _, known⟩ := known
    rw [same] at found
    obtain rfl := Option.some.inj (present.symm.trans found)
    exact unknown known
  refine ⟨?_, ?_, ?_⟩
  · intro call member listed
    exact absurdly (sound.targets call member target listed).2 rfl
  · intro item waiting
    rw [Bool.eq_false_iff]
    intro meant
    obtain ⟨address, id, _⟩ := Item.isFor_iff.mp meant
    have known := (delivery.items item waiting _ address).2
    rw [id] at known
    exact absurdly known rfl
  · rintro watcher member live rfl
    have known := (sound.holds_attended member live).imp fun conn handling => handling.2
    exact absurdly known rfl

theorem apart_step (sound : health.Sound) (performed : health.step event = some next) :
    ∀ entered ∈ next.entered,
      (∀ call ∈ next.calls, entered.target ∉ call.targets) ∧
        ∀ item ∈ next.host.pending, item.isFor entered.target = false := by
  intro entered member
  obtain ⟨untargeted, unqueued, unwatched⟩ :
      (∀ call ∈ health.calls, entered.target ∉ call.targets) ∧
      (∀ item ∈ health.host.pending, item.isFor entered.target = false) ∧
      ∀ watcher ∈ health.state.watchers, watcher.live = true → watcher.target ≠ entered.target := by
    rcases sound.entered_step performed member with before | ⟨connection, present, unknown⟩
    · obtain ⟨untargeted, unqueued⟩ := delivery.apart entered before
      exact ⟨untargeted, unqueued, (sound.fresh entered before).1⟩
    · exact delivery.unseen sound present unknown
  constructor
  · intro call listed target
    rcases calls_step performed listed with ⟨old, oldListed, _, _, _, subset⟩ | made
    · exact untargeted old oldListed (subset _ target)
    · obtain ⟨service, status, inline, stored, encoded, room, rfl, rfl⟩ := made
      obtain ⟨watcher, watching, live, same, _⟩ := HealthState.mem_snapshot target
      rw [HealthState.watchers_set] at watching
      exact unwatched watcher watching live same
  · intro item waiting
    rcases pending_step performed waiting with nulled | ⟨old, _⟩ | made
    · simp [Item.isFor, nulled]
    · exact unqueued item old
    · obtain ⟨position, _, _, call, target, rest, rfl, listed, targets, _, rfl⟩ := made
      rw [Bool.eq_false_iff, Ne, Item.isFor_made]
      rintro rfl
      exact untargeted call (List.mem_of_getElem? listed) (by simp [targets])

theorem single_step (sound : health.Sound) (performed : health.step event = some next) :
    ∀ watcher ∈ next.state.watchers, watcher.live = true →
      ∀ other ∈ next.state.watchers, other.live = true → watcher.target = other.target →
        watcher.service = other.service := by
  intro watcher member live other otherMember otherLive same
  have made := watchers_step performed member live
  have otherMade := watchers_step performed otherMember otherLive
  rcases made with old | ⟨first, decoded, _, _⟩
  · rcases otherMade with otherOld | ⟨first, _, _, _⟩
    · exact delivery.single watcher old live other otherOld otherLive same
    · exact absurd same ((sound.fresh _ (by simp [first])).1 watcher old live)
  · rcases otherMade with otherOld | ⟨otherFirst, otherDecoded, _, _⟩
    · exact absurd same.symm ((sound.fresh _ (by simp [first])).1 other otherOld otherLive)
    · obtain ⟨rfl, _⟩ := List.cons.inj (first.symm.trans otherFirst)
      exact Option.some.inj (decoded.symm.trans otherDecoded)

theorem agree_step (performed : health.step event = some next) :
    ∀ call ∈ next.calls, ∀ watcher ∈ next.state.watchers, watcher.live = true →
      watcher.target ∈ call.targets → watcher.service = call.service := by
  intro call listed watcher member live target
  rcases watchers_step performed member live with old | ⟨first, _, _, _⟩
  · rcases calls_step performed listed with ⟨before, oldListed, same, _, _, subset⟩ | made
    · rw [← same]
      exact delivery.agree before oldListed watcher old live (subset _ target)
    · obtain ⟨service, status, inline, stored, encoded, room, rfl, rfl⟩ := made
      obtain ⟨other, watching, otherLive, same, rfl⟩ := HealthState.mem_snapshot target
      rw [HealthState.watchers_set] at watching
      exact delivery.single watcher old live other watching otherLive same.symm
  · rcases calls_step performed listed with ⟨before, oldListed, _, _, _, subset⟩ | made
    · exact absurd (subset _ target) ((delivery.apart _ (by simp [first])).1 before oldListed)
    · obtain ⟨_, _, _, _, _, _, asked, _⟩ := made
      simp at asked

theorem direct_step (serialized : health.Serialized) (orderly : health.orderly event = true)
    (performed : health.step event = some next) :
    ∀ call ∈ next.calls, call.inline = true →
      ∀ watcher ∈ next.state.watchers, watcher.live = true → watcher.target ∈ call.targets →
        ∀ item ∈ next.host.pending, item.isFor watcher.target = false := by
  intro call listed direct watcher member live target item waiting
  rcases calls_step performed listed with ⟨before, oldListed, service, _, inline, subset⟩ | made
  · have oldTarget := subset _ target
    rcases watchers_step performed member live with old | ⟨first, _, _, _⟩
    · rcases pending_step performed waiting with nulled | ⟨queued, _⟩ | made
      · simp [Item.isFor, nulled]
      · exact delivery.direct before oldListed (inline.trans direct) watcher old live oldTarget item
          queued
      · -- the call that queues for the watcher is for its service, so it is this one
        obtain ⟨position, _, _, other, handed, _, rfl, otherListed, targets, queued, rfl⟩ := made
        rw [Bool.eq_false_iff, Ne, Item.isFor_made]
        rintro rfl
        have otherMember := List.mem_of_getElem? otherListed
        have mine := delivery.agree before oldListed watcher old live oldTarget
        have others := delivery.agree other otherMember watcher old live (by simp [targets])
        have same : before = other := List.inj_on_of_nodup_map serialized.services oldListed
          otherMember (mine.symm.trans others)
        subst same
        simp [inline.trans direct] at queued
    · exact absurd oldTarget ((delivery.apart _ (by simp [first])).1 before oldListed)
  · obtain ⟨service, status, inline, stored, encoded, room, rfl, rfl⟩ := made
    obtain ⟨_, _, _, _, clear⟩ := orderly_setStatus orderly
    obtain ⟨other, watching, otherLive, same, serves⟩ := HealthState.mem_snapshot target
    rw [HealthState.watchers_set] at watching
    have empty := clear direct other watching otherLive serves
    cases step_inv performed with
    | setStatus may =>
        rw [← same, Bool.eq_false_iff]
        intro meant
        have queued : item.payload ∈ health.queuedFor other.target := by
          apply List.mem_map_of_mem
          refine List.mem_filter.mpr ⟨?_, meant⟩
          rcases List.mem_append.mp waiting with queue | batch
          · exact List.mem_append_right _ queue
          · exact List.mem_append_left _ batch
        simp [empty] at queued

theorem step (sound : health.Sound) (serialized : health.Serialized)
    (orderly : health.orderly event = true) (performed : health.step event = some next) :
    next.Delivery where
  items := delivery.items_step sound serialized performed
  apart := delivery.apart_step sound performed
  single := delivery.single_step sound performed
  agree := delivery.agree_step performed
  direct := delivery.direct_step serialized orderly performed

end Delivery

end Health

end GrpcUds.Ffi
