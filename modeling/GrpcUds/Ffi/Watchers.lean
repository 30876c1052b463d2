import GrpcUds.Ffi.Armed
import GrpcUds.Ffi.Identity

/-!
# What a status change is handed to

A live watcher is armed, or its handler is about to arm it.  A connection that is
freed runs no hook and a stream that closes with error code 0 runs none either, so
the registry keeps such watchers live; and a snapshot outlives the lock it was taken
under.  As long as none of this happens to a watcher, every target that `set_status`
hands to `grpcuds_call_write` is an open `Watch` stream of its service.
-/

namespace GrpcUds.Server

theorem ApiCall.hookEvents_of_ne {call : ApiCall} {id : StreamId} (other : call.callId ≠ id) :
    call.hookEvents id = [] := by
  cases call <;> simp_all [ApiCall.callId, ApiCall.hookEvents]

end GrpcUds.Server

namespace GrpcUds.Ffi

open Transition Framing Server

/-! ### The connection of a handle -/

variable {connection : Connection} {address : Address} {id : StreamId} {conn : Conn}

namespace Host

/-- The connection that a handle was made for is there, and something is true of it. -/
def Holds (host : Host) (call : Handle) (Fact : Conn → Prop) : Prop :=
  ∃ connection, host.lookup call.address = some connection ∧ connection.serial = call.serial ∧
    Fact connection.conn

theorem holds_modify {host : Host} {call : Handle} (Fact : Conn → Prop) (change : Conn → Conn)
    (present : host.lookup call.address = some connection)
    (serial : connection.serial = call.serial) (fact : Fact (change connection.conn)) :
    (host.modify call.address change).Holds call Fact := by
  refine ⟨{ connection with conn := change connection.conn }, ?_, serial, fact⟩
  rw [lookup_modify_self, present]
  rfl

namespace Holds

variable {host : Host} {call : Handle} {Fact : Conn → Prop}

variable (holds : host.Holds call Fact)
include holds

theorem imp {Other : Conn → Prop} (implies : ∀ conn, Fact conn → Other conn) :
    host.Holds call Other := by
  obtain ⟨connection, present, serial, fact⟩ := holds
  exact ⟨connection, present, serial, implies _ fact⟩

theorem of_lookup {next : Host} (same : next.lookup call.address = host.lookup call.address) :
    next.Holds call Fact := by
  unfold Holds
  rwa [same]

theorem modify {change : Conn → Conn}
    (kept : ∀ connection, host.lookup address = some connection → call.address = address →
      connection.serial = call.serial → Fact connection.conn → Fact (change connection.conn)) :
    (host.modify address change).Holds call Fact := by
  by_cases same : call.address = address
  · obtain ⟨connection, present, serial, fact⟩ := holds
    subst same
    exact holds_modify Fact change present serial (kept connection present rfl serial fact)
  · exact holds.of_lookup (lookup_modify_other host same change)

theorem accept (vacant : host.lookup address = none) (conn : Conn) :
    (host.accept address conn).Holds call Fact := by
  apply holds.of_lookup
  apply lookup_accept
  rintro rfl
  obtain ⟨connection, present, _⟩ := holds
  simp [vacant] at present

theorem free (different : call.address ≠ address) (reserve : Bool) :
    (host.free address reserve).Holds call Fact :=
  holds.of_lookup (lookup_free reserve different)

end Holds

/-- No stream of a connection is finished before its handler has run. -/
def Tame (host : Host) : Prop := ∀ connection ∈ host.conns, Serve.Tame connection.conn

theorem Tame.lookup {host : Host} (tame : host.Tame)
    (present : host.lookup address = some connection) : Serve.Tame connection.conn :=
  tame connection (Table.lookup_mem present)

theorem Tame.modify {host : Host} (tame : host.Tame) {change : Conn → Conn}
    (kept : ∀ connection, host.lookup address = some connection →
      Serve.Tame (change connection.conn)) : (host.modify address change).Tame :=
  Table.forall_update tame kept

end Host

theorem Host.mem_pending_of_replay {host : Host} {copy reserve : Bool} {item : Item}
    (waiting : item ∈ (host.replay copy reserve).pending) : item ∈ host.pending := by
  unfold Host.replay at waiting
  split at waiting
  next => exact waiting
  next first rest taken =>
    have kept : item ∈ host.mailbox.queue ++ rest := by
      split at waiting
      next => exact waiting
      next =>
        split at waiting
        · exact waiting
        · exact waiting
    rcases List.mem_append.mp kept with queued | later
    · exact List.mem_append_left _ queued
    · exact List.mem_append_right _ (by simp [taken, later])

/-! ### Core calls -/

section CoreCalls

variable {conn : Conn}

/-- A call finishes no stream that has not been dispatched. -/
theorem tame_api (tame : Serve.Tame conn) {call : ApiCall}
    (quiet : ∀ id, dispatches (conn.logOf id) = 0 → call.hookEvents id = []) :
    Serve.Tame (conn.api call).2 := by
  have performed : conn.step (.api call) = some (conn.api call).2 := rfl
  have legal : conn.Legal (.api call) := trivial
  have wellFormed := tame.reachable.wellFormed
  refine ⟨tame.reachable.step performed, fun id undispatched => ?_⟩
  have before := tame.undispatched performed undispatched
  apply before.of_phase
  apply Conn.phase_of_unmarked wellFormed legal
  have grows := dispatches_mono (wellFormed.logOf_grows performed id)
  simp [Conn.hookMarks, Conn.callEvents, quiet id (by omega)]

theorem dispatches_api (tame : Serve.Tame conn) (call : ApiCall) (id : StreamId) :
    dispatches (conn.logOf id) ≤ dispatches ((conn.api call).2.logOf id) := by
  have performed : conn.step (.api call) = some (conn.api call).2 := rfl
  exact dispatches_mono (tame.reachable.wellFormed.logOf_grows performed id)

/-- Calls on one call that has been dispatched. -/
theorem tame_calls {calls : List ApiCall} {own : StreamId} (tame : Serve.Tame conn)
    (dispatched : 0 < dispatches (conn.logOf own)) (about : ∀ call ∈ calls, call.callId = own) :
    Serve.Tame (calls.foldl (fun conn call => (conn.api call).2) conn) := by
  induction calls generalizing conn with
  | nil => exact tame
  | cons call rest ih =>
      obtain ⟨first, later⟩ := List.forall_mem_cons.mp about
      apply ih (tame_api tame ?_) ?_ later
      · intro id undispatched
        apply ApiCall.hookEvents_of_ne
        rintro rfl
        rw [first] at undispatched
        omega
      · exact dispatched.trans_le (dispatches_api tame call own)

/-- Calls on another call leave an armed one alone. -/
theorem Armed.calls {calls : List ApiCall} {own : StreamId} {hook : CancelHook}
    (armed : Armed conn id hook) (reachable : conn.Reachable)
    (about : ∀ call ∈ calls, call.callId = own) (different : own ≠ id) :
    Armed (calls.foldl (fun conn call => (conn.api call).2) conn) id hook := by
  induction calls generalizing conn with
  | nil => exact armed
  | cons call rest ih =>
      obtain ⟨first, later⟩ := List.forall_mem_cons.mp about
      have performed : conn.step (.api call) = some (conn.api call).2 := rfl
      apply ih (armed.api reachable.wellFormed ?_) (reachable.step performed) later
      exact ApiCall.hookEvents_of_ne (first ▸ different)

end CoreCalls

/-! ### What is true of the calls that the registry knows -/

/-- The call has been dispatched. -/
def Known (conn : Conn) (id : StreamId) : Prop := 0 < dispatches (conn.logOf id)

theorem Known.step {next : Conn} {event : ConnEvent} (known : Known conn id)
    (wellFormed : conn.WellFormed) (performed : conn.step event = some next) : Known next id :=
  Nat.lt_of_lt_of_le known (dispatches_mono (wellFormed.logOf_grows performed id))

theorem Known.calls {calls : List ApiCall} (known : Known conn id) (reachable : conn.Reachable) :
    Known (calls.foldl (fun conn call => (conn.api call).2) conn) id := by
  induction calls generalizing conn with
  | nil => exact known
  | cons call rest ih =>
      have performed : conn.step (.api call) = some (conn.api call).2 := rfl
      exact ih (known.step reachable.wellFormed performed)
        (reachable.step performed)

/-- The handler of the call has run, and the call is open and unfinished. -/
def Handling (conn : Conn) (id : StreamId) : Prop := conn.Awaits id ∧ Known conn id

theorem Armed.handling {hook : CancelHook} (armed : Armed conn id hook) :
    Handling conn id := ⟨armed.awaits, armed.dispatched⟩

theorem Handling.isSome (handling : Handling conn id) :
    (conn.findStream id).isSome := by
  obtain ⟨⟨stream, found, _⟩, _⟩ := handling
  simp [found]

theorem Handling.api (handling : Handling conn id) (tame : Serve.Tame conn) {call : ApiCall}
    (unsaid : call.hookEvents id = []) :
    Handling (conn.api call).2 id := by
  have performed : conn.step (.api call) = some (conn.api call).2 := rfl
  have legal : conn.Legal (.api call) := trivial
  have wellFormed := tame.reachable.wellFormed
  refine ⟨Serve.awaits_step wellFormed handling.1 performed ?_,
    handling.2.trans_le (dispatches_api tame call id)⟩
  apply Conn.phase_of_unmarked wellFormed legal
  simp [Conn.hookMarks, Conn.callEvents, unsaid]

theorem Handling.calls {calls : List ApiCall} {own : StreamId} (handling : Handling conn id)
    (tame : Serve.Tame conn) (dispatched : 0 < dispatches (conn.logOf own))
    (about : ∀ call ∈ calls, call.callId = own) (different : own ≠ id) :
    Handling (calls.foldl (fun conn call => (conn.api call).2) conn) id := by
  induction calls generalizing conn with
  | nil => exact handling
  | cons call rest ih =>
      obtain ⟨first, later⟩ := List.forall_mem_cons.mp about
      have only : ∀ call' ∈ [call], call'.callId = own := by simpa using first
      apply ih (handling.api tame ?_) (tame_calls tame dispatched only) ?_ later
      · exact ApiCall.hookEvents_of_ne (first ▸ different)
      · exact dispatched.trans_le (dispatches_api tame call own)

/-- A step of the process after which the calls it knows are as they were. -/
structure Carries (host next : Host) : Prop where
  tame : next.Tame
  armed : ∀ call id hook, host.Holds call (Armed · id hook) → next.Holds call (Armed · id hook)
  handling : ∀ call id, host.Holds call (Handling · id) → next.Holds call (Handling · id)
  known : ∀ call id, host.Holds call (Known · id) → next.Holds call (Known · id)
  present : ∀ call id, host.Holds call (fun conn => (conn.findStream id).isSome) →
    next.Holds call fun conn => (conn.findStream id).isSome

namespace Carries

variable {host : Host}

theorem of_conns {next : Host} (tame : host.Tame) (same : next.conns = host.conns) :
    Carries host next := by
  have looked (address : Address) : next.lookup address = host.lookup address := by
    unfold Host.lookup
    rw [same]
  refine ⟨fun connection member => tame connection (same ▸ member), ?_, ?_, ?_, ?_⟩
  · exact fun call id hook holds => holds.of_lookup (looked _)
  · exact fun call id holds => holds.of_lookup (looked _)
  · exact fun call id holds => holds.of_lookup (looked _)
  · exact fun call id holds => holds.of_lookup (looked _)

theorem accept (tame : host.Tame) (vacant : host.lookup address = none) (methods : List MethodEntry)
    (maxMessageLen : UInt32) (fd : Int) :
    Carries host (host.accept address (.newServer methods maxMessageLen fd)) where
  tame := by
    intro connection member
    rcases Table.mem_concat.mp member with old | rfl
    · exact tame connection old
    · exact Serve.Tame.newServer methods maxMessageLen fd
  armed := fun call id hook holds => holds.accept vacant _
  handling := fun call id holds => holds.accept vacant _
  known := fun call id holds => holds.accept vacant _
  present := fun call id holds => holds.accept vacant _

/-- A write says nothing about any hook. -/
theorem write (tame : host.Tame) (address : Address) (callId : StreamId) (payload : Bytes)
    (copy reserve : Bool) :
    Carries host (host.modify address fun conn =>
      (conn.api (.writeCall callId payload copy reserve)).2) where
  tame := by
    apply tame.modify
    intro connection present
    exact tame_api (tame.lookup present) fun _ _ => rfl
  armed := by
    intro call id hook holds
    apply holds.modify
    intro connection present _ _ armed
    exact armed.api (tame.lookup present).reachable.wellFormed rfl
  handling := by
    intro call id holds
    apply holds.modify
    intro connection present _ _ handling
    exact handling.api (tame.lookup present) rfl
  known := by
    intro call id holds
    apply holds.modify
    intro connection present _ _ known
    have performed : connection.conn.step (.api (.writeCall callId payload copy reserve)) =
      some (connection.conn.api (.writeCall callId payload copy reserve)).2 := rfl
    exact known.step (tame.lookup present).reachable.wellFormed performed
  present := by
    intro call id holds
    apply holds.modify
    intro connection _ _ _ present
    exact Conn.isSome_of_keeps (connection.conn.api_acts _).toKeeps present

theorem trans {middle next : Host} (before : Carries host middle) (after : Carries middle next) :
    Carries host next where
  tame := after.tame
  armed := fun call id hook holds => after.armed call id hook (before.armed call id hook holds)
  handling := fun call id holds => after.handling call id (before.handling call id holds)
  known := fun call id holds => after.known call id (before.known call id holds)
  present := fun call id holds => after.present call id (before.present call id holds)

theorem replay (tame : host.Tame) (plain : ∀ item ∈ host.pending, item.finish = false)
    (copy reserve : Bool) : Carries host (host.replay copy reserve) := by
  unfold Host.replay
  split
  next => exact .of_conns tame rfl
  next item rest taken =>
    split
    next => exact .of_conns tame rfl
    next address call =>
      split
      next => exact .of_conns tame rfl
      next alive =>
        have isWrite : item.apiCall copy reserve =
            .writeCall item.callId item.payload copy reserve := by
          have unfinished := plain item (by simp [Host.pending, taken])
          simp [Item.apiCall, unfinished]
        have written := Carries.write tame address item.callId item.payload copy reserve
        rw [isWrite]
        exact written.trans (.of_conns written.tame rfl)

end Carries

theorem Mailbox.queue_callWrite (mailbox : Mailbox) (call : Handle) (callId : StreamId)
    (message : Bytes) (copy reserve : Bool) :
    (grpcudsCallWrite mailbox (some call) callId message copy reserve).2 =
      if copy && reserve then
        { mailbox with
          queue := mailbox.queue ++
            [⟨some call.address, callId, message, false, .ok, call.serial⟩] }
      else mailbox := by
  cases copy <;> cases reserve <;> rfl

/-! ### The handlers that a pass enters -/

theorem mem_enteredWatches {call : Handle} {effects : List Effect} {entered : Entered}
    (member : entered ∈ enteredWatches call effects) :
    entered.call = call ∧ entered.callId ∈ Serve.invokedIds effects := by
  obtain ⟨effect, listed, made⟩ := List.mem_filterMap.mp member
  cases effect with
  | invoked id handler userData payload =>
      simp only at made
      split at made
      · obtain rfl := Option.some.inj made
        exact ⟨rfl, List.mem_filterMap.mpr ⟨_, listed, rfl⟩⟩
      · simp at made
  | _ => simp at made

theorem enteredWatches_sublist (call : Handle) (effects : List Effect) :
    ((enteredWatches call effects).map Entered.callId).Sublist (Serve.invokedIds effects) := by
  induction effects with
  | nil => exact List.Sublist.refl _
  | cons effect rest ih =>
      cases effect with
      | invoked id handler userData payload =>
          by_cases isWatch : handler = watchTrFn
          · simpa [enteredWatches, Serve.invokedIds, isWatch] using ih
          · simpa [enteredWatches, Serve.invokedIds, isWatch] using ih.cons id
      | _ => simpa [enteredWatches, Serve.invokedIds] using ih

theorem nodup_enteredWatches (wellFormed : conn.WellFormed) (call : Handle) (env : DispatchEnv) :
    ((enteredWatches call ((conn.dispatch env).2.log.drop conn.log.length)).map
      Entered.target).Nodup := by
  have ids := enteredWatches_sublist call ((conn.dispatch env).2.log.drop conn.log.length)
  rw [Serve.invokedIds_dispatch wellFormed] at ids
  have distinct := (wellFormed.distinct.sublist (Serve.invokedIds_sublist conn _)).sublist ids
  apply List.Nodup.of_map Target.callId
  rw [List.map_map]
  exact distinct

/-- What `watch_tr` can do: answer the call, and register a watcher that it arms. -/
structure HealthState.Watching (state next : HealthState) (call : Handle) (callId : StreamId)
    (request : Bytes) (box : Nat) (copy reserve encoded writeCopy writeReserve : Bool)
    (calls : List ApiCall) : Prop where
  statuses : next.statuses = state.statuses
  about : ∀ made ∈ calls, made.callId = callId
  watchers : ∀ watcher ∈ next.watchers, watcher ∈ state.watchers ∨
    ∃ service, watcher = ⟨box, call, callId, service, true⟩ ∧
      decodeCheckRequest request = some service ∧ (copy && reserve) = true ∧
      calls = [.setCancelHook callId watcher.hook,
        .writeCall callId (encodeResponse (state.current service) encoded) writeCopy writeReserve]

theorem HealthState.watchTr_cases (state : HealthState) (call : Handle) (callId : StreamId)
    (request : Bytes) (box : Nat) (copy reserve encoded writeCopy writeReserve : Bool) :
    state.Watching
      (state.watchTr call callId request box copy reserve encoded writeCopy writeReserve).1
      call callId request box copy reserve encoded writeCopy writeReserve
      (state.watchTr call callId request box copy reserve encoded writeCopy writeReserve).2 := by
  unfold HealthState.watchTr
  cases decoded : decodeCheckRequest request with
  | none => exact ⟨rfl, by simp [ApiCall.callId], fun watcher member => .inl member⟩
  | some service =>
      cases copy with
      | false => exact ⟨rfl, by simp [ApiCall.callId], fun watcher member => .inl member⟩
      | true =>
          cases reserve with
          | false =>
              refine ⟨rfl, by simp [ApiCall.callId], fun watcher member => .inl ?_⟩
              exact List.mem_of_mem_filter member
          | true =>
              refine ⟨rfl, by simp [ApiCall.callId], fun watcher member => ?_⟩
              rcases Table.mem_concat.mp member with old | rfl
              · exact .inl (List.mem_of_mem_filter old)
              · exact .inr ⟨service, rfl, decoded, rfl, rfl⟩

theorem HealthState.watchers_set (state : HealthState) (service : Bytes) (status : Int)
    (reserve : Bool) : (state.set service status reserve).watchers = state.watchers := by
  unfold HealthState.set
  split
  · rfl
  · split <;> rfl

/-- A snapshot names live watchers of the service. -/
theorem HealthState.mem_snapshot {state : HealthState} {service : Bytes} {room : Nat}
    {target : Target} (listed : target ∈ state.snapshot service room) :
    ∃ watcher ∈ state.watchers, watcher.live = true ∧ watcher.target = target ∧
      watcher.service = service := by
  obtain ⟨watcher, selected, rfl⟩ := List.mem_map.mp (List.mem_of_mem_take listed)
  obtain ⟨watching, chosen⟩ := List.mem_filter.mp selected
  obtain ⟨live, serves⟩ := Bool.and_eq_true_iff.mp chosen
  exact ⟨watcher, watching, live, rfl, of_decide_eq_true serves⟩

namespace Health

/-- The handler of a watcher is about to arm its call. -/
def Greets (health : Health) (watcher : Watcher) : Prop :=
  ∃ greeting, health.greeting = some greeting ∧ greeting.target = watcher.target ∧
    ∃ payload copy reserve, greeting.calls =
      [.setCancelHook watcher.callId watcher.hook,
        .writeCall watcher.callId payload copy reserve]

/-- A watcher whose hook will run if its call fails. -/
def Attended (health : Health) (watcher : Watcher) : Prop :=
  health.Greets watcher ∨
    (health.host.Holds watcher.call (Armed · watcher.callId watcher.hook) ∧
      ∀ greeting, health.greeting = some greeting → greeting.target ≠ watcher.target)

structure Sound (health : Health) : Prop where
  tame : health.host.Tame
  plain : ∀ item ∈ health.host.pending, item.finish = false
  watchers : ∀ watcher ∈ health.state.watchers, watcher.live = true →
    ⟨watcher.call.serial, watcher.callId, watcher.service⟩ ∈ health.watched ∧
      health.Attended watcher
  targets : ∀ call ∈ health.calls, ∀ target ∈ call.targets,
    ⟨target.call.serial, target.callId, call.service⟩ ∈ health.watched ∧
      health.host.Holds target.call (Known · target.callId)
  greeting : ∀ greeting, health.greeting = some greeting →
    health.host.Holds greeting.call (Handling · greeting.callId) ∧
      ∀ call ∈ greeting.calls, call.callId = greeting.callId
  entered : ∀ entered ∈ health.entered,
    health.host.Holds entered.call (Handling · entered.callId)
  /-- A handler runs once for a call. -/
  fresh : ∀ entered ∈ health.entered,
    (∀ watcher ∈ health.state.watchers, watcher.live = true → watcher.target ≠ entered.target) ∧
      ∀ greeting, health.greeting = some greeting → greeting.target ≠ entered.target
  once : (health.entered.map Entered.target).Nodup

theorem sound_new : Health.new.Sound := by
  constructor <;>
    simp [Health.new, Host.new, Host.Tame, Host.pending, Mailbox.new, HealthState.registered]

variable {health : Health}

theorem atRest_iff :
    health.atRest = true ↔ health.entered = [] ∧ health.greeting = none ∧
      ∀ call ∈ health.calls, call.inline = false := by
  simp [atRest, idle]

/-- The calls in progress, and their targets, are among those there were. -/
theorem calls_same (health : Health) :
    ∀ call ∈ health.calls, ∃ old ∈ health.calls, old.service = call.service ∧
      ∀ target ∈ call.targets, target ∈ old.targets := fun call member =>
  ⟨call, member, rfl, fun _ => id⟩

/-- Handing a target over leaves the call with the rest of them. -/
theorem calls_shrink {position : Nat} {call : Notify} {target : Target} {rest : List Target}
    (listed : health.calls[position]? = some call) (targets : call.targets = target :: rest) :
    ∀ other ∈ health.calls.set position { call with targets := rest }, ∃ old ∈ health.calls,
      old.service = other.service ∧ ∀ target ∈ other.targets, target ∈ old.targets := by
  intro other member
  rcases List.mem_or_eq_of_mem_set member with old | rfl
  · exact ⟨other, old, rfl, fun _ => id⟩
  · refine ⟨call, List.mem_of_getElem? listed, rfl, fun later held => ?_⟩
    rw [targets]
    exact List.mem_cons_of_mem _ held

theorem idle_iff :
    health.idle = true ↔ health.greeting = none ∧ ∀ call ∈ health.calls, call.inline = false := by
  simp [idle]

section CallCore

variable (health : Health) (address : Address) (made : List ApiCall)

@[simp]
theorem callCore_state : (health.callCore address made).state = health.state := by
  unfold callCore
  split <;> rfl

@[simp]
theorem callCore_calls : (health.callCore address made).calls = health.calls := by
  unfold callCore
  split <;> rfl

@[simp]
theorem callCore_entered : (health.callCore address made).entered = health.entered := by
  unfold callCore
  split <;> rfl

@[simp]
theorem callCore_batch : (health.callCore address made).host.batch = health.host.batch := by
  unfold callCore
  split <;> rfl

@[simp]
theorem callCore_mailbox : (health.callCore address made).host.mailbox = health.host.mailbox := by
  unfold callCore
  split <;> rfl

@[simp]
theorem callCore_greeting : (health.callCore address made).greeting = health.greeting := by
  unfold callCore
  split <;> rfl

end CallCore

theorem callCore_of_present (present : health.host.lookup address = some connection)
    (calls : List ApiCall) :
    health.callCore address calls =
      { health with
        host := health.host.modify address fun conn =>
          calls.foldl (fun conn call => (conn.api call).2) conn
        written := health.written ++ (acceptedWrites connection.conn calls).map fun write =>
          ⟨connection.serial, write.1, write.2⟩ } := by
  simp [callCore, present]

namespace Sound

variable {health : Health}

variable (sound : health.Sound)
include sound

/-- A step that leaves the registry and the handlers alone. -/
theorem carry {next : Health} (carries : Carries health.host next.host)
    (plain : ∀ item ∈ next.host.pending, item.finish = false) (state : next.state = health.state)
    (watched : next.watched = health.watched) (greeting : next.greeting = health.greeting)
    (entered : next.entered = health.entered)
    (calls : ∀ call ∈ next.calls, ∃ old ∈ health.calls, old.service = call.service ∧
      ∀ target ∈ call.targets, target ∈ old.targets) : next.Sound where
  tame := carries.tame
  plain := plain
  watchers := by
    intro watcher member live
    rw [state] at member
    obtain ⟨known, attended⟩ := sound.watchers watcher member live
    refine ⟨watched ▸ known, ?_⟩
    rcases attended with greets | ⟨armed, apart⟩
    · left
      unfold Greets
      rwa [greeting]
    · exact .inr ⟨carries.armed _ _ _ armed, greeting ▸ apart⟩
  targets := by
    intro call member target listed
    obtain ⟨old, oldMember, service, subset⟩ := calls call member
    obtain ⟨registered, known⟩ := sound.targets old oldMember target (subset target listed)
    exact ⟨watched ▸ service ▸ registered, carries.known _ _ known⟩
  greeting := by
    intro greeted pending
    obtain ⟨handling, about⟩ := sound.greeting greeted (greeting ▸ pending)
    exact ⟨carries.handling _ _ handling, about⟩
  entered := fun handler member =>
    carries.handling _ _ (sound.entered handler (entered ▸ member))
  fresh := by
    rw [entered, state, greeting]
    exact sound.fresh
  once := entered ▸ sound.once

theorem pending_notify (target : Target) (message : Bytes) (copy reserve : Bool) :
    ∀ item ∈ { health.host with
      mailbox := (grpcudsCallWrite health.host.mailbox (some target.call) target.callId
        message copy reserve).2 }.pending, item.finish = false := by
  intro item member
  rw [Mailbox.queue_callWrite] at member
  split at member
  · rcases List.mem_append.mp member with queued | taken
    · rcases Table.mem_concat.mp queued with old | rfl
      · exact sound.plain item (List.mem_append_left _ old)
      · rfl
    · exact sound.plain item (List.mem_append_right _ taken)
  · exact sound.plain item member

theorem pending_replay (copy reserve : Bool) :
    ∀ item ∈ (health.host.replay copy reserve).pending, item.finish = false :=
  fun item waiting => sound.plain item (Host.mem_pending_of_replay waiting)

/-! ### Ticks and frees -/

theorem attended_atRest (rest : health.atRest = true) {watcher : Watcher}
    (member : watcher ∈ health.state.watchers) (live : watcher.live = true) :
    health.host.Holds watcher.call (Armed · watcher.callId watcher.hook) := by
  obtain ⟨_, calm, _⟩ := atRest_iff.mp rest
  rcases (sound.watchers watcher member live).2 with ⟨greeting, pending, _⟩ | ⟨armed, _⟩
  · simp [calm] at pending
  · exact armed

omit sound

/-- With no handler at work only the watchers and the targets are to be looked after. -/
theorem of_atRest {next : Health} (rest : health.atRest = true) (tame : next.host.Tame)
    (plain : ∀ item ∈ next.host.pending, item.finish = false)
    (watchers : ∀ watcher ∈ next.state.watchers, watcher.live = true →
      ⟨watcher.call.serial, watcher.callId, watcher.service⟩ ∈ next.watched ∧
        next.host.Holds watcher.call (Armed · watcher.callId watcher.hook))
    (targets : ∀ call ∈ next.calls, ∀ target ∈ call.targets,
      ⟨target.call.serial, target.callId, call.service⟩ ∈ next.watched ∧
        next.host.Holds target.call (Known · target.callId))
    (greeting : next.greeting = health.greeting) (entered : next.entered = health.entered) :
    next.Sound := by
  obtain ⟨nobody, calm, _⟩ := atRest_iff.mp rest
  rw [calm] at greeting
  rw [nobody] at entered
  refine ⟨tame, plain, fun watcher member live => ?_, targets, ?_, ?_, ?_, ?_⟩
  · obtain ⟨known, armed⟩ := watchers watcher member live
    exact ⟨known, .inr ⟨armed, by simp [greeting]⟩⟩
  · simp [greeting]
  · simp [entered]
  · simp [entered]
  · simp [entered]

include sound

theorem tick {event : ConnEvent} (rest : health.atRest = true) (allowed : Serve.ticks event = true)
    (present : health.host.lookup address = some connection) (legal : connection.conn.Legal event)
    (unclean : ∀ watcher ∈ health.state.watchers, watcher.live = true →
      watcher.call.address = address → event ≠ .streamClose watcher.callId 0) :
    { health with
      host := health.host.modify address fun conn => conn.perform event
      state := health.state.onCancel
        (firedHooks connection.conn (connection.conn.perform event)) }.Sound := by
  have only {other : Connection} (found : health.host.lookup address = some other) :
      connection = other := Option.some.inj (present.symm.trans found)
  have performed : connection.conn.step event = some (connection.conn.perform event) :=
    Conn.step_eq_some_iff.mpr ⟨legal, rfl⟩
  apply Sound.of_atRest rest
  · apply sound.tame.modify
    intro other found
    obtain rfl := only found
    exact (sound.tame.lookup present).tick allowed performed
  · exact sound.plain
  · intro watcher member live
    obtain ⟨old, oldMember, rfl⟩ := List.mem_map.mp member
    split at live
    next => simp at live
    next unfired =>
      rw [if_neg unfired]
      refine ⟨(sound.watchers old oldMember live).1, ?_⟩
      apply (sound.attended_atRest rest oldMember live).modify
      intro other found same _ armed
      obtain rfl := only found
      have kept := armed.tick (sound.tame.lookup present).reachable.wellFormed legal allowed
        (unclean old oldMember live same)
      exact kept.resolve_right unfired
  · intro call member target listed
    obtain ⟨registered, known⟩ := sound.targets call member target listed
    refine ⟨registered, known.modify fun other found _ _ known => ?_⟩
    obtain rfl := only found
    exact known.step (sound.tame.lookup present).reachable.wellFormed performed
  · rfl
  · rfl

theorem free (rest : health.atRest = true) (reserve : Bool)
    (unwatched : ∀ watcher ∈ health.state.watchers, watcher.live = true →
      watcher.call.address ≠ address) (untargeted : ∀ call ∈ health.calls, ∀ target ∈ call.targets,
      target.call.address ≠ address) :
    { health with host := health.host.free address reserve }.Sound := by
  apply Sound.of_atRest rest
  · exact fun connection member => sound.tame connection (List.mem_of_mem_filter member)
  · intro item member
    rcases List.mem_append.mp member with queued | taken
    · obtain ⟨old, oldMember, rfl⟩ := List.mem_map.mp queued
      have plain := sound.plain old (List.mem_append_left _ oldMember)
      split
      · exact plain
      · exact plain
    · exact sound.plain item (List.mem_append_right _ taken)
  · intro watcher member live
    refine ⟨(sound.watchers watcher member live).1, ?_⟩
    exact (sound.attended_atRest rest member live).free (unwatched watcher member live) reserve
  · intro call member target listed
    obtain ⟨registered, known⟩ := sound.targets call member target listed
    exact ⟨registered, known.free (untargeted call member target listed) reserve⟩
  · rfl
  · rfl

/-! ### The `Watch` handler -/

theorem dispatch (rest : health.atRest = true)
    (present : health.host.lookup address = some connection) (submitRc : Nat → Int) :
    { health with
      host := health.host.modify address fun conn =>
        (conn.dispatch (Serve.trampolines submitRc)).2
      entered := enteredWatches ⟨address, connection.serial⟩
        ((connection.conn.dispatch (Serve.trampolines submitRc)).2.log.drop
          connection.conn.log.length) }.Sound := by
  obtain ⟨nobody, calm, _⟩ := atRest_iff.mp rest
  have tame := sound.tame.lookup present
  have wellFormed := tame.reachable.wellFormed
  have only {other : Connection} (found : health.host.lookup address = some other) :
      connection = other := Option.some.inj (present.symm.trans found)
  refine ⟨?_, sound.plain, ?_, ?_, ?_, ?_, ?_, ?_⟩
  · exact sound.tame.modify fun other found => (sound.tame.lookup found).dispatch submitRc
  · intro watcher member live
    refine ⟨(sound.watchers watcher member live).1, .inr ⟨?_, by simp [calm]⟩⟩
    apply (sound.attended_atRest rest member live).modify
    intro other found _ _ armed
    exact armed.dispatch (sound.tame.lookup found).reachable submitRc
  · intro call member target listed
    obtain ⟨registered, known⟩ := sound.targets call member target listed
    refine ⟨registered, known.modify fun other found _ _ known => ?_⟩
    have performed : other.conn.step (.dispatch (Serve.trampolines submitRc)) =
      some (other.conn.dispatch (Serve.trampolines submitRc)).2 := rfl
    exact known.step (sound.tame.lookup found).reachable.wellFormed performed
  · simp [calm]
  · intro entered member
    obtain ⟨call, invoked⟩ := mem_enteredWatches member
    obtain ⟨_, dispatched, awaits⟩ := Serve.awaits_of_invoked tame submitRc invoked
    rw [call]
    have held : health.host.lookup (⟨address, connection.serial⟩ : Handle).address =
      some connection := present
    exact Host.holds_modify (Handling · entered.callId)
      (fun conn => (conn.dispatch (Serve.trampolines submitRc)).2) held rfl ⟨awaits, dispatched⟩
  · intro entered member
    refine ⟨fun watcher listed live same => ?_, by simp [calm]⟩
    -- the watcher's call was dispatched before, and this one was not
    obtain ⟨call, invoked⟩ := mem_enteredWatches member
    obtain ⟨undispatched, _⟩ := Serve.awaits_of_invoked tame submitRc invoked
    obtain ⟨sameCall, sameId⟩ := Target.mk.inj same
    obtain ⟨other, found, _, armed⟩ := sound.attended_atRest rest listed live
    rw [sameCall, call] at found
    obtain rfl := only found
    have dispatched := armed.dispatched
    rw [sameId] at dispatched
    omega
  · exact nodup_enteredWatches wellFormed _ _

theorem watch {entered : Entered} {rest : List Entered} (pending : health.entered = entered :: rest)
    (calm : health.greeting = none) (box : Nat) (copy reserve encoded writeCopy writeReserve : Bool)
    :
    
    { health with
      state := (health.state.watchTr entered.call entered.callId entered.request box copy
        reserve encoded writeCopy writeReserve).1
      entered := rest
      greeting := some ⟨entered.call, entered.callId,
        (health.state.watchTr entered.call entered.callId entered.request box copy reserve
          encoded writeCopy writeReserve).2⟩
      watched := health.watched ++
        if copy && reserve then
          (decodeCheckRequest entered.request).toList.map fun service =>
            (⟨entered.call.serial, entered.callId, service⟩ : Watched)
        else [] }.Sound := by
  have handling := sound.entered entered (by simp [pending])
  obtain ⟨unwatched, _⟩ := sound.fresh entered (by simp [pending])
  have once := sound.once
  rw [pending, List.map_cons, List.nodup_cons] at once
  have armed {watcher : Watcher} (member : watcher ∈ health.state.watchers)
      (live : watcher.live = true) :
      health.host.Holds watcher.call (Armed · watcher.callId watcher.hook) := by
    rcases (sound.watchers watcher member live).2 with ⟨greeting, greets, _⟩ | ⟨armed, _⟩
    · simp [calm] at greets
    · exact armed
  have outcome := health.state.watchTr_cases entered.call entered.callId entered.request box copy
    reserve encoded writeCopy writeReserve
  refine ⟨sound.tame, sound.plain, ?_, ?_, ?_, ?_, ?_, once.2⟩
  · intro watcher member live
    rcases outcome.watchers watcher member with old | ⟨service, rfl, decoded, granted, calls⟩
    · refine ⟨List.mem_append_left _ (sound.watchers watcher old live).1, .inr ⟨armed old live, ?_⟩⟩
      rintro greeting ⟨⟩
      exact Ne.symm (unwatched watcher old live)
    · refine ⟨List.mem_append_right _ ?_, .inl ⟨_, rfl, rfl, _, _, _, calls⟩⟩
      simp [granted, decoded]
  · intro call member target listed
    obtain ⟨registered, known⟩ := sound.targets call member target listed
    exact ⟨List.mem_append_left _ registered, known⟩
  · rintro greeting ⟨⟩
    exact ⟨handling, outcome.about⟩
  · exact fun other member => sound.entered other (by simp [pending, member])
  · intro other member
    have listed : other.target ∈ rest.map Entered.target := List.mem_map_of_mem member
    refine ⟨fun watcher held live => ?_, ?_⟩
    · rcases outcome.watchers watcher held with old | ⟨service, rfl, _⟩
      · exact (sound.fresh other (by simp [pending, member])).1 watcher old live
      · intro same
        have same : entered.target = other.target := same
        exact once.1 (same ▸ listed)
    · rintro greeting ⟨⟩ same
      have same : entered.target = other.target := same
      exact once.1 (same ▸ listed)

omit sound

theorem armed_of_greets {greeting : Greeting} {watcher : Watcher} (tame : Serve.Tame conn)
    (handling : Handling conn watcher.callId) (calls : ∃ payload copy reserve, greeting.calls =
      [.setCancelHook watcher.callId watcher.hook,
        .writeCall watcher.callId payload copy reserve]) :
    Armed (greeting.calls.foldl (fun conn call => (conn.api call).2) conn) watcher.callId
      watcher.hook := by
  obtain ⟨payload, copy, reserve, calls⟩ := calls
  have performed : conn.step (.api (.setCancelHook watcher.callId watcher.hook)) =
      some (conn.api (.setCancelHook watcher.callId watcher.hook)).2 := rfl
  have hooked := Armed.of_setCancelHook tame.reachable.wellFormed handling.1 handling.2 watcher.hook
  rw [calls]
  exact hooked.api (tame.reachable.step performed).wellFormed rfl

include sound

theorem greet {greeting : Greeting} (pending : health.greeting = some greeting) :
    { health.callCore greeting.call.address greeting.calls with greeting := none }.Sound := by
  obtain ⟨⟨connection, present, serial, handling⟩, about⟩ := sound.greeting greeting pending
  have tame := sound.tame.lookup present
  have only {other : Connection}
      (found : health.host.lookup greeting.call.address = some other) : connection = other :=
    Option.some.inj (present.symm.trans found)
  -- two calls at one address with different targets are different streams
  have apart {call : Handle} {callId : StreamId} {other : Connection}
      (found : health.host.lookup greeting.call.address = some other)
      (same : call.address = greeting.call.address) (served : other.serial = call.serial)
      (different : greeting.target ≠ ⟨call, callId⟩) : greeting.callId ≠ callId := by
    rintro rfl
    obtain rfl := only found
    apply different
    have sameCall : greeting.call = call := Handle.ext same.symm (serial.symm.trans served)
    exact sameCall ▸ rfl
  rw [callCore_of_present present]
  refine ⟨?_, sound.plain, ?_, ?_, by simp, ?_, ?_, sound.once⟩
  · apply sound.tame.modify
    intro other found
    obtain rfl := only found
    exact tame_calls tame handling.2 about
  · intro watcher member live
    obtain ⟨known, attended⟩ := sound.watchers watcher member live
    refine ⟨known, .inr ⟨?_, by simp⟩⟩
    rcases attended with ⟨other, greets, same, calls⟩ | ⟨armed, different⟩
    · obtain rfl := Option.some.inj (pending.symm.trans greets)
      obtain ⟨sameCall, sameId⟩ := Target.mk.inj same
      rw [sameId] at handling
      rw [sameCall] at present serial
      rw [sameCall]
      exact Host.holds_modify (Armed · watcher.callId watcher.hook)
        (fun conn => greeting.calls.foldl (fun conn call => (conn.api call).2) conn) present serial
        (armed_of_greets tame handling calls)
    · apply armed.modify
      intro other found same served held
      exact held.calls (sound.tame.lookup found).reachable about
        (apart found same served (different greeting pending))
  · intro call member target listed
    obtain ⟨registered, known⟩ := sound.targets call member target listed
    refine ⟨registered, known.modify fun other found _ _ known => ?_⟩
    exact known.calls (sound.tame.lookup found).reachable
  · intro entered member
    obtain ⟨_, different⟩ := sound.fresh entered member
    apply (sound.entered entered member).modify
    intro other found same served held
    obtain rfl := only found
    exact held.calls tame handling.2 about (apart found same served (different greeting pending))
  · exact fun entered member => ⟨(sound.fresh entered member).1, by simp⟩

/-! ### Status changes -/

theorem holds_attended {watcher : Watcher} (member : watcher ∈ health.state.watchers)
    (live : watcher.live = true) :
    health.host.Holds watcher.call (Handling · watcher.callId) := by
  rcases (sound.watchers watcher member live).2 with ⟨greeting, pending, same, _⟩ | ⟨armed, _⟩
  · obtain ⟨sameCall, sameId⟩ := Target.mk.inj same
    rw [← sameCall, ← sameId]
    exact (sound.greeting greeting pending).1
  · exact armed.imp fun conn armed => armed.handling

theorem setStatus (service : Bytes) (status : Int) (inline stored encoded : Bool) (room : Nat) :
    (health.setStatus service status inline stored encoded room).Sound := by
  have kept := health.state.watchers_set service status stored
  refine ⟨sound.tame, sound.plain, ?_, ?_, sound.greeting, sound.entered, ?_, sound.once⟩
  · intro watcher member live
    exact sound.watchers watcher (kept ▸ member) live
  · intro call member target listed
    rcases Table.mem_concat.mp member with old | rfl
    · exact sound.targets call old target listed
    · obtain ⟨watcher, watching, live, rfl, rfl⟩ := HealthState.mem_snapshot listed
      rw [kept] at watching
      refine ⟨(sound.watchers watcher watching live).1, ?_⟩
      exact (sound.holds_attended watching live).imp fun conn handling => handling.2
  · intro entered member
    obtain ⟨unwatched, apart⟩ := sound.fresh entered member
    exact ⟨fun watcher watching => unwatched watcher (kept ▸ watching), apart⟩

theorem notifyInline {position : Nat} {call : Notify} {target : Target} {rest : List Target}
    (listed : health.calls[position]? = some call) (targets : call.targets = target :: rest)
    (copy reserve : Bool) :
    { health.callCore target.call.address
        [.writeCall target.callId call.message copy reserve] with
      calls := health.calls.set position { call with targets := rest } }.Sound := by
  have member : target ∈ call.targets := by simp [targets]
  obtain ⟨_, connection, present, _⟩ :=
    sound.targets call (List.mem_of_getElem? listed) target member
  rw [callCore_of_present present]
  apply sound.carry
  · exact Carries.write sound.tame _ _ _ _ _
  · exact sound.plain
  · rfl
  · rfl
  · rfl
  · rfl
  · exact calls_shrink listed targets

end Sound

/-! ### Whole runs -/

/-- A live watcher on a stream. -/
def watchedAt (health : Health) (onStream : Target → Bool) : Bool :=
  health.state.watchers.any fun watcher => watcher.live && onStream watcher.target

/-- A `set_status` call in progress has a stream among its targets. -/
def targetedAt (health : Health) (onStream : Target → Bool) : Bool :=
  health.calls.any fun call => call.targets.any onStream

/-- The event runs the hooks of the watchers that it takes a stream from, and frees no
connection that a `set_status` call in progress has a target on. -/
def keeps (health : Health) : HealthEvent → Bool
  | .free address _ =>
      !health.watchedAt (fun target => target.call.address = address) &&
        !health.targetedAt fun target => target.call.address = address
  | .tick address (.streamClose id errorCode) =>
      errorCode != 0 ||
        !health.watchedAt fun target => target.call.address = address && target.callId = id
  | _ => true

/-- Nor does it close a stream that is such a target. -/
def spares (health : Health) (event : HealthEvent) : Bool :=
  health.keeps event &&
    match event with
    | .tick address (.streamClose id _) =>
        !health.targetedAt fun target => target.call.address = address && target.callId = id
    | _ => true

theorem watchedAt_eq_false {onStream : Target → Bool} :
    health.watchedAt onStream = false ↔ ∀ watcher ∈ health.state.watchers, watcher.live = true →
      onStream watcher.target = false := by
  simp [watchedAt]

theorem targetedAt_eq_false {onStream : Target → Bool} :
    health.targetedAt onStream = false ↔ ∀ call ∈ health.calls, ∀ target ∈ call.targets,
      onStream target = false := by
  simp [targetedAt]

theorem step_sound {next : Health} {event : HealthEvent} (sound : health.Sound)
    (kept : health.keeps event = true) (performed : health.step event = some next) :
    next.Sound := by
  have same := health.calls_same
  cases step_inv performed with
  | accept rest vacant =>
      exact sound.carry (.accept sound.tame vacant _ _ _) sound.plain rfl rfl rfl rfl same
  | free rest idle =>
      simp only [keeps, Bool.and_eq_true, Bool.not_eq_true', watchedAt_eq_false,
        targetedAt_eq_false, decide_eq_false_iff_not] at kept
      exact sound.free rest _ kept.1 kept.2
  | @tick address event connection rest allowed present legal =>
      apply sound.tick rest allowed present legal
      rintro watcher member live same rfl
      simp only [keeps, bne_self_eq_false, Bool.false_or, Bool.not_eq_true',
        watchedAt_eq_false] at kept
      simpa [same, Watcher.target] using kept watcher member live
  | dispatch rest idle present => exact sound.dispatch rest present _
  | watch pending idle fresh => exact sound.watch pending (idle_iff.mp idle).1 _ _ _ _ _ _
  | greet pending => exact sound.greet pending
  | setStatus may => exact sound.setStatus _ _ _ _ _ _
  | notifyInline listed targets direct => exact sound.notifyInline listed targets _ _
  | notifyQueued listed targets queued =>
      refine sound.carry (.of_conns sound.tame rfl) (sound.pending_notify _ _ _ _)
        rfl rfl rfl rfl ?_
      exact calls_shrink listed targets
  | returned listed done =>
      refine sound.carry (.of_conns sound.tame rfl) sound.plain rfl rfl rfl rfl ?_
      exact fun call member => same call (List.mem_of_mem_eraseIdx member)
  | drain rest idle =>
      refine sound.carry (.of_conns sound.tame rfl) ?_ rfl rfl rfl rfl same
      intro item member
      exact sound.plain item (by simpa [Host.pending, Host.drain, idle] using member)
  | replay =>
      exact sound.carry (.replay sound.tame sound.plain _ _) (sound.pending_replay _ _) rfl rfl
        rfl rfl same

/-- The streams that are still to be told are open. -/
def Standing (health : Health) : Prop :=
  ∀ call ∈ health.calls, ∀ target ∈ call.targets,
    health.host.Holds target.call fun conn => (conn.findStream target.callId).isSome

theorem Standing.carry {next : Health} (standing : health.Standing)
    (carries : Carries health.host next.host)
    (calls : ∀ call ∈ next.calls, ∃ old ∈ health.calls, old.service = call.service ∧
      ∀ target ∈ call.targets, target ∈ old.targets) : next.Standing := by
  intro call member target listed
  obtain ⟨old, oldMember, _, subset⟩ := calls call member
  exact carries.present _ _ (standing old oldMember target (subset target listed))

theorem step_standing {next : Health} {event : HealthEvent} (sound : health.Sound)
    (standing : health.Standing) (spared : health.spares event = true)
    (performed : health.step event = some next) : next.Standing := by
  obtain ⟨kept, unclosed⟩ := Bool.and_eq_true_iff.mp spared
  cases step_inv performed with
  | accept rest vacant => exact standing.carry (.accept sound.tame vacant _ _ _) health.calls_same
  | free rest idle =>
      simp only [keeps, Bool.and_eq_true, Bool.not_eq_true', targetedAt_eq_false,
        decide_eq_false_iff_not] at kept
      intro call member target listed
      exact (standing call member target listed).free (kept.2 call member target listed) _
  | @tick address event connection rest allowed present legal =>
      intro call member target listed
      apply (standing call member target listed).modify
      intro other found same _ opened
      obtain rfl := Option.some.inj (present.symm.trans found)
      apply Conn.isSome_tick (sound.tame.lookup present).reachable.wellFormed legal allowed _ opened
      rintro errorCode rfl
      simp only [Bool.not_eq_true', targetedAt_eq_false] at unclosed
      simpa [same] using unclosed call member target listed
  | @dispatch address submitRc connection rest idle present =>
      intro call member target listed
      apply (standing call member target listed).modify
      intro other found _ _ opened
      have wellFormed := (sound.tame.lookup found).reachable.wellFormed
      have acts := other.conn.dispatch_acts (Serve.trampolines submitRc) wellFormed.distinct
        wellFormed.idle
      exact Conn.isSome_of_keeps acts.toKeeps opened
  | watch pending idle fresh => exact standing
  | greet pending =>
      obtain ⟨⟨connection, present, _⟩, _⟩ := sound.greeting _ pending
      rw [callCore_of_present present]
      intro call member target listed
      apply (standing call member target listed).modify
      intro other _ _ _ opened
      exact Conn.isSome_of_keeps (other.conn.calls_act _).toKeeps opened
  | setStatus may =>
      intro call member target listed
      rcases Table.mem_concat.mp member with old | rfl
      · exact standing call old target listed
      · obtain ⟨watcher, watching, live, rfl, _⟩ := HealthState.mem_snapshot listed
        rw [HealthState.watchers_set] at watching
        exact (sound.holds_attended watching live).imp fun conn handling => handling.isSome
  | @notifyInline position copy reserve call target rest listed targets direct =>
      obtain ⟨_, connection, present, _⟩ :=
        sound.targets call (List.mem_of_getElem? listed) target (by simp [targets])
      rw [callCore_of_present present]
      exact standing.carry (.write sound.tame _ _ _ _ _) (calls_shrink listed targets)
  | notifyQueued listed targets queued =>
      exact standing.carry (.of_conns sound.tame rfl) (calls_shrink listed targets)
  | returned listed done =>
      refine standing.carry (.of_conns sound.tame rfl) ?_
      exact fun call member => health.calls_same call (List.mem_of_mem_eraseIdx member)
  | drain rest idle => exact standing.carry (.of_conns sound.tame rfl) health.calls_same
  | replay => exact standing.carry (.replay sound.tame sound.plain _ _) health.calls_same

/-- The target is on a connection that is there, and names an open stream of it that
was registered as a `Watch` of the service. -/
def Designates (health : Health) (service : Bytes) (target : Target) : Prop :=
  ∃ connection, health.host.lookup target.call.address = some connection ∧
    (connection.conn.findStream target.callId).isSome ∧
    ⟨connection.serial, target.callId, service⟩ ∈ health.watched

/-- What `set_status` has yet to hand over, the next target and the later ones. -/
theorem set_status_reaches_open_watches {events : List HealthEvent} {health : Health}
    (spared : Along step (fun health event => health.spares event = true) .new events)
    (reached : run step .new events = some health) :
    ∀ call ∈ health.calls, ∀ target ∈ call.targets, health.Designates call.service target := by
  have start : Health.new.Sound ∧ Health.new.Standing := ⟨sound_new, by simp [Standing, Health.new]⟩
  have invariant : health.Sound ∧ health.Standing := by
    apply spared.run_invariant _ start reached
    intro health event next ⟨sound, standing⟩ spared performed
    exact ⟨step_sound sound (Bool.and_eq_true_iff.mp spared).1 performed,
      step_standing sound standing spared performed⟩
  intro call member target listed
  obtain ⟨registered, _⟩ := invariant.1.targets call member target listed
  obtain ⟨connection, present, serial, opened⟩ := invariant.2 call member target listed
  exact ⟨connection, present, opened, serial ▸ registered⟩

/-- A connection with the `Watch` method. -/
def acceptWatches (address : Address) : HealthEvent :=
  .accept address [⟨Headers.ascii "/grpc.health.v1.Health/Watch", watchTrFn, 0, none⟩] 100 (-1)

/-- A `Watch` call for the service `[7]`. -/
def openWatch (address : Address) (id : StreamId) (box : Nat) : List HealthEvent :=
  [.tick address (.beginHeaders ⟨id, nvHeaders, 0, .request⟩ true),
    .tick address (.header id Headers.nPath (Headers.ascii "/grpc.health.v1.Health/Watch") 0 true),
    .tick address (.dataChunkRecv id (frame [0x0a, 1, 7]) true),
    .tick address (.frameRecv ⟨id, nvData, flagEndStream, .headers⟩),
    .dispatch address fun _ => 0,
    .watch box true true true true true,
    .greet]

/-- The peer resets one of two watches, and the other one is told. -/
theorem set_status_spares_reset_watch :
    ∃ health, run step .new (acceptWatches 1 :: openWatch 1 1 5 ++ openWatch 1 3 6 ++
        [.tick 1 (.streamClose 1 8), .setStatus [7] serving false true true 9]) = some health ∧
      health.calls.map Notify.targets = [[⟨⟨1, 0⟩, 3⟩]] ∧
      health.Designates [7] ⟨⟨1, 0⟩, 3⟩ := by
  obtain ⟨health, reached, calls, spared⟩ : ∃ health,
      run step .new (acceptWatches 1 :: openWatch 1 1 5 ++ openWatch 1 3 6 ++
        [.tick 1 (.streamClose 1 8), .setStatus [7] serving false true true 9]) = some health ∧
      health.calls = [⟨[7], [8, 1], [⟨⟨1, 0⟩, 3⟩], false⟩] ∧
      Along step (fun health event => health.spares event = true) .new
        (acceptWatches 1 :: openWatch 1 1 5 ++ openWatch 1 3 6 ++
          [.tick 1 (.streamClose 1 8), .setStatus [7] serving false true true 9]) :=
    ⟨_, rfl, rfl, by decide⟩
  refine ⟨health, reached, by simp [calls], ?_⟩
  have designated := set_status_reaches_open_watches spared reached
  rw [calls] at designated
  exact designated _ List.mem_cons_self _ List.mem_cons_self

/-- The connection of a watch is freed: no hook runs, and the next status goes to
freed memory. -/
theorem set_status_reaches_freed_connection :
    ∃ health, run step .new (acceptWatches 1 :: openWatch 1 1 5 ++
        [.free 1 true, .setStatus [7] serving true true true 9]) = some health ∧
      health.host.lookup 1 = none ∧
      ∃ call ∈ health.calls, ∃ target ∈ call.targets,
        ¬ health.Designates call.service target := by
  obtain ⟨health, reached, freed, calls⟩ : ∃ health,
      run step .new (acceptWatches 1 :: openWatch 1 1 5 ++
        [.free 1 true, .setStatus [7] serving true true true 9]) = some health ∧
      health.host.lookup 1 = none ∧ health.calls = [⟨[7], [8, 1], [⟨⟨1, 0⟩, 1⟩], true⟩] :=
    ⟨_, rfl, rfl, rfl⟩
  refine ⟨health, reached, freed, _, calls ▸ List.mem_cons_self, _, List.mem_cons_self, ?_⟩
  rintro ⟨connection, present, _⟩
  simp [freed] at present

end Health

end GrpcUds.Ffi
