import GrpcUds.Ffi.Identity

/-!
# The mailbox is a queue

Every call that a producer queued is looked at exactly once, in the order of the
enqueues.  A free nulls the address of what is queued for its connection and moves
nothing.  As long as no address is used twice, what a drain finds at a look decides
whether the call is replayed: it is if its connection has not been freed.
-/

namespace GrpcUds.Ffi

open Transition Framing Server

/-- A call without its address, which a free may null. -/
def Item.detached (item : Item) : Item := { item with call := none }

/-- The item a producer's call asks to queue. -/
def HostEvent.item? : HostEvent → Option Item
  | callWrite (some call) callId data _ _ =>
      some ⟨some call.address, callId, data, false, .ok, call.serial⟩
  | callFinish (some call) callId status _ =>
      some ⟨some call.address, callId, [], true, grpcStatusFromI32 status, call.serial⟩
  | callFinishMsg (some call) callId status msg _ _ =>
      some ⟨some call.address, callId, msg, true, grpcStatusFromI32 status, call.serial⟩
  | _ => none

/-- A look of a drain at an item, with whether the connection that the item was queued
for is still there. -/
structure Look where
  item : Item
  live : Bool
  deriving DecidableEq

namespace Host

/-- The code a producer's call returns. -/
def code (host : Host) : HostEvent → Option Int
  | .callWrite call callId data copy reserve =>
      some (grpcudsCallWrite host.mailbox call callId data copy reserve).1
  | .callFinish call callId status reserve =>
      some (grpcudsCallFinish host.mailbox call callId status reserve).1
  | .callFinishMsg call callId status msg copy reserve =>
      some (grpcudsCallFinishMsg host.mailbox call callId status msg copy reserve).1
  | _ => none

/-- The item of a producer's call that returned 0. -/
def enqueues (host : Host) (event : HostEvent) : List Item :=
  if host.code event = some 0 then event.item?.toList else []

/-- The serial numbers of the connections that have not been freed. -/
def serials (host : Host) : List Nat := host.live.map Handle.serial

/-- What a drain looks at. -/
def looks (host : Host) : HostEvent → List Look
  | .replay _ _ => (host.batch.head?.map fun item => ⟨item, item.owner ∈ host.serials⟩).toList
  | _ => []

/-- The items that no drain has looked at, in the order of the looks to come. -/
def waiting (host : Host) : List Item := host.batch ++ host.mailbox.queue

end Host

/-! ### Order -/

/-- A call that returned 0 is the last one in the queue, and any other changed nothing. -/
theorem callResult_queue (mailbox : Mailbox) (item : Item) (copy reserve : Bool) :
    let result := callResult (if copy then mailbox.push item reserve else (.error (), mailbox))
    result.2.queue = mailbox.queue ++ if result.1 = 0 then [item] else [] := by
  cases copy <;> cases reserve <;> simp [Mailbox.push, callResult, errNomem]

variable {handle : Handle} {host : Host}

/-- What a producer's call adds to the queue. -/
theorem Host.waiting_producer {event : HostEvent} (used : event.handle? = some handle) :
    (host.perform event).batch = host.batch ∧
      (host.perform event).mailbox.queue = host.mailbox.queue ++ host.enqueues event ∧
      host.looks event = [] := by
  cases event with
  | callWrite call callId data copy reserve =>
      obtain rfl : call = some handle := used
      refine ⟨rfl, (callResult_queue host.mailbox _ copy reserve).trans ?_, rfl⟩
      simp [enqueues, code, HostEvent.item?, grpcudsCallWrite, Mailbox.enqueueWrite]
  | callFinish call callId status reserve =>
      obtain rfl : call = some handle := used
      refine ⟨rfl, (callResult_queue host.mailbox _ true reserve).trans ?_, rfl⟩
      simp [enqueues, code, HostEvent.item?, grpcudsCallFinish, grpcudsCallFinishMsg,
        Mailbox.enqueueFinish]
  | callFinishMsg call callId status msg copy reserve =>
      obtain rfl : call = some handle := used
      refine ⟨rfl, (callResult_queue host.mailbox _ copy reserve).trans ?_, rfl⟩
      simp [enqueues, code, HostEvent.item?, grpcudsCallFinishMsg, Mailbox.enqueueFinish]
  | _ => simp [HostEvent.handle?] at used

theorem Mailbox.detached_unregisterCall (mailbox : Mailbox) (call : Address) (reserve : Bool) :
    (mailbox.unregisterCall call reserve).queue.map Item.detached =
      mailbox.queue.map Item.detached := by
  rw [unregisterCall, List.map_map]
  apply List.map_congr_left
  intro item _
  simp only [Function.comp_apply]
  split <;> rfl

theorem Host.waiting_replay {item : Item} {rest : List Item} (taken : host.batch = item :: rest)
    (copy reserve : Bool) :
    (host.replay copy reserve).waiting = rest ++ host.mailbox.queue := by
  simp only [replay, taken]
  split
  next => rfl
  next => split <;> rfl

/-- A step looks at the first of the items that wait, and adds what it queues at their
end. -/
theorem Host.step_waiting {next : Host} {event : HostEvent}
    (performed : host.step event = some next) :
    ((host.looks event).map Look.item ++ next.waiting).map Item.detached =
      (host.waiting ++ host.enqueues event).map Item.detached := by
  obtain ⟨legal, rfl⟩ := Host.step_eq_some_iff.mp performed
  cases used : event.handle? with
  | some handle =>
      obtain ⟨batch, queue, looks⟩ := host.waiting_producer used
      simp only [waiting, batch, queue, looks, List.map_nil, List.nil_append, List.append_assoc]
  | none =>
      cases event with
      | free address reserve =>
          simp only [waiting, looks, enqueues, code, perform, free, List.map_append,
            List.map_nil, List.nil_append, List.append_nil, reduceCtorEq, if_false,
            Mailbox.detached_unregisterCall]
      | drain =>
          have idle : host.batch = [] := legal
          simp [waiting, looks, enqueues, code, perform, drain, idle]
      | replay copy reserve =>
          obtain ⟨item, rest, taken⟩ := List.exists_cons_of_ne_nil legal
          rw [show host.perform (.replay copy reserve) = host.replay copy reserve from rfl,
            host.waiting_replay taken]
          simp [waiting, looks, enqueues, code, taken]
      | accept | tick => simp [waiting, looks, enqueues, code, perform, accept, modify,
          Mailbox.registerCall]
      | callWrite call | callFinish call | callFinishMsg call =>
          -- The call has no handle: it returns an error.
          obtain rfl : call = none := used
          simp [waiting, looks, enqueues, code, perform, grpcudsCallWrite, grpcudsCallFinish,
            grpcudsCallFinishMsg, errInval]

/-- Over a run, the looks and the items still waiting are the enqueues, in order. -/
theorem Host.run_waiting {start : Host} {events : List HostEvent}
    (reached : run Host.step start events = some host) :
    ((observe Host.step Host.looks start events).map Look.item ++
        host.waiting).map Item.detached =
      (start.waiting ++ observe Host.step Host.enqueues start events).map
        Item.detached := by
  induction events generalizing start with
  | nil =>
      obtain rfl := Option.some.inj reached
      simp [observe]
  | cons event rest ih =>
      obtain ⟨next, performed, continued⟩ := Option.bind_eq_some_iff.mp reached
      rw [observe_cons performed, observe_cons performed]
      have first := Host.step_waiting performed
      have later := ih continued
      simp only [List.map_append] at first later ⊢
      rw [List.append_assoc, later, ← List.append_assoc, first, List.append_assoc]

/-! ### Where a call finds its connection -/

/-- An address belongs to one connection at a time, a connection that is there has no
tombstone, and a waiting call has kept its address or its connection is gone. -/
structure Registered (host : Host) : Prop where
  distinct : (host.live.map Handle.address).Nodup
  buried : host.mailbox.dead.Nodup
  alive : ∀ handle ∈ host.live, handle ∈ host.accepted ∧ handle.address ∉ host.mailbox.dead
  numbered : host.accepted.map Handle.serial = List.range host.accepted.length
  waiting : ∀ item ∈ host.pending, ∃ handle ∈ host.accepted, item.owner = handle.serial ∧
    (item.call = some handle.address ∨ item.call = none ∧ handle ∉ host.live)

namespace Registered

variable {host next : Host} {event : HostEvent}

variable (registered : Registered host)
include registered

/-- A handle is known by its serial number. -/
theorem eq_of_serial {other : Handle} (made : handle ∈ host.accepted)
    (known : other ∈ host.accepted) (same : handle.serial = other.serial) : handle = other := by
  apply List.inj_on_of_nodup_map _ made known same
  rw [registered.numbered]
  exact List.nodup_range

/-- A connection that is there is known by its address. -/
theorem eq_of_address {other : Handle} (alive : handle ∈ host.live) (there : other ∈ host.live)
    (same : handle.address = other.address) : handle = other :=
  List.inj_on_of_nodup_map registered.distinct alive there same

theorem serial_lt (made : handle ∈ host.accepted) :
    handle.serial < host.accepted.length := by
  apply List.mem_range.mp
  rw [← registered.numbered]
  exact List.mem_map_of_mem made

omit registered

theorem new : Registered .new := by
  constructor <;> simp [Host.new, Host.live, Host.pending, Mailbox.new]

include registered

theorem accept {address : Address} (conn : Conn) (vacant : host.lookup address = none) :
    Registered (host.accept address conn) := by
  have unused := Host.lookup_eq_none_iff.mp vacant
  have keys : (host.mailbox.dead.map id).Nodup := by simpa using registered.buried
  have dead : ∀ other, other ∈ (host.accept address conn).mailbox.dead ↔
      other ∈ host.mailbox.dead ∧ other ≠ address := fun other => Table.mem_remove keys
  refine ⟨?_, by simpa [Host.accept, Mailbox.registerCall] using Table.nodup_remove keys,
    ?_, ?_, ?_⟩
  · rw [Host.live_accept, List.map_append]
    refine List.nodup_append.mpr ⟨registered.distinct, List.nodup_singleton _, ?_⟩
    intro other before last listed
    obtain ⟨handle, alive, rfl⟩ := List.mem_map.mp before
    obtain rfl : last = address := by simpa using listed
    exact unused handle alive
  · intro handle alive
    rw [Host.live_accept, List.mem_append, List.mem_singleton] at alive
    rcases alive with before | rfl
    · obtain ⟨made, unburied⟩ := registered.alive handle before
      exact ⟨List.mem_append_left _ made, fun listed => unburied ((dead _).mp listed).1⟩
    · exact ⟨by simp [Host.accept], fun listed => ((dead _).mp listed).2 rfl⟩
  · simp [Host.accept, registered.numbered, List.range_succ]
  · intro item pending
    obtain ⟨handle, made, owner, place⟩ := registered.waiting item pending
    refine ⟨handle, List.mem_append_left _ made, owner, place.imp_right ?_⟩
    rintro ⟨nulled, gone⟩
    refine ⟨nulled, fun alive => ?_⟩
    rw [Host.live_accept, List.mem_append, List.mem_singleton] at alive
    refine alive.elim gone fun fresh => ?_
    have small := registered.serial_lt made
    rw [fresh] at small
    exact absurd small (lt_irrefl _)

theorem free (address : Address) (reserve : Bool) :
    Registered (host.free address reserve) := by
  refine ⟨?_, Mailbox.nodup_unregisterCall registered.buried address reserve, ?_,
    registered.numbered, ?_⟩
  · apply List.Nodup.sublist _ registered.distinct
    exact (List.filter_sublist.map _).map _
  · intro handle alive
    obtain ⟨before, other⟩ := Host.mem_live_free.mp alive
    obtain ⟨made, unburied⟩ := registered.alive handle before
    refine ⟨made, fun listed => ?_⟩
    simp only [Host.free, Mailbox.unregisterCall] at listed
    split at listed
    next =>
      rcases List.mem_append.mp listed with earlier | last
      · exact unburied earlier
      · exact other (List.mem_singleton.mp last)
    next => exact unburied listed
  · intro item pending
    rcases List.mem_append.mp pending with queued | taken
    · obtain ⟨original, present, rfl⟩ := List.mem_map.mp queued
      obtain ⟨handle, made, owner, place⟩ :=
        registered.waiting original (List.mem_append_left _ present)
      split
      next named =>
        refine ⟨handle, made, owner, .inr ⟨rfl, fun alive => ?_⟩⟩
        rcases place with kept | ⟨nulled, _⟩
        · exact (Host.mem_live_free.mp alive).2 (Option.some.inj (kept.symm.trans named))
        · exact absurd (nulled.symm.trans named) (by simp)
      next =>
        refine ⟨handle, made, owner, place.imp_right ?_⟩
        rintro ⟨nulled, gone⟩
        exact ⟨nulled, fun alive => gone (Host.mem_live_free.mp alive).1⟩
    · obtain ⟨handle, made, owner, place⟩ :=
        registered.waiting item (List.mem_append_right _ taken)
      refine ⟨handle, made, owner, place.imp_right ?_⟩
      rintro ⟨nulled, gone⟩
      exact ⟨nulled, fun alive => gone (Host.mem_live_free.mp alive).1⟩

/-- What changes no connection, tombstone or handle, and makes nothing wait. -/
theorem frame (live : next.live = host.live) (dead : next.mailbox.dead = host.mailbox.dead)
    (accepted : next.accepted = host.accepted)
    (pending : ∀ item ∈ next.pending, item ∈ host.pending) : Registered next := by
  constructor
  · rw [live]
    exact registered.distinct
  · rw [dead]
    exact registered.buried
  · rw [live, dead, accepted]
    exact registered.alive
  · rw [accepted]
    exact registered.numbered
  · rw [live, accepted]
    exact fun item waits => registered.waiting item (pending item waits)

theorem step (performed : host.step event = some next) :
    Registered next := by
  obtain ⟨legal, _⟩ := Host.step_eq_some_iff.mp performed
  cases Host.step_hostStep performed with
  | refused => exact registered
  | queued handle item used made call owner =>
      refine ⟨registered.distinct, registered.buried, registered.alive, registered.numbered, ?_⟩
      intro waits listed
      simp only [Host.pending, List.mem_append, List.mem_singleton] at listed
      rcases listed with (before | rfl) | taken
      · exact registered.waiting waits (List.mem_append_left _ before)
      · exact ⟨handle, made, owner, .inl call⟩
      · exact registered.waiting waits (List.mem_append_right _ taken)
  | accepted address conn asked idle =>
      subst asked
      exact registered.accept conn legal.2
  | freed address reserve asked => exact registered.free address reserve
  | modified address change =>
      exact registered.frame (host.live_modify address change) rfl rfl fun _ waits => waits
  | drained idle =>
      refine registered.frame rfl rfl rfl fun item waits => ?_
      simpa [Host.pending, Host.drain, idle] using waits
  | skipped item rest taken =>
      refine registered.frame rfl rfl rfl fun other waits => ?_
      simp only [Host.pending, taken, List.mem_append, List.mem_cons] at waits ⊢
      exact waits.imp_right .inr
  | replayed item rest taken address call alive copy reserve =>
      have live := host.live_modify address fun conn => (conn.api (item.apiCall copy reserve)).2
      refine registered.frame live rfl rfl fun other waits => ?_
      simp only [Host.pending, Host.modify, taken, List.mem_append, List.mem_cons] at waits ⊢
      exact waits.imp_right .inr

theorem lookup (alive : handle ∈ host.live) :
    (host.lookup handle.address).map Connection.serial = some handle.serial := by
  cases found : (host.lookup handle.address).map Connection.serial with
  | none =>
      have vacant := Host.lookup_eq_none_iff.mp (Option.map_eq_none_iff.mp found)
      exact absurd rfl (vacant handle alive)
  | some serial =>
      have same := registered.eq_of_address (Host.lookup_serial found) alive rfl
      rw [← same]

/-- The handle of a waiting call whose connection is there. -/
theorem handle_of_serial {item : Item} (pending : item ∈ host.pending)
    (there : item.owner ∈ host.serials) :
    ∃ handle ∈ host.live, item.owner = handle.serial ∧ item.call = some handle.address := by
  obtain ⟨handle, made, owner, place⟩ := registered.waiting item pending
  obtain ⟨other, alive, same⟩ := List.mem_map.mp there
  obtain rfl : other = handle :=
    registered.eq_of_serial (registered.alive other alive).1 made (same.trans owner)
  refine ⟨other, alive, owner, place.resolve_right ?_⟩
  exact fun ⟨_, gone⟩ => gone alive

/-- A call whose connection is there is replayed into it. -/
theorem replay_live {item : Item} {rest : List Item} (taken : host.batch = item :: rest)
    (there : item.owner ∈ host.serials) (copy reserve : Bool) :
    (host.replay copy reserve).replayed = host.replayed ++ [⟨item, some item.owner⟩] := by
  have pending : item ∈ host.pending := by simp [Host.pending, taken]
  obtain ⟨handle, alive, owner, call⟩ := registered.handle_of_serial pending there
  simp only [Host.replay, taken, call, if_neg (registered.alive handle alive).2,
    registered.lookup alive, owner]

end Registered

/-! ### Addresses that are used once -/

/-- The allocator returns no address that was ever in use, and a free finds the memory
for its tombstone. -/
def Host.Steady (host : Host) : HostEvent → Prop
  | .accept address _ => ∀ handle ∈ host.accepted, handle.address ≠ address
  | .free _ reserve => reserve = true
  | _ => True

instance (host : Host) : (event : HostEvent) → Decidable (host.Steady event)
  | .accept .. => inferInstanceAs (Decidable (∀ handle ∈ host.accepted, _))
  | .free .. => inferInstanceAs (Decidable (_ = _))
  | .callWrite .. => isTrue trivial
  | .callFinish .. => isTrue trivial
  | .callFinishMsg .. => isTrue trivial
  | .tick .. => isTrue trivial
  | .drain => isTrue trivial
  | .replay .. => isTrue trivial

theorem Host.Steady.tracked {event : HostEvent} (steady : host.Steady event) :
    ¬ event.Untracked := by
  cases event with
  | free address reserve =>
      have kept : reserve = true := steady
      simp [HostEvent.Untracked, kept]
  | _ => exact id

structure Settled (host : Host) : Prop where
  registered : Registered host
  tombstoned : Tombstoned host
  once : (host.accepted.map Handle.address).Nodup

/-! ### What the replayed calls make of a connection -/

/-- What happens at an address. -/
inductive Work where
  | accepted (conn : Conn)
  | ticked (event : ConnEvent)
  | replayed (item : Item) (copy reserve : Bool)
  | freed

namespace Work

/-- What becomes of the connection there.  Only an accept needs none. -/
def follow : Option Conn → Work → Option (Option Conn)
  | none, accepted conn => some (some conn)
  | some conn, ticked event => (conn.step event).map some
  | some conn, replayed item copy reserve => some (some (conn.api (item.apiCall copy reserve)).2)
  | some _, freed => some none
  | _, _ => none

def item? : Work → Option Item
  | replayed item _ _ => some item
  | _ => none

end Work

namespace Host

/-- The connection at an address. -/
def connAt (host : Host) (address : Address) : Option Conn :=
  (host.lookup address).map Connection.conn

/-- What a step adds to the calls that were replayed at an address. -/
def replays (host : Host) (address : Address) (event : HostEvent) : List Item :=
  (((host.perform event).replayed.drop host.replayed.length).map Replay.item).filter
    fun item => item.call = some address

def works (host : Host) (address : Address) : HostEvent → List Work
  | .accept other conn => if other = address then [.accepted conn] else []
  | .tick other event => if other = address then [.ticked event] else []
  | .replay copy reserve =>
      (host.replays address (.replay copy reserve)).map fun item => .replayed item copy reserve
  | .free other _ => if other = address then [.freed] else []
  | _ => []

theorem connAt_modify (host : Host) (other : Address) (change : Conn → Conn) (address : Address) :
    (host.modify other change).connAt address =
      if other = address then (host.connAt address).map change else host.connAt address := by
  split
  next same =>
    subst same
    rw [connAt, lookup_modify_self, connAt, Option.map_map, Option.map_map]
    rfl
  next different => rw [connAt, lookup_modify_other host (Ne.symm different), connAt]

/-- What is at an address after a replay.  A call never meets freed memory. -/
theorem follow_replay (tombstoned : Tombstoned host) {item : Item} {rest : List Item}
    (taken : host.batch = item :: rest) (copy reserve : Bool) (address : Address) :
    run Work.follow (host.connAt address) (host.works address (.replay copy reserve)) =
      some ((host.replay copy reserve).connAt address) := by
  have skipped : ({ host with batch := rest } : Host).connAt address = host.connAt address := rfl
  cases call : item.call with
  | none => simp [works, replays, perform, replay, taken, call, skipped]
  | some other =>
      by_cases dead : other ∈ host.mailbox.dead
      · simp [works, replays, perform, replay, taken, call, dead, skipped]
      · have moved : (host.replay copy reserve).connAt address =
            (host.modify other fun conn => (conn.api (item.apiCall copy reserve)).2).connAt
              address := by
          simp only [replay, taken, call, if_neg dead]
          rfl
        rw [moved, connAt_modify]
        by_cases same : other = address
        · subst same
          obtain ⟨handle, made, rfl⟩ :=
            tombstoned.pending item (by simp [pending, taken]) other call
          obtain ⟨connection, present⟩ := Option.ne_none_iff_exists'.mp fun missing =>
            dead (tombstoned.known handle made missing)
          simp [works, replays, perform, replay, taken, call, dead, connAt, present, Work.follow]
        · simp [works, replays, perform, replay, taken, call, dead, same]

/-- A step does to the connection at an address what it does there. -/
theorem follow_step {next : Host} {event : HostEvent} (tombstoned : Tombstoned host)
    (performed : host.step event = some next) (address : Address) :
    run Work.follow (host.connAt address) (host.works address event) =
      some (next.connAt address) := by
  obtain ⟨legal, rfl⟩ := Host.step_eq_some_iff.mp performed
  cases event with
  | accept other conn =>
      rw [perform, works]
      split
      next same =>
        subst same
        have vacant : host.lookup other = none := legal.2
        let made : Connection := ⟨other, host.accepted.length, conn⟩
        have found : (host.accept other conn).lookup other = some made :=
          @Table.lookup_append_new _ _ _ Connection.address host.conns made vacant
        simp [connAt, vacant, found, made, Work.follow]
      next different =>
        rw [connAt, connAt, lookup_accept conn (Ne.symm different), run_nil]
  | tick other event =>
      obtain ⟨connection, present, enabled⟩ := legal.2
      rw [perform, connAt_modify, works]
      split
      next same =>
        subst same
        simp [connAt, Option.mem_def.mp present, Work.follow, Conn.step, enabled]
      next => rfl
  | free other reserve =>
      obtain ⟨connection, present⟩ := Option.ne_none_iff_exists'.mp legal.2
      rw [perform, works]
      split
      next same =>
        subst same
        have gone : (host.free other reserve).lookup other = none :=
          lookup_eq_none_iff.mpr fun _ alive => (mem_live_free.mp alive).2
        simp [connAt, present, gone, Work.follow]
      next different =>
        rw [connAt, connAt, lookup_free reserve (Ne.symm different), run_nil]
  | replay copy reserve =>
      obtain ⟨item, rest, taken⟩ := List.exists_cons_of_ne_nil legal
      exact follow_replay tombstoned taken copy reserve address
  | _ => rfl

theorem works_items (host : Host) (address : Address) (event : HostEvent) :
    (host.works address event).filterMap Work.item? = host.replays address event := by
  cases event with
  | replay => simp [works, List.filterMap_map, Function.comp_def, Work.item?]
  | accept | tick | free =>
      simp only [works, replays, perform, accept, modify, free, List.drop_length]
      split <;> rfl
  | _ => simp [works, replays, perform, drain]

end Host

namespace Settled

variable {host next : Host} {event : HostEvent}

theorem new : Settled .new := by
  refine ⟨.new, ?_, by simp [Host.new]⟩
  constructor <;> simp [Host.new, Host.pending, Mailbox.new]

variable (settled : Settled host)
include settled

theorem step (steady : host.Steady event) (performed : host.step event = some next) :
    Settled next := by
  have happened := Host.step_hostStep performed
  refine ⟨settled.registered.step performed, settled.tombstoned.step steady.tracked happened, ?_⟩
  cases happened with
  | accepted address conn asked idle =>
      subst asked
      simp only [Host.accept, List.map_append, List.map_cons, List.map_nil]
      refine List.nodup_append.mpr ⟨settled.once, List.nodup_singleton _, ?_⟩
      intro other before last listed
      obtain ⟨handle, made, rfl⟩ := List.mem_map.mp before
      obtain rfl : last = address := by simpa using listed
      exact steady handle made
  | _ => exact settled.once

/-- A handle whose connection is gone points at a tombstone. -/
theorem dead_of_gone (made : handle ∈ host.accepted) (gone : handle ∉ host.live) :
    handle.address ∈ host.mailbox.dead := by
  apply settled.tombstoned.known handle made
  apply Host.lookup_eq_none_iff.mpr
  intro other alive same
  obtain rfl : other = handle :=
    List.inj_on_of_nodup_map settled.once (settled.registered.alive other alive).1 made same
  exact gone alive

/-- A call whose connection is gone is skipped. -/
theorem replay_gone {item : Item} {rest : List Item} (taken : host.batch = item :: rest)
    (missing : item.owner ∉ host.serials) (copy reserve : Bool) :
    (host.replay copy reserve).replayed = host.replayed := by
  have pending : item ∈ host.pending := by simp [Host.pending, taken]
  obtain ⟨handle, made, owner, place⟩ := settled.registered.waiting item pending
  rcases place with kept | ⟨nulled, _⟩
  · have gone : handle ∉ host.live := fun alive =>
      missing (owner ▸ List.mem_map_of_mem alive)
    simp only [Host.replay, taken, kept, if_pos (settled.dead_of_gone made gone)]
  · simp only [Host.replay, taken, nulled]

/-- A step replays what it looks at if the connection is there. -/
theorem step_replayed (performed : host.step event = some next) :
    next.replayed = host.replayed ++
      ((host.looks event).filter Look.live).map fun look => ⟨look.item, some look.item.owner⟩ := by
  obtain ⟨legal, rfl⟩ := Host.step_eq_some_iff.mp performed
  cases event with
  | replay copy reserve =>
      obtain ⟨item, rest, taken⟩ := List.exists_cons_of_ne_nil legal
      by_cases there : item.owner ∈ host.serials
      · simp [Host.looks, taken, there, Host.perform,
          settled.registered.replay_live taken there copy reserve]
      · simp [Host.looks, taken, there, Host.perform,
          settled.replay_gone taken there copy reserve]
  | _ => simp [Host.looks, Host.perform, Host.accept, Host.free, Host.modify, Host.drain]

/-- A free nulls what is queued for its connection and leaves the rest as it is. -/
theorem free_queue {connection : Connection} {address : Address}
    (present : host.lookup address = some connection) (reserve : Bool) :
    (host.free address reserve).mailbox.queue = host.mailbox.queue.map fun item =>
      if item.owner = connection.serial then item.detached else item := by
  have alive : ⟨address, connection.serial⟩ ∈ host.live :=
    Host.lookup_serial (by rw [present, Option.map_some])
  have made := (settled.registered.alive _ alive).1
  apply List.map_congr_left
  intro item queued
  have pending : item ∈ host.pending := List.mem_append_left _ queued
  by_cases own : item.owner = connection.serial
  · have there : item.owner ∈ host.serials := own ▸ List.mem_map_of_mem alive
    obtain ⟨handle, listed, owner, call⟩ := settled.registered.handle_of_serial pending there
    have same := settled.registered.eq_of_serial (settled.registered.alive handle listed).1 made
      (owner.symm.trans own)
    rw [if_pos (by rw [call, same]), if_pos own]
    rfl
  · obtain ⟨handle, known, owner, place⟩ := settled.registered.waiting item pending
    rw [if_neg ?_, if_neg own]
    intro named
    rcases place with kept | ⟨nulled, _⟩
    · have same : handle = ⟨address, connection.serial⟩ :=
        List.inj_on_of_nodup_map settled.once known made (Option.some.inj (kept.symm.trans named))
      exact own (owner.trans (congrArg Handle.serial same))
    · exact absurd (nulled.symm.trans named) nofun

omit settled

/-- Over a run, the connection at an address is what happened there made of it, and the
calls among that are those that were replayed. -/
theorem run_works {events : List HostEvent}
    (reached : run Host.step .new events = some host)
    (steady : Along Host.step Host.Steady .new events) (address : Address) :
    let works := observe Host.step (Host.works · address) .new events
    run Work.follow none works = some (host.connAt address) ∧
      works.filterMap Work.item? =
        (host.replayed.map Replay.item).filter fun item => item.call = some address := by
  let Works (host : Host) (works : List Work) : Prop :=
    Settled host ∧ run Work.follow none works = some (host.connAt address) ∧
      works.filterMap Work.item? =
        (host.replayed.map Replay.item).filter fun item => item.call = some address
  have preserved : ∀ host event next works, Works host works → host.Steady event →
      host.step event = some next → Works next (works ++ host.works address event) := by
    rintro host event next works ⟨settled, followed, items⟩ meets performed
    refine ⟨settled.step meets performed, ?_, ?_⟩
    · rw [run_append, followed]
      exact Host.follow_step settled.tombstoned performed address
    · have grown := settled.step_replayed performed
      rw [List.filterMap_append, items, Host.works_items, Host.replays,
        (Host.step_eq_some_iff.mp performed).2, grown, List.drop_left, List.map_append,
        List.filter_append]
  have begun : Works .new [] := ⟨.new, rfl, rfl⟩
  exact (steady.run_record preserved begun reached).2

theorem run_replayed {start : Host} {events : List HostEvent} (settled : Settled start)
    (reached : run Host.step start events = some host)
    (steady : Along Host.step Host.Steady start events) :
    host.replayed = start.replayed ++
      ((observe Host.step Host.looks start events).filter Look.live).map
        fun look => ⟨look.item, some look.item.owner⟩ := by
  let Replays (host : Host) (looks : List Look) : Prop :=
    Settled host ∧ host.replayed = start.replayed ++
      (looks.filter Look.live).map fun look => ⟨look.item, some look.item.owner⟩
  have preserved : ∀ host event next looks, Replays host looks → host.Steady event →
      host.step event = some next → Replays next (looks ++ host.looks event) := by
    rintro host event next looks ⟨settled, replayed⟩ meets performed
    refine ⟨settled.step meets performed, ?_⟩
    rw [settled.step_replayed performed, replayed, List.filter_append, List.map_append,
      List.append_assoc]
  have begun : Replays start [] := ⟨settled, (List.append_nil _).symm⟩
  exact (steady.run_record preserved begun reached).2

end Settled

/-- In every interleaving of producers with the I/O thread in which no address is used
twice, the drains look at every queued call once and in the order of the enqueues, and
they replay the calls whose connection is there at the look, each into that connection:
what is at an address is what the accepts, ticks, replayed calls and frees there make of it.
A free takes no other connection's call out of the queue and moves none. -/
theorem drains_replay_in_order {events : List HostEvent} {host : Host}
    (reached : run Host.step .new events = some host)
    (steady : Along Host.step Host.Steady .new events) :
    let enqueued := observe Host.step Host.enqueues .new events
    let looks := observe Host.step Host.looks .new events
    (looks.map Look.item ++ host.waiting).map Item.detached = enqueued.map Item.detached ∧
      host.replayed =
        (looks.filter Look.live).map (fun look => ⟨look.item, some look.item.owner⟩) ∧
      (∀ address,
        let works := observe Host.step (Host.works · address) .new events
        run Work.follow none works = some (host.connAt address) ∧
          works.filterMap Work.item? =
            (host.replayed.map Replay.item).filter fun item => item.call = some address) ∧
      ∀ address reserve next, host.step (.free address reserve) = some next →
        ∃ connection ∈ host.lookup address, next.batch = host.batch ∧
          next.mailbox.queue = host.mailbox.queue.map fun item =>
            if item.owner = connection.serial then item.detached else item := by
  have settled : Settled host := steady.run_invariant
    (fun _ _ _ settled meets performed => settled.step meets performed) .new reached
  refine ⟨?_, Settled.new.run_replayed reached steady, Settled.run_works reached steady, ?_⟩
  · exact Host.run_waiting reached
  · intro address reserve next performed
    obtain ⟨legal, rfl⟩ := Host.step_eq_some_iff.mp performed
    obtain ⟨connection, present⟩ := Option.ne_none_iff_exists'.mp legal.2
    exact ⟨connection, present, rfl, settled.free_queue present reserve⟩

/-- Two connections with calls queued for both; the first is freed before the drain. -/
theorem drains_replay_in_order_after_free :
    let conn := Conn.newServer [] 1024 3
    let events : List HostEvent :=
      [.accept 8 conn, .accept 9 conn, .callWrite (some ⟨9, 1⟩) 1 [7] true true,
        .callFinish (some ⟨8, 0⟩) 1 0 true, .callFinish (some ⟨9, 1⟩) 1 0 true, .free 8 true,
        .drain, .replay true true, .callWrite (some ⟨9, 1⟩) 3 [] true true, .replay true true,
        .replay true true]
    ∃ host, run Host.step .new events = some host ∧
      host.replayed.map (fun replay => (replay.item.payload, replay.item.finish, replay.target)) =
        [([7], false, some 1), ([], true, some 1)] ∧
      host.waiting.length = 1 ∧
      host.replayed = ((observe Host.step Host.looks .new events).filter Look.live).map
        fun look => ⟨look.item, some look.item.owner⟩ := by
  intro conn events
  refine ⟨_, rfl, rfl, rfl, (@drains_replay_in_order events _ rfl ?_).2.1⟩
  exact ⟨by decide, by decide, trivial, trivial, trivial, rfl, trivial, trivial, trivial, trivial,
    trivial, trivial⟩

end GrpcUds.Ffi
