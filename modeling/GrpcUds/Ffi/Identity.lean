import GrpcUds.Ffi.Mailbox

/-!
# Which connection a queued call reaches

A tombstone keeps a late call away from freed memory, but accepting a connection at
the same address clears it.  A replayed call reaches a live connection, and it
reaches the one it was made for unless a call was queued for an address whose
connection had been freed and another one is accepted there before the drain.
-/

namespace GrpcUds.Ffi

open Transition Framing Server

variable {address : Address} {host : Host} {event : HostEvent}

namespace Host

/-- The handles of the connections that have not been freed. -/
def live (host : Host) : List Handle :=
  host.conns.map fun connection => ⟨connection.address, connection.serial⟩

theorem live_modify (host : Host) (address : Address) (change : Conn → Conn) :
    (host.modify address change).live = host.live := by
  unfold live modify
  apply Table.map_update
  exact fun _ => rfl

theorem live_accept (host : Host) (address : Address) (conn : Conn) :
    (host.accept address conn).live = host.live ++ [⟨address, host.accepted.length⟩] := by
  simp [live, accept]

theorem mem_live_free {reserve : Bool} {handle : Handle} :
    handle ∈ (host.free address reserve).live ↔
      handle ∈ host.live ∧ handle.address ≠ address := by
  simp only [live, free, List.mem_map, List.mem_filter, decide_eq_true_eq]
  constructor
  · rintro ⟨connection, ⟨membership, other⟩, rfl⟩
    exact ⟨⟨connection, membership, rfl⟩, other⟩
  · rintro ⟨⟨connection, membership, rfl⟩, other⟩
    exact ⟨connection, ⟨membership, other⟩, rfl⟩

/-- The serial number found at an address is that of a live handle. -/
theorem lookup_serial {serial : Nat}
    (found : (host.lookup address).map Connection.serial = some serial) :
    ⟨address, serial⟩ ∈ host.live := by
  obtain ⟨connection, present, rfl⟩ := Option.map_eq_some_iff.mp found
  refine List.mem_map.mpr ⟨connection, Table.lookup_mem present, ?_⟩
  rw [Table.lookup_key present]

theorem lookup_eq_none_iff :
    host.lookup address = none ↔ ∀ handle ∈ host.live, handle.address ≠ address := by
  simp [lookup, live, Table.lookup_eq_none_iff]

theorem lookup_modify_self (host : Host) (address : Address) (change : Conn → Conn) :
    (host.modify address change).lookup address =
      (host.lookup address).map fun connection =>
        { connection with conn := change connection.conn } := by
  apply Table.lookup_update_self
  exact fun _ => rfl

theorem lookup_modify_other (host : Host) {other : Address} (different : other ≠ address)
    (change : Conn → Conn) : (host.modify address change).lookup other = host.lookup other := by
  apply Table.lookup_update_other _ different
  exact fun _ => rfl

theorem lookup_accept {other : Address} (conn : Conn) (different : other ≠ address) :
    (host.accept address conn).lookup other = host.lookup other := by
  have apart : (⟨address, host.accepted.length, conn⟩ : Connection).address ≠ other :=
    Ne.symm different
  exact Table.lookup_append_of_ne apart

theorem lookup_free {other : Address} (reserve : Bool) (different : other ≠ address) :
    (host.free address reserve).lookup other = host.lookup other := by
  simp only [lookup, Table.lookup, free, List.find?_filter]
  congr 1
  funext connection
  by_cases same : connection.address = other <;> simp [same, different]

/-- The calls that a drain has yet to look at. -/
def pending (host : Host) : List Item := host.mailbox.queue ++ host.batch

end Host

/-- What an event can do. -/
inductive HostStep (host : Host) (event : HostEvent) : Host → Prop where
  | refused : HostStep host event host
  | queued (handle : Handle) (item : Item) (used : event.handle? = some handle)
      (made : handle ∈ host.accepted) (call : item.call = some handle.address)
      (owner : item.owner = handle.serial) :
      HostStep host event
        { host with mailbox := { host.mailbox with queue := host.mailbox.queue ++ [item] } }
  | accepted (address : Address) (conn : Conn) (asked : event = .accept address conn)
      (idle : host.batch = []) : HostStep host event (host.accept address conn)
  | freed (address : Address) (reserve : Bool) (asked : event = .free address reserve) :
      HostStep host event (host.free address reserve)
  | modified (address : Address) (change : Conn → Conn) :
      HostStep host event (host.modify address change)
  | drained (idle : host.batch = []) : HostStep host event host.drain
  | skipped (item : Item) (rest : List Item) (taken : host.batch = item :: rest) :
      HostStep host event { host with batch := rest }
  | replayed (item : Item) (rest : List Item) (taken : host.batch = item :: rest)
      (address : Address) (call : item.call = some address) (alive : address ∉ host.mailbox.dead)
      (copy reserve : Bool) :
      HostStep host event
        { host.modify address fun conn => (conn.api (item.apiCall copy reserve)).2 with
          batch := rest
          replayed := host.replayed ++ [⟨item, (host.lookup address).map Connection.serial⟩] }

theorem callResult_push (mailbox : Mailbox) (item : Item) (copy reserve : Bool) :
    (callResult (if copy then mailbox.push item reserve else (.error (), mailbox))).2 = mailbox ∨
    (callResult (if copy then mailbox.push item reserve else (.error (), mailbox))).2 =
      { mailbox with queue := mailbox.queue ++ [item] } := by
  cases copy <;> cases reserve <;> simp [Mailbox.push, callResult]

/-- A producer's call queues one item for its handle or nothing. -/
theorem HostStep.producer {call : Option Handle} (used : event.handle? = call)
    (made : ∀ handle ∈ call, handle ∈ host.accepted) {item : Handle → Item}
    (address : ∀ handle, (item handle).call = some handle.address)
    (owner : ∀ handle, (item handle).owner = handle.serial) (copy reserve : Bool) :
    HostStep host event
      { host with
        mailbox :=
          (match call with
          | none => (errInval, host.mailbox)
          | some handle => callResult
              (if copy then host.mailbox.push (item handle) reserve
              else (.error (), host.mailbox))).2 } := by
  cases call with
  | none => exact .refused
  | some handle =>
      rcases callResult_push host.mailbox (item handle) copy reserve with same | pushed
      · simp only [same]
        exact .refused
      · simp only [pushed]
        exact .queued handle (item handle) used (made handle rfl) (address handle) (owner handle)

theorem Host.step_hostStep {next : Host} (performed : host.step event = some next) :
    HostStep host event next := by
  obtain ⟨legal, rfl⟩ := Host.step_eq_some_iff.mp performed
  cases event with
  | callWrite call callId data copy reserve =>
      exact .producer rfl legal (fun _ => rfl) (fun _ => rfl) copy reserve
  | callFinish call callId status reserve =>
      exact .producer rfl legal (fun _ => rfl) (fun _ => rfl) true reserve
  | callFinishMsg call callId status msg copy reserve =>
      exact .producer rfl legal (fun _ => rfl) (fun _ => rfl) copy reserve
  | accept address conn => exact .accepted address conn rfl legal.1
  | free address reserve => exact .freed address reserve rfl
  | tick address event => exact .modified address fun conn => conn.perform event
  | drain => exact .drained legal
  | replay copy reserve =>
      simp only [Host.perform, Host.replay]
      split
      next => exact .refused
      next item rest taken =>
        split
        next => exact .skipped item rest taken
        next address call =>
          split
          next => exact .skipped item rest taken
          next alive => exact .replayed item rest taken address call alive copy reserve

namespace HostStep

variable {host next : Host} {event : HostEvent}

/-- A pending call is nulled, was pending before, or has just been queued. -/
theorem pending (step : HostStep host event next) {item : Item} (waiting : item ∈ next.pending) :
    item.call = none ∨ item ∈ host.pending ∨
      ∃ handle ∈ host.accepted, event.handle? = some handle ∧
        item.call = some handle.address ∧ item.owner = handle.serial := by
  cases step with
  | refused => exact .inr (.inl waiting)
  | queued handle queued used made call owner =>
      simp only [Host.pending, List.mem_append, List.mem_singleton] at waiting ⊢
      rcases waiting with (before | rfl) | taken
      · exact .inr (.inl (.inl before))
      · exact .inr (.inr ⟨handle, made, used, call, owner⟩)
      · exact .inr (.inl (.inr taken))
  | accepted address conn asked idle => exact .inr (.inl waiting)
  | freed address reserve asked =>
      rcases List.mem_append.mp waiting with queued | taken
      · obtain ⟨original, present, rfl⟩ := List.mem_map.mp queued
        split
        · exact .inl rfl
        · exact .inr (.inl (List.mem_append_left _ present))
      · exact .inr (.inl (List.mem_append_right _ taken))
  | modified address change => exact .inr (.inl waiting)
  | drained idle =>
      exact .inr (.inl (List.mem_append_left _ (by simpa [Host.pending, Host.drain] using waiting)))
  | skipped item rest taken =>
      simp only [Host.pending, List.mem_append, taken, List.mem_cons] at waiting ⊢
      exact .inr (.inl (waiting.imp_right .inr))
  | replayed item rest taken address call alive copy reserve =>
      simp only [Host.pending, Host.modify, List.mem_append, taken, List.mem_cons] at waiting ⊢
      exact .inr (.inl (waiting.imp_right .inr))

/-- Only an accept makes a handle. -/
theorem live (step : HostStep host event next) {handle : Handle} (alive : handle ∈ next.live) :
    handle ∈ host.live ∨ ∃ conn, event = .accept handle.address conn ∧ host.batch = [] := by
  cases step with
  | accepted address conn asked idle =>
      rw [Host.live_accept, List.mem_append, List.mem_singleton] at alive
      refine alive.imp_right ?_
      rintro rfl
      exact ⟨conn, asked, idle⟩
  | freed address reserve asked => exact .inl (Host.mem_live_free.mp alive).1
  | modified address change =>
      rw [Host.live_modify] at alive
      exact .inl alive
  | replayed item rest taken address call alive' copy reserve =>
      rw [← host.live_modify address fun conn => (conn.api (item.apiCall copy reserve)).2]
      exact .inl alive
  | _ => exact .inl alive

/-- A replay is of a pending call at an address without a tombstone. -/
theorem replays (step : HostStep host event next) {replay : Replay}
    (listed : replay ∈ next.replayed) :
    replay ∈ host.replayed ∨
      ∃ address, replay.item ∈ host.pending ∧ replay.item.call = some address ∧
        address ∉ host.mailbox.dead ∧
        replay.target = (host.lookup address).map Connection.serial := by
  cases step with
  | replayed item rest taken address call alive copy reserve =>
      refine (List.mem_append.mp listed).imp_right fun last => ?_
      obtain rfl := List.mem_singleton.mp last
      exact ⟨address, by simp [Host.pending, taken], call, alive, rfl⟩
  | _ => exact .inl listed

end HostStep

/-! ### Freed memory -/

theorem Mailbox.mem_dead_unregisterCall {mailbox : Mailbox} {call : Address} :
    address ∈ (mailbox.unregisterCall call true).dead ↔
      address = call ∨ address ∈ mailbox.dead := by
  by_cases present : call ∈ mailbox.dead
  · simp only [unregisterCall, present, not_true_eq_false, false_and, if_false]
    exact ⟨.inr, fun known => known.elim (· ▸ present) id⟩
  · simp [unregisterCall, present, or_comm]

theorem Mailbox.nodup_unregisterCall {mailbox : Mailbox} (distinct : mailbox.dead.Nodup)
    (call : Address) (reserve : Bool) : (mailbox.unregisterCall call reserve).dead.Nodup := by
  unfold unregisterCall
  dsimp only
  split
  next absent => simpa using distinct.concat absent.1
  next => exact distinct

/-- A free that fails to allocate its tombstone. -/
def HostEvent.Untracked : HostEvent → Prop
  | free _ reserve => reserve = false
  | _ => False

/-- Every address that was ever in use holds a connection or a tombstone. -/
structure Tombstoned (host : Host) : Prop where
  distinct : host.mailbox.dead.Nodup
  known : ∀ handle ∈ host.accepted,
    host.lookup handle.address = none → handle.address ∈ host.mailbox.dead
  pending : ∀ item ∈ host.pending, ∀ address ∈ item.call,
    ∃ handle ∈ host.accepted, handle.address = address
  replayed : ∀ replay ∈ host.replayed, replay.target ≠ none

namespace Tombstoned

variable {host : Host}

variable (tombstoned : Tombstoned host)
include tombstoned

theorem known_accept (address : Address) (conn : Conn) :
    ∀ handle ∈ (host.accept address conn).accepted,
      (host.accept address conn).lookup handle.address = none →
        handle.address ∈ (host.mailbox.registerCall address).dead := by
  intro handle made missing
  have keys : (host.mailbox.dead.map id).Nodup := by simpa using tombstoned.distinct
  rw [Host.lookup_eq_none_iff, Host.live_accept] at missing
  obtain ⟨before, other⟩ := List.forall_mem_append.mp missing
  have elsewhere : address ≠ handle.address := other _ (List.mem_singleton_self _)
  rcases Table.mem_concat.mp made with earlier | rfl
  · exact (Table.mem_remove keys).mpr
      ⟨tombstoned.known handle earlier (Host.lookup_eq_none_iff.mpr before), elsewhere.symm⟩
  · exact absurd rfl elsewhere

theorem known_free (address : Address) :
    ∀ handle ∈ host.accepted, (host.free address true).lookup handle.address = none →
      handle.address ∈ (host.mailbox.unregisterCall address true).dead := by
  intro handle made missing
  rw [Host.lookup_eq_none_iff] at missing
  refine Mailbox.mem_dead_unregisterCall.mpr ?_
  by_cases same : handle.address = address
  · exact .inl same
  · refine .inr (tombstoned.known handle made (Host.lookup_eq_none_iff.mpr fun other alive => ?_))
    intro equal
    exact missing other (Host.mem_live_free.mpr ⟨alive, equal ▸ same⟩) equal

theorem known_modify (address : Address) (change : Conn → Conn) :
    ∀ handle ∈ host.accepted, (host.modify address change).lookup handle.address = none →
      handle.address ∈ host.mailbox.dead := by
  intro handle made missing
  rw [Host.lookup_eq_none_iff, Host.live_modify, ← Host.lookup_eq_none_iff] at missing
  exact tombstoned.known handle made missing

/-- The tombstones, whatever the step. -/
theorem buried {next : Host} (tracked : ¬ event.Untracked) (step : HostStep host event next) :
    next.mailbox.dead.Nodup ∧ host.accepted <+: next.accepted ∧
      ∀ handle ∈ next.accepted,
        next.lookup handle.address = none → handle.address ∈ next.mailbox.dead := by
  cases step with
  | accepted address conn asked idle =>
      have keys : (host.mailbox.dead.map id).Nodup := by simpa using tombstoned.distinct
      have distinct : (Table.remove id address host.mailbox.dead).Nodup := by
        simpa using Table.nodup_remove keys
      exact ⟨distinct, List.prefix_append _ _, tombstoned.known_accept address conn⟩
  | freed address reserve asked =>
      obtain rfl : reserve = true := by
        subst asked
        simpa [HostEvent.Untracked] using tracked
      exact ⟨Mailbox.nodup_unregisterCall tombstoned.distinct address true, List.prefix_rfl,
        tombstoned.known_free address⟩
  | modified address change =>
      exact ⟨tombstoned.distinct, List.prefix_rfl, tombstoned.known_modify address change⟩
  | replayed item rest taken address call alive copy reserve =>
      exact ⟨tombstoned.distinct, List.prefix_rfl, tombstoned.known_modify address fun conn =>
        (conn.api (item.apiCall copy reserve)).2⟩
  | _ => exact ⟨tombstoned.distinct, List.prefix_rfl, tombstoned.known⟩

theorem step {next : Host} (tracked : ¬ event.Untracked) (step : HostStep host event next) :
    Tombstoned next := by
  obtain ⟨distinct, grown, known⟩ := tombstoned.buried tracked step
  refine ⟨distinct, known, fun item waiting address call => ?_, fun replay listed => ?_⟩
  · rcases step.pending waiting with nulled | before | ⟨handle, made, _, same, _⟩
    · simp [nulled] at call
    · obtain ⟨handle, made, same⟩ := tombstoned.pending item before address call
      exact ⟨handle, grown.subset made, same⟩
    · exact ⟨handle, grown.subset made, Option.some.inj (same.symm.trans call)⟩
  · rcases step.replays listed with before | ⟨address, waiting, call, alive, target⟩
    · exact tombstoned.replayed replay before
    · obtain ⟨handle, made, rfl⟩ := tombstoned.pending replay.item waiting address call
      rw [target]
      exact fun missing => alive (tombstoned.known handle made (Option.map_eq_none_iff.mp missing))

end Tombstoned

/-- If every free leaves its tombstone, no call is replayed into freed memory, whenever
producers make their calls. -/
theorem replays_reach_live_connections {events : List HostEvent}
    (reached : run Host.step .new events = some host)
    (tracked : Along Host.step (fun _ event => ¬ event.Untracked) .new events) :
    ∀ replay ∈ host.replayed, replay.target ≠ none := by
  have start : Tombstoned .new := by
    constructor <;> simp [Host.new, Host.pending, Mailbox.new]
  exact (tracked.run_invariant (fun _ _ _ tombstoned meets performed =>
    tombstoned.step meets (Host.step_hostStep performed)) start reached).replayed

/-! ### The owner of a replayed call -/

/-- An event that does not mix up connections: a producer's handle is not that of an
earlier connection at an address now in use, and a connection is accepted at an
address for which nothing is queued. -/
def Host.Careful (host : Host) : HostEvent → Prop
  | .accept address _ => ∀ item ∈ host.mailbox.queue, item.call ≠ some address
  | event => ∀ handle ∈ event.handle?, ∀ other ∈ host.live,
      other.address = handle.address → other = handle

instance (host : Host) : (event : HostEvent) → Decidable (host.Careful event)
  | .accept .. => inferInstanceAs (Decidable (∀ item ∈ host.mailbox.queue, _))
  | .callWrite .. => inferInstanceAs (Decidable (∀ handle ∈ _, ∀ other ∈ host.live, _))
  | .callFinish .. => inferInstanceAs (Decidable (∀ handle ∈ _, ∀ other ∈ host.live, _))
  | .callFinishMsg .. => inferInstanceAs (Decidable (∀ handle ∈ _, ∀ other ∈ host.live, _))
  | .free .. => isTrue nofun
  | .tick .. => isTrue nofun
  | .drain => isTrue nofun
  | .replay .. => isTrue nofun

theorem Host.Careful.handle {handle : Handle} (careful : host.Careful event)
    (used : event.handle? = some handle) :
    ∀ other ∈ host.live, other.address = handle.address → other = handle := by
  cases event with
  | accept address conn => simp [HostEvent.handle?] at used
  | _ => exact careful handle used

/-- A pending call finds its own connection at its address, or none. -/
structure Attributed (host : Host) : Prop where
  pending : ∀ item ∈ host.pending, ∀ handle ∈ host.live,
    item.call = some handle.address → handle.serial = item.owner
  replayed : ∀ replay ∈ host.replayed, ∀ serial,
    replay.target = some serial → serial = replay.item.owner

theorem Attributed.step {next : Host} (attributed : Attributed host) (careful : host.Careful event)
    (step : HostStep host event next) : Attributed next := by
  refine ⟨fun item waiting handle alive call => ?_, fun replay listed serial target => ?_⟩
  · rcases step.pending waiting with nulled | before | ⟨made, _, used, address, owner⟩
    · simp [nulled] at call
    · rcases step.live alive with known | ⟨conn, rfl, idle⟩
      · exact attributed.pending item before handle known call
      · -- Only the queue can hold a call here, and it has none for this address.
        have queued : item ∈ host.mailbox.queue := by simpa [Host.pending, idle] using before
        exact absurd call (careful item queued)
    · rcases step.live alive with known | ⟨conn, rfl, _⟩
      · have same : handle.address = made.address :=
          Option.some.inj (call.symm.trans address)
        rw [careful.handle used handle known same, owner]
      · simp [HostEvent.handle?] at used
  · rcases step.replays listed with before | ⟨address, waiting, call, _, found⟩
    · exact attributed.replayed replay before serial target
    · exact attributed.pending replay.item waiting _ (Host.lookup_serial (found ▸ target)) call

/-- In a run of careful events, a call replayed into a connection was made with the
handle of that connection. -/
theorem replays_reach_their_owner {events : List HostEvent} {host : Host}
    (reached : run Host.step .new events = some host)
    (careful : Along Host.step Host.Careful .new events) :
    ∀ replay ∈ host.replayed, ∀ serial, replay.target = some serial →
      serial = replay.item.owner := by
  have start : Attributed .new := by
    constructor <;> simp [Host.new, Host.pending, Mailbox.new]
  exact (careful.run_invariant (fun _ _ _ attributed meets performed =>
    attributed.step meets (Host.step_hostStep performed)) start reached).replayed

/-- A call that is queued for a freed connection is dropped; the next connection at the
same address then gets its own. -/
theorem replays_reach_their_owner_after_drain :
    let conn := Conn.newServer [] 1024 3
    let events : List HostEvent :=
      [.accept 8 conn, .free 8 true, .callWrite (some ⟨8, 0⟩) 1 [7] true true, .drain,
        .replay true true, .accept 8 conn, .callFinish (some ⟨8, 1⟩) 1 0 true, .drain,
        .replay true true]
    ∃ host, run Host.step .new events = some host ∧
      host.replayed.map Replay.target = [some 1] ∧
      ∀ replay ∈ host.replayed, ∀ serial, replay.target = some serial →
        serial = replay.item.owner := by
  intro conn events
  refine ⟨_, rfl, rfl, @replays_reach_their_owner events _ rfl ?_⟩
  exact ⟨by decide, nofun, by decide, nofun, nofun, by decide, by decide, nofun, nofun, trivial⟩

/-- A producer still holds the handle of a freed connection.  Its call is queued, a
connection is accepted at the same address, and the drain replays the call into that
one: the stream of another client gets the message. -/
theorem stale_call_reaches_next_connection :
    let conn := Conn.newServer [] 1024 3
    let headers : FrameHd := ⟨1, nvHeaders, 0, .request⟩
    ∃ host, run Host.step .new
        [.accept 8 conn, .free 8 true, .callWrite (some ⟨8, 0⟩) 1 [7] true true, .accept 8 conn,
          .tick 8 (.beginHeaders headers true), .drain, .replay true true] = some host ∧
      host.replayed.map (fun replay => (replay.item.owner, replay.target)) = [(0, some 1)] ∧
      host.conns.map (fun connection => (connection.serial, connection.conn.streams.map
        fun stream => stream.out.messages.map OutMsg.bytes)) = [(1, [[frame [7]]])] := by
  exact ⟨_, rfl, rfl, rfl⟩

end GrpcUds.Ffi
