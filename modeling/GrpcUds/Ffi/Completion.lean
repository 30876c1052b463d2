import GrpcUds.Ffi.Responder

/-!
# What a completion stands for

The message and the trailer that a completion is to answer its call with, the items that
its calls put into the mailbox, and what its calls do to a connection that has heard the
ones before, directly or through the mailbox.
-/

namespace GrpcUds.Ffi

open Framing Server

namespace AbiCall

def payload? : AbiCall → Option Bytes
  | write data => some data
  | _ => none

def trailer? : AbiCall → Option (List Headers.Nv)
  | write _ => none
  | finish status => some (trailerOf (grpcStatusFromI32 status, none))
  | finishMsg status msg => some (trailerOf (grpcStatusFromI32 status, some msg))

/-- The call in the queue, without its address. -/
def item (ref : CallRef) : AbiCall → Item
  | write data => ⟨none, ref.callId, data, false, .ok, ref.call.serial⟩
  | finish status => ⟨none, ref.callId, [], true, grpcStatusFromI32 status, ref.call.serial⟩
  | finishMsg status msg => ⟨none, ref.callId, msg, true, grpcStatusFromI32 status, ref.call.serial⟩

theorem item_event (ref : CallRef) (copy reserve : Bool) (call : AbiCall) :
    (call.event ref copy reserve).item?.map Item.detached = some (call.item ref) := by
  cases call <;> rfl

theorem code_event (ref : CallRef) (host : Host) (call : AbiCall) :
    host.code (call.event ref true true) = some 0 := by
  cases call <;> rfl

end AbiCall

variable {completion : Completion}

namespace Completion

/-- The message that the call is to be answered with. -/
def message : Completion → Option Bytes
  | respond encoded | cRespond encoded => encoded
  | fail _ _ | cFinish _ => none

/-- The trailer that the call is to be answered with: OK after a message. -/
def trailer : Completion → List Headers.Nv
  | respond _ | cRespond _ => Headers.trailer .ok
  | fail status message => trailerOf (grpcStatusFromI32 status, some message)
  | cFinish status => trailerOf (grpcStatusFromI32 status, none)

/-- What the call is to send before the trailer. -/
def bytes (completion : Completion) : Bytes := completion.message.toList.flatMap frame

/-- The response encodes and fits a frame. -/
def isSound (completion : Completion) : Bool :=
  completion.encodes && completion.message.all fun message => message.length ≤ u32Max

theorem encodes_of_isSound (sound : completion.isSound = true) :
    completion.encodes = true := by
  simp only [isSound, Bool.and_eq_true] at sound
  exact sound.1

def isRespond : Completion → Bool
  | respond _ | cRespond _ => true
  | fail _ _ | cFinish _ => false

theorem script_payloads (completion : Completion) :
    completion.script.filterMap AbiCall.payload? = completion.message.toList := by
  cases completion with
  | respond encoded | cRespond encoded => cases encoded <;> rfl
  | fail | cFinish => rfl

theorem script_trailer (encodes : completion.encodes = true) :
    completion.script.findSome? AbiCall.trailer? = some completion.trailer := by
  cases completion with
  | respond encoded | cRespond encoded =>
      cases encoded with
      | none => simp [Completion.encodes] at encodes
      | some => rfl
  | fail | cFinish => rfl

/-- At most one write, and then one finish. -/
theorem script_shape (encodes : completion.encodes = true) :
    ∃ last, last.payload? = none ∧ last.trailer? ≠ none ∧
      completion.script = completion.message.toList.map AbiCall.write ++ [last] := by
  cases completion with
  | respond encoded =>
      cases encoded with
      | none => simp [Completion.encodes] at encodes
      | some => exact ⟨.finishMsg okCode [], rfl, nofun, rfl⟩
  | cRespond encoded =>
      cases encoded with
      | none => simp [Completion.encodes] at encodes
      | some => exact ⟨.finish okCode, rfl, nofun, rfl⟩
  | fail status message => exact ⟨.finishMsg status message, rfl, nofun, rfl⟩
  | cFinish status => exact ⟨.finish status, rfl, nofun, rfl⟩

end Completion

namespace Desk

/-- The core refuses the completion: the stream is gone, or it is finished and the
completion starts with a write, or there is nothing to send. -/
def refuses (ref : CallRef) (conn : Conn) (completion : Completion) : Bool :=
  decide (completion.script = []) || (conn.findStream ref.callId).isNone ||
    (conn.isAnswered ref.callId && completion.isRespond)

end Desk

/-! ### What is queued for the call -/

/-- The items for the call, without their addresses. -/
def CallRef.select (ref : CallRef) (items : List Item) : List Item :=
  (items.filter ref.owns).map Item.detached

namespace CallRef

theorem select_append (ref : CallRef) (first second : List Item) :
    ref.select (first ++ second) = ref.select first ++ ref.select second := by
  simp [select]

/-- The address says nothing about who an item is for. -/
theorem select_eq (ref : CallRef) (items : List Item) :
    ref.select items = (items.map Item.detached).filter ref.owns := by
  rw [select, List.filter_map]
  rfl

theorem select_of_owned {ref : CallRef} {item : Item} (own : ref.owns item = true) :
    ref.select [item] = [item.detached] := by
  simp [select, own]

theorem select_of_other {ref : CallRef} {item : Item} (other : ref.owns item = false) :
    ref.select [item] = [] := by
  simp [select, other]

end CallRef

namespace Host

variable {host next : Host} {event : HostEvent}

theorem step_select (ref : CallRef) (performed : host.step event = some next) :
    ref.select ((host.looks event).map Look.item) ++ ref.select next.waiting =
      ref.select host.waiting ++ ref.select (host.enqueues event) := by
  rw [← ref.select_append, ← ref.select_append, ref.select_eq, ref.select_eq,
    step_waiting performed]

theorem step_accepted (performed : host.step event = some next) :
    host.accepted <+: next.accepted := by
  cases step_hostStep performed with
  | accepted => exact List.prefix_append _ _
  | _ => exact List.prefix_rfl

/-- A producer's call reaches no connection and looks at nothing. -/
theorem producer {item : Item} (asks : event.item? = some item) :
    (host.perform event).conns = host.conns ∧ host.looks event = [] := by
  cases event with
  | callWrite | callFinish | callFinishMsg => exact ⟨rfl, rfl⟩
  | _ => simp [HostEvent.item?] at asks

end Host

/-! ### The connection of the call -/

namespace Registered

variable {host : Host} {address : Address} {change : Conn → Conn} {connection other : Connection}

theorem addresses_nodup (registered : Registered host) :
    (host.conns.map Connection.address).Nodup := by
  have distinct := registered.distinct
  rw [Host.live, List.map_map] at distinct
  exact distinct

theorem mem_live (member : connection ∈ host.conns) : connection.handle ∈ host.live :=
  List.mem_map_of_mem member

theorem lookup_of_mem (registered : Registered host) (member : connection ∈ host.conns) :
    host.lookup connection.address = some connection :=
  (Table.lookup_eq_some_iff registered.addresses_nodup).mpr ⟨member, rfl⟩

theorem eq_of_handle (registered : Registered host) (member : connection ∈ host.conns)
    (listed : other ∈ host.conns) (same : connection.handle = other.handle) :
    connection = other := by
  have address : connection.address = other.address := congrArg Handle.address same
  have found := registered.lookup_of_mem member
  rw [address, registered.lookup_of_mem listed] at found
  exact (Option.some.inj found).symm

/-- A connection after a change at one address. -/
theorem before_modify (registered : Registered host)
    (member : connection ∈ (host.modify address change).conns) :
    ∃ before ∈ host.conns, before.handle = connection.handle ∧
      connection.conn = if before.address = address then change before.conn else before.conn := by
  rw [Host.modify, Table.update_eq_map registered.addresses_nodup] at member
  obtain ⟨before, listed, rfl⟩ := List.mem_map.mp member
  refine ⟨before, listed, ?_, ?_⟩ <;> split <;> rfl

end Registered

namespace Desk

theorem connection?_eq_some {ref : CallRef} {desk : Desk} {connection : Connection}
    (registered : Registered desk.host) :
    desk.connection? ref = some connection ↔
      connection ∈ desk.host.conns ∧ connection.handle = ref.call := by
  rw [connection?, Option.filter_eq_some_iff, Host.lookup,
    Table.lookup_eq_some_iff registered.addresses_nodup]
  simp only [decide_eq_true_eq]
  constructor
  · rintro ⟨⟨member, _⟩, own⟩
    exact ⟨member, own⟩
  · rintro ⟨member, own⟩
    exact ⟨⟨member, congrArg Handle.address own⟩, own⟩

theorem turningAt_eq_some {desk : Desk} {address : Address} {connection : Connection}
    {turning : Turning} (registered : Registered desk.host)
    (taken : desk.turningAt address = some (connection, turning)) :
    desk.host.batch = [] ∧ (∀ frame ∈ desk.frame, frame.1 = address) ∧
      connection ∈ desk.host.conns ∧ connection.address = address ∧
      turning = ⟨connection.conn, desk.frameAt address⟩ := by
  unfold turningAt at taken
  obtain ⟨free, taken⟩ := Option.ite_none_right_eq_some.mp taken
  obtain ⟨found, present, same⟩ := Option.map_eq_some_iff.mp taken
  obtain ⟨rfl, rfl⟩ := Prod.mk.inj same
  obtain ⟨member, rfl⟩ :=
    (Table.lookup_eq_some_iff registered.addresses_nodup).mp present
  refine ⟨free.1, fun frame framed => ?_, member, rfl, rfl⟩
  have all := free.2
  rw [Option.mem_def.mp framed] at all
  simpa using all

end Desk

/-! ### Calls on the core -/

/-- What has become of the call if the core has heard the calls `done`. -/
def Given (ref : CallRef) (turning : Turning) (issued : Bool) (done : List AbiCall)
    (sent : Bytes) : Prop :=
  ∃ finish, finish.map trailerOf = done.findSome? AbiCall.trailer? ∧
    Served ref.callId turning issued (done.filterMap AbiCall.payload?) finish sent

/-- The call of the core that a call of the ABI becomes, directly or through the mailbox,
if the memory suffices. -/
inductive Stands (ref : CallRef) : AbiCall → ApiCall → Prop where
  | write (data : Bytes) : Stands ref (.write data) (.writeCall ref.callId data true true)
  | finish (status : Int) :
      Stands ref (.finish status) (.finishCall ref.callId (grpcStatusFromI32 status))
  | queuedFinish (status : Int) :
      Stands ref (.finish status) (.finishCallMsg ref.callId (grpcStatusFromI32 status) [])
  | finishMsg (status : Int) (msg : Bytes) :
      Stands ref (.finishMsg status msg) (.finishCallMsg ref.callId (grpcStatusFromI32 status) msg)

theorem Stands.direct (ref : CallRef) (call : AbiCall) :
    Stands ref call (call.apiCall ref.callId true true) := by
  cases call with
  | write data => exact .write data
  | finish status => exact .finish status
  | finishMsg status msg => exact .finishMsg status msg

theorem Stands.queued {ref : CallRef} {call : AbiCall} {item : Item}
    (same : item.detached = call.item ref) : Stands ref call (item.apiCall true true) := by
  obtain ⟨address, callId, payload, finish, status, owner⟩ := item
  cases call with
  | write data =>
      obtain ⟨-, rfl, rfl, rfl, rfl, rfl⟩ := Item.mk.inj same
      exact .write payload
  | finish status =>
      obtain ⟨-, rfl, rfl, rfl, rfl, rfl⟩ := Item.mk.inj same
      exact .queuedFinish status
  | finishMsg status msg =>
      obtain ⟨-, rfl, rfl, rfl, rfl, rfl⟩ := Item.mk.inj same
      exact .finishMsg status payload

namespace Completion

/-- Nothing comes before the message, and only the message before the finish. -/
theorem script_split {done rest : List AbiCall} {call : AbiCall}
    (encodes : completion.encodes = true) (split : completion.script = done ++ call :: rest) :
    done.findSome? AbiCall.trailer? = none ∧
      ∀ data, call = .write data → done = [] ∧ completion.message = some data := by
  obtain ⟨last, silent, ends, shape⟩ := script_shape encodes
  rw [shape] at split
  have wordless : ∀ data, last ≠ .write data := by
    rintro data rfl
    exact absurd silent nofun
  cases carries : completion.message with
  | none =>
      rw [carries] at split
      obtain ⟨rfl, rfl, rfl⟩ : done = [] ∧ call = last ∧ rest = [] := by
        cases done <;> simp_all
      exact ⟨rfl, fun data same => absurd same (wordless data)⟩
  | some message =>
      rw [carries] at split
      cases done with
      | nil =>
          obtain ⟨rfl, _⟩ := List.cons.inj split
          refine ⟨rfl, ?_⟩
          rintro data ⟨⟩
          exact ⟨rfl, rfl⟩
      | cons first more =>
          obtain ⟨rfl, split⟩ := List.cons.inj split
          obtain ⟨rfl, rfl, rfl⟩ : more = [] ∧ call = last ∧ rest = [] := by
            cases more <;> simp_all
          exact ⟨rfl, fun data same => absurd same (wordless data)⟩

end Completion

namespace AbiCall

variable {conn : Conn} {id : StreamId}

theorem code_of_missing (missing : conn.findStream id = none) (call : AbiCall)
    (copy reserve : Bool) : resultToC (conn.api (call.apiCall id copy reserve)).1 ≠ 0 := by
  cases call <;> simp [apiCall, Conn.api, Conn.writeCall, Conn.writeCallWith, Conn.finishCall,
    Conn.finishCallMsg, Conn.finishCallInner, missing, resultToC, connErrToC, errNoent]

/-- A write is refused by a stream that is finished, too. -/
theorem code_of_answered (answered : conn.isAnswered id = true) (data : Bytes)
    (copy reserve : Bool) :
    resultToC (conn.api ((write data).apiCall id copy reserve)).1 ≠ 0 := by
  cases found : conn.findStream id with
  | none => exact code_of_missing found _ copy reserve
  | some stream =>
      have finished := Conn.isAnswered_iff.mp answered stream found
      rw [(Conn.api_of_finished found finished rfl).1]
      simp [apiCall, ApiCall.isWrite, resultToC, connErrToC, errPipe]

end AbiCall

namespace Given

variable {ref : CallRef} {turning : Turning} {issued : Bool} {done rest : List AbiCall}
  {sent : Bytes}

variable (given : Given ref turning issued done sent)
include given

theorem part :
    sent <+: (done.filterMap AbiCall.payload?).flatMap frame := by
  obtain ⟨finish, _, served⟩ := given
  exact served.part

theorem step {event : TurnEvent} {next : Turning} (spared : turning.spares ref.callId event = true)
    (stepped : turning.step event = some next) :
    Given ref next (issued || turning.enters ref.callId event) done
      (sent ++ turning.ships ref.callId event) := by
  obtain ⟨finish, trailer, served⟩ := given
  exact ⟨finish, trailer, served.step spared stepped⟩

/-- A call that the core refuses, or that is for another stream. -/
theorem spared {asked : ApiCall}
    (spared : asked.answers? ≠ some ref.callId ∨ turning.conn.isAnswered ref.callId = true) :
    Given ref ⟨(turning.conn.api asked).2, turning.frame⟩ issued done sent := by
  obtain ⟨finish, trailer, served⟩ := given
  refine ⟨finish, trailer, served.call ?_⟩
  simpa [Turning.spares] using spared

omit given

/-- The next call of a completion. -/
theorem call (given : Given ref turning true done sent) (sound : completion.isSound = true)
    {call : AbiCall} (split : completion.script = done ++ call :: rest) {asked : ApiCall}
    (stands : Stands ref call asked) :
    Given ref ⟨(turning.conn.api asked).2, turning.frame⟩ true (done ++ [call]) sent ∧
      (turning.conn.isAnswered ref.callId = false → (turning.conn.api asked).1 = .ok ()) := by
  obtain ⟨encodes, fits⟩ : completion.encodes = true ∧
      completion.message.all (fun message => message.length ≤ u32Max) = true := by
    simpa [Completion.isSound] using sound
  obtain ⟨early, first⟩ := Completion.script_split encodes split
  obtain ⟨finish, trailer, served⟩ := given
  rw [early] at trailer
  obtain rfl := Option.map_eq_none_iff.mp trailer
  have concludes : ∀ status message, call.payload? = none →
      call.trailer? = some (trailerOf (status, message)) →
      (Given ref ⟨(turning.conn.finishCallInner ref.callId status message).2, turning.frame⟩ true
          (done ++ [call]) sent ∧
        (turning.conn.isAnswered ref.callId = false →
          (turning.conn.finishCallInner ref.callId status message).1 = .ok ())) := by
    intro status message silent carries
    obtain ⟨after, accepted⟩ := served.conclude status message
    refine ⟨⟨some (status, message), ?_, ?_⟩, accepted⟩
    · simp [List.findSome?_append, early, carries]
    · simpa [List.filterMap_append, silent] using after
  cases stands with
  | write data =>
      obtain ⟨rfl, message⟩ := first data rfl
      rw [message] at fits
      have short : data.length ≤ u32Max := by simpa using fits
      obtain ⟨after, accepted⟩ := served.write short
      exact ⟨⟨none, rfl, after⟩, accepted⟩
  | finish status => exact concludes _ none rfl rfl
  | queuedFinish status => exact concludes _ (some []) rfl rfl
  | finishMsg status msg => exact concludes _ (some msg) rfl rfl

/-- All the calls of a completion, if the stream is there. -/
theorem run (given : Given ref turning true done sent) (sound : completion.isSound = true)
    (split : completion.script = done ++ rest)
    (present : (turning.conn.findStream ref.callId).isSome) :
    (runScript ref.callId true true rest turning.conn).1 = true ∧
      Given ref ⟨(runScript ref.callId true true rest turning.conn).2, turning.frame⟩ true
        (done ++ rest) sent := by
  induction rest generalizing turning done with
  | nil =>
      rw [List.append_nil]
      exact ⟨rfl, given⟩
  | cons call rest ih =>
      let asked := call.apiCall ref.callId true true
      have encodes := Completion.encodes_of_isSound sound
      have open_ : turning.conn.isAnswered ref.callId = false := by
        obtain ⟨stream, found⟩ := Option.isSome_iff_exists.mp present
        obtain ⟨finish, trailer, served⟩ := given
        rw [(Completion.script_split encodes split).1] at trailer
        have unfinished := served.unanswered (Option.map_eq_none_iff.mp trailer) (.inl rfl)
        simp [Conn.isAnswered, found, unfinished stream found]
      obtain ⟨after, accepted⟩ := given.call sound split (.direct ref call)
      have returned : resultToC (turning.conn.api asked).1 = 0 := by
        rw [accepted open_]
        rfl
      have kept : ((turning.conn.api asked).2.findStream ref.callId).isSome :=
        Table.isSome_lookup.mpr ((turning.conn.api_acts asked).ids ▸ Table.isSome_lookup.mp present)
      have later := ih after (by rw [split, List.append_assoc]; rfl) kept
      rw [List.append_assoc] at later
      simp only [runScript]
      rw [if_pos returned]
      exact later

/-- A completion that the core refuses returns an error and leaves the answer alone. -/
theorem refused (given : Given ref turning issued done sent)
    (refuses : Desk.refuses ref turning.conn completion = true) (copy reserve : Bool) :
    (completion.onIoThread ref.callId copy reserve turning.conn).1 = false ∧
      Given ref ⟨(completion.onIoThread ref.callId copy reserve turning.conn).2, turning.frame⟩
        issued done sent := by
  have turned : ∀ {call : AbiCall} {rest : List AbiCall}, completion.script = call :: rest →
      turning.conn.isAnswered ref.callId = true →
      resultToC (turning.conn.api (call.apiCall ref.callId copy reserve)).1 ≠ 0 ∨
        rest = [] ∧ completion.encodes = false →
      (completion.onIoThread ref.callId copy reserve turning.conn).1 = false ∧
        Given ref ⟨(completion.onIoThread ref.callId copy reserve turning.conn).2, turning.frame⟩
          issued done sent := by
    intro call rest script answered stops
    have after : Given ref ⟨(turning.conn.api (call.apiCall ref.callId copy reserve)).2,
        turning.frame⟩ issued done sent := given.spared (.inr answered)
    simp only [Completion.onIoThread, script, runScript]
    rcases stops with failed | ⟨rfl, unencoded⟩
    · rw [if_neg failed]
      exact ⟨rfl, after⟩
    · rw [unencoded, Bool.and_false]
      split <;> exact ⟨rfl, after⟩
  have gone : (turning.conn.findStream ref.callId).isNone = true →
      turning.conn.isAnswered ref.callId = true := by
    intro none
    simp [Conn.isAnswered, Option.isNone_iff_eq_none.mp none]
  have missing : (turning.conn.findStream ref.callId).isNone = true → ∀ call : AbiCall,
      resultToC (turning.conn.api (call.apiCall ref.callId copy reserve)).1 ≠ 0 :=
    fun none call => call.code_of_missing (Option.isNone_iff_eq_none.mp none) copy reserve
  simp only [Desk.refuses, Bool.or_eq_true, Bool.and_eq_true, decide_eq_true_eq, or_assoc]
    at refuses
  cases completion with
  | respond encoded =>
      have answered : turning.conn.isAnswered ref.callId = true := by
        rcases refuses with empty | none | ⟨answered, _⟩
        · cases encoded <;> simp [Completion.script] at empty
        · exact gone none
        · exact answered
      cases encoded with
      | none => exact turned rfl answered (.inr ⟨rfl, rfl⟩)
      | some message =>
          exact turned rfl answered (.inl (AbiCall.code_of_answered answered message copy reserve))
  | cRespond encoded =>
      cases encoded with
      | none => exact ⟨rfl, given⟩
      | some message =>
          have answered : turning.conn.isAnswered ref.callId = true := by
            rcases refuses with empty | none | ⟨answered, _⟩
            · simp [Completion.script] at empty
            · exact gone none
            · exact answered
          exact turned rfl answered (.inl (AbiCall.code_of_answered answered message copy reserve))
  | fail status message =>
      have none : (turning.conn.findStream ref.callId).isNone = true := by
        simpa [Completion.script, Completion.isRespond] using refuses
      exact turned rfl (gone none) (.inl (missing none _))
  | cFinish status =>
      have none : (turning.conn.findStream ref.callId).isNone = true := by
        simpa [Completion.script, Completion.isRespond] using refuses
      exact turned rfl (gone none) (.inl (missing none _))

end Given

end GrpcUds.Ffi
