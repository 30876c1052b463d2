import GrpcUds.Ffi.StatusOrder

/-!
# The last status a watcher is told

`set_status` stores under the lock and writes after it has released it, directly on
the I/O thread and through the mailbox elsewhere.  Two calls for one service may
therefore write in the other order than they stored, and a direct write may overtake
a queued one.  In an orderly run what a watcher was told last is what the registry
holds once all is delivered.
-/

namespace GrpcUds.Ffi

open Transition Framing Server

/-! ### The C++ service -/

namespace HealthService

def findOrAddStatus (state : HealthState) (service : Bytes) : HealthState :=
  match Table.lookup Prod.fst service state.statuses with
  | some _ => state
  | none => { state with statuses := state.statuses ++ [(service, unknown)] }

/-- `HealthService::SetStatus` up to the release of the lock.  Its allocations do not
return if they fail. -/
def setStatus (health : Health) (service : Bytes) (status : Int) (inline : Bool) : Health :=
  let found := findOrAddStatus health.state service
  { health with
    state :=
      { found with
        statuses := Table.update Prod.fst service (fun entry => (entry.1, status))
          found.statuses }
    calls := health.calls ++ [⟨service, encodeResponse status true,
      (found.watchers.filter fun watcher => watcher.live && watcher.service = service).map
        Watcher.target, inline⟩] }

/-- It stores, takes its snapshot and has its targets to write to as the C function does
when none of its allocations fails. -/
theorem setStatus_eq (health : Health) (service : Bytes) (status : Int) (inline : Bool)
    {room : Nat} (enough : health.state.watchers.length ≤ room) :
    setStatus health service status inline =
      health.setStatus service status inline true true room := by
  have all : ((health.state.watchers.filter fun watcher =>
      watcher.live && watcher.service = service).map Watcher.target).length ≤ room := by
    rw [List.length_map]
    exact (List.length_filter_le _ _).trans enough
  cases known : Table.lookup Prod.fst service health.state.statuses with
  | some entry =>
      simp only [setStatus, findOrAddStatus, Health.setStatus, HealthState.set,
        HealthState.snapshot, known, List.take_of_length_le all]
  | none =>
      have stored : Table.update Prod.fst service (fun entry => (entry.1, status))
          (health.state.statuses ++ [(service, unknown)]) =
            health.state.statuses ++ [(service, status)] :=
        @Table.update_append_new _ _ _ Prod.fst _ _ (service, unknown) known
      simp only [setStatus, findOrAddStatus, Health.setStatus, HealthState.set,
        HealthState.snapshot, known, if_true, List.take_of_length_le all, stored]

end HealthService

namespace Health

/-! ### What a watcher is told last -/

/-- The status the registry holds is the last one on the way to the watcher, or a call in
progress has yet to hand it over. -/
def Told (health : Health) (watcher : Watcher) : Prop :=
  (∃ call ∈ health.calls, watcher.target ∈ call.targets) ∨
    (health.trail watcher.target).getLast? =
      some (encodeResponse (health.state.current watcher.service) true)

/-- The handler of a watcher writes a status, and no allocation of it fails. -/
def Greeted (health : Health) (watcher : Watcher) : Prop :=
  ∀ greeting, health.greeting = some greeting → greeting.target = watcher.target →
    ∃ payload, payload.length ≤ 2 ∧ greeting.calls =
      [.setCancelHook watcher.callId watcher.hook, .writeCall watcher.callId payload true true]

section Told

variable {health next : Health} {watcher : Watcher}

variable {target : Target}

theorem queuedFor_eq_nil (unqueued : ∀ item ∈ health.host.pending, item.isFor target = false) :
    health.queuedFor target = [] := by
  unfold queuedFor
  rw [List.map_eq_nil_iff, List.filter_eq_nil_iff]
  intro item member
  rw [unqueued item]
  · simp
  · rcases List.mem_append.mp member with batch | queue
    · exact List.mem_append_right _ batch
    · exact List.mem_append_left _ queue

theorem greetingFor_eq_nil
    (other : ∀ greeting, health.greeting = some greeting → greeting.target ≠ target) :
    health.greetingFor target = [] := by
  unfold greetingFor
  split
  · rfl
  next greeting pending => rw [if_neg (other greeting pending)]

/-- A step that leaves the way to the watcher alone. -/
theorem Told.frame (told : health.Told watcher)
    (trail : next.trail watcher.target = health.trail watcher.target)
    (current : next.state.current watcher.service = health.state.current watcher.service)
    (calls : ∀ call ∈ health.calls, watcher.target ∈ call.targets →
      ∃ later ∈ next.calls, watcher.target ∈ later.targets) : next.Told watcher := by
  rcases told with ⟨call, member, target⟩ | last
  · exact .inl (calls call member target)
  · right
    rw [trail, current]
    exact last

/-! #### Steps that write nothing -/

theorem Told.free (told : health.Told watcher) {address : Address} (reserve : Bool)
    (elsewhere : watcher.call.address ≠ address) :
    { health with host := health.host.free address reserve }.Told watcher := by
  apply told.frame
  · unfold trail
    congr 2
    have same (item : Item) : Item.isFor watcher.target
        (if item.call = some address then { item with call := none } else item) =
          item.isFor watcher.target := by
      split
      next nulled => simp [Item.isFor, nulled, Watcher.target, Ne.symm elsewhere]
      next => rfl
    have kept (item : Item) : (if item.call = some address then { item with call := none }
        else item).payload = item.payload := by
      split <;> rfl
    simp only [queuedFor, Host.free, Mailbox.unregisterCall, List.filter_append, List.map_append,
      List.filter_map, List.map_map]
    congr 1
    simp only [Function.comp_def, same, kept]
  · rfl
  · exact fun call member target => ⟨call, member, target⟩

theorem Told.drain (told : health.Told watcher) (idle : health.host.batch = []) :
    { health with host := health.host.drain }.Told watcher := by
  apply told.frame
  · simp [trail, greetingFor, queuedFor, Host.drain, idle]
  · rfl
  · exact fun call member target => ⟨call, member, target⟩

theorem HealthState.mem_snapshot_of_live {state : HealthState} {room : Nat}
    (member : watcher ∈ state.watchers) (live : watcher.live = true)
    (enough : (state.watchers.filter fun other =>
      other.live && other.service = watcher.service).length ≤ room) :
    watcher.target ∈ state.snapshot watcher.service room := by
  unfold HealthState.snapshot
  rw [List.take_of_length_le (by simpa using enough)]
  apply List.mem_map_of_mem
  exact List.mem_filter.mpr ⟨member, by simp [live]⟩

theorem Told.setStatus (told : health.Told watcher) {service : Bytes} {status : Int}
    {inline stored encoded : Bool} {room : Nat}
    (orderly : health.orderly (.setStatus service status inline stored encoded room) = true)
    (member : watcher ∈ health.state.watchers) (live : watcher.live = true) :
    (health.setStatus service status inline stored encoded room).Told watcher := by
  obtain ⟨_, _, enough, _⟩ := orderly_setStatus orderly
  by_cases serves : watcher.service = service
  · left
    subst serves
    refine ⟨_, List.mem_append_right _ (List.mem_singleton_self _), ?_⟩
    apply HealthState.mem_snapshot_of_live
    · rwa [HealthState.watchers_set]
    · exact live
    · rwa [HealthState.watchers_set]
  · apply told.frame
    · rfl
    · exact HealthState.current_set_other serves _ _
    · exact fun call listed target => ⟨call, List.mem_append_left _ listed, target⟩

theorem Told.returned (told : health.Told watcher) {position : Nat} {call : Notify}
    (listed : health.calls[position]? = some call) (done : call.targets = []) :
    { health with calls := health.calls.eraseIdx position }.Told watcher := by
  apply told.frame
  · rfl
  · rfl
  · intro other member target
    refine ⟨other, ?_, target⟩
    obtain ⟨index, found⟩ := List.mem_iff_getElem?.mp member
    refine List.mem_eraseIdx_iff_getElem?.mpr ⟨index, ?_, found⟩
    rintro rfl
    obtain rfl := Option.some.inj (listed.symm.trans found)
    simp [done] at target

/-! #### Handing a target over -/

/-- The other targets of the calls in progress are still to be told. -/
theorem targeted_of_shrink {position : Nat} {call : Notify} {wanted : Target} {rest : List Target}
    (listed : health.calls[position]? = some call) (targets : call.targets = target :: rest)
    (different : target ≠ wanted) :
    ∀ other ∈ health.calls, wanted ∈ other.targets →
      ∃ later ∈ health.calls.set position { call with targets := rest },
        wanted ∈ later.targets := by
  intro other member aimed
  obtain ⟨index, found⟩ := List.mem_iff_getElem?.mp member
  by_cases here : position = index
  · subst here
    obtain rfl := Option.some.inj (listed.symm.trans found)
    obtain ⟨bound, _⟩ := List.getElem?_eq_some_iff.mp listed
    refine ⟨_, List.mem_set bound _, ?_⟩
    rw [targets] at aimed
    exact (List.mem_cons.mp aimed).resolve_left (Ne.symm different)
  · refine ⟨other, List.mem_iff_getElem?.mpr ⟨index, ?_⟩, aimed⟩
    rwa [List.getElem?_set_ne here]

theorem queuedFor_push {item : Item} (batch : next.host.batch = health.host.batch)
    (queue : next.host.mailbox.queue = health.host.mailbox.queue ++ [item]) :
    next.queuedFor target =
      health.queuedFor target ++ if item.isFor target then [item.payload] else [] := by
  cases meant : item.isFor target <;> simp [queuedFor, batch, queue, meant]

theorem Told.notifyQueued (told : health.Told watcher) (serialized : health.Serialized)
    (delivery : health.Delivery) (member : watcher ∈ health.state.watchers)
    (live : watcher.live = true) {position : Nat} {call : Notify} {rest : List Target}
    (listed : health.calls[position]? = some call) (targets : call.targets = target :: rest)
    (calls : next.calls = health.calls.set position { call with targets := rest })
    (state : next.state = health.state) (written : next.written = health.written)
    (greeting : next.greeting = health.greeting) (batch : next.host.batch = health.host.batch)
    (queue : next.host.mailbox.queue = health.host.mailbox.queue ++
      [⟨some target.call.address, target.callId, call.message, false, .ok, target.call.serial⟩]) :
    next.Told watcher := by
  have trail : next.trail watcher.target = health.trail watcher.target ++
      if target = watcher.target then [call.message] else [] := by
    simp only [trail, queuedFor_push batch queue, Item.isFor_made]
    simp [greetingFor, written, greeting]
  by_cases handed : target = watcher.target
  · right
    have callMember := List.mem_of_getElem? listed
    have serves := delivery.agree call callMember watcher member live (by simp [targets, handed])
    rw [trail, if_pos handed, serialized.messages call callMember, ← serves, state]
    simp
  · apply told.frame
    · rw [trail, if_neg handed, List.append_nil]
    · rw [state]
    · rw [calls]
      exact targeted_of_shrink listed targets handed

/-- A write to another call is not heard by the watcher. -/
theorem heardBy_callCore (tidy : health.host.Tidy) {call : Handle} {callId : StreamId}
    {calls : List ApiCall} {Fact Other : Conn → Prop} (holds : health.host.Holds call Fact)
    (about : ∀ made ∈ calls, made.callId = callId) (also : health.host.Holds watcher.call Other)
    (different : (⟨call, callId⟩ : Target) ≠ watcher.target) :
    heardBy (health.callCore call.address calls).written watcher.target =
      heardBy health.written watcher.target := by
  obtain ⟨connection, present, serial, fact⟩ := holds
  rw [callCore_of_present present, heardBy_append, heardBy_other about, List.append_nil]
  intro served sameId
  apply different
  have holds : health.host.Holds call Fact := ⟨connection, present, serial, fact⟩
  have sameCall := tidy.handle_eq holds also (serial.symm.trans served)
  exact congrArg₂ Target.mk sameCall sameId

theorem heardBy_callCore_self {connection : Connection} {payload : Bytes}
    (present : health.host.lookup target.call.address = some connection)
    (served : connection.serial = target.call.serial)
    (awaits : connection.conn.Awaits target.callId)
    (room : health.hasRoom target.call.address target.callId = true) (short : payload.length ≤ 2) :
    heardBy (health.callCore target.call.address
      [.writeCall target.callId payload true true]).written target =
        heardBy health.written target ++ [payload] := by
  simp only [hasRoom, present] at room
  rw [callCore_of_present present, heardBy_append,
    heardBy_write (Conn.writeCall_isOk awaits room short) served]

theorem hasRoom_setCancelHook {conn : Conn} {id : StreamId} (hook : CancelHook)
    (room : conn.hasRoom id = true) :
    (conn.api (.setCancelHook id hook)).2.hasRoom id = true := by
  unfold Conn.hasRoom at room ⊢
  cases found : conn.findStream id with
  | none => simp [Conn.api, Conn.setCancelHook, Conn.configure, found]
  | some stream =>
      rw [found] at room
      rw [Conn.findStream_setCancelHook found]
      exact room

/-- The handler writes after it has set the hook. -/
theorem heardBy_greeting {connection : Connection} {payload : Bytes} {hook : CancelHook}
    (present : health.host.lookup target.call.address = some connection)
    (served : connection.serial = target.call.serial)
    (handling : Handling connection.conn target.callId) (tame : Serve.Tame connection.conn)
    (room : health.hasRoom target.call.address target.callId = true) (short : payload.length ≤ 2) :
    heardBy (health.callCore target.call.address
      [.setCancelHook target.callId hook, .writeCall target.callId payload true true]).written
        target = heardBy health.written target ++ [payload] := by
  simp only [hasRoom, present] at room
  have armed := Armed.of_setCancelHook tame.reachable.wellFormed handling.1 handling.2 hook
  have accepted := Conn.writeCall_isOk armed.awaits (hasRoom_setCancelHook hook room) short
  rw [callCore_of_present present, heardBy_append]
  congr 1
  exact heardBy_write accepted served

theorem Told.notifyInline (told : health.Told watcher) (sound : health.Sound)
    (tidy : health.host.Tidy) (exclusive : health.Exclusive) (serialized : health.Serialized)
    (delivery : health.Delivery) (member : watcher ∈ health.state.watchers)
    (live : watcher.live = true) {position : Nat} {call : Notify} {rest : List Target}
    (listed : health.calls[position]? = some call) (targets : call.targets = target :: rest)
    (direct : call.inline = true) (room : health.hasRoom target.call.address target.callId = true) :
    { health.callCore target.call.address [.writeCall target.callId call.message true true] with
      calls := health.calls.set position { call with targets := rest } }.Told watcher := by
  have callMember := List.mem_of_getElem? listed
  have holds := sound.holds_attended member live
  by_cases handed : target = watcher.target
  · right
    subst handed
    have aimed : watcher.target ∈ call.targets := by simp [targets]
    have serves := delivery.agree call callMember watcher member live aimed
    have unqueued := delivery.direct call callMember direct watcher member live aimed
    obtain ⟨_, calm⟩ := exclusive.of_inline callMember direct
    obtain ⟨connection, present, served, handling⟩ := holds
    have message := serialized.messages call callMember
    have heard := heardBy_callCore_self present served handling.1 room
      (message ▸ length_encodeResponse _ _ : call.message.length ≤ 2)
    have nothing : health.queuedFor watcher.target = [] := queuedFor_eq_nil unqueued
    simp only [trail, greetingFor, queuedFor, callCore_greeting, callCore_batch, callCore_mailbox,
      callCore_state, calm] at nothing ⊢
    rw [heard, nothing, message, serves]
    simp
  · apply told.frame
    · have about : ∀ made ∈ [ApiCall.writeCall target.callId call.message true true],
        made.callId = target.callId := by simp [ApiCall.callId]
      have known := (sound.targets call callMember target (by simp [targets])).2
      have heard := heardBy_callCore tidy known about holds handed
      simp only [trail, greetingFor, queuedFor, callCore_greeting, callCore_batch,
        callCore_mailbox, heard]
    · simp only [callCore_state]
    · exact targeted_of_shrink listed targets handed

/-! #### The handler and the drain -/

theorem Told.greet (told : health.Told watcher) (sound : health.Sound) (tidy : health.host.Tidy)
    (greeted : health.Greeted watcher) (member : watcher ∈ health.state.watchers)
    (live : watcher.live = true) {greeting : Greeting} (pending : health.greeting = some greeting)
    (room : health.hasRoom greeting.call.address greeting.callId = true) :
    { health.callCore greeting.call.address greeting.calls with
      greeting := none }.Told watcher := by
  have holds := sound.holds_attended member live
  apply told.frame
  · by_cases same : greeting.target = watcher.target
    · obtain ⟨payload, short, calls⟩ := greeted greeting pending same
      obtain ⟨sameCall, sameId⟩ := Target.mk.inj same
      rw [sameCall, sameId] at room
      obtain ⟨connection, present, served, handling⟩ := holds
      have heard : heardBy (health.callCore watcher.call.address
          [.setCancelHook watcher.callId watcher.hook,
            .writeCall watcher.callId payload true true]).written watcher.target =
          heardBy health.written watcher.target ++ [payload] :=
        heardBy_greeting present served handling (sound.tame.lookup present) room short
      have mine : health.greetingFor watcher.target = [payload] := by
        simp only [greetingFor, pending, same, if_true, calls]
        rfl
      rw [trail, trail, mine, sameCall, calls]
      simp only [greetingFor, queuedFor, callCore_batch, callCore_mailbox, heard]
      simp [Watcher.target]
    · obtain ⟨handling, about⟩ := sound.greeting greeting pending
      have heard := heardBy_callCore tidy handling about holds same
      have nothing : health.greetingFor watcher.target = [] := by
        simp [greetingFor, pending, same]
      rw [trail, trail, nothing]
      simp only [greetingFor, queuedFor, callCore_batch, callCore_mailbox, heard]
  · simp only [callCore_state]
  · intro call listed target
    exact ⟨call, by simpa using listed, target⟩

/-- The drain takes an item off the batch and writes it to the call it is for. -/
theorem replayed_item (sound : health.Sound) (tidy : health.host.Tidy) (delivery : health.Delivery)
    {item : Item} {rest : List Item} (taken : health.host.batch = item :: rest) {address : Address}
    (named : item.call = some address) :
    ∃ connection, health.host.lookup address = some connection ∧ connection.serial = item.owner ∧
      (health.host.replay true true).batch = rest ∧
      (health.host.replay true true).mailbox = health.host.mailbox ∧
      health.replayWrites true true = (acceptedWrites connection.conn
        [.writeCall item.callId item.payload true true]).map
          fun write => ⟨connection.serial, write.1, write.2⟩ := by
  have waiting : item ∈ health.host.pending := by simp [Host.pending, taken]
  have holds := (delivery.items item waiting address named).2
  have alive : address ∉ health.host.mailbox.dead := tidy.alive _ holds.mem_live
  obtain ⟨connection, present, served, _⟩ := holds
  have isWrite : item.apiCall true true = .writeCall item.callId item.payload true true := by
    simp [Item.apiCall, sound.plain item waiting]
  refine ⟨connection, present, served, ?_, ?_, ?_⟩
  · simp [Host.replay, taken, named, alive, Host.modify]
  · simp [Host.replay, taken, named, alive, Host.modify]
  · simp only [replayWrites, taken, named, if_neg alive, present, isWrite]

theorem heardBy_replay (sound : health.Sound) (tidy : health.host.Tidy) (delivery : health.Delivery)
    (holds : health.host.Holds watcher.call (Handling · watcher.callId)) {item : Item}
    {rest : List Item} (taken : health.host.batch = item :: rest) {address : Address}
    (named : item.call = some address) (room : health.hasRoom address item.callId = true) :
    heardBy (health.replayWrites true true) watcher.target =
      if item.isFor watcher.target then [item.payload] else [] := by
  have waiting : item ∈ health.host.pending := by simp [Host.pending, taken]
  obtain ⟨short, known⟩ := delivery.items item waiting address named
  obtain ⟨connection, present, served, _, _, writes⟩ :=
    replayed_item sound tidy delivery taken named
  rw [writes]
  split
  next meant =>
    obtain ⟨own, id, owner⟩ := Item.isFor_iff.mp meant
    obtain rfl := Option.some.inj (named.symm.trans own)
    obtain ⟨other, found, _, handling⟩ := holds
    obtain rfl := Option.some.inj (present.symm.trans found)
    simp only [hasRoom, present] at room
    rw [id] at room ⊢
    exact heardBy_write (Conn.writeCall_isOk handling.1 room short) (served.trans owner)
  next unmeant =>
    have about : ∀ made ∈ [ApiCall.writeCall item.callId item.payload true true],
      made.callId = item.callId := by simp [ApiCall.callId]
    apply heardBy_other about
    intro same id
    -- the serial number names the connection, so the item would be for the watcher
    have handle := tidy.handle_eq known holds (served.symm.trans same)
    apply unmeant
    rw [Item.isFor_iff]
    exact ⟨named.trans (congrArg (some ∘ Handle.address) handle), id, served.symm.trans same⟩

theorem Told.replay (told : health.Told watcher) (sound : health.Sound) (tidy : health.host.Tidy)
    (exclusive : health.Exclusive) (delivery : health.Delivery)
    (member : watcher ∈ health.state.watchers) (live : watcher.live = true)
    (room : ∀ item rest, health.host.batch = item :: rest → ∀ address ∈ item.call,
      health.hasRoom address item.callId = true) :
    { health with
      host := health.host.replay true true
      written := health.written ++ health.replayWrites true true }.Told watcher := by
  have holds := sound.holds_attended member live
  apply told.frame
  · cases taken : health.host.batch with
    | nil => simp [trail, greetingFor, queuedFor, Host.replay, replayWrites, taken]
    | cons item rest =>
        have calm : health.greeting = none := by
          rcases exclusive.resting with empty | rest
          · simp [taken] at empty
          · exact (atRest_iff.mp rest).2.1
        cases named : item.call with
        | none =>
            have skipped : item.isFor watcher.target = false := by simp [Item.isFor, named]
            simp [trail, greetingFor, queuedFor, Host.replay, replayWrites, taken, named, skipped]
        | some address =>
            obtain ⟨connection, present, served, batch, mailbox, writes⟩ :=
              replayed_item sound tidy delivery taken named
            have heard := heardBy_replay sound tidy delivery holds taken named
              (room item rest taken address named)
            simp only [trail, greetingFor, queuedFor, calm, batch, mailbox, heardBy_append, heard,
              taken]
            by_cases meant : item.isFor watcher.target = true
            · simp [meant]
            · simp [meant]
  · rfl
  · exact fun call listed target => ⟨call, listed, target⟩

end Told

/-! ### Whole runs -/

structure Ordered (health : Health) : Prop where
  sound : health.Sound
  tidy : health.host.Tidy
  exclusive : health.Exclusive
  serialized : health.Serialized
  delivery : health.Delivery
  greeted : ∀ watcher ∈ health.state.watchers, watcher.live = true → health.Greeted watcher
  told : ∀ watcher ∈ health.state.watchers, watcher.live = true → health.Told watcher

theorem ordered_new : Health.new.Ordered where
  sound := sound_new
  tidy := .new
  exclusive := ⟨.inl rfl, .inl rfl⟩
  serialized := by constructor <;> simp [Health.new]
  delivery := by
    constructor <;> simp [Health.new, Host.new, Host.pending, Mailbox.new, HealthState.registered]
  greeted := by simp [Health.new, HealthState.registered]
  told := by simp [Health.new, HealthState.registered]

namespace Ordered

variable {health next : Health} {event : HealthEvent}

theorem tidy_step (ordered : health.Ordered) (performed : health.step event = some next) :
    next.host.Tidy := by
  have tidy := ordered.tidy
  cases step_inv performed with
  | accept rest vacant => exact tidy.accept _ _
  | free rest idle => exact tidy.free _ _
  | tick rest allowed present legal =>
      apply tidy.of_same
      · exact Host.live_modify _ _ _
      · rfl
      · rfl
  | dispatch rest idle present =>
      apply tidy.of_same
      · exact Host.live_modify _ _ _
      · rfl
      · rfl
  | greet pending => exact tidy.callCore _ _
  | notifyInline listed targets direct => exact tidy.callCore _ _
  | notifyQueued listed targets queued =>
      rw [Mailbox.queue_callWrite]
      split
      · exact tidy.of_same rfl rfl rfl
      · exact tidy
  | drain rest idle => exact tidy.of_same rfl rfl rfl
  | replay => exact tidy.replay _ _
  | _ => exact tidy

/-- The only handler at work is the one before, or the first of those entered. -/
theorem greeting_step (performed : health.step event = some next) {greeting : Greeting}
    (pending : next.greeting = some greeting) :
    health.greeting = some greeting ∨
      ∃ entered ∈ health.entered, greeting.target = entered.target := by
  cases step_inv performed with
  | watch entering idle fresh =>
      obtain rfl := Option.some.inj pending
      exact .inr ⟨_, by simp [entering], rfl⟩
  | greet answered => simp at pending
  | notifyInline listed targets direct =>
      rw [callCore_greeting] at pending
      exact .inl pending
  | _ => exact .inl pending

variable (ordered : health.Ordered)
include ordered

theorem greeted_step (orderly : health.orderly event = true)
    (performed : health.step event = some next) :
    ∀ watcher ∈ next.state.watchers, watcher.live = true → next.Greeted watcher := by
  intro watcher member live greeting pending same
  rcases watchers_step performed member live with old | made
  · rcases greeting_step performed pending with before | ⟨entered, waiting, other⟩
    · exact ordered.greeted watcher old live greeting before same
    · have apart := (ordered.sound.fresh entered waiting).1 watcher old live
      exact absurd (same.symm.trans other) apart
  · obtain ⟨_, _, granted, greets⟩ := made
    obtain rfl := Option.some.inj (greets.symm.trans pending)
    simp only [Health.orderly, granted, Bool.not_true, Bool.false_or, Bool.and_eq_true] at orderly
    obtain ⟨_, ⟨_, rfl⟩, rfl⟩ := orderly
    exact ⟨_, length_encodeResponse _ _, rfl⟩

/-- A new watcher is told what the registry holds by its own handler. -/
theorem told_made (orderly : health.orderly event = true)
    (performed : health.step event = some next) {watcher : Watcher}
    (made : Made health next event watcher) : next.Told watcher := by
  obtain @⟨box, copy, reserve, encoded, writeCopy, writeReserve, entered, rest, service, first, _,
    granted, greets⟩ := made
  simp only [Health.orderly, granted, Bool.not_true, Bool.false_or, Bool.and_eq_true] at orderly
  obtain ⟨_, ⟨rfl, _⟩, _⟩ := orderly
  have current : next.state.current service = health.state.current service :=
    current_step performed (by simp)
  obtain ⟨_, unqueued⟩ := ordered.delivery.apart entered (by simp [first])
  have nothing : next.queuedFor entered.target = [] := by
    apply queuedFor_eq_nil
    cases step_inv performed with
    | watch entering idle fresh => exact unqueued
  have initial : next.greetingFor entered.target =
      [encodeResponse (health.state.current service) true] := by
    simp only [greetingFor, greets, Greeting.target, Entered.target, if_true]
    rfl
  right
  have target : (⟨box, entered.call, entered.callId, service, true⟩ : Watcher).target =
    entered.target := rfl
  rw [target, trail, nothing, initial, current]
  simp

theorem told_step (orderly : health.orderly event = true)
    (performed : health.step event = some next) :
    ∀ watcher ∈ next.state.watchers, watcher.live = true → next.Told watcher := by
  intro watcher member live
  rcases watchers_step performed member live with old | made
  swap
  · exact ordered.told_made orderly performed made
  have told := ordered.told watcher old live
  obtain ⟨kept, rest⟩ := Bool.and_eq_true_iff.mp orderly
  cases step_inv performed with
  | accept resting vacant => exact told
  | free resting idle =>
      simp only [keeps, Bool.and_eq_true, Bool.not_eq_true', watchedAt_eq_false,
        decide_eq_false_iff_not] at kept
      exact told.free _ (kept.1 watcher old live)
  | tick resting allowed present legal => exact told
  | dispatch resting idle present => exact told
  | @watch box copy reserve encoded writeCopy writeReserve entered later entering idle fresh =>
      apply told.frame
      · obtain ⟨calm, _⟩ := idle_iff.mp idle
        have apart := (ordered.sound.fresh entered (by simp [entering])).1 watcher old live
        have before : health.greetingFor watcher.target = [] := by simp [greetingFor, calm]
        rw [trail, trail, before, greetingFor_eq_nil]
        · rfl
        · rintro greeting ⟨⟩
          exact Ne.symm apart
      · exact HealthState.current_of_statuses (HealthState.watchTr_cases ..).statuses _
      · exact fun call listed target => ⟨call, listed, target⟩
  | greet pending =>
      simp only [pending, Option.all_some] at rest
      exact told.greet ordered.sound ordered.tidy
        (ordered.greeted watcher old live) old live pending
        rest
  | setStatus may => exact told.setStatus orderly old live
  | @notifyInline position copy reserve call target later listed targets direct =>
      simp only [listed, targets, direct, Bool.and_eq_true, Option.all_some, Bool.not_true,
        Bool.false_or, List.head?_cons] at rest
      obtain ⟨⟨rfl, rfl⟩, room⟩ := rest
      exact told.notifyInline ordered.sound ordered.tidy ordered.exclusive ordered.serialized
        ordered.delivery old live listed targets direct room
  | @notifyQueued position copy reserve call target later listed targets queued =>
      simp only [Bool.and_eq_true] at rest
      obtain ⟨⟨rfl, rfl⟩, _⟩ := rest
      exact told.notifyQueued ordered.serialized ordered.delivery old live listed targets rfl rfl
        rfl rfl rfl (by rw [Mailbox.queue_callWrite]; rfl)
  | returned listed done => exact told.returned listed done
  | drain resting idle => exact told.drain idle
  | @replay copy reserve =>
      simp only [Bool.and_eq_true] at rest
      obtain ⟨⟨rfl, rfl⟩, room⟩ := rest
      refine told.replay ordered.sound ordered.tidy ordered.exclusive ordered.delivery old live ?_
      intro item later taken address named
      simpa [taken, show item.call = some address from named] using room

theorem step (orderly : health.orderly event = true) (performed : health.step event = some next) :
    next.Ordered where
  sound := step_sound ordered.sound (Bool.and_eq_true_iff.mp orderly).1 performed
  tidy := ordered.tidy_step performed
  exclusive := ordered.exclusive.step performed
  serialized := ordered.serialized.step orderly performed
  delivery := ordered.delivery.step ordered.sound ordered.serialized orderly performed
  greeted := ordered.greeted_step orderly performed
  told := ordered.told_step orderly performed

end Ordered

/-- Once every call has returned and the mailbox has been drained, a watcher was last
told what the registry holds. -/
theorem last_status_is_current {events : List HealthEvent} {health : Health}
    (orderly : Along step (fun health event => health.orderly event = true) .new events)
    (reached : run step .new events = some health) (returned : health.calls = [])
    (answered : health.greeting = none) (drained : health.host.pending = []) :
    ∀ watcher ∈ health.state.watchers, watcher.live = true →
      (heardBy health.written watcher.target).getLast? =
        some (encodeResponse (health.state.current watcher.service) true) := by
  have ordered : health.Ordered := orderly.run_invariant
    (fun _ _ _ ordered orderly performed => ordered.step orderly performed) ordered_new reached
  intro watcher member live
  rcases ordered.told watcher member live with ⟨call, listed, _⟩ | last
  · simp [returned] at listed
  · have nothing : health.queuedFor watcher.target = [] := by
      apply queuedFor_eq_nil
      simp [drained]
    have calm : health.greetingFor watcher.target = [] := by simp [greetingFor, answered]
    rw [trail, nothing, calm] at last
    simpa using last

/-- A status from another thread, delivered, and then one on the I/O thread. -/
def settledRun : List HealthEvent := acceptWatches 1 :: openWatch 1 1 5 ++
  [.setStatus [7] 1 false true true 9, .notify 0 true true, .returned 0, .drain, .replay true true,
    .setStatus [7] 2 true true true 9, .notify 0 true true, .returned 0]

theorem last_status_after_two_calls :
    ∃ health, run step .new settledRun = some health ∧
      health.state.current [7] = 2 ∧
      (heardBy health.written ⟨⟨1, 0⟩, 1⟩).getLast? = some (encodeResponse 2 true) := by
  obtain ⟨health, reached, orderly, returned, answered, drained, member, current⟩ :
      ∃ health, run step .new settledRun = some health ∧
        Along step (fun health event => health.orderly event = true) .new settledRun ∧
        health.calls = [] ∧ health.greeting = none ∧ health.host.pending = [] ∧
        (⟨5, ⟨1, 0⟩, 1, [7], true⟩ : Watcher) ∈ health.state.watchers ∧
        health.state.current [7] = 2 :=
    ⟨_, rfl, by decide, rfl, rfl, rfl, List.mem_singleton_self _, rfl⟩
  refine ⟨health, reached, current, ?_⟩
  have last := last_status_is_current orderly reached returned answered drained _ member rfl
  rwa [current] at last

/-- Two calls of other threads store one status after the other and hand them over in the
other order. -/
theorem overlapping_calls_leave_old_status :
    ∃ health, run step .new (acceptWatches 1 :: openWatch 1 1 5 ++
        [.setStatus [7] 1 false true true 9, .setStatus [7] 2 false true true 9,
          .notify 1 true true, .notify 0 true true, .returned 1, .returned 0, .drain,
          .replay true true, .replay true true]) = some health ∧
      health.calls = [] ∧ health.greeting = none ∧ health.host.pending = [] ∧
      ∃ watcher ∈ health.state.watchers, watcher.live = true ∧
        (heardBy health.written watcher.target).getLast? ≠
          some (encodeResponse (health.state.current watcher.service) true) := by
  refine ⟨_, rfl, rfl, rfl, rfl, ⟨5, ⟨1, 0⟩, 1, [7], true⟩, List.mem_singleton_self _, rfl, ?_⟩
  decide

end Health

end GrpcUds.Ffi
