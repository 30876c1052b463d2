import GrpcUds.Server.Receiving

/-!
# The cap on request sizes

The chunk callback bounds the bytes it has gathered, which include the frame
header, while the decoder bounds the declared payload.  Together they admit
exactly the payloads whose whole frame is within the cap.
-/

namespace GrpcUds.Server

open Framing Headers

namespace Conn

/-- The connection takes a stream's DATA chunks in order, with any other events
in between that are not receive callbacks of the stream. -/
inductive Delivers (id : StreamId) : Conn → List Bytes → Conn → Prop where
  | done (conn : Conn) : Delivers id conn [] conn
  | other {conn next last : Conn} {event : ConnEvent} {chunks : List Bytes}
      (spares : event.Spares id) (performed : conn.step event = some next)
      (rest : Delivers id next chunks last) : Delivers id conn chunks last
  | chunk {conn next last : Conn} {chunk : Bytes} {chunks : List Bytes}
      (accepted : conn.onDataChunkRecv id chunk true = (.ok, next))
      (rest : Delivers id next chunks last) : Delivers id conn (chunk :: chunks) last

theorem onDataChunkRecv_ok_iff {conn : Conn} {id : StreamId} {stream : StreamCtx}
    (found : conn.findStream id = some stream) (chunk : Bytes) :
    (conn.onDataChunkRecv id chunk true).1 = .ok ↔
      stream.request.length + chunk.length ≤ conn.maxMessageLen.toNat := by
  simp only [onDataChunkRecv, found]
  split
  next large => simp; omega
  next small => simp; omega

/-- A stream on its way: what a delivery has left of the stream it began with. -/
structure Underway (conn : Conn) (id : StreamId) (stream : StreamCtx) (received : Bytes)
    (middle : Conn) : Prop where
  reachable : middle.Reachable
  maxMessageLen : middle.maxMessageLen = conn.maxMessageLen
  methods : conn.methods <+: middle.methods
  found : ∃ later, middle.findStream id = some later ∧ later.path = stream.path ∧
    later.state = stream.state ∧ later.request = stream.request ++ received
  within : (stream.request ++ received).length ≤ conn.maxMessageLen.toNat

section Delivery

variable {conn middle next last : Conn} {id : StreamId} {stream : StreamCtx} {received : Bytes}

variable (underway : conn.Underway id stream received middle)
include underway

theorem Underway.step {event : ConnEvent} (spares : event.Spares id)
    (waiting : event.isDispatch = true → stream.state ≠ .complete)
    (performed : middle.step event = some next) : conn.Underway id stream received next := by
  obtain ⟨later, found, path, state, request⟩ := underway.found
  have wellFormed := underway.reachable.wellFormed
  obtain ⟨moved, foundMoved, same⟩ := step_spares wellFormed spares performed found
    (state ▸ waiting)
  have settings := step_settings wellFormed performed
  exact
    { reachable := underway.reachable.step performed
      maxMessageLen := settings.maxMessageLen.trans underway.maxMessageLen
      methods := underway.methods.trans settings.methods
      found := ⟨moved, foundMoved, same.path.trans path, same.state.trans state,
        same.request.trans request⟩
      within := underway.within }

theorem Underway.run {events : List ConnEvent} (spares : ∀ event ∈ events, event.Spares id)
    (undisturbed : ∀ event ∈ events, event.isDispatch = false)
    (performed : Transition.run Conn.step middle events = some last) :
    conn.Underway id stream received last := by
  induction events generalizing middle with
  | nil =>
      obtain rfl := Option.some.inj performed
      exact underway
  | cons event rest ih =>
      obtain ⟨next, stepped, continued⟩ := Option.bind_eq_some_iff.mp performed
      rw [List.forall_mem_cons] at spares undisturbed
      refine ih (underway.step spares.1 ?_ stepped) spares.2 undisturbed.2
        continued
      simp [undisturbed.1]

theorem Underway.chunk {chunk : Bytes}
    (accepted : middle.onDataChunkRecv id chunk true = (.ok, next)) :
    conn.Underway id stream (received ++ chunk) next := by
  obtain ⟨later, found, path, state, request⟩ := underway.found
  have performed : middle.step (.dataChunkRecv id chunk true) = some next :=
    step_eq_some_iff.mpr ⟨trivial, congrArg Prod.snd accepted⟩
  have fits := (onDataChunkRecv_ok_iff found chunk).mp (by rw [accepted])
  let receive := fun stream : StreamCtx => { stream with request := stream.request ++ chunk }
  have kept : ∀ stream, (receive stream).id = stream.id := fun _ => rfl
  have stored : next = middle.modify id receive := by
    have moved : (middle.onDataChunkRecv id chunk true).2 = next := by rw [accepted]
    rw [← moved]
    simp only [onDataChunkRecv, found]
    simp [Nat.not_lt.mpr fits, receive]
  have added : next.findStream id = some (receive later) := by
    rw [stored, findStream_modify_self middle id kept, found]
    rfl
  have settings := step_settings underway.reachable.wellFormed performed
  exact
    { reachable := underway.reachable.step performed
      maxMessageLen := settings.maxMessageLen.trans underway.maxMessageLen
      methods := underway.methods.trans settings.methods
      found := ⟨_, added, path, state, by simp [receive, request]⟩
      within := by
        rw [underway.maxMessageLen, request] at fits
        simpa [Nat.add_assoc] using fits }

omit underway

theorem Underway.delivers {chunks : List Bytes} (receiving : stream.state ≠ .complete)
    (underway : conn.Underway id stream received middle)
    (delivers : Delivers id middle chunks last) :
    conn.Underway id stream (received ++ chunks.flatten) last := by
  induction delivers generalizing received with
  | done middle => simpa using underway
  | other spares performed rest ih =>
      exact ih (underway.step spares (fun _ => receiving) performed)
  | chunk accepted rest ih =>
      simpa using ih (underway.chunk accepted)

/-- Reporting the end of a request makes its stream complete. -/
theorem Underway.ended {hd : FrameHd} (underway : conn.Underway hd.streamId stream received middle)
    (ends : hd.endsStream = true) (performed : middle.step (.frameRecv hd) = some next) :
    conn.Underway hd.streamId { stream with state := .complete } received next := by
  obtain ⟨later, found, path, _, request⟩ := underway.found
  let complete := fun stream : StreamCtx => { stream with state := .complete }
  have kept : ∀ stream, (complete stream).id = stream.id := fun _ => rfl
  have stored : next = (middle.modify hd.streamId complete).emit (.endStream hd.streamId) := by
    rw [← (step_eq_some_iff.mp performed).2]
    simp [perform, onFrameRecv, found, ends, complete]
  have looked : next.findStream hd.streamId = some (complete later) := by
    rw [stored]
    exact (findStream_modify_self middle hd.streamId kept).trans (by rw [found]; rfl)
  have settings := step_settings underway.reachable.wellFormed performed
  exact
    { reachable := underway.reachable.step performed
      maxMessageLen := settings.maxMessageLen.trans underway.maxMessageLen
      methods := underway.methods.trans settings.methods
      found := ⟨_, looked, path, rfl, request⟩
      within := underway.within }

/-- The handler that a pass runs for a request that has ended. -/
theorem Underway.invoked_iff (underway : conn.Underway id stream received last)
    (complete : stream.state = .complete) (env : DispatchEnv) (handler userData : Nat)
    (payload : Bytes) :
    .invoked id handler userData payload ∈ (last.dispatch env).2.log.drop last.log.length ↔
      ∃ entry, FirstRegistered last.methods stream.path entry ∧ entry.handler = handler ∧
        entry.userData = userData ∧
          Carries conn.maxMessageLen (stream.request ++ received) payload := by
  obtain ⟨later, found, path, state, request⟩ := underway.found
  have wellFormed := underway.reachable.wellFormed
  have named : later.id = id := Table.lookup_key found
  rw [← path, ← request, ← underway.maxMessageLen, ← named]
  exact invoked_mem_dispatch_iff wellFormed.distinct wellFormed.idle (Table.lookup_mem found)
    (state.trans complete) env handler userData payload

end Delivery

end Conn

theorem FirstRegistered.of_grown {methods more : List MethodEntry} {path : Bytes}
    {entry : MethodEntry} (registered : FirstRegistered methods path entry)
    (grown : methods <+: more) : FirstRegistered more path entry := by
  obtain ⟨before, after, rfl, matched, earlier⟩ := registered
  obtain ⟨rest, rfl⟩ := grown
  exact ⟨before, after ++ rest, by simp, matched, earlier⟩

/-- No part of a frame that is shorter than the frame carries a payload. -/
theorem not_carries_of_short {maxMessageLen : UInt32} {payload request carried : Bytes}
    (framable : payload.length ≤ u32Max) (part : request <+: frame payload)
    (short : request.length < frameHeaderLen + payload.length) :
    ¬ Carries maxMessageLen request carried := by
  rintro ⟨payloadLen, rest, rfl, size, _⟩
  have headers : encodeHeader false payloadLen =
      encodeHeader false (UInt32.ofNat payload.length) := by
    obtain ⟨suffix, whole⟩ := part
    simp only [frame, List.append_assoc] at whole
    exact (List.append_inj whole (by simp)).1
  have same := encodeHeader_injective headers
  have length : payloadLen.toNat = payload.length := by
    rw [same, UInt32.toNat_ofNat']
    simp only [u32Max] at framable
    omega
  simp only [List.length_append, length_encodeHeader] at short
  omega

/-- A stream whose handler has not run and can no longer run. -/
structure Lane.Spent (id : StreamId) (lane : Lane) : Prop where
  opened : .opened id ∈ lane.log
  uncalled : ∀ effect ∈ lane.log, effect.isInvoked = false
  past : ∀ stream, lane.ctx = some stream →
    .endStream id ∈ lane.log ∧ stream.state ≠ .complete ∧ lane.running = false

theorem Effect.isInvoked_of_quiet {effect : Effect} (quiet : effect.isMilestone = false) :
    effect.isInvoked = false := by
  cases effect <;> simp_all [Effect.isMilestone, Effect.startsDispatch, Effect.isInvoked]

namespace Lane.Spent

variable {id : StreamId} {lane next : Lane} {stream changed : StreamCtx}

variable (spent : lane.Spent id)
include spent

theorem log_append {effects : List Effect} (silent : ∀ effect ∈ effects, effect.isMilestone = false)
    :
    
    ∀ effect ∈ lane.log ++ effects, effect.isInvoked = false := by
  intro effect membership
  rcases List.mem_append.mp membership with old | new
  · exact spent.uncalled effect old
  · exact Effect.isInvoked_of_quiet (silent effect new)

theorem quiet (found : lane.ctx = some stream) {effects : List Effect}
    (sameState : changed.state = stream.state)
    (silent : ∀ effect ∈ effects, effect.isMilestone = false) :
    (lane.put changed effects).Spent id where
  opened := List.mem_append_left _ spent.opened
  uncalled := spent.log_append silent
  past := by
    rintro _ ⟨⟩
    obtain ⟨ended, incomplete, idle⟩ := spent.past stream found
    exact ⟨List.mem_append_left _ ended, sameState ▸ incomplete, idle⟩

theorem call (step : CallStep id lane next) : next.Spent id := by
  cases step with
  | opened fresh => exact absurd spent.opened fresh
  | header found path deadline => exact spent.quiet found rfl (by simp)
  | received found chunk => exact spent.quiet found rfl (by simp)
  | ended found once => exact absurd (spent.past _ found).1 once
  | bodyIn found once => exact absurd (spent.past _ found).1 once
  | closed found idle errorCode fired =>
      refine ⟨List.mem_append_left _ spent.opened, spent.log_append ?_, by simp⟩
      simpa [Effect.isMilestone, Effect.startsDispatch] using hookEffects_quiet id fired
  | wrote found unfinished enqueued =>
      refine spent.quiet found rfl ?_
      split
      · exact resumeEffects_quiet id _
      · simp
  | finish found status message =>
      refine spent.quiet found rfl ?_
      simpa [Effect.isMilestone, Effect.startsDispatch] using resumeEffects_quiet id _
  | configured found hook backpressure => exact spent.quiet found rfl (by simp)
  | disarmed found => exact spent.quiet found rfl (hookEffects_quiet id _)
  | refused found complete => exact absurd complete (spent.past _ found).2.1
  | invoked found complete => exact absurd complete (spent.past _ found).2.1
  | returned found running => exact absurd running (by simp [(spent.past _ found).2.2])
  | returnedStarted found running => exact absurd running (by simp [(spent.past _ found).2.2])

theorem transport (step : TransportStep id lane next) :
    next.Spent id := by
  cases step with
  | missed absent readable =>
      refine ⟨List.mem_append_left _ spent.opened, spent.log_append ?_, by simp [absent]⟩
      simp [Effect.isMilestone, Effect.startsDispatch]
  | consumed found length => exact spent.quiet found rfl (by simp)
  | _ found => exact spent.quiet found rfl (by simp [Effect.isMilestone, Effect.startsDispatch])

theorem steps (steps : Relation.ReflTransGen (LaneStep id) lane next) :
    next.Spent id := by
  induction steps with
  | refl => exact spent
  | tail _ step ih =>
      cases step with
      | call step => exact ih.call step
      | transport step => exact ih.transport step

end Lane.Spent

/-- The last callbacks of a request or a stream. -/
def ConnEvent.Concludes (id : StreamId) : ConnEvent → Prop
  | frameRecv hd => hd.streamId = id ∧ hd.endsStream = true
  | streamClose other _ => other = id
  | _ => False

/-- A stream that dispatch has not taken up. -/
def StreamCtx.Pending (stream : StreamCtx) : Prop :=
  stream.state = .headersIn ∨ stream.state = .bodyIn ∨ stream.state = .complete

namespace Conn

theorem mem_lane_log {conn : Conn} {id : StreamId} {effect : Effect} (about : effect.id = id) :
    effect ∈ (conn.lane id).log ↔ effect ∈ conn.log := by
  simp [lane, logOf, about]

theorem Reachable.uncalled {conn : Conn} (reachable : conn.Reachable) {id : StreamId}
    {stream : StreamCtx} (found : conn.findStream id = some stream) (pending : stream.Pending) :
    ∀ effect ∈ (conn.lane id).log, effect.isInvoked = false := by
  have alive := reachable.lifecycle id
  obtain ⟨_, _, atState, _⟩ := alive.present stream found
  have idle : (conn.lane id).running = false := by simp [lane, reachable.wellFormed.idle]
  have none : dispatches (conn.lane id).log = 0 := by
    rcases pending with state | state | state <;> simp only [state, Lane.AtState] at atState
    · exact alive.unended atState.1
    · exact alive.unended atState.1
    · exact atState.2 idle
  intro effect membership
  have undispatched := List.countP_eq_zero.mp none effect membership
  cases effect <;> simp_all [Effect.isInvoked, Effect.startsDispatch]

section Refusal

variable {conn middle next : Conn} {id : StreamId} {stream : StreamCtx} {received : Bytes}

variable (underway : conn.Underway id stream received middle)
include underway

theorem Underway.pending (pending : stream.Pending) :
    ∃ later, middle.findStream id = some later ∧ later.Pending := by
  obtain ⟨later, found, _, state, _⟩ := underway.found
  exact ⟨later, found, by rwa [StreamCtx.Pending, state]⟩

theorem Underway.close (pending : stream.Pending) (errorCode : Nat) :
    ((middle.onStreamClose id errorCode).lane id).Spent id := by
  obtain ⟨later, found, unserved⟩ := underway.pending pending
  have wellFormed := underway.reachable.wellFormed
  have uncalled := underway.reachable.uncalled found unserved
  simp only [onStreamClose, found]
  generalize (if errorCode ≠ 0 then later.cancelHook else none) = hook
  have grown : ∀ {effect}, effect ∈ ((middle.dropStream id errorCode hook).lane id).log →
      effect ∈ (middle.lane id).log ∨ effect ∈ .closed id errorCode :: hookEffects id hook := by
    intro effect membership
    simp only [lane, logOf, dropStream_log, List.filter_append, List.mem_append] at membership
    exact membership.imp_right List.mem_of_mem_filter
  refine ⟨?_, fun effect membership => ?_, fun stream present => ?_⟩
  · have opened := wellFormed.opened later (Table.lookup_mem found)
    rw [Table.lookup_key found] at opened
    exact (steps_log_grow CallStep.log_grows
      ((dropStream_moves wellFormed found errorCode hook).lanes id)).subset opened
  · rcases grown membership with old | new
    · exact uncalled effect old
    · rcases List.mem_cons.mp new with rfl | fired
      · rfl
      · exact Effect.isInvoked_of_quiet (Lane.hookEffects_quiet id hook effect fired)
  · have gone : (middle.dropStream id errorCode hook).findStream id = none := by
      rw [findStream, dropStream_streams]
      exact Table.lookup_remove_self wellFormed.distinct
    exact absurd (present.symm.trans gone) (by simp)

/-- Dispatch refuses a request that carries no payload, and that is the end of
it. -/
theorem Underway.refuse (complete : stream.state = .complete)
    (bad : ∀ payload, ¬ Carries conn.maxMessageLen (stream.request ++ received) payload)
    (env : DispatchEnv) : ((middle.dispatch env).2.lane id).Spent id := by
  obtain ⟨later, found, unserved⟩ := underway.pending (.inr (.inr complete))
  have wellFormed := underway.reachable.wellFormed
  have uncalled := underway.reachable.uncalled found unserved
  have pass := middle.dispatch_pass env wellFormed.distinct wellFormed.idle
  have grows := steps_log_grow CallStep.log_grows (pass.acts.lanes id)
  obtain ⟨position, placed, named⟩ := findStream_position found
  obtain ⟨served, placedServed, visited⟩ :=
    pass.behind position later (List.getElem?_eq_some_iff.mp placed).1 placed
  have foundServed : (middle.dispatch env).2.findStream id = some served :=
    (visited.id.trans named) ▸
      findStream_of_getElem? (pass.acts.distinct wellFormed.distinct) placedServed
  have alive := underway.reachable.lifecycle id
  obtain ⟨_, opened, atState, _⟩ := alive.present later found
  refine ⟨grows.subset opened, fun effect membership => ?_, fun stream present => ?_⟩
  · obtain ⟨added, log, _⟩ := pass.log
    cases called : effect.isInvoked with
    | false => rfl
    | true =>
        cases effect with
        | invoked other handler userData payload =>
            obtain rfl : other = id := of_decide_eq_true (List.mem_filter.mp membership).2
            have logged := (mem_lane_log rfl).mp membership
            rw [log] at logged
            rcases List.mem_append.mp logged with old | new
            · exact uncalled _ ((mem_lane_log rfl).mpr old)
            · have invoked := (underway.invoked_iff complete env handler userData payload).mp
                (by rwa [log, List.drop_left])
              obtain ⟨_, _, _, _, carries⟩ := invoked
              exact absurd carries (bad payload)
        | _ => simp [Effect.isInvoked] at called
  · obtain rfl := Option.some.inj (foundServed.symm.trans present)
    obtain ⟨same, foundSame, _, state, _⟩ := underway.found
    obtain rfl := Option.some.inj (found.symm.trans foundSame)
    rw [state, complete] at atState
    refine ⟨grows.subset atState.1, visited.state, ?_⟩
    simp [lane, pass.acts.running.trans wellFormed.idle]

/-- Whatever follows, a part of a request that carries no payload runs no
handler. -/
theorem Underway.never_invoked (pending : stream.Pending)
    (bad : ∀ payload, ¬ Carries conn.maxMessageLen (stream.request ++ received) payload)
    {events : List ConnEvent} (following : ∀ event ∈ events, event.Spares id ∨ event.Concludes id)
    (performed : Transition.run Conn.step middle events = some next) :
    ∀ effect ∈ (next.lane id).log, effect.isInvoked = false := by
  have spent : ∀ {events : List ConnEvent} {middle : Conn}, middle.Reachable →
      (middle.lane id).Spent id → Transition.run Conn.step middle events = some next →
        ∀ effect ∈ (next.lane id).log, effect.isInvoked = false := by
    intro events middle reachable spent performed
    let Done := fun conn : Conn => conn.Reachable ∧ (conn.lane id).Spent id
    have done : Done next := Transition.run_invariant (fun _ _ _ done stepped =>
      ⟨done.1.step stepped, done.2.steps ((step_moves done.1.wellFormed stepped).lanes id)⟩)
      ⟨reachable, spent⟩ performed
    exact done.2.uncalled
  induction events generalizing middle stream with
  | nil =>
      obtain rfl := Option.some.inj performed
      obtain ⟨later, found, unserved⟩ := underway.pending pending
      exact underway.reachable.uncalled found unserved
  | cons event rest ih =>
      obtain ⟨after, stepped, continued⟩ := Option.bind_eq_some_iff.mp performed
      rw [List.forall_mem_cons] at following
      have moved := underway.reachable.step stepped
      rcases following.1 with spares | concludes
      · by_cases taken : event.isDispatch = true ∧ stream.state = .complete
        · cases event with
          | dispatch env =>
              obtain ⟨_, rfl⟩ := step_eq_some_iff.mp stepped
              exact spent moved (underway.refuse taken.2 bad env) continued
          | _ => exact absurd taken.1 (by simp [ConnEvent.isDispatch])
        · have waiting : event.isDispatch = true → stream.state ≠ .complete := fun dispatching
            complete => taken ⟨dispatching, complete⟩
          exact ih (underway.step spares waiting stepped) pending bad following.2
            continued
      · cases event with
        | frameRecv hd =>
            obtain ⟨rfl, ends⟩ := concludes
            exact ih (underway.ended ends stepped) (.inr (.inr rfl)) bad
              following.2
              continued
        | streamClose other errorCode =>
            obtain rfl : other = id := concludes
            obtain ⟨_, rfl⟩ := step_eq_some_iff.mp stepped
            exact spent moved (underway.close pending errorCode) continued
        | _ => exact concludes.elim

end Refusal

end Conn

/-- A request that carries a payload runs the first handler of its path with that
payload, and no other. -/
theorem Conn.Underway.invokes {conn last : Conn} {id : StreamId} {stream : StreamCtx}
    {received payload : Bytes} {entry : MethodEntry}
    (underway : conn.Underway id stream received last) (complete : stream.state = .complete)
    (carries : Carries conn.maxMessageLen (stream.request ++ received) payload)
    (registered : FirstRegistered conn.methods stream.path entry) (env : DispatchEnv)
    (handler userData : Nat) (argument : Bytes) :
    .invoked id handler userData argument ∈ (last.dispatch env).2.log.drop last.log.length ↔
      handler = entry.handler ∧ userData = entry.userData ∧ argument = payload := by
  have first := FirstRegistered.of_grown registered underway.methods
  rw [underway.invoked_iff complete env]
  constructor
  · rintro ⟨other, registeredOther, rfl, rfl, carriesOther⟩
    obtain rfl := FirstRegistered.unique first registeredOther
    exact ⟨rfl, rfl, Carries.unique carriesOther carries⟩
  · rintro ⟨rfl, rfl, rfl⟩
    exact ⟨entry, first, rfl, rfl, carries⟩

/-- A request sent as one frame, in any chunks.  If the frame is within the cap,
every chunk is accepted and the dispatch after the end of the request runs the
handler of its path with exactly the payload.  If the frame exceeds the cap, not
every chunk is accepted and no handler is ever run for what was. -/
theorem request_runs_within_cap {methods : List MethodEntry} {maxMessageLen : UInt32} {fd : Int}
    {events : List ConnEvent} {conn : Conn} {id : StreamId} {stream : StreamCtx}
    {entry : MethodEntry} {payload : Bytes} {chunks : List Bytes}
    (reached : Transition.run Conn.step (Conn.newServer methods maxMessageLen fd) events =
      some conn)
    (found : conn.findStream id = some stream) (receiving : .endStream id ∉ conn.logOf id)
    (fresh : stream.request = []) (registered : FirstRegistered conn.methods stream.path entry)
    (framable : payload.length ≤ u32Max) (split : chunks.flatten = frame payload) :
    (frameHeaderLen + payload.length ≤ conn.maxMessageLen.toNat →
      (∀ taken chunk rest middle, chunks = taken ++ chunk :: rest →
        Conn.Delivers id conn taken middle → (middle.onDataChunkRecv id chunk true).1 = .ok) ∧
      ∀ last hd quiet ended, Conn.Delivers id conn chunks last →
        hd.streamId = id → hd.endsStream = true →
        (∀ event ∈ quiet, event.Spares id ∧ event.isDispatch = false) →
        Transition.run Conn.step last (.frameRecv hd :: quiet) = some ended →
        ∀ env handler userData argument,
          .invoked id handler userData argument ∈
              (ended.dispatch env).2.log.drop ended.log.length ↔
            handler = entry.handler ∧ userData = entry.userData ∧ argument = payload) ∧
    (conn.maxMessageLen.toNat < frameHeaderLen + payload.length →
      (∀ last, ¬ Conn.Delivers id conn chunks last) ∧
      ∀ taken last later final, taken <+: chunks → Conn.Delivers id conn taken last →
        (∀ event ∈ later, event.Spares id ∨ event.Concludes id) →
        Transition.run Conn.step last later = some final →
        ∀ handler userData argument, .invoked id handler userData argument ∉ final.log) := by
  have reachable : conn.Reachable := ⟨methods, maxMessageLen, fd, events, reached⟩
  have pending : stream.Pending ∧ stream.state ≠ .complete := by
    obtain ⟨_, _, atState, _⟩ := (reachable.lifecycle id).present stream found
    have unended : .endStream id ∉ (conn.lane id).log := receiving
    cases state : stream.state <;> simp_all [StreamCtx.Pending, Lane.AtState]
  have underway : conn.Underway id stream [] conn :=
    ⟨reachable, rfl, List.prefix_rfl, ⟨stream, found, rfl, rfl, by simp⟩, by simp [fresh]⟩
  have arrived : ∀ {taken last}, Conn.Delivers id conn taken last →
      conn.Underway id stream taken.flatten last := fun delivers => by
    simpa using underway.delivers pending.2 delivers
  have size : chunks.flatten.length = frameHeaderLen + payload.length := by simp [split]
  refine ⟨fun within => ⟨?_, ?_⟩, fun exceeds => ⟨?_, ?_⟩⟩
  · intro taken chunk rest middle parts delivers
    obtain ⟨later, foundLater, _, _, request⟩ := (arrived delivers).found
    rw [Conn.onDataChunkRecv_ok_iff foundLater, request, (arrived delivers).maxMessageLen, fresh]
    rw [parts] at size
    simp only [List.flatten_append, List.flatten_cons, List.length_append] at size
    rw [List.nil_append]
    omega
  · rintro last hd quiet ended delivers rfl ends calm performed env handler userData argument
    obtain ⟨after, stepped, continued⟩ := Option.bind_eq_some_iff.mp performed
    have complete := ((arrived delivers).ended ends stepped).run (fun event listed =>
      (calm event listed).1) (fun event listed => (calm event listed).2) continued
    refine complete.invokes rfl ?_ registered env handler userData argument
    refine carries_iff_frame.mpr ⟨by omega, [], ?_⟩
    simp [fresh, split]
  · intro last delivers
    have bounded := (arrived delivers).within
    rw [fresh, List.nil_append, size] at bounded
    omega
  · intro taken last later final part delivers following performed handler userData argument invoked
    have here := arrived delivers
    have pieces : taken.flatten <+: frame payload := by
      obtain ⟨rest, rfl⟩ := part
      exact ⟨rest.flatten, by rw [← split, List.flatten_append]⟩
    have bad : ∀ payload,
        ¬ Carries conn.maxMessageLen (stream.request ++ taken.flatten) payload := by
      intro carried
      have bounded := here.within
      rw [fresh, List.nil_append] at bounded ⊢
      exact not_carries_of_short framable pieces (Nat.lt_of_le_of_lt bounded exceeds)
    have uncalled := here.never_invoked pending.1 bad following performed
    exact absurd (uncalled _ ((Conn.mem_lane_log rfl).mpr invoked)) (by simp [Effect.isInvoked])

/-- A frame of exactly the cap, in three chunks that cut its header. -/
theorem request_runs_at_cap :
    ∃ conn last ended,
      Transition.run Conn.step (Conn.newServer [⟨ascii "/S/M", 7, 0, none⟩] 10 (-1))
        [.beginHeaders ⟨1, nvHeaders, 0, .request⟩ true, .header 1 nPath (ascii "/S/M") 0 true] =
          some conn ∧
      Conn.Delivers 1 conn [[0, 0, 0], [0, 5, 1, 2], [3, 4, 5]] last ∧
      Transition.run Conn.step last [.frameRecv ⟨1, nvData, flagEndStream, .headers⟩] =
        some ended ∧
      .invoked 1 7 0 [1, 2, 3, 4, 5] ∈
        (ended.dispatch ⟨fun _ => ⟨[], 0⟩, fun _ => 0⟩).2.log.drop ended.log.length := by
  have within := (@request_runs_within_cap [⟨ascii "/S/M", 7, 0, none⟩] 10 (-1)
    [.beginHeaders ⟨1, nvHeaders, 0, .request⟩ true, .header 1 nPath (ascii "/S/M") 0 true] _ 1 _
    ⟨ascii "/S/M", 7, 0, none⟩ [1, 2, 3, 4, 5] [[0, 0, 0], [0, 5, 1, 2], [3, 4, 5]]
    (by rfl) (by rfl) (by decide) (by rfl) (firstRegistered_iff.mpr (by rfl)) (by decide)
    (by decide)).1 (by decide)
  refine ⟨_, _, _, rfl, .chunk (by rfl) (.chunk (by rfl) (.chunk (by rfl) (.done _))), rfl, ?_⟩
  exact (within.2 _ ⟨1, nvData, flagEndStream, .headers⟩ [] _
    (.chunk (by rfl) (.chunk (by rfl) (.chunk (by rfl) (.done _)))) rfl rfl (by simp) rfl _ 7 0
      [1, 2, 3, 4, 5]).mpr ⟨rfl, rfl, rfl⟩

/-- The cap covers the header too: a payload within the cap is rejected. -/
theorem chunk_rejected_below_cap :
    ∃ conn,
      Transition.run Conn.step (Conn.newServer [⟨ascii "/S/M", 7, 0, none⟩] 10 (-1))
        [.beginHeaders ⟨1, nvHeaders, 0, .request⟩ true, .header 1 nPath (ascii "/S/M") 0 true] =
          some conn ∧
      [1, 2, 3, 4, 5, 6].length ≤ conn.maxMessageLen.toNat ∧
      (conn.onDataChunkRecv 1 (frame [1, 2, 3, 4, 5, 6]) true).1 = .callbackFailure :=
  ⟨_, rfl, by decide, by decide⟩

end GrpcUds.Server
