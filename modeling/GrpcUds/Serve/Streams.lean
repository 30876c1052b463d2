import GrpcUds.Serve.Routing
import GrpcUds.Server.Unanswered

/-!
# The streams of a served connection

Handlers leave their call unanswered and the loop answers it when it applies
the ops of the call's writer.  So a stream is not finished before its dispatch,
and after it only by its own writer or by its deadline.
-/

namespace GrpcUds.Serve

open Server

/-- The connections of the loop: no stream is finished before its dispatch. -/
structure Tame (conn : Conn) : Prop where
  reachable : conn.Reachable
  fresh : ∀ id, dispatches (conn.logOf id) = 0 → conn.Unanswered id

theorem trampolines_defer (submitRc : Nat → Int) : (trampolines submitRc).Defers :=
  fun _ => ⟨rfl, rfl⟩

variable {conn : Conn} {event : ConnEvent}

/-- What an event of a tick says about a stream's hook. -/
theorem hookMarks_tick (allowed : ticks event = true) {id : StreamId}
    (stays : ∀ errorCode, event ≠ .streamClose id errorCode)
    (unexpired : ∀ now, event = .expireDeadlines now → id ∉ conn.expiring now) :
    conn.hookMarks id event = [] := by
  apply Conn.hookMarks_eq_nil _ _ stays unexpired
  · rintro call rfl
    simp [ticks] at allowed
  · rintro env rfl
    simp [ticks] at allowed

namespace Tame

variable {conn next : Conn}

theorem newServer (methods : List MethodEntry) (maxMessageLen : UInt32) (fd : Int) :
    Tame (.newServer methods maxMessageLen fd) where
  reachable := ⟨methods, maxMessageLen, fd, [], rfl⟩
  fresh := fun id _ stream found => by simp [Conn.findStream, Conn.newServer, Table.lookup] at found

/-- A stream that is undispatched after a step was so before. -/
theorem undispatched (tame : Tame conn) (performed : conn.step event = some next) {id : StreamId}
    (undispatched : dispatches (next.logOf id) = 0) : conn.Unanswered id := by
  have grows := dispatches_mono (tame.reachable.wellFormed.logOf_grows performed id)
  exact tame.fresh id (by omega)

theorem tick (tame : Tame conn) (allowed : ticks event = true)
    (performed : conn.step event = some next) : Tame next := by
  refine ⟨tame.reachable.step performed, fun id undispatched => ?_⟩
  have before := tame.undispatched performed undispatched
  have wellFormed := tame.reachable.wellFormed
  have grows := dispatches_mono (wellFormed.logOf_grows performed id)
  obtain ⟨legal, rfl⟩ := Conn.step_eq_some_iff.mp performed
  by_cases closes : ∃ errorCode, event = .streamClose id errorCode
  · obtain ⟨errorCode, rfl⟩ := closes
    intro stream found
    have gone := Conn.findStream_onStreamClose_self wellFormed.distinct id errorCode
    exact absurd (gone.symm.trans found) (by simp)
  · refine before.of_phase (Conn.phase_of_unmarked wellFormed legal ?_)
    refine hookMarks_tick allowed (fun errorCode same => closes ⟨errorCode, same⟩) ?_
    rintro now rfl expires
    have := tame.reachable.dispatched_of_expiring expires
    omega

/-- A pass takes up every complete stream. -/
theorem dispatched_of_complete (reachable : conn.Reachable) {id : StreamId} {stream : StreamCtx}
    (found : conn.findStream id = some stream) (complete : stream.state = .complete)
    (env : DispatchEnv) : 0 < dispatches ((conn.dispatch env).2.logOf id) := by
  have performed : conn.step (.dispatch env) = some (conn.dispatch env).2 := rfl
  have wellFormed := reachable.wellFormed
  have after := reachable.step performed
  have ended : .endStream id ∈ conn.logOf id := by
    have atState := ((reachable.lifecycle id).present stream found).2.2.1
    rw [complete] at atState
    exact atState.1
  have stillEnded := (wellFormed.logOf_grows performed id).subset ended
  obtain ⟨position, inside, placed⟩ := List.getElem_of_mem (Table.lookup_mem found)
  have pass := conn.dispatch_pass env wellFormed.distinct wellFormed.idle
  obtain ⟨later, present, visited⟩ := pass.behind position stream inside
    (by rw [List.getElem?_eq_getElem inside, placed])
  have foundLater : (conn.dispatch env).2.findStream id = some later := by
    have looked := Conn.findStream_of_getElem? after.wellFormed.distinct present
    rwa [visited.id, Table.lookup_key found] at looked
  have atState := ((after.lifecycle id).present later foundLater).2.2.1
  have taken := (after.taken id).present later foundLater
  cases state : later.state with
  | headersIn =>
      rw [state] at atState
      exact absurd stillEnded atState.1
  | bodyIn =>
      rw [state] at atState
      exact absurd stillEnded atState.1
  | complete => exact absurd state visited.state
  | dispatched => exact taken (.inl state)
  | cancelled => exact taken (.inr state)
  | closed =>
      rw [state] at atState
      exact atState.elim

theorem dispatch (tame : Tame conn) (submitRc : Nat → Int) :
    Tame (conn.dispatch (trampolines submitRc)).2 := by
  have performed : conn.step (.dispatch (trampolines submitRc)) =
      some (conn.dispatch (trampolines submitRc)).2 := rfl
  refine ⟨tame.reachable.step performed, fun id undispatched => ?_⟩
  have wellFormed := tame.reachable.wellFormed
  refine (tame.undispatched performed undispatched).of_phase
    (Conn.phase_dispatch wellFormed (trampolines_defer submitRc) ?_)
  rintro stream membership rfl complete
  have found : conn.findStream stream.id = some stream :=
    (Table.lookup_eq_some_iff wellFormed.distinct).mpr ⟨membership, rfl⟩
  have taken := dispatched_of_complete tame.reachable found complete (trampolines submitRc)
  omega

end Tame

/-! ### Ops -/

def OpKind.isFinish : OpKind → Bool
  | finish _ _ => true
  | _ => false

/-- An op answers no call but its own, and its own only by a finish. -/
theorem hookMarks_apiCall (conn : Conn) {op : OutOp} {id : StreamId}
    (silent : op.callId = id → op.kind.isFinish = false) (reserve : Bool) :
    conn.hookMarks id (.api (op.apiCall reserve)) = [] := by
  have unsaid : (op.apiCall reserve).hookEvents id = [] := by
    unfold OutOp.apiCall
    split
    next => rfl
    next kind => exact if_neg (by simpa [OpKind.isFinish, kind] using silent)
    next kind => exact if_neg (by simpa [OpKind.isFinish, kind] using silent)
    next => rfl
  simp [Conn.hookMarks, Conn.callEvents, unsaid]

theorem phase_apiCall (wellFormed : conn.WellFormed) {op : OutOp} {id : StreamId}
    (silent : op.callId = id → op.kind.isFinish = false) (reserve : Bool) :
    ((conn.api (op.apiCall reserve)).2.lane id).phase id = (conn.lane id).phase id := by
  have legal : conn.Legal (.api (op.apiCall reserve)) := trivial
  exact Conn.phase_of_unmarked wellFormed legal (hookMarks_apiCall conn silent reserve)

theorem Tame.apply (tame : Tame conn) {op : OutOp}
    (dispatched : 0 < dispatches (conn.logOf op.callId)) (reserve : Bool) :
    Tame (conn.api (op.apiCall reserve)).2 := by
  have performed : conn.step (.api (op.apiCall reserve)) =
      some (conn.api (op.apiCall reserve)).2 := rfl
  refine ⟨tame.reachable.step performed, fun id undispatched => ?_⟩
  have wellFormed := tame.reachable.wellFormed
  have grows := dispatches_mono (wellFormed.logOf_grows performed id)
  have different : op.callId ≠ id := by
    rintro rfl
    omega
  exact (tame.undispatched performed undispatched).of_phase
    (phase_apiCall wellFormed (fun same => absurd same different) reserve)

/-! ### The calls that a pass starts -/

theorem invokedIds_filter (log : List Effect) :
    invokedIds (log.filter Effect.isInvoked) = invokedIds log := by
  rw [invokedIds, invokedIds, List.filterMap_filter]
  congr 1
  funext effect
  cases effect <;> rfl

/-- Dispatch runs a handler only for a complete stream that it does not refuse. -/
theorem invocation_eq_some {stream : StreamCtx} {effect : Effect}
    (asked : conn.invocation stream = some effect) :
    stream.state = .complete ∧ ∃ entry payload, conn.verdict stream = .call entry payload ∧
      .invoked stream.id entry.handler entry.userData payload = effect := by
  unfold Conn.invocation at asked
  obtain ⟨complete, asked⟩ := Option.ite_none_right_eq_some.mp asked
  split at asked
  next => simp at asked
  next entry payload judged => exact ⟨complete, entry, payload, judged, Option.some.inj asked⟩

/-- The handlers that a pass runs are those of its streams, in table order. -/
theorem invokedIds_dispatch (wellFormed : conn.WellFormed) (env : DispatchEnv) :
    invokedIds ((conn.dispatch env).2.log.drop conn.log.length) =
      invokedIds (conn.streams.filterMap conn.invocation) := by
  obtain ⟨added, log, called⟩ := (conn.dispatch_pass env wellFormed.distinct wellFormed.idle).log
  rw [List.take_length] at called
  rw [log, List.drop_left, ← called, invokedIds_filter]

theorem invokedIds_sublist (conn : Conn) (streams : List StreamCtx) :
    (invokedIds (streams.filterMap conn.invocation)).Sublist (streams.map StreamCtx.id) := by
  induction streams with
  | nil => exact .slnil
  | cons stream rest ih =>
      cases asked : conn.invocation stream with
      | none =>
          rw [List.filterMap_cons_none asked]
          exact ih.cons _
      | some effect =>
          obtain ⟨_, _, _, _, rfl⟩ := invocation_eq_some asked
          rw [List.filterMap_cons_some asked]
          exact ih.cons_cons _

theorem exists_of_mem_invokedIds {streams : List StreamCtx} {id : StreamId}
    (invoked : id ∈ invokedIds (streams.filterMap conn.invocation)) :
    ∃ stream ∈ streams, stream.id = id ∧ stream.state = .complete ∧
      ∃ entry payload, conn.verdict stream = .call entry payload := by
  obtain ⟨effect, listed, named⟩ := List.mem_filterMap.mp invoked
  obtain ⟨stream, membership, asked⟩ := List.mem_filterMap.mp listed
  obtain ⟨complete, entry, payload, judged, rfl⟩ := invocation_eq_some asked
  exact ⟨stream, membership, Option.some.inj named, complete, entry, payload, judged⟩

/-! ### A call that awaits its answer -/

section Awaits

variable {conn next : Conn} {id : StreamId}

theorem awaits_step (wellFormed : conn.WellFormed) (awaits : conn.Awaits id)
    (performed : conn.step event = some next)
    (same : (next.lane id).phase id = (conn.lane id).phase id) : next.Awaits id := by
  refine awaits.of_phase ((wellFormed.logOf_grows performed id).subset ?_) same
  obtain ⟨stream, found, _⟩ := awaits
  exact wellFormed.opened_of_found found

theorem awaits_tick (wellFormed : conn.WellFormed) (awaits : conn.Awaits id)
    (allowed : ticks event = true) (performed : conn.step event = some next)
    (stays : ∀ errorCode, event ≠ .streamClose id errorCode)
    (unexpired : ∀ now, event = .expireDeadlines now → id ∉ conn.expiring now) :
    next.Awaits id := by
  apply awaits_step wellFormed awaits performed
  obtain ⟨legal, rfl⟩ := Conn.step_eq_some_iff.mp performed
  exact Conn.phase_of_unmarked wellFormed legal (hookMarks_tick allowed stays unexpired)

theorem awaits_apply (wellFormed : conn.WellFormed) (awaits : conn.Awaits id) {op : OutOp}
    (silent : op.callId = id → op.kind.isFinish = false) (reserve : Bool) :
    (conn.api (op.apiCall reserve)).2.Awaits id := by
  have performed : conn.step (.api (op.apiCall reserve)) =
      some (conn.api (op.apiCall reserve)).2 := rfl
  exact awaits_step wellFormed awaits performed (phase_apiCall wellFormed silent reserve)

/-- A complete stream still waits for its dispatch. -/
theorem undispatched_of_complete (reachable : conn.Reachable) {stream : StreamCtx}
    (membership : stream ∈ conn.streams) (complete : stream.state = .complete) :
    dispatches (conn.logOf stream.id) = 0 := by
  have wellFormed := reachable.wellFormed
  have found : conn.findStream stream.id = some stream :=
    (Table.lookup_eq_some_iff wellFormed.distinct).mpr ⟨membership, rfl⟩
  exact ((reachable.lifecycle stream.id).of_complete found complete
    (by simp [Conn.lane, wellFormed.idle])).2.2.1

/-- A later pass leaves a call that was dispatched alone. -/
theorem awaits_dispatch (reachable : conn.Reachable) (awaits : conn.Awaits id)
    (dispatched : 0 < dispatches (conn.logOf id)) (submitRc : Nat → Int) :
    (conn.dispatch (trampolines submitRc)).2.Awaits id := by
  have wellFormed := reachable.wellFormed
  have performed : conn.step (.dispatch (trampolines submitRc)) =
      some (conn.dispatch (trampolines submitRc)).2 := rfl
  refine awaits_step wellFormed awaits performed
    (Conn.phase_dispatch wellFormed (trampolines_defer submitRc) ?_)
  rintro stream membership rfl complete
  exact absurd dispatched (by simp [undispatched_of_complete reachable membership complete])

/-- A call whose handler a pass ran was waiting for its dispatch, and now for its answer. -/
theorem awaits_of_invoked (tame : Tame conn) (submitRc : Nat → Int) (invoked : id ∈ invokedIds
      ((conn.dispatch (trampolines submitRc)).2.log.drop conn.log.length)) :
    dispatches (conn.logOf id) = 0 ∧
      0 < dispatches ((conn.dispatch (trampolines submitRc)).2.logOf id) ∧
      (conn.dispatch (trampolines submitRc)).2.Awaits id := by
  have wellFormed := tame.reachable.wellFormed
  have performed : conn.step (.dispatch (trampolines submitRc)) =
      some (conn.dispatch (trampolines submitRc)).2 := rfl
  rw [invokedIds_dispatch wellFormed] at invoked
  obtain ⟨stream, membership, rfl, complete, entry, payload, judged⟩ :=
    exists_of_mem_invokedIds invoked
  have found : conn.findStream stream.id = some stream :=
    (Table.lookup_eq_some_iff wellFormed.distinct).mpr ⟨membership, rfl⟩
  have waiting : dispatches (conn.logOf stream.id) = 0 :=
    ((tame.reachable.lifecycle stream.id).of_complete found complete
      (by simp [Conn.lane, wellFormed.idle])).2.2.1
  refine ⟨waiting, Tame.dispatched_of_complete tame.reachable found complete _,
    awaits_step wellFormed ⟨stream, found, tame.fresh stream.id waiting stream found⟩ performed
      (Conn.phase_dispatch wellFormed (trampolines_defer submitRc) ?_)⟩
  intro other present named _ status
  have same : conn.findStream stream.id = some other :=
    (Table.lookup_eq_some_iff wellFormed.distinct).mpr ⟨present, named⟩
  obtain rfl := Option.some.inj (found.symm.trans same)
  rw [judged]
  simp

end Awaits

/-! ### Connections and the calls of their writers -/

/-- The connection and the stream that a writer was made for. -/
def Writer.home (writer : Writer) : Nat × StreamId := (writer.origin, writer.callId)

theorem GrowAll.homes {writers later : List Writer} (grow : GrowAll writers later)
    (length : later.length = writers.length) : later.map Writer.home = writers.map Writer.home := by
  apply List.ext_getElem?
  intro index
  rw [List.getElem?_map, List.getElem?_map]
  cases known : writers[index]? with
  | none =>
      have missing : later[index]? = none := by
        rw [List.getElem?_eq_none_iff] at known ⊢
        omega
      simp [missing]
  | some writer =>
      obtain ⟨grown, present, grows⟩ := grow index writer known
      rw [present]
      exact congrArg some (Prod.ext grows.origin grows.callId)

/-- The streams of live connections that have a writer were dispatched, and each has one
writer. -/
structure Housed (conns : List ConnSlot) (homes : List (Nat × StreamId)) : Prop where
  tame : ∀ slot ∈ conns, Tame slot.conn
  taken : ∀ slot ∈ conns, ∀ home ∈ homes, home.1 = slot.serial →
    0 < dispatches (slot.conn.logOf home.2)
  unique : homes.Nodup

theorem mem_modify_conn {conns : List ConnSlot} {position : Nat} {slot other : ConnSlot}
    (present : conns[position]? = some slot)
    (member : other ∈ conns.modify position fun slot => { slot with conn := conn }) :
    (∃ index, index ≠ position ∧ conns[index]? = some other) ∨
      other = { slot with conn := conn } := by
  obtain ⟨index, found⟩ := List.mem_iff_getElem?.mp member
  rw [List.getElem?_modify] at found
  by_cases same : position = index
  · subst same
    right
    simpa [present] using found.symm
  · left
    exact ⟨index, Ne.symm same, by simpa [same] using found⟩

theorem serial_ne {conns : List ConnSlot} (serials : (conns.map ConnSlot.serial).Nodup)
    {position index : Nat} {slot other : ConnSlot} (present : conns[position]? = some slot)
    (apart : index ≠ position) (found : conns[index]? = some other) :
    other.serial ≠ slot.serial := by
  intro same
  have first : (conns.map ConnSlot.serial)[index]? = some slot.serial := by
    simpa [found] using same
  have second : (conns.map ConnSlot.serial)[position]? = some slot.serial := by simp [present]
  have inside := (List.getElem?_eq_some_iff.mp first).1
  exact apart ((List.getElem?_inj inside serials).mp (first.trans second.symm))

namespace Housed

variable {conns : List ConnSlot} {homes : List (Nat × StreamId)}

variable (housed : Housed conns homes)
include housed

/-- A connection moves on. -/
theorem modify {position : Nat} {slot : ConnSlot} (present : conns[position]? = some slot)
    (tame : Tame conn) (grows : ∀ id, slot.conn.logOf id <+: conn.logOf id) :
    Housed (conns.modify position fun slot => { slot with conn := conn }) homes where
  tame := by
    intro other member
    rcases mem_modify_conn present member with ⟨_, _, old⟩ | rfl
    · exact housed.tame other (List.mem_of_getElem? old)
    · exact tame
  taken := by
    intro other member home listed same
    rcases mem_modify_conn present member with ⟨_, _, old⟩ | rfl
    · exact housed.taken other (List.mem_of_getElem? old) home listed same
    · exact (housed.taken slot (List.mem_of_getElem? present) home listed same).trans_le
        (dispatches_mono (grows home.2))
  unique := housed.unique

/-- Connections may go, and nothing is asked of the rest. -/
theorem shrink {fewer : List ConnSlot}
    (old : ∀ slot ∈ fewer, ∃ before ∈ conns, slot.conn = before.conn ∧
      slot.serial = before.serial) : Housed fewer homes where
  tame := by
    intro slot member
    obtain ⟨before, known, conn, _⟩ := old slot member
    exact conn ▸ housed.tame before known
  taken := by
    intro slot member home listed same
    obtain ⟨before, known, conn, serial⟩ := old slot member
    exact conn ▸ housed.taken before known home listed (same.trans serial)
  unique := housed.unique

theorem accept {slot : ConnSlot} (tame : Tame slot.conn)
    (fresh : ∀ home ∈ homes, home.1 ≠ slot.serial) : Housed (conns ++ [slot]) homes where
  tame := by
    intro other member
    rcases List.mem_append.mp member with old | new
    · exact housed.tame other old
    · exact List.mem_singleton.mp new ▸ tame
  taken := by
    intro other member home listed same
    rcases Table.mem_concat.mp member with old | rfl
    · exact housed.taken other old home listed same
    · exact absurd same (fresh home listed)
  unique := housed.unique

/-- The pass of a tick, and the writers that it makes. -/
theorem dispatch {position : Nat} {slot : ConnSlot} (present : conns[position]? = some slot)
    (serials : (conns.map ConnSlot.serial).Nodup) (submitRc : Nat → Int) :
    Housed
      (conns.modify position fun slot' =>
        { slot' with conn := (slot.conn.dispatch (trampolines submitRc)).2 })
      (homes ++ (invokedIds ((slot.conn.dispatch (trampolines submitRc)).2.log.drop
        slot.conn.log.length)).map fun id => (slot.serial, id)) := by
  have known := List.mem_of_getElem? present
  have tame := housed.tame slot known
  have wellFormed := tame.reachable.wellFormed
  have performed : slot.conn.step (.dispatch (trampolines submitRc)) =
      some (slot.conn.dispatch (trampolines submitRc)).2 := rfl
  have moved := housed.modify present (tame.dispatch submitRc) (wellFormed.logOf_grows performed)
  refine ⟨moved.tame, fun other member home listed same => ?_, ?_⟩
  · rcases List.mem_append.mp listed with old | new
    · exact moved.taken other member home old same
    · obtain ⟨id, invoked, rfl⟩ := List.mem_map.mp new
      rcases mem_modify_conn present member with ⟨index, apart, before⟩ | rfl
      · exact absurd same.symm (serial_ne serials present apart before)
      · exact (awaits_of_invoked tame submitRc invoked).2.1
  · rw [List.nodup_append]
    refine ⟨housed.unique, ?_, fun home old other new => ?_⟩
    · rw [invokedIds_dispatch wellFormed]
      exact (wellFormed.distinct.sublist (invokedIds_sublist slot.conn _)).map
        fun _ _ equal => congrArg Prod.snd equal
    · obtain ⟨id, invoked, rfl⟩ := List.mem_map.mp new
      rintro rfl
      have before := housed.taken slot known _ old rfl
      have waiting := (awaits_of_invoked tame submitRc invoked).1
      exact absurd before (by simp [waiting])

end Housed

namespace Loop

def homes (loop : Loop) : List (Nat × StreamId) := loop.mailbox.writers.map Writer.home

theorem Routed.serials {loop : Loop} (routed : loop.Routed) :
    (loop.conns.map ConnSlot.serial).Nodup := by
  simpa [names, Function.comp_def] using routed.named.serials

theorem applyOp_conns {loop : Loop} (routed : loop.Routed) {op : OutOp} {writer : Writer}
    (known : loop.mailbox.writers[op.writer]? = some writer) (token : op.token = writer.token)
    (callId : op.callId = writer.callId) (housed : Housed loop.conns loop.homes) (reserve : Bool) :
    Housed (loop.applyOp op reserve).conns loop.homes := by
  unfold applyOp
  split
  · exact housed
  next position slot routing =>
    obtain ⟨index, found, paired⟩ := Option.bind_eq_some_iff.mp routing
    obtain ⟨other, present, equal⟩ := Option.map_eq_some_iff.mp paired
    cases equal
    have member := List.mem_of_getElem? present
    have origin := routed.route known token found present
    have listed : writer.home ∈ loop.homes :=
      List.mem_map_of_mem (List.mem_of_getElem? known)
    have dispatched : 0 < dispatches (slot.conn.logOf op.callId) :=
      callId ▸ housed.taken slot member writer.home listed origin.symm
    have tame := housed.tame slot member
    have performed : slot.conn.step (.api (op.apiCall reserve)) =
      some (slot.conn.api (op.apiCall reserve)).2 := rfl
    exact housed.modify present (tame.apply dispatched reserve)
      (tame.reachable.wellFormed.logOf_grows performed)

/-- Applying an op raises flags and does nothing else to the mailbox. -/
theorem applyOp_writers (loop : Loop) (op : OutOp) (reserve : Bool) :
    ∃ writers, (loop.applyOp op reserve).mailbox = { loop.mailbox with writers := writers } ∧
      GrowAll loop.mailbox.writers writers ∧ writers.length = loop.mailbox.writers.length := by
  unfold applyOp
  split
  · exact ⟨_, rfl, growAll_modify _ _ grows_dead, List.length_modify _ _ _⟩
  next position slot routing =>
    obtain ⟨change, changed, grows, _⟩ :=
      report_writers loop.mailbox op.writer (slot.conn.api (op.apiCall reserve)).1
    exact ⟨_, changed, growAll_modify _ _ grows, List.length_modify _ _ _⟩

theorem applyOp_homes (loop : Loop) (op : OutOp) (reserve : Bool) :
    (loop.applyOp op reserve).homes = loop.homes := by
  obtain ⟨writers, mailbox, grow, length⟩ := loop.applyOp_writers op reserve
  rw [homes, mailbox]
  exact grow.homes length

theorem accept_housed {loop : Loop} (routed : loop.Routed) (housed : Housed loop.conns loop.homes)
    (registered : Bool) (fd : Int) :
    Housed (loop.accept registered fd).conns (loop.accept registered fd).homes := by
  unfold Loop.accept
  split
  · refine housed.accept (.newServer loop.methods loop.maxMessageLen fd) fun home listed same => ?_
    obtain ⟨writer, known, rfl⟩ := List.mem_map.mp listed
    have older := (routed.named.made writer known).2
    exact absurd same older.ne
  · exact housed

theorem conclude_housed {loop : Loop} (housed : Housed loop.conns loop.homes) (position : Nat)
    (live : Bool) :
    Housed (loop.conclude position live).conns (loop.conclude position live).homes := by
  have homes : (loop.conclude position live).homes = loop.homes := by
    unfold Loop.conclude
    split <;> rfl
  rw [homes]
  exact housed.shrink fun slot member => mem_conclude member

theorem step_housed {loop next : Loop} {event : LoopEvent} (routed : loop.Routed)
    (housed : Housed loop.conns loop.homes) (performed : loop.step event = some next) :
    Housed next.conns next.homes := by
  cases step_inv performed with
  | @begin writer request inline mailbox entered inTick =>
      have homes : mailbox.writers.map Writer.home = loop.homes :=
        congrArg _ (Mailbox.begin_ops entered).2.2
      exact (congrArg (Housed loop.conns) homes).mpr housed
  | @advance position mailbox advanced =>
      have homes : mailbox.writers.map Writer.home = loop.homes := by
        rcases Mailbox.advance_ops advanced with ⟨_, _, grow, length⟩ | ⟨_, _, _, writers, _, _⟩
        · exact grow.homes length
        · exact congrArg _ writers
      exact (congrArg (Housed loop.conns) homes).mpr housed
  | accept phase => exact accept_housed routed housed _ _
  | conn phase present allowed stepped =>
      have tame := housed.tame _ (List.mem_of_getElem? present)
      exact housed.modify present (tame.tick allowed stepped)
        (tame.reachable.wellFormed.logOf_grows stepped)
  | @dispatch submitRc position count slot phase present =>
      have made : (loop.dispatch position slot submitRc).homes = loop.homes ++
          (invokedIds ((slot.conn.dispatch (trampolines submitRc)).2.log.drop
            slot.conn.log.length)).map fun id => (slot.serial, id) := by
        simp only [homes, Loop.dispatch, List.map_append, List.map_map]
        rfl
      rw [made]
      exact housed.dispatch present routed.serials submitRc
  | tickEnd phase quiet => exact conclude_housed housed _ _
  | @applyOp reserve op batch phase =>
      have taken := routed.mem_pushed phase
      obtain ⟨writer, known, token, callId⟩ := routed.addressed op taken
      have applied := applyOp_conns routed known token callId housed reserve
      exact (loop.applyOp_homes op reserve).symm ▸ applied
  | flushEnd phase => exact conclude_housed housed _ _
  | retain phase =>
      exact housed.shrink fun slot member => ⟨slot, (List.mem_filter.mp member).1, rfl, rfl⟩
  | _ => exact housed

end Loop

end GrpcUds.Serve
