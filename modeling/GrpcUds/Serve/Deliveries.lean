import GrpcUds.Serve.Race
import GrpcUds.Server.Sending

/-!
# What the client of a call is sent

The bytes of a call's stream leave in the ticks and flushes of its connection.
They belong to the payloads that the loop applied there, and no other call can
add to them.
-/

namespace GrpcUds.Serve

open Server

/-- The payload that an applied op brought to a stream. -/
def Processed.payload? (home : Nat × StreamId) (entry : Processed) : Option Bytes :=
  match entry.op.kind, entry.outcome with
  | .write payload, .applied serial _ (.ok ()) =>
      if (serial, entry.op.callId) = home then some payload else none
  | _, _ => none

namespace Processed

variable {home : Nat × StreamId} {op : OutOp}

theorem payload?_unrouted (home : Nat × StreamId) (op : OutOp) :
    payload? home ⟨op, .unrouted⟩ = none := by
  unfold payload?
  split
  next applied => exact absurd applied nofun
  next => rfl

theorem payload?_elsewhere {serial : Nat}
    (elsewhere : ∀ payload, op.kind = .write payload → (serial, op.callId) ≠ home)
    (policy : Option Backpressure) (result : Except ConnError Unit) :
    payload? home ⟨op, .applied serial policy result⟩ = none := by
  unfold payload?
  split
  next payload other _ kind applied =>
    obtain ⟨rfl, _⟩ := Outcome.applied.inj applied
    exact if_neg (elsewhere payload kind)
  next => rfl

end Processed

/-- What an op asks the core to queue. -/
theorem written?_apiCall (op : OutOp) (reserve : Bool) {id : StreamId} {payload : Bytes}
    (written : Conn.written? (op.apiCall reserve) = some (id, payload)) :
    op.kind = .write payload ∧ op.callId = id := by
  unfold OutOp.apiCall at written
  split at written
  next body kind =>
    obtain ⟨same, rfl⟩ := Prod.mk.inj (Option.some.inj written)
    exact ⟨kind, same⟩
  next => exact absurd written nofun
  next => exact absurd written nofun
  next => exact absurd written nofun

namespace Loop

/-- The payloads that a stream has accepted. -/
def payloads (home : Nat × StreamId) (loop : Loop) : List Bytes :=
  loop.processed.filterMap (Processed.payload? home)

theorem payloads_unheard (loop : Loop) {home : Nat × StreamId} {entry : Processed}
    (unheard : entry.payload? home = none) :
    (loop.processed ++ [entry]).filterMap (Processed.payload? home) = loop.payloads home := by
  rw [List.filterMap_append, List.filterMap_cons_none unheard, List.filterMap_nil,
    List.append_nil]
  rfl

/-- The bytes that an event hands out of a stream. -/
def sends (home : Nat × StreamId) (loop : Loop) : LoopEvent → Bytes
  | .conn event =>
      match loop.active with
      | none => []
      | some slot => if slot.serial = home.1 then slot.conn.ships home.2 event else []
  | _ => []

/-- The bytes that a stream has sent, and the payloads that it has accepted. -/
structure Delivers (home : Nat × StreamId) (loop : Loop) (sent : Bytes) : Prop where
  unmade : loop.accepted ≤ home.1 → sent = [] ∧ loop.payloads home = []
  slots : ∀ slot ∈ loop.conns, slot.serial = home.1 →
    slot.conn.Delivered home.2 (loop.payloads home) sent

namespace Delivers

variable {home : Nat × StreamId} {loop next : Loop} {sent : Bytes}

theorem new (methods : List MethodEntry) (maxMessageLen : UInt32) (home : Nat × StreamId) :
    Delivers home (Loop.new methods maxMessageLen) [] where
  unmade := fun _ => ⟨rfl, rfl⟩
  slots := fun _ member => absurd member List.not_mem_nil

variable (delivers : Delivers home loop sent)
include delivers

/-- Connections may go. -/
theorem shrink (processed : next.processed = loop.processed)
    (accepted : next.accepted = loop.accepted)
    (old : ∀ slot ∈ next.conns, ∃ before ∈ loop.conns, slot.conn = before.conn ∧
      slot.serial = before.serial) : Delivers home next sent := by
  have same : next.payloads home = loop.payloads home := by rw [payloads, processed, payloads]
  refine ⟨fun unmade => ?_, fun slot member own => ?_⟩
  · rw [same]
    exact delivers.unmade (accepted ▸ unmade)
  · obtain ⟨before, known, conn, serial⟩ := old slot member
    rw [same, conn]
    exact delivers.slots before known (serial.symm.trans own)

theorem conclude (position : Nat) (live : Bool) (phase : Phase) :
    Delivers home { loop.conclude position live with phase := phase } sent := by
  have same : (loop.conclude position live).processed = loop.processed ∧
      (loop.conclude position live).accepted = loop.accepted := by
    unfold Loop.conclude
    split <;> exact ⟨rfl, rfl⟩
  exact delivers.shrink same.1 same.2 fun slot member => mem_conclude member

theorem accept (registered : Bool) (fd : Int) :
    Delivers home (loop.accept registered fd) sent := by
  unfold Loop.accept
  split
  · refine ⟨fun unmade => delivers.unmade (Nat.le_of_succ_le unmade), fun slot member own => ?_⟩
    rcases Table.mem_concat.mp member with old | rfl
    · exact delivers.slots slot old own
    · obtain ⟨rfl, none⟩ := delivers.unmade (Nat.le_of_eq own)
      exact none.symm ▸ .newServer loop.methods loop.maxMessageLen fd home.2
  · exact ⟨fun unmade => delivers.unmade (Nat.le_of_succ_le unmade), delivers.slots⟩

/-- The connection of the stream moves on, or another one does. -/
theorem modify (routed : loop.Routed) {position : Nat} {slot : ConnSlot}
    (present : loop.conns[position]? = some slot) {conn : Conn} {more : Bytes}
    (accepted : next.accepted = loop.accepted)
    (processed : slot.serial ≠ home.1 → next.payloads home = loop.payloads home)
    (conns : next.conns = loop.conns.modify position fun slot => { slot with conn := conn })
    (other : slot.serial ≠ home.1 → more = [])
    (moved : slot.serial = home.1 → slot.conn.Delivered home.2 (loop.payloads home) sent →
      conn.Delivered home.2 (next.payloads home) (sent ++ more)) :
    Delivers home next (sent ++ more) := by
  have listed := List.mem_of_getElem? present
  refine ⟨fun unmade => ?_, fun later member own => ?_⟩
  · have older := (routed.named.slots (slot.token, slot.serial) (List.mem_map_of_mem listed)).2
    have apart : slot.serial ≠ home.1 := by
      have : slot.serial < loop.accepted := older
      omega
    rw [other apart, List.append_nil, processed apart]
    exact delivers.unmade (accepted ▸ unmade)
  · rw [conns] at member
    rcases mem_modify_conn present member with ⟨index, apart, found⟩ | rfl
    · have different : slot.serial ≠ home.1 := by
        intro same
        exact serial_ne routed.serials present apart found (own.trans same.symm)
      rw [other different, List.append_nil, processed different]
      exact delivers.slots later (List.mem_of_getElem? found) own
    · exact moved own (delivers.slots slot listed own)

/-- Every step but the application of an op. -/
theorem step (routed : loop.Routed) (housed : Housed loop.conns loop.homes) {event : LoopEvent}
    (performed : loop.step event = some next) (unapplied : ∀ reserve, event ≠ .applyOp reserve) :
    Delivers home next (sent ++ loop.sends home event) := by
  cases step_inv performed with
  | @conn event position slot conn phase present allowed stepped =>
      have active : loop.active = some slot := (active_of_phase phase).trans present
      have tame := housed.tame slot (List.mem_of_getElem? present)
      refine delivers.modify routed present rfl (fun _ => rfl) rfl ?_ ?_
      · intro different
        simp [sends, active, different]
      · intro own delivered
        have shipped : loop.sends home (.conn event) = slot.conn.ships home.2 event := by
          simp [sends, active, own]
        rw [shipped]
        apply delivered.step tame.reachable.wellFormed stepped
        · rintro env rfl
          simp [ticks] at allowed
        · rintro call rfl
          simp [ticks] at allowed
  | @dispatch submitRc position count slot phase present =>
      have tame := housed.tame slot (List.mem_of_getElem? present)
      refine delivers.modify routed present rfl (fun _ => rfl) rfl (fun _ => rfl) ?_
      intro own delivered
      have performed : slot.conn.step (.dispatch (trampolines submitRc)) =
          some (slot.conn.dispatch (trampolines submitRc)).2 := rfl
      apply delivered.step tame.reachable.wellFormed performed
      · rintro env ⟨⟩ position
        rfl
      · rintro call ⟨⟩
  | accept phase => exact (List.append_nil sent).symm ▸ delivers.accept _ _
  | tickEnd phase quiet => exact (List.append_nil sent).symm ▸ delivers.conclude _ _ _
  | flushEnd phase => exact (List.append_nil sent).symm ▸ delivers.conclude _ _ _
  | retain phase =>
      refine (List.append_nil sent).symm ▸ delivers.shrink rfl rfl fun slot member => ?_
      exact ⟨slot, (List.mem_filter.mp member).1, rfl, rfl⟩
  | applyOp phase => exact absurd rfl (unapplied _)
  | _ =>
      have silent : sent ++ [] = sent := List.append_nil sent
      exact silent.symm ▸ ⟨delivers.unmade, delivers.slots⟩

/-! ### Ops -/

/-- An op of another call, or one that writes nothing. -/
theorem pass (routed : loop.Routed) (housed : Housed loop.conns loop.homes) {op : OutOp}
    {sender : Writer} (sends : loop.mailbox.writers[op.writer]? = some sender)
    (token : op.token = sender.token) (callId : op.callId = sender.callId)
    (silent : ∀ payload, op.kind = .write payload → sender.home ≠ home) (reserve : Bool) :
    Delivers home (loop.applyOp op reserve) sent := by
  unfold applyOp
  split
  · have same := loop.payloads_unheard (Processed.payload?_unrouted home op)
    refine ⟨fun unmade => ?_, fun slot member own => ?_⟩
    · exact ⟨(delivers.unmade unmade).1, same.trans (delivers.unmade unmade).2⟩
    · exact (congrArg (slot.conn.Delivered home.2 · sent) same).mpr
        (delivers.slots slot member own)
  next position slot routing =>
    obtain ⟨_, found, paired⟩ := Option.bind_eq_some_iff.mp routing
    obtain ⟨_, present, equal⟩ := Option.map_eq_some_iff.mp paired
    cases equal
    have tame := housed.tame slot (List.mem_of_getElem? present)
    have origin := routed.route sends token found present
    have elsewhere : ∀ payload, op.kind = .write payload → (slot.serial, op.callId) ≠ home := by
      intro payload kind same
      exact silent payload kind (same ▸ Prod.ext origin.symm callId.symm)
    have same := loop.payloads_unheard (Processed.payload?_elsewhere elsewhere
      ((slot.conn.findStream op.callId).map fun stream => stream.out.backpressure)
      (slot.conn.api (op.apiCall reserve)).1)
    refine List.append_nil sent ▸
      delivers.modify routed present rfl (fun _ => same) rfl (fun _ => rfl) ?_
    intro own delivered
    rw [List.append_nil]
    refine (congrArg (Conn.Delivered home.2 _ · sent) same).mpr ?_
    apply delivered.call
    intro payload written
    obtain ⟨kind, addressed⟩ := written?_apiCall op reserve written
    exact elsewhere payload kind (Prod.ext own addressed)

/-- The first write reaches an open stream. -/
theorem write (routed : loop.Routed) (housed : Housed loop.conns loop.homes) {op : OutOp}
    {position : Nat} {slot : ConnSlot} (found : loop.route op = some position)
    (present : loop.conns[position]? = some slot) (own : (slot.serial, op.callId) = home)
    {payload : Bytes} (kind : op.kind = .write payload) (fits : payload.length ≤ Framing.u32Max)
    (first : loop.payloads home = []) (awaits : slot.conn.Awaits op.callId) :
    (slot.conn.api (op.apiCall true)).1 = .ok () ∧ Delivers home (loop.applyOp op true) sent := by
  subst own
  have listed := List.mem_of_getElem? present
  have tame := housed.tame slot listed
  have delivered := delivers.slots slot listed rfl
  rw [first] at delivered
  obtain ⟨stream, open_, unfinished⟩ := awaits
  have empty := (delivered.queued stream open_ (Nat.zero_le 1)).2 rfl
  obtain ⟨ok, later, looked, messages, offset⟩ :=
    slot.conn.writeCallOwned_of_empty open_ unfinished empty fits
  have asked : op.apiCall true = .writeCallOwned op.callId payload true := by
    simp [OutOp.apiCall, kind]
  have accepted : (slot.conn.api (op.apiCall true)).1 = .ok () := by rw [asked]; exact ok
  refine ⟨accepted, ?_⟩
  have silent := tame.reachable.trailers_eq_zero open_ unfinished
  have applied := applyOp_of_route found present true
  have payloads : (loop.applyOp op true).payloads (slot.serial, op.callId) = [payload] := by
    rw [Loop.payloads, applied]
    dsimp only
    rw [List.filterMap_append, show loop.processed.filterMap _ = [] from first]
    simp [Processed.payload?, kind, accepted]
  have moved : (slot.conn.api (op.apiCall true)).2.Delivered op.callId [payload] sent := by
    refine delivered.write (tame.reachable.wellFormed.opened_of_found open_)
      silent open_ ?_ messages offset
    rw [asked]
    exact looked
  have conns : (loop.applyOp op true).conns = loop.conns.modify position fun slot' =>
      { slot' with conn := (slot.conn.api (op.apiCall true)).2 } := by
    rw [applied]
    rfl
  have accepted : (loop.applyOp op true).accepted = loop.accepted := by
    rw [applied]
    rfl
  rw [← List.append_nil sent]
  refine delivers.modify routed present accepted (absurd rfl) conns (absurd rfl) ?_
  intro _ _
  rw [payloads, List.append_nil]
  exact moved

end Delivers

/-! ### What a step leaves behind -/

/-- Writers come and stay. -/
theorem step_homes {loop next : Loop} {event : LoopEvent} (performed : loop.step event = some next)
    :
    
    loop.homes <+: next.homes := by
  cases step_inv performed with
  | begin entered inTick =>
      simp only [homes, (Mailbox.begin_ops entered).2.2, List.prefix_rfl]
  | advance advanced =>
      rcases Mailbox.advance_ops advanced with ⟨_, _, grow, length⟩ | ⟨_, _, _, writers, _, _⟩
      · exact ⟨[], (List.append_nil _).trans (grow.homes length).symm⟩
      · simp only [homes, writers, List.prefix_rfl]
  | accept phase => simp only [homes, (loop.accept_eq _ _).1, List.prefix_rfl]
  | dispatch phase present =>
      simp only [homes, Loop.dispatch, List.map_append]
      exact List.prefix_append _ _
  | tickEnd phase quiet => simp only [homes, loop.conclude_mailbox, List.prefix_rfl]
  | flushEnd phase => simp only [homes, loop.conclude_mailbox, List.prefix_rfl]
  | applyOp phase => exact (loop.applyOp_homes _ _).symm ▸ List.prefix_rfl
  | _ => exact List.prefix_rfl

/-- A connection is new or goes on from what it was. -/
theorem step_slots {loop next : Loop} {event : LoopEvent} (housed : Housed loop.conns loop.homes)
    (performed : loop.step event = some next) {slot : ConnSlot} (member : slot ∈ next.conns) :
    slot.serial = loop.accepted ∨ ∃ before ∈ loop.conns, before.serial = slot.serial ∧
      ∀ id, before.conn.logOf id <+: slot.conn.logOf id := by
  have stays : ∀ {other : ConnSlot}, other ∈ loop.conns → ∃ before ∈ loop.conns,
      before.serial = other.serial ∧ ∀ id, before.conn.logOf id <+: other.conn.logOf id :=
    fun {other} known => ⟨other, known, rfl, fun _ => List.prefix_rfl⟩
  have moves : ∀ {position : Nat} {active : ConnSlot} {connEvent : ConnEvent} {conn : Conn},
      loop.conns[position]? = some active → active.conn.step connEvent = some conn →
      slot ∈ loop.conns.modify position (fun slot => { slot with conn := conn }) →
      ∃ before ∈ loop.conns, before.serial = slot.serial ∧
        ∀ id, before.conn.logOf id <+: slot.conn.logOf id := by
    intro position active connEvent conn present stepped listed
    rcases mem_modify_conn present listed with ⟨_, _, found⟩ | rfl
    · exact stays (List.mem_of_getElem? found)
    · have known := List.mem_of_getElem? present
      exact ⟨active, known, rfl,
        (housed.tame active known).reachable.wellFormed.logOf_grows stepped⟩
  have dies : ∀ {position : Nat} {live : Bool}, slot ∈ (loop.conclude position live).conns →
      ∃ before ∈ loop.conns, before.serial = slot.serial ∧
        ∀ id, before.conn.logOf id <+: slot.conn.logOf id := by
    intro position live listed
    unfold conclude at listed
    split at listed
    · exact stays listed
    · obtain ⟨index, found⟩ := List.mem_iff_getElem?.mp listed
      simp only [modifyConn, List.getElem?_modify] at found
      obtain ⟨old, known, changed⟩ := Option.map_eq_some_iff.mp found
      refine ⟨old, List.mem_of_getElem? known, ?_⟩
      split at changed <;> exact changed ▸ ⟨rfl, fun _ => List.prefix_rfl⟩
  cases step_inv performed with
  | accept phase =>
      unfold accept at member
      split at member
      · rcases List.mem_append.mp member with old | new
        · exact .inr (stays old)
        · exact .inl (List.mem_singleton.mp new ▸ rfl)
      · exact .inr (stays member)
  | conn phase present allowed stepped => exact .inr (moves present stepped member)
  | @dispatch submitRc position count active phase present =>
      have stepped : active.conn.step (.dispatch (trampolines submitRc)) =
          some (active.conn.dispatch (trampolines submitRc)).2 := rfl
      exact .inr (moves present stepped member)
  | tickEnd phase quiet => exact .inr (dies member)
  | flushEnd phase => exact .inr (dies member)
  | @applyOp reserve op batch phase =>
      dsimp only at member
      unfold applyOp at member
      split at member
      · exact .inr (stays member)
      next position active routing =>
        obtain ⟨_, _, paired⟩ := Option.bind_eq_some_iff.mp routing
        obtain ⟨_, present, equal⟩ := Option.map_eq_some_iff.mp paired
        cases equal
        have stepped : active.conn.step (.api (op.apiCall reserve)) =
            some (active.conn.api (op.apiCall reserve)).2 := rfl
        exact .inr (moves present stepped member)
  | retain phase => exact .inr (stays (List.mem_filter.mp member).1)
  | _ => exact .inr (stays member)

theorem step_processed {loop next : Loop} {event : LoopEvent}
    (performed : loop.step event = some next) (unapplied : ∀ reserve, event ≠ .applyOp reserve) :
    next.processed = loop.processed := by
  cases step_inv performed with
  | accept phase =>
      unfold accept
      split <;> rfl
  | tickEnd phase quiet =>
      unfold conclude
      split <;> rfl
  | flushEnd phase =>
      unfold conclude
      split <;> rfl
  | applyOp phase => exact absurd rfl (unapplied _)
  | _ => rfl

/-- An op is recorded with what became of it. -/
theorem applyOp_processed (loop : Loop) (op : OutOp) (reserve : Bool) :
    ∃ outcome, (loop.applyOp op reserve).processed = loop.processed ++ [⟨op, outcome⟩] := by
  unfold applyOp
  split
  · exact ⟨_, rfl⟩
  · exact ⟨_, rfl⟩

end Loop

end GrpcUds.Serve
