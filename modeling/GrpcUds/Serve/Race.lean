import GrpcUds.Serve.Finishing

/-!
# A write that races a finish

As long as the client stays, a call is answered by its writer alone, and every
op of the writer finds the stream open until the finish is applied.  What is
left is the order of the pushes: an op that is pushed behind the finish bounces
off the finished stream, although its call returned `Ok`.
-/

namespace GrpcUds.Serve

open Transition Server

/-! ### Dead connections are dropped before the next round -/

/-- How many connections the round has ticked, until it takes the ops. -/
def Phase.ticked : Phase → Option Nat
  | top | poll _ | accept _ _ | drainWakeup _ => some 0
  | ticking position _ | inTick position _ => some position
  | _ => none

/-- The connections that are still to be ticked are not dead. -/
def Lively (conns : List ConnSlot) (phase : Phase) : Prop :=
  ∀ start, phase.ticked = some start → ∀ (index : Nat) (slot : ConnSlot), start ≤ index →
    conns[index]? = some slot → slot.dead = false

namespace Lively

variable {conns : List ConnSlot} {phase next : Phase}

theorem move (lively : Lively conns phase)
    (later : ∀ start, next.ticked = some start → ∃ earlier ≤ start, phase.ticked = some earlier) :
    Lively conns next := by
  intro start ticked index slot after
  obtain ⟨earlier, before, was⟩ := later start ticked
  exact lively earlier was index slot (before.trans after)

theorem modify (lively : Lively conns phase) (position : Nat) {change : ConnSlot → ConnSlot}
    (kept : ∀ slot, (change slot).dead = slot.dead) :
    Lively (conns.modify position change) phase := by
  intro start ticked index slot after found
  rw [List.getElem?_modify] at found
  obtain ⟨old, known, changed⟩ := Option.map_eq_some_iff.mp found
  have before := lively start ticked index old after known
  split at changed
  · exact changed ▸ (kept old).trans before
  · exact changed ▸ before

end Lively

namespace Loop

variable {index position : Nat} {event : LoopEvent} {loop : Loop} {slot : ConnSlot}
  {writer : Writer} {op : OutOp}

theorem conclude_getElem? (loop : Loop) (live : Bool) (apart : position ≠ index) :
    (loop.conclude position live).conns[index]? = loop.conns[index]? := by
  unfold conclude
  split
  · rfl
  · simp [modifyConn, apart]

theorem step_lively {next : Loop} (lively : Lively loop.conns loop.phase)
    (performed : loop.step event = some next) : Lively next.conns next.phase := by
  cases step_inv performed with
  | begin entered inTick => exact lively
  | advance advanced => exact lively
  | pollReturned phase =>
      refine lively.move ?_
      dsimp only
      split <;> simp [phase, Phase.ticked]
  | accept phase =>
      rw [(loop.accept_eq _ _).2]
      unfold accept
      split
      · intro start ticked index slot after found
        rcases List.mem_append.mp (List.mem_of_getElem? found) with old | new
        · obtain ⟨position, known⟩ := List.mem_iff_getElem?.mp old
          have none : start = 0 := by simpa [phase, Phase.ticked] using ticked.symm
          exact lively start ticked position slot (none ▸ Nat.zero_le _) known
        · exact List.mem_singleton.mp new ▸ rfl
      · exact lively
  | acceptDone phase =>
      refine lively.move ?_
      dsimp only
      split <;> simp [phase, Phase.ticked]
  | wakeupRead phase => exact lively
  | skip phase => exact lively.move (by simp [phase, Phase.ticked])
  | conn phase present allowed stepped => exact lively.modify _ fun _ => rfl
  | dispatch phase present => exact lively.modify _ fun _ => rfl
  | @tickEnd live position count phase quiet =>
      intro start ticked index slot after found
      have start' : start = position + 1 := by simpa [Phase.ticked] using ticked.symm
      rw [loop.conclude_getElem? live (by omega)] at found
      exact lively position (by simp [phase, Phase.ticked]) index slot (by omega) found
  | applyOp phase => exact fun start ticked => by simp [Phase.ticked] at ticked
  | flushEnd phase => exact fun start ticked => by simp [Phase.ticked] at ticked
  | retain phase =>
      intro start ticked index slot after found
      simpa using (List.mem_filter.mp (List.mem_of_getElem? found)).2
  | _ phase => exact lively.move (by simp [phase, Phase.ticked])

/-! ### The run that the call lives in -/

/-- The connection that is ticked or flushed. -/
def active (loop : Loop) : Option ConnSlot :=
  match loop.phase with
  | .inTick position _ => loop.conns[position]?
  | .inFlush position => loop.conns[position]?
  | _ => none

/-- A writer and its connection, if that is the active one. -/
def serving (loop : Loop) (index : Nat) : Option (Writer × ConnSlot) := do
  let writer ← loop.mailbox.writers[index]?
  let slot ← loop.active
  if slot.serial = writer.origin then return (writer, slot) else none

/-- The client stays connected, it leaves the call's stream open until the trailer, and
the call's deadline does not pass. -/
def calm (index : Nat) (loop : Loop) (event : LoopEvent) : Bool :=
  match loop.serving index with
  | none => true
  | some (writer, slot) =>
      match event with
      | .tickEnd live => live
      | .flushEnd live => live
      | .conn (.streamClose id _) =>
          decide (id ≠ writer.callId) || decide (0 < trailers (slot.conn.logOf id))
      | .conn (.expireDeadlines now) => decide (writer.callId ∉ slot.conn.expiring now)
      | _ => true

/-- No op of the writer runs out of memory or exceeds the length field, and its finish is
pushed only while no other call on it is past the closed check. -/
def orderly (index : Nat) (loop : Loop) (event : LoopEvent) : Bool :=
  match event, loop.phase with
  | .applyOp reserve, .apply (op :: _) =>
      decide (op.writer ≠ index) ||
        reserve && match op.kind with
          | .write payload => decide (payload.length ≤ Framing.u32Max)
          | _ => true
  | .advance position, _ =>
      match loop.mailbox.calls[position]? with
      | none => true
      | some call =>
          !Mailbox.winning index call ||
            loop.mailbox.calls.all fun other => !Mailbox.exposed index other
  | _, _ => true

/-- An op that reached its stream, or that a bounded queue refused. -/
def Served (origin : Nat) (outcome : Outcome) : Prop :=
  ∃ policy result, outcome = .applied origin policy result ∧
    (result = .ok () ∨ result = .error .queueFull ∧ policy ≠ some .unbounded)

/-- What holds of a writer whose client stays. -/
structure Kept (conns : List ConnSlot) (processed : List Processed) (index : Nat)
    (writer : Writer) : Prop where
  alive : writer.dead = false
  attached : ∃ slot ∈ conns, slot.serial = writer.origin ∧ slot.dead = false
  awaits : (∀ entry ∈ processed, Mailbox.finishes index entry.op = false) →
    ∀ slot ∈ conns, slot.serial = writer.origin → slot.conn.Awaits writer.callId
  served : ∀ entry ∈ processed, entry.op.writer = index → Served writer.origin entry.outcome

structure Serviced (index : Nat) (loop : Loop) : Prop where
  routed : loop.Routed
  housed : Housed loop.conns loop.homes
  lively : Lively loop.conns loop.phase
  accounted : loop.mailbox.Accounted
  finishLast : loop.mailbox.Sealed index
  kept : ∀ writer, loop.mailbox.writers[index]? = some writer →
    Kept loop.conns loop.processed index writer

theorem active_of_phase
    (phase : (∃ count, loop.phase = .inTick position count) ∨ loop.phase = .inFlush position) :
    loop.active = loop.conns[position]? := by
  rcases phase with ⟨count, phase⟩ | phase <;> simp [active, phase]

theorem serving_eq_some (known : loop.mailbox.writers[index]? = some writer)
    (ticked : loop.active = some slot) (own : slot.serial = writer.origin) :
    loop.serving index = some (writer, slot) := by
  simp [serving, known, ticked, own]

theorem orderly_advance (orderly : loop.orderly index (.advance position) = true) :
    loop.mailbox.Orderly index position := by
  intro call present wins other member
  simp only [Loop.orderly, present, wins] at orderly
  simpa using List.all_eq_true.mp orderly other member

namespace Kept

variable {conns : List ConnSlot} {processed : List Processed} {index : Nat} {writer : Writer}

variable (kept : Kept conns processed index writer)
include kept

/-- Another connection is accepted. -/
theorem accept (other : slot.serial ≠ writer.origin) :
    Kept (conns ++ [slot]) processed index writer := by
  obtain ⟨home, member, own, live⟩ := kept.attached
  refine { kept with
    attached := ⟨home, List.mem_append_left _ member, own, live⟩
    awaits := fun unfinished found listed same => ?_ }
  rcases List.mem_append.mp listed with old | new
  · exact kept.awaits unfinished found old same
  · exact absurd (List.mem_singleton.mp new ▸ same) other

/-- The dead connections are dropped. -/
theorem retain :
    Kept (conns.filter fun slot => !slot.dead) processed index writer := by
  obtain ⟨home, member, own, live⟩ := kept.attached
  refine { kept with
    attached := ⟨home, List.mem_filter.mpr ⟨member, by simp [live]⟩, own, live⟩
    awaits := fun unfinished slot listed =>
      kept.awaits unfinished slot (List.mem_filter.mp listed).1 }

/-- A connection moves on, and the call with it if it is on that connection. -/
theorem modify (present : conns[position]? = some slot) {conn : Conn}
    (awaits : (∀ entry ∈ processed, Mailbox.finishes index entry.op = false) →
      slot.serial = writer.origin → slot.conn.Awaits writer.callId → conn.Awaits writer.callId) :
    Kept (conns.modify position fun slot => { slot with conn := conn }) processed index writer := by
  refine { kept with attached := ?_, awaits := fun unfinished other listed own => ?_ }
  · obtain ⟨home, member, own, live⟩ := kept.attached
    obtain ⟨at', found⟩ := List.mem_iff_getElem?.mp member
    have moved := List.getElem?_modify (fun slot : ConnSlot => { slot with conn := conn })
      position conns at'
    rw [found] at moved
    exact ⟨_, List.mem_of_getElem? moved, by split <;> exact own, by split <;> exact live⟩
  · rcases mem_modify_conn present listed with ⟨_, _, old⟩ | rfl
    · exact kept.awaits unfinished other (List.mem_of_getElem? old) own
    · exact awaits unfinished own
        (kept.awaits unfinished slot (List.mem_of_getElem? present) own)

/-- A connection dies that is not the call's. -/
theorem die (other : ∀ slot, conns[position]? = some slot → slot.serial ≠ writer.origin) :
    Kept (conns.modify position fun slot => { slot with dead := true }) processed index writer := by
  refine { kept with attached := ?_, awaits := fun unfinished slot listed own => ?_ }
  · obtain ⟨home, member, own, live⟩ := kept.attached
    obtain ⟨at', found⟩ := List.mem_iff_getElem?.mp member
    have apart : position ≠ at' := by
      rintro rfl
      exact other home found own
    refine ⟨home, List.mem_of_getElem? (i := at') ?_, own, live⟩
    simp [apart, found]
  · obtain ⟨at', found⟩ := List.mem_iff_getElem?.mp listed
    rw [List.getElem?_modify] at found
    obtain ⟨old, known, changed⟩ := Option.map_eq_some_iff.mp found
    have before := kept.awaits unfinished old (List.mem_of_getElem? known)
    split at changed
    · subst changed
      exact before own
    · subst changed
      exact before own

/-- The writer's other flags rise. -/
theorem renew {later : Writer} (dead : later.dead = writer.dead)
    (origin : later.origin = writer.origin) (callId : later.callId = writer.callId) :
    Kept conns processed index later where
  alive := dead.trans kept.alive
  attached := origin ▸ kept.attached
  awaits := by
    rw [origin, callId]
    exact kept.awaits
  served := origin ▸ kept.served

/-- An op is done with; if it is the writer's own it was served. -/
theorem process {outcome : Outcome} (served : op.writer = index → Served writer.origin outcome) :
    Kept conns (processed ++ [⟨op, outcome⟩]) index writer where
  alive := kept.alive
  attached := kept.attached
  awaits := fun unfinished =>
    kept.awaits fun entry member => unfinished entry (List.mem_append_left _ member)
  served := by
    intro entry member own
    rcases Table.mem_concat.mp member with old | rfl
    · exact kept.served entry old own
    · exact served own

end Kept

theorem advance_writer {mailbox next : Mailbox} {later : Writer}
    (advanced : mailbox.advance position = some next) (known : next.writers[index]? = some later) :
    ∃ writer, mailbox.writers[index]? = some writer ∧ later.dead = writer.dead ∧
      later.origin = writer.origin ∧ later.callId = writer.callId := by
  obtain ⟨call, seen, present, _, turn⟩ := Mailbox.advance_turn advanced
  cases turn with
  | wonSwap stage unfinished =>
      simp only [Mailbox.goto, Mailbox.setFinished, Mailbox.modifyWriter, List.getElem?_modify]
        at known
      obtain ⟨writer, found, changed⟩ := Option.map_eq_some_iff.mp known
      refine ⟨writer, found, ?_⟩
      split at changed <;> exact changed ▸ ⟨rfl, rfl, rfl⟩
  | _ => exact ⟨later, known, rfl, rfl, rfl⟩

/-- A callback or a sweep on the active connection leaves the call unanswered. -/
theorem awaits_conn {event : ConnEvent} {conn : Conn} (tame : Tame slot.conn)
    (known : loop.mailbox.writers[index]? = some writer) (ticked : loop.active = some slot)
    (calm : loop.calm index (.conn event) = true) (allowed : ticks event = true)
    (performed : slot.conn.step event = some conn) (own : slot.serial = writer.origin)
    (awaits : slot.conn.Awaits writer.callId) : conn.Awaits writer.callId := by
  have serving := serving_eq_some known ticked own
  refine awaits_tick tame.reachable.wellFormed awaits allowed performed ?_ ?_
  · rintro errorCode rfl
    obtain ⟨stream, found, unfinished⟩ := awaits
    have none := tame.reachable.trailers_eq_zero found unfinished
    simp [Loop.calm, serving, none] at calm
  · rintro now rfl
    simpa [Loop.calm, serving] using calm

/-- A pass makes a writer, or one of its handlers runs beside the call. -/
theorem kept_dispatch {count : Nat} (serviced : Serviced index loop)
    (phase : loop.phase = .inTick position count) (present : loop.conns[position]? = some slot)
    (submitRc : Nat → Int)
    (known : (loop.dispatch position slot submitRc).mailbox.writers[index]? = some writer) :
    Kept (loop.dispatch position slot submitRc).conns loop.processed index writer := by
  have member := List.mem_of_getElem? present
  have tame := serviced.housed.tame slot member
  rcases Nat.lt_or_ge index loop.mailbox.writers.length with old | new
  · have before : loop.mailbox.writers[index]? = some writer := by
      rwa [Loop.dispatch, List.getElem?_append_left old] at known
    refine (serviced.kept writer before).modify present fun _ own awaits => ?_
    have listed : writer.home ∈ loop.homes :=
      List.mem_map_of_mem (List.mem_of_getElem? before)
    exact awaits_dispatch tame.reachable awaits
      (serviced.housed.taken slot member writer.home listed own.symm) submitRc
  · rw [Loop.dispatch, List.getElem?_append_right new] at known
    obtain ⟨id, invoked, rfl⟩ := List.mem_map.mp (List.mem_of_getElem? known)
    have unused : ∀ entry ∈ loop.processed, entry.op.writer ≠ index := by
      rintro entry listed rfl
      obtain ⟨_, found, _⟩ := serviced.routed.reported entry listed
      have inside := (List.getElem?_eq_some_iff.mp found).1
      omega
    have moved : (loop.dispatch position slot submitRc).conns[position]? =
        some { slot with conn := (slot.conn.dispatch (trampolines submitRc)).2 } := by
      simp [Loop.dispatch, modifyConn, present]
    have live := serviced.lively position (by simp [phase, Phase.ticked]) position slot
      (Nat.le_refl _) present
    refine ⟨rfl, ⟨_, List.mem_of_getElem? moved, rfl, live⟩, fun _ other listed own => ?_,
      fun entry listed own => absurd own (unused entry listed)⟩
    rcases mem_modify_conn present listed with ⟨at', apart, found⟩ | rfl
    · exact absurd own (serial_ne serviced.routed.serials present apart found)
    · exact (awaits_of_invoked tame submitRc invoked).2.2

/-- What an op finds on a stream that is open and not finished. -/
theorem api_of_awaits {conn : Conn} (awaits : conn.Awaits op.callId)
    (fits : ∀ payload, op.kind = .write payload → payload.length ≤ Framing.u32Max) :
    (conn.api (op.apiCall true)).1 = .ok () ∨
      (conn.api (op.apiCall true)).1 = .error .queueFull ∧
        ((conn.findStream op.callId).map fun stream => stream.out.backpressure) ≠
          some .unbounded := by
  obtain ⟨stream, found, unfinished⟩ := awaits
  unfold OutOp.apiCall
  split
  next payload kind =>
    have short := fits payload kind
    simp only [Conn.api, Conn.writeCallOwned, Conn.writeCallWith, found, unfinished]
    by_cases rejects : stream.out.rejects
    · right
      have bounded : stream.out.backpressure ≠ .unbounded := by
        intro unbounded
        simp [OutQueue.rejects, unbounded] at rejects
      simp [OutQueue.enqueueOwned, Nat.not_lt.mpr short, rejects, bounded]
    · left
      simp [OutQueue.enqueueOwned, Nat.not_lt.mpr short, rejects]
  next => exact .inl (by simp [Conn.api, Conn.finishCallMsg, Conn.finishCallInner, found])
  next => exact .inl (by simp [Conn.api, Conn.finishCall, Conn.finishCallInner, found])
  next => exact .inl (by simp [Conn.api, Conn.setStreamPolicy, Conn.configure, found])

/-- The connection that the writer was made on is found. -/
theorem route_of_attached (routed : loop.Routed)
    (known : loop.mailbox.writers[op.writer]? = some writer) (token : op.token = writer.token)
    (attached : ∃ slot ∈ loop.conns, slot.serial = writer.origin ∧ slot.dead = false) :
    ∃ position slot, loop.route op = some position ∧ loop.conns[position]? = some slot ∧
      slot.serial = writer.origin := by
  obtain ⟨home, member, own, live⟩ := attached
  have named : home.token = writer.token :=
    (routed.named.agree writer (List.mem_of_getElem? known) (home.token, home.serial)
      (List.mem_map_of_mem member)).mpr own
  have found : (loop.route op).isSome = true := by
    rw [route, List.findIdx?_isSome, List.any_eq_true]
    exact ⟨home, member, by simp [named, token, live]⟩
  obtain ⟨position, routing⟩ := Option.isSome_iff_exists.mp found
  obtain ⟨inside, _, _⟩ := List.findIdx?_eq_some_iff_getElem.mp routing
  have present := List.getElem?_eq_getElem inside
  exact ⟨position, _, routing, present, routed.route known token routing present⟩

theorem applyOp_of_route (routing : loop.route op = some position)
    (present : loop.conns[position]? = some slot) (reserve : Bool) :
    loop.applyOp op reserve =
      { loop.modifyConn position fun slot' =>
          { slot' with conn := (slot.conn.api (op.apiCall reserve)).2 } with
        mailbox := report loop.mailbox op.writer (slot.conn.api (op.apiCall reserve)).1
        processed := loop.processed ++ [⟨op, .applied slot.serial
          ((slot.conn.findStream op.callId).map fun stream => stream.out.backpressure)
          (slot.conn.api (op.apiCall reserve)).1⟩] } := by
  simp [applyOp, routing, present]

/-- The op of another writer. -/
theorem kept_applyOther (serviced : Serviced index loop) (taken : op ∈ loop.mailbox.pushed)
    (reserve : Bool) (other : op.writer ≠ index)
    (known : loop.mailbox.writers[index]? = some writer) :
    Kept (loop.applyOp op reserve).conns (loop.applyOp op reserve).processed index writer := by
  have kept := serviced.kept writer known
  obtain ⟨sender, sends, token, callId⟩ := serviced.routed.addressed op taken
  unfold applyOp
  split
  · exact kept.process fun own => absurd own other
  next position slot routing =>
    obtain ⟨_, found, paired⟩ := Option.bind_eq_some_iff.mp routing
    obtain ⟨_, present, equal⟩ := Option.map_eq_some_iff.mp paired
    cases equal
    have tame := serviced.housed.tame slot (List.mem_of_getElem? present)
    have origin := serviced.routed.route sends token found present
    refine (kept.process fun same => absurd same other).modify present fun _ own awaits => ?_
    -- each stream has one writer
    have apart : op.callId ≠ writer.callId := by
      intro same
      have first : loop.homes[op.writer]? = some writer.home := by
        have dwelling : sender.home = writer.home :=
          Prod.ext (origin.symm.trans own) (callId.symm.trans same)
        simp [homes, sends, dwelling]
      have second : loop.homes[index]? = some writer.home := by simp [homes, known]
      have inside := (List.getElem?_eq_some_iff.mp first).1
      exact other ((List.getElem?_inj inside serviced.housed.unique).mp
        (first.trans second.symm))
    exact awaits_apply tame.reachable.wellFormed awaits (fun same => absurd same apart) reserve

theorem orderly_applyOp {batch : List OutOp} {reserve : Bool}
    (phase : loop.phase = .apply (op :: batch)) (own : op.writer = index)
    (orderly : loop.orderly index (.applyOp reserve) = true) :
    reserve = true ∧ ∀ payload, op.kind = .write payload → payload.length ≤ Framing.u32Max := by
  simp only [Loop.orderly, phase, own, ne_eq, not_true_eq_false, decide_false, Bool.false_or,
    Bool.and_eq_true] at orderly
  refine ⟨orderly.1, fun payload kind => ?_⟩
  simpa [kind] using orderly.2

theorem applyOp_other (loop : Loop) (other : op.writer ≠ index) (reserve : Bool) :
    (loop.applyOp op reserve).mailbox.writers[index]? = loop.mailbox.writers[index]? := by
  unfold applyOp
  split
  · simp [Mailbox.setDead, Mailbox.modifyWriter, other]
  next position slot routing =>
    obtain ⟨change, changed, _⟩ :=
      report_writers loop.mailbox op.writer (slot.conn.api (op.apiCall reserve)).1
    simp [changed, Mailbox.modifyWriter, other]

/-- Nothing of the writer is behind its finish, so an op that is next finds no finish
applied. -/
theorem unfinished_of_next (serviced : Serviced index loop) {batch : List OutOp}
    (phase : loop.phase = .apply (op :: batch)) (own : op.writer = index) :
    ∀ entry ∈ loop.processed, Mailbox.finishes index entry.op = false := by
  intro entry member
  have order := serviced.routed.order
  rw [phase] at order
  have last := serviced.finishLast.last
  rw [← order, List.append_assoc, List.pairwise_append] at last
  by_contra finishing
  exact last.2.2 entry.op (List.mem_map_of_mem member) op (by simp [Phase.batch])
    (by simpa using finishing) own

theorem Kept.applied {conns : List ConnSlot} {processed : List Processed}
    (kept : Kept conns processed index writer) (present : conns[position]? = some slot)
    (wellFormed : slot.conn.WellFormed) (own : op.writer = index) {outcome : Outcome}
    (served : Served writer.origin outcome) :
    Kept (conns.modify position fun slot' =>
        { slot' with conn := (slot.conn.api (op.apiCall true)).2 })
      (processed ++ [⟨op, outcome⟩]) index writer := by
  refine (kept.process fun _ => served).modify present fun unanswered _ awaits => ?_
  have plain := unanswered ⟨op, outcome⟩ (by simp)
  simp only [Mailbox.finishes, own, decide_true, Bool.true_and] at plain
  exact awaits_apply wellFormed awaits (fun _ => plain) true

/-- The writer's own op. -/
theorem kept_applyOwn (serviced : Serviced index loop) {batch : List OutOp}
    (phase : loop.phase = .apply (op :: batch)) (own : op.writer = index)
    (fits : ∀ payload, op.kind = .write payload → payload.length ≤ Framing.u32Max) {later : Writer}
    (known : (loop.applyOp op true).mailbox.writers[index]? = some later) :
    Kept (loop.applyOp op true).conns (loop.applyOp op true).processed index later := by
  subst own
  have taken := serviced.routed.mem_pushed phase
  obtain ⟨writer, sends, token, callId⟩ := serviced.routed.addressed op taken
  have kept := serviced.kept writer sends
  have unfinished := unfinished_of_next serviced phase rfl
  obtain ⟨position, slot, routing, present, origin⟩ :=
    route_of_attached serviced.routed sends token kept.attached
  have member := List.mem_of_getElem? present
  have tame := serviced.housed.tame slot member
  have awaits : slot.conn.Awaits op.callId := callId ▸ kept.awaits unfinished slot member origin
  have outcome := api_of_awaits awaits fits
  rw [applyOp_of_route routing present] at known ⊢
  have served : Served writer.origin (.applied slot.serial
      ((slot.conn.findStream op.callId).map fun stream => stream.out.backpressure)
      (slot.conn.api (op.apiCall true)).1) := ⟨_, _, by rw [origin], outcome⟩
  have moved := kept.applied present tame.reachable.wellFormed rfl served
  obtain ⟨dead, sameOrigin, sameCall⟩ : later.dead = writer.dead ∧
      later.origin = writer.origin ∧ later.callId = writer.callId := by
    rcases outcome with ok | ⟨full, _⟩
    · rw [ok] at known
      obtain rfl := Option.some.inj (known.symm.trans sends)
      exact ⟨rfl, rfl, rfl⟩
    · rw [full] at known
      have raised : some { writer with overflow := true } = some later := by
        simpa [report, Mailbox.setOverflow, Mailbox.modifyWriter, sends] using known
      obtain rfl := Option.some.inj raised
      exact ⟨rfl, rfl, rfl⟩
  exact moved.renew dead sameOrigin sameCall

/-! ### Every step -/

theorem step_accounted {next : Loop} (accounted : loop.mailbox.Accounted)
    (performed : loop.step event = some next) :
    next.mailbox.Accounted := by
  cases step_inv performed with
  | begin entered inTick => exact accounted.begin entered
  | advance advanced => exact accounted.advance advanced
  | accept phase => exact (loop.accept_eq _ _).1 ▸ accounted
  | tickEnd phase quiet => exact (loop.conclude_mailbox _ _) ▸ accounted
  | flushEnd phase => exact (loop.conclude_mailbox _ _) ▸ accounted
  | applyOp phase =>
      obtain ⟨writers, mailbox, _⟩ := loop.applyOp_writers _ _
      rw [mailbox]
      exact accounted
  | _ => exact accounted

theorem step_sealed {next : Loop} (finishLast : loop.mailbox.Sealed index)
    (orderly : loop.orderly index event = true) (performed : loop.step event = some next) :
    next.mailbox.Sealed index := by
  cases step_inv performed with
  | begin entered inTick => exact finishLast.begin entered
  | advance advanced => exact finishLast.advance (orderly_advance orderly) advanced
  | accept phase => exact (loop.accept_eq _ _).1 ▸ finishLast
  | dispatch phase present => exact finishLast.grow (growAll_append _ _)
  | tickEnd phase quiet => exact (loop.conclude_mailbox _ _) ▸ finishLast
  | flushEnd phase => exact (loop.conclude_mailbox _ _) ▸ finishLast
  | applyOp phase =>
      obtain ⟨writers, mailbox, grow, _⟩ := loop.applyOp_writers _ _
      rw [mailbox]
      exact finishLast.grow grow
  | _ => exact ⟨finishLast.once, finishLast.alone, finishLast.last⟩

theorem kept_conclude {live : Bool} (kept : Kept loop.conns loop.processed index writer)
    (known : loop.mailbox.writers[index]? = some writer)
    (ticked : loop.active = loop.conns[position]?)
    (calm : ∀ slot, loop.serving index = some (writer, slot) → live = true) :
    Kept (loop.conclude position live).conns (loop.conclude position live).processed index
      writer := by
  unfold conclude
  cases live with
  | true => exact kept
  | false =>
      refine kept.die fun slot present own => ?_
      have serving := serving_eq_some known (ticked.trans present) own
      exact absurd (calm slot serving) (by simp)

theorem step_kept {next : Loop} (serviced : Serviced index loop)
    (calm : loop.calm index event = true) (orderly : loop.orderly index event = true)
    (performed : loop.step event = some next) (known : next.mailbox.writers[index]? = some writer) :
    Kept next.conns next.processed index writer := by
  cases step_inv performed with
  | begin entered inTick =>
      exact serviced.kept writer ((Mailbox.begin_ops entered).2.2 ▸ known)
  | advance advanced =>
      obtain ⟨before, found, dead, origin, callId⟩ := advance_writer advanced known
      exact (serviced.kept before found).renew dead origin callId
  | @accept registered fd count woken phase =>
      rw [(loop.accept_eq _ _).1] at known
      have kept := serviced.kept writer known
      have older := (serviced.routed.named.made writer (List.mem_of_getElem? known)).2
      unfold Loop.accept
      split
      · exact kept.accept (fun same : loop.accepted = writer.origin => by omega)
      · exact kept
  | @conn event position slot conn phase present allowed stepped =>
      have tame := serviced.housed.tame slot (List.mem_of_getElem? present)
      have known : loop.mailbox.writers[index]? = some writer := known
      refine (serviced.kept writer known).modify present fun _ own awaits => ?_
      exact awaits_conn tame known ((active_of_phase phase).trans present) calm allowed stepped own
        awaits
  | dispatch phase present => exact kept_dispatch serviced phase present _ known
  | tickEnd phase quiet =>
      rw [loop.conclude_mailbox] at known
      refine kept_conclude (serviced.kept writer known) known
        (active_of_phase (.inl ⟨_, phase⟩)) fun slot serving => ?_
      simpa [Loop.calm, serving] using calm
  | flushEnd phase =>
      rw [loop.conclude_mailbox] at known
      refine kept_conclude (serviced.kept writer known) known
        (active_of_phase (.inr phase)) fun slot serving => ?_
      simpa [Loop.calm, serving] using calm
  | @applyOp reserve op batch phase =>
      by_cases own : op.writer = index
      · obtain ⟨rfl, fits⟩ := orderly_applyOp phase own orderly
        exact kept_applyOwn serviced phase own fits known
      · have taken := serviced.routed.mem_pushed phase
        rw [loop.applyOp_other own reserve] at known
        exact kept_applyOther serviced taken reserve own known
  | retain phase => exact (serviced.kept writer known).retain
  | _ => exact serviced.kept writer known

theorem step_serviced {next : Loop} (serviced : Serviced index loop)
    (calm : loop.calm index event = true) (orderly : loop.orderly index event = true)
    (performed : loop.step event = some next) :
    Serviced index next where
  routed := step_routed serviced.routed performed
  housed := step_housed serviced.routed serviced.housed performed
  lively := step_lively serviced.lively performed
  accounted := step_accounted serviced.accounted performed
  finishLast := step_sealed serviced.finishLast orderly performed
  kept := fun _ known => step_kept serviced calm orderly performed known

theorem new_serviced (methods : List MethodEntry) (maxMessageLen : UInt32) (index : Nat) :
    Serviced index (new methods maxMessageLen) where
  routed := .new methods maxMessageLen
  housed := ⟨by simp [new], by simp [new], by simp [homes, new, Mailbox.new]⟩
  lively := fun _ _ position slot _ found => by simp [new] at found
  accounted := fun _ _ => rfl
  finishLast := ⟨by simp [new, Mailbox.new], by simp [new, Mailbox.new], by simp [new, Mailbox.new]⟩
  kept := fun writer known => by simp [new, Mailbox.new] at known

/-- A trailer tells that the finish was applied. -/
theorem Serviced.finished_of_trailed (serviced : Serviced index loop)
    (known : loop.mailbox.writers[index]? = some writer) (member : slot ∈ loop.conns)
    (own : slot.serial = writer.origin) (trailed : 0 < trailers (slot.conn.logOf writer.callId)) :
    ∃ entry ∈ loop.processed, Mailbox.finishes index entry.op = true := by
  by_contra unfinished
  have none : ∀ entry ∈ loop.processed, Mailbox.finishes index entry.op = false :=
    fun entry listed => by simpa using fun finishing => unfinished ⟨entry, listed, finishing⟩
  obtain ⟨stream, found, waits⟩ := (serviced.kept writer known).awaits none slot member own
  have silent := (serviced.housed.tame slot member).reachable.trailers_eq_zero found waits
  omega

/-- Nothing of the writer waits behind a finish that was applied. -/
theorem Serviced.none_behind (serviced : Serviced index loop) {entry : Processed}
    (done : entry ∈ loop.processed) (finishing : Mailbox.finishes index entry.op = true) :
    ∀ op ∈ loop.phase.batch ++ loop.mailbox.ops, op.writer ≠ index := by
  intro op after
  have last := serviced.finishLast.last
  rw [← serviced.routed.order, List.append_assoc] at last
  exact (List.pairwise_append.mp last).2.2 entry.op (List.mem_map_of_mem done) op after finishing

/-- A trailer tells that the finish was applied, and nothing of the writer is behind it. -/
theorem Serviced.processed_of_trailed (serviced : Serviced index loop)
    (known : loop.mailbox.writers[index]? = some writer) (member : slot ∈ loop.conns)
    (own : slot.serial = writer.origin) (trailed : 0 < trailers (slot.conn.logOf writer.callId))
    (listed : op ∈ loop.mailbox.pushed) (onWriter : op.writer = index) :
    ∃ entry ∈ loop.processed, entry.op = op := by
  obtain ⟨entry, done, finishing⟩ := serviced.finished_of_trailed known member own trailed
  rw [← serviced.routed.order, List.append_assoc] at listed
  rcases List.mem_append.mp listed with before | after
  · exact List.mem_map.mp before
  · exact absurd onWriter (serviced.none_behind done finishing op after)

/-- A write that a stream accepts is then the last message of its queue. -/
theorem queued_of_api {conn : Conn} {payload : Bytes} {reserve : Bool}
    (kind : op.kind = .write payload) (accepted : (conn.api (op.apiCall reserve)).1 = .ok ()) :
    ∃ stream, (conn.api (op.apiCall reserve)).2.findStream op.callId = some stream ∧
      stream.out.messages.getLast?.map OutMsg.body = some payload := by
  have asked : op.apiCall reserve = .writeCallOwned op.callId payload reserve := by
    simp [OutOp.apiCall, kind]
  rw [(conn.api_touches _).findStream, if_pos (callId_apiCall op reserve)]
  rw [asked] at accepted ⊢
  simp only [Conn.api, Conn.writeCallOwned, Conn.writeCallWith] at accepted
  cases found : conn.findStream op.callId with
  | none => simp [found] at accepted
  | some stream =>
      refine ⟨_, rfl, ?_⟩
      have queued := stream.out.enqueueOwned_spec payload reserve
      cases finished : stream.out.finished with
      | true => simp [found, finished] at accepted
      | false =>
          have taken : (stream.out.enqueueOwned payload reserve).1 = .ok () := by
            cases result : (stream.out.enqueueOwned payload reserve).1 with
            | error => simp [found, finished, result] at accepted
            | ok => rfl
          simp only [ApiCall.change, StreamCtx.write, finished]
          rw [taken] at queued
          generalize (stream.out.enqueueOwned payload reserve).2 = after at queued ⊢
          cases queued with
          | accepted message carried => simp [carried]

/-- On the stream's own queue: a write of the writer that was applied is in it. -/
theorem Serviced.queued (serviced : Serviced index loop)
    (known : loop.mailbox.writers[index]? = some writer) {batch : List OutOp}
    (phase : loop.phase = .apply (op :: batch)) (own : op.writer = index) {payload : Bytes}
    (kind : op.kind = .write payload) {policy : Option Backpressure} {reserve : Bool}
    (applied : (loop.applyOp op reserve).processed =
      loop.processed ++ [⟨op, .applied writer.origin policy (.ok ())⟩]) :
    ∃ slot ∈ (loop.applyOp op reserve).conns, slot.serial = writer.origin ∧
      ∃ stream, slot.conn.findStream writer.callId = some stream ∧
        stream.out.messages.getLast?.map OutMsg.body = some payload := by
  subst own
  obtain ⟨sender, sends, token, callId⟩ :=
    serviced.routed.addressed op (serviced.routed.mem_pushed phase)
  obtain rfl := Option.some.inj (sends.symm.trans known)
  obtain ⟨position, slot, routing, present, origin⟩ :=
    route_of_attached serviced.routed sends token (serviced.kept sender sends).attached
  rw [applyOp_of_route routing present] at applied ⊢
  have same := List.append_cancel_left applied
  have accepted : (slot.conn.api (op.apiCall reserve)).1 = .ok () := by
    injection List.head_eq_of_cons_eq same with _ outcome
    injection outcome
  obtain ⟨stream, found, last⟩ := queued_of_api kind accepted
  have moved : (loop.modifyConn position fun slot' =>
      { slot' with conn := (slot.conn.api (op.apiCall reserve)).2 }).conns[position]? =
        some { slot with conn := (slot.conn.api (op.apiCall reserve)).2 } := by
    simp [modifyConn, present]
  exact ⟨_, List.mem_of_getElem? moved, origin, stream, callId ▸ found, last⟩

/-- In every run in which the client stays with the call, and in which no finish of the
writer is pushed while another of its calls is past the closed check and no op of
the writer is too long or runs out of memory: the writer is never reported dead.
Every call that returned `Ok` has its op, and the ops that were applied reached
the stream unless a bounded queue refused them: a write that reached it is the last
message of its queue.  Once the trailer is submitted all ops of the writer have been
applied. -/
theorem writes_precede_orderly_finish {methods : List MethodEntry} {maxMessageLen : UInt32}
    {events : List LoopEvent} {loop : Loop} (index : Nat) (along : Along step
      (fun loop event => loop.calm index event = true ∧ loop.orderly index event = true)
      (new methods maxMessageLen) events)
    (reached : run step (new methods maxMessageLen) events = some loop) :
    (∀ kind, loop.mailbox.okCalls index kind ≤ loop.mailbox.pushedOps index kind) ∧
      ∀ writer, loop.mailbox.writers[index]? = some writer →
        writer.dead = false ∧
        (∀ entry ∈ loop.processed, entry.op.writer = index → ∃ policy result,
          entry.outcome = .applied writer.origin policy result ∧
            (result = .ok () ∨ result = .error .queueFull ∧ policy ≠ some .unbounded)) ∧
        (∀ op batch payload policy reserve, loop.phase = .apply (op :: batch) →
          op.writer = index → op.kind = .write payload →
          (loop.applyOp op reserve).processed =
            loop.processed ++ [⟨op, .applied writer.origin policy (.ok ())⟩] →
          ∃ slot ∈ (loop.applyOp op reserve).conns, slot.serial = writer.origin ∧
            ∃ stream, slot.conn.findStream writer.callId = some stream ∧
              stream.out.messages.getLast?.map OutMsg.body = some payload) ∧
        ∀ slot ∈ loop.conns, slot.serial = writer.origin →
          0 < trailers (slot.conn.logOf writer.callId) →
            ∀ op ∈ loop.mailbox.pushed, op.writer = index →
              ∃ entry ∈ loop.processed, entry.op = op := by
  have serviced : Serviced index loop := along.run_invariant
    (fun loop event next serviced meets performed =>
      step_serviced serviced meets.1 meets.2 performed)
    (new_serviced methods maxMessageLen index) reached
  refine ⟨fun kind => ?_, fun writer known => ⟨(serviced.kept writer known).alive,
    (serviced.kept writer known).served,
    fun op batch payload policy reserve phase own kind applied => ?_,
    fun slot member own trailed op listed onWriter => ?_⟩⟩
  · have accounted := serviced.accounted index kind
    omega
  · exact serviced.queued known phase own kind applied
  · exact serviced.processed_of_trailed known member own trailed listed onWriter

/-- A write and then a finish, applied and flushed up to the trailer. -/
def writeThenFinish : List LoopEvent := openCall ++
  [.begin 0 (.write [5]) false, .advance 0, .advance 0, .advance 0, .advance 0,
    .begin 0 (.finish .ok none) false, .advance 0, .advance 0, .advance 0,
    .pollReturned false, .readWakeup, .readWakeup, .skip, .take, .applyOp true, .applyOp true,
    .applyDone, .flushStart, .conn (.read 1 100 0), .conn (.read 1 100 0), .flushEnd true, .retain]

theorem written_before_trailer :
    ∃ loop, run step oneMethod writeThenFinish = some loop ∧
      (loop.conns.map fun slot => trailers (slot.conn.logOf 1)) = [1] ∧
      loop.mailbox.okCalls 0 (.write [5]) = 1 ∧
      ∀ writer, loop.mailbox.writers[0]? = some writer → writer.dead = false ∧
        ∀ slot ∈ loop.conns, slot.serial = writer.origin →
          0 < trailers (slot.conn.logOf writer.callId) →
            ∀ op ∈ loop.mailbox.pushed, op.writer = 0 →
              ∃ entry ∈ loop.processed, entry.op = op := by
  have reached : run step oneMethod writeThenFinish = some _ := rfl
  have along : Along step
      (fun loop event => loop.calm 0 event = true ∧ loop.orderly 0 event = true) oneMethod
      writeThenFinish := by decide
  have delivered := (writes_precede_orderly_finish 0 along reached).2
  exact ⟨_, reached, by decide, by decide, fun writer known =>
    ⟨(delivered writer known).1, (delivered writer known).2.2.2⟩⟩

/-- A write passes its check, a finish on another clone swaps and pushes, and then the
write pushes and returns `Ok`. -/
def finishOvertakes : List LoopEvent := openCall ++
  [.begin 0 (.write [5]) false, .advance 0, .advance 0,
    .begin 0 (.finish .ok none) false, .advance 1, .advance 1, .advance 1, .advance 1, .advance 0,
    .pollReturned false, .readWakeup, .readWakeup, .skip, .take, .applyOp true, .applyOp true]

/-- The client is there all the time, and still the writer is reported dead and the write
that returned `Ok` is lost. -/
theorem overtaken_write_is_lost :
    ∃ loop, Along step (fun loop event => loop.calm 0 event = true) oneMethod
        finishOvertakes ∧
      run step oneMethod finishOvertakes = some loop ∧
      loop.mailbox.writers.map Writer.dead = [true] ∧
      loop.mailbox.okCalls 0 (.write [5]) = 1 ∧
      loop.processed.map (fun entry => (entry.op.kind, entry.outcome)) =
        [(.finish .ok none, .applied 0 (some .unbounded) (.ok ())),
          (.write [5], .applied 0 (some .unbounded) (.error .streamFinished))] := by
  have reached : run step oneMethod finishOvertakes = some _ := rfl
  exact ⟨_, by decide, reached, rfl, by decide, rfl⟩

end Loop

end GrpcUds.Serve
