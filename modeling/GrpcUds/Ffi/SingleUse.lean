import GrpcUds.Ffi.Completion

/-!
# The first completion wins

A responder is documented as single-use.  The core refuses a write to a stream that is
finished or gone, and this is all that refuses a second completion: off the I/O thread
nothing does, and on it a second finish of a finished stream returns success.  In a
run in which every completion after the first is one that the core refuses, exactly
one completion returns success and the call is answered by it alone.
-/

namespace GrpcUds.Ffi

open Transition Framing Server

namespace Desk

/-- No completion has been begun. -/
def isUntouched (desk : Desk) : Bool := desk.returned.isEmpty && desk.pending.isEmpty

/-- The first completion has a response that encodes and fits, and on the I/O thread it
finds the stream open and not finished; every later one is made on the I/O thread and
refused by the core.  The call is answered by nothing else, the memory suffices, and no
queued call of an earlier connection at the address is replayed into the call. -/
def admits (ref : CallRef) (desk : Desk) : DeskEvent → Bool
  | .turn address event =>
      (desk.turningAt address).all fun (connection, turning) =>
        decide (connection.handle ≠ ref.call) || turning.spares ref.callId event
  | .replay copy reserve =>
      desk.host.batch.head?.all fun item =>
        if item.callId ≠ ref.callId then true
        else if item.owner = ref.call.serial then copy && reserve
        else decide (item.call ≠ some ref.call.address)
  | .complete completion copy reserve =>
      (desk.connection? ref).all fun connection =>
        if desk.isUntouched then
          completion.isSound && copy && reserve && !connection.conn.isAnswered ref.callId
        else refuses ref connection.conn completion
  | .begin completion =>
      if desk.isUntouched then completion.isSound else decide (completion.script = [])
  | .proceed _ copy reserve => copy && reserve
  | _ => true

/-- The completions in progress that have calls to make. -/
def active (desk : Desk) : List (Completion × List AbiCall) :=
  desk.pending.filter fun entry => entry.1.script ≠ []

end Desk

/-- How far the winning completion has come: the calls that reached the core, those in the
mailbox, and those to be made. -/
structure Course where
  winner : Option Completion
  done : List AbiCall
  queued : List AbiCall
  left : List AbiCall

namespace Course

def start : Course := ⟨none, [], [], []⟩

def script (course : Course) : List AbiCall := course.winner.elim [] Completion.script

end Course

structure Coherent (ref : CallRef) (desk : Desk) (course : Course) (sent : Bytes) : Prop where
  registered : Registered desk.host
  unmade : ref.call ∉ desk.host.accepted → desk.issued = false ∧ sent = []
  granted : course.winner ≠ none → desk.issued = true
  sound : ∀ completion, course.winner = some completion → completion.isSound = true
  split : course.script = course.done ++ course.queued ++ course.left
  waiting : ref.select desk.host.waiting = course.queued.map (AbiCall.item ref)
  part : sent <+: (course.script.filterMap AbiCall.payload?).flatMap frame
  served : ∀ connection ∈ desk.host.conns, connection.handle = ref.call →
    Given ref ⟨connection.conn, desk.frameAt ref.call.address⟩ desk.issued course.done sent
  untouched : course.winner = none → desk.returned = [] ∧ desk.pending = []
  harmless : ∀ entry ∈ desk.pending, entry.1.script = [] → entry.2 = []
  progress : ∀ completion, course.winner = some completion →
    if course.left = [] then desk.successes = [completion] ∧ desk.active = []
    else desk.successes = [] ∧ desk.active = [(completion, course.left)]

variable {connection : Connection} {completion : Completion}

namespace Coherent

variable {ref : CallRef} {desk : Desk} {course : Course} {sent : Bytes}

theorem new (ref : CallRef) : Coherent ref .new .start [] where
  registered := .new
  unmade := fun _ => ⟨rfl, rfl⟩
  granted := fun won => absurd rfl won
  sound := nofun
  split := rfl
  waiting := rfl
  part := List.prefix_rfl
  served := fun _ member => absurd member List.not_mem_nil
  untouched := fun _ => ⟨rfl, rfl⟩
  harmless := fun _ member => absurd member List.not_mem_nil
  progress := nofun

/-! ### Steps of the process -/

variable {host : Host} {address : Address} {reserve : Bool}

/-- What changes neither the connection of the call nor what is queued for it. -/
theorem hosted (coherent : Coherent ref desk course sent) (registered : Registered host)
    (accepted : desk.host.accepted <+: host.accepted)
    (waiting : ref.select host.waiting = ref.select desk.host.waiting)
    (old : ∀ connection ∈ host.conns, connection.handle = ref.call →
      connection ∈ desk.host.conns) :
    Coherent ref { desk with host := host } course sent where
  registered := registered
  unmade := fun unmade => coherent.unmade fun made => unmade (accepted.subset made)
  granted := coherent.granted
  sound := coherent.sound
  split := coherent.split
  waiting := waiting.trans coherent.waiting
  part := coherent.part
  served := fun connection member own => coherent.served connection (old connection member own) own
  untouched := coherent.untouched
  harmless := coherent.harmless
  progress := coherent.progress

/-- A step that looks at nothing and queues nothing for the call. -/
theorem unheard {event : HostEvent} (performed : desk.host.step event = some host)
    (looks : desk.host.looks event = []) (enqueues : ref.select (desk.host.enqueues event) = []) :
    ref.select host.waiting = ref.select desk.host.waiting := by
  have moved := Host.step_select ref performed
  rw [looks, enqueues, List.append_nil] at moved
  exact moved

variable (coherent : Coherent ref desk course sent)
include coherent

theorem free (performed : desk.host.step (.free address reserve) = some host) :
    Coherent ref { desk with host := host } course sent := by
  refine coherent.hosted (coherent.registered.step performed) (Host.step_accepted performed)
    (unheard performed rfl rfl) ?_
  obtain ⟨_, rfl⟩ := Host.step_eq_some_iff.mp performed
  intro connection member _
  exact (List.mem_filter.mp member).1

theorem drain (performed : desk.host.step .drain = some host) :
    Coherent ref { desk with host := host } course sent := by
  refine coherent.hosted (coherent.registered.step performed) (Host.step_accepted performed)
    (unheard performed rfl rfl) ?_
  obtain ⟨_, rfl⟩ := Host.step_eq_some_iff.mp performed
  exact fun _ member _ => member

/-- Another producer's call. -/
theorem produce {event : HostEvent} {item : Item} (asks : event.item? = some item)
    (other : ref.owns item = false) (performed : desk.host.step event = some host) :
    Coherent ref { desk with host := host } course sent := by
  obtain ⟨conns, looks⟩ := @Host.producer desk.host event item asks
  have others : ref.select (desk.host.enqueues event) = [] := by
    unfold Host.enqueues
    split
    · rw [asks]
      exact CallRef.select_of_other other
    · rfl
  refine coherent.hosted (coherent.registered.step performed) (Host.step_accepted performed)
    (unheard performed looks others) ?_
  obtain ⟨_, rfl⟩ := Host.step_eq_some_iff.mp performed
  rw [conns]
  exact fun _ member _ => member

/-- Without a connection for the call there is nothing to answer. -/
theorem start_of_unmade (unmade : ref.call ∉ desk.host.accepted) : desk.issued = false ∧ sent = [] ∧
      course.done = [] := by
  obtain ⟨unissued, silent⟩ := coherent.unmade unmade
  have none : course.winner = none := by
    by_contra won
    exact absurd ((coherent.granted won).symm.trans unissued) nofun
  have split := coherent.split
  rw [Course.script, none, List.append_assoc] at split
  exact ⟨unissued, silent, (List.append_eq_nil_iff.mp split.symm).1⟩

/-- A new connection may be the one of the call. -/
theorem accept (idle : desk.frame = none) {methods : List MethodEntry} {maxMessageLen : UInt32}
    {fd : Int} (performed : desk.host.step (.accept address
      (.newServer methods maxMessageLen fd)) = some host) :
    Coherent ref { desk with host := host } course sent := by
  have registered := coherent.registered.step performed
  have accepted := Host.step_accepted performed
  have waiting : ref.select host.waiting = ref.select desk.host.waiting :=
    unheard performed rfl rfl
  obtain ⟨_, rfl⟩ := Host.step_eq_some_iff.mp performed
  refine ⟨registered, ?_, coherent.granted, coherent.sound, coherent.split,
    waiting.trans coherent.waiting, coherent.part, ?_, coherent.untouched, coherent.harmless,
    coherent.progress⟩
  · exact fun unmade => coherent.unmade fun made => unmade (accepted.subset made)
  · intro connection member own
    rcases List.mem_append.mp member with old | fresh
    · exact coherent.served connection old own
    · obtain rfl := List.mem_singleton.mp fresh
      have unmade : ref.call ∉ desk.host.accepted := by
        intro made
        have small := coherent.registered.serial_lt made
        rw [← own] at small
        exact absurd small (Nat.lt_irrefl _)
      obtain ⟨unissued, rfl, silent⟩ := coherent.start_of_unmade unmade
      refine ⟨none, ?_, ?_⟩
      · rw [silent]
        rfl
      · rw [silent, unissued]
        have framed : desk.frameAt ref.call.address = none := by simp [Desk.frameAt, idle]
        have fresh := Served.newServer ref.callId methods maxMessageLen fd
        exact (congrArg (fun frame => Served ref.callId
          ⟨.newServer methods maxMessageLen fd, frame⟩ false [] none []) framed).mpr fresh

/-! ### Turns of the I/O thread -/

/-- What has been done is part of what is to be done. -/
theorem done_part {more : Bytes}
    (part : more <+: (course.done.filterMap AbiCall.payload?).flatMap frame) :
    more <+: (course.script.filterMap AbiCall.payload?).flatMap frame := by
  refine part.trans ?_
  rw [coherent.split, List.append_assoc, List.filterMap_append, List.flatMap_append]
  exact List.prefix_append _ _

/-- A connection that is there was accepted. -/
theorem made_of_member (member : connection ∈ desk.host.conns) (own : connection.handle = ref.call)
    :
    
    ref.call ∈ desk.host.accepted :=
  own ▸ (coherent.registered.alive _ (Registered.mem_live member)).1

omit coherent

theorem frameAt_self {desk : Desk} {frame : Option Nat}
    (framed : desk.frame = frame.map fun position => (address, position)) :
    desk.frameAt address = frame := by
  cases frame <;> simp [Desk.frameAt, framed]

theorem frameAt_other {desk : Desk} {other : Address}
    (framed : ∀ frame ∈ desk.frame, frame.1 = address) (apart : other ≠ address) :
    desk.frameAt other = none := by
  cases shape : desk.frame with
  | none => simp [Desk.frameAt, shape]
  | some frame => simp [Desk.frameAt, shape, framed frame shape, Ne.symm apart]

theorem turn (coherent : Coherent ref desk course sent) {event : TurnEvent} {next : Desk}
    (admitted : desk.admits ref (.turn address event) = true)
    (performed : desk.turn ref address event = some next) :
    Coherent ref next course (sent ++ desk.ships ref (.turn address event)) := by
  obtain ⟨⟨connection, turning⟩, taken, performed⟩ := Option.bind_eq_some_iff.mp performed
  obtain ⟨_, framed, member, rfl, rfl⟩ := Desk.turningAt_eq_some coherent.registered taken
  dsimp only at performed
  obtain ⟨_, performed⟩ := Option.ite_none_right_eq_some.mp performed
  obtain ⟨turned, stepped, performed⟩ := Option.bind_eq_some_iff.mp performed
  obtain rfl := Option.some.inj performed
  have registered : Registered
      (desk.host.modify connection.address fun _ => turned.conn) :=
    coherent.registered.frame (desk.host.live_modify _ _) rfl rfl fun _ waits => waits
  by_cases own : connection.handle = ref.call
  · have spared : Turning.spares ref.callId
        ⟨connection.conn, desk.frameAt connection.address⟩ event = true := by
      simpa [Desk.admits, taken, own] using admitted
    have ships : desk.ships ref (.turn connection.address event) = Turning.ships ref.callId
        ⟨connection.conn, desk.frameAt connection.address⟩ event := by
      simp [Desk.ships, taken, own]
    have here : ref.call.address = connection.address := (congrArg Handle.address own).symm
    have given := coherent.served connection member own
    rw [here] at given
    have turns := given.step spared stepped
    rw [ships]
    refine ⟨registered, ?_, ?_, coherent.sound, coherent.split, coherent.waiting,
      coherent.done_part turns.part, ?_, coherent.untouched, coherent.harmless,
      coherent.progress⟩
    · exact fun unmade => absurd (coherent.made_of_member member own) unmade
    · intro won
      simp [coherent.granted won]
    · intro later present same
      obtain ⟨before, listed, handle, conn⟩ := coherent.registered.before_modify present
      obtain rfl := coherent.registered.eq_of_handle member listed
        (own.trans (handle.trans same).symm)
      rw [if_pos rfl] at conn
      rw [conn, here, frameAt_self rfl]
      simp only [own, decide_true, Bool.true_and]
      exact turns
  · have ships : desk.ships ref (.turn connection.address event) = [] := by
      simp [Desk.ships, taken, own]
    have issued : (desk.issued || (decide (connection.handle = ref.call) &&
        Turning.enters ref.callId ⟨connection.conn, desk.frameAt connection.address⟩ event)) =
          desk.issued := by
      rw [decide_eq_false own, Bool.false_and, Bool.or_false]
    rw [ships, List.append_nil, issued]
    refine ⟨registered, coherent.unmade, coherent.granted, coherent.sound, coherent.split,
      coherent.waiting, coherent.part, ?_, coherent.untouched, coherent.harmless,
      coherent.progress⟩
    intro later present same
    obtain ⟨before, listed, handle, conn⟩ := coherent.registered.before_modify present
    have apart : before.address ≠ connection.address := by
      intro equal
      have found := coherent.registered.lookup_of_mem listed
      rw [equal, coherent.registered.lookup_of_mem member] at found
      obtain rfl := Option.some.inj found
      exact own (handle.trans same)
    have elsewhere : ref.call.address ≠ connection.address := by
      rw [← same, ← handle]
      exact apart
    rw [if_neg apart] at conn
    have given := coherent.served before listed (handle.trans same)
    rw [frameAt_other framed elsewhere, ← conn] at given
    have still : Desk.frameAt
        { desk with frame := turned.frame.map fun position => (connection.address, position) }
        ref.call.address = none := by
      apply frameAt_other _ elsewhere
      intro frame inside
      obtain ⟨position, _, rfl⟩ := Option.map_eq_some_iff.mp inside
      rfl
    exact (congrArg (fun frame => Given ref ⟨later.conn, frame⟩ desk.issued course.done sent)
      still).mpr given

/-! ### The drain -/

/-- The connections after a look of the drain. -/
theorem conns_replay {item : Item} {rest : List Item} (taken : host.batch = item :: rest)
    (copy reserve : Bool) :
    (host.replay copy reserve).conns = host.conns ∨
      ∃ address, item.call = some address ∧ (host.replay copy reserve).conns =
        (host.modify address fun conn => (conn.api (item.apiCall copy reserve)).2).conns := by
  simp only [Host.replay, taken]
  split
  next => exact .inl rfl
  next address call =>
    split
    · exact .inl rfl
    · exact .inr ⟨address, call, rfl⟩

/-- A call that is queued for the connection reaches it if it is there. -/
theorem replay_reaches (registered : Registered desk.host) {item : Item} {rest : List Item}
    (taken : desk.host.batch = item :: rest) (own : item.owner = ref.call.serial)
    (member : connection ∈ desk.host.conns) (here : connection.handle = ref.call)
    (copy reserve : Bool) :
    (desk.host.replay copy reserve).conns =
      (desk.host.modify ref.call.address fun conn =>
        (conn.api (item.apiCall copy reserve)).2).conns := by
  have alive : ref.call ∈ desk.host.live := here ▸ Registered.mem_live member
  have there : item.owner ∈ desk.host.serials := own ▸ List.mem_map_of_mem alive
  have pending : item ∈ desk.host.pending := by simp [Host.pending, taken]
  obtain ⟨handle, listed, owner, call⟩ := registered.handle_of_serial pending there
  obtain rfl : handle = ref.call := registered.eq_of_serial (registered.alive _ listed).1
    (registered.alive _ alive).1 (owner.symm.trans own)
  simp only [Host.replay, taken, call, if_neg (registered.alive _ alive).2]
  rfl

theorem answers_item (item : Item) (copy reserve : Bool) :
    (item.apiCall copy reserve).answers? = some item.callId := by
  unfold Item.apiCall
  split <;> rfl

include coherent

/-- The next call of the winner reaches the core. -/
theorem replay_own {item : Item} {rest : List Item} (taken : desk.host.batch = item :: rest)
    (own : ref.owns item = true) (performed : desk.host.step (.replay true true) = some host) :
    ∃ later, Coherent ref { desk with host := host } later sent := by
  have moved := Host.step_select ref performed
  have looks : desk.host.looks (.replay true true) =
      [⟨item, decide (item.owner ∈ desk.host.serials)⟩] := by
    simp [Host.looks, taken]
  have quiet : desk.host.enqueues (.replay true true) = [] := rfl
  rw [looks, quiet, List.map_singleton, CallRef.select_of_owned own, coherent.waiting] at moved
  obtain ⟨winner, done, queued, left⟩ := course
  cases queued with
  | nil => simp [CallRef.select] at moved
  | cons call queued =>
      obtain ⟨same, waiting⟩ : item.detached = call.item ref ∧
          ref.select host.waiting = queued.map (AbiCall.item ref) := by
        simpa [CallRef.select] using moved
      obtain ⟨owner, _⟩ : item.owner = ref.call.serial ∧ item.callId = ref.callId := by
        simpa [CallRef.owns] using own
      have split := coherent.split
      obtain ⟨completion, rfl⟩ : ∃ completion, winner = some completion := by
        cases winner with
        | none => simp [Course.script] at split
        | some completion => exact ⟨completion, rfl⟩
      have issued := coherent.granted (by simp)
      refine ⟨⟨some completion, done ++ [call], queued, left⟩, coherent.registered.step performed,
        ?_, coherent.granted, coherent.sound, ?_, waiting, coherent.part, ?_, by simp,
        coherent.harmless, coherent.progress⟩
      · exact fun unmade => coherent.unmade fun made =>
          unmade ((Host.step_accepted performed).subset made)
      · refine split.trans ?_
        simp
      · intro connection member here
        obtain ⟨_, rfl⟩ := Host.step_eq_some_iff.mp performed
        have alive : ∃ before ∈ desk.host.conns, before.handle = ref.call := by
          rcases conns_replay taken true true with same | ⟨address, _, same⟩
          · exact ⟨connection, same ▸ member, here⟩
          · obtain ⟨before, listed, handle, _⟩ :=
              coherent.registered.before_modify (same ▸ member)
            exact ⟨before, listed, handle.trans here⟩
        obtain ⟨before, listed, target⟩ := alive
        have reaches := replay_reaches coherent.registered taken owner listed target true true
        obtain ⟨other, known, handle, conn⟩ :=
          coherent.registered.before_modify (reaches ▸ member)
        obtain rfl := coherent.registered.eq_of_handle listed known
          (target.trans (handle.trans here).symm)
        have address : before.address = ref.call.address := congrArg Handle.address target
        rw [if_pos address] at conn
        have given := coherent.served before listed target
        rw [issued] at given
        have script : completion.script = done ++ call :: (queued ++ left) := by
          refine split.trans ?_
          simp
        have after := (given.call (coherent.sound completion rfl) script (.queued same)).1
        rw [conn]
        exact (congrArg (Given ref _ · (done ++ [call]) sent) issued).mpr after

/-- A call for something else is replayed. -/
theorem replay_other {item : Item} {rest : List Item} (taken : desk.host.batch = item :: rest)
    (other : ref.owns item = false) {copy : Bool}
    (fresh : item.callId = ref.callId → item.call ≠ some ref.call.address)
    (performed : desk.host.step (.replay copy reserve) = some host) :
    Coherent ref { desk with host := host } course sent := by
  have moved := Host.step_select ref performed
  have looks : desk.host.looks (.replay copy reserve) =
      [⟨item, decide (item.owner ∈ desk.host.serials)⟩] := by
    simp [Host.looks, taken]
  have quiet : desk.host.enqueues (.replay copy reserve) = [] := rfl
  rw [looks, quiet, List.map_singleton, CallRef.select_of_other other] at moved
  have waiting : ref.select host.waiting = ref.select desk.host.waiting := by
    simpa [CallRef.select] using moved
  refine ⟨coherent.registered.step performed, ?_, coherent.granted, coherent.sound, coherent.split,
    waiting.trans coherent.waiting, coherent.part, ?_, coherent.untouched, coherent.harmless,
    coherent.progress⟩
  · exact fun unmade => coherent.unmade fun made =>
      unmade ((Host.step_accepted performed).subset made)
  · intro connection member here
    obtain ⟨_, rfl⟩ := Host.step_eq_some_iff.mp performed
    rcases conns_replay taken copy reserve with same | ⟨address, call, same⟩
    · exact coherent.served connection (same ▸ member) here
    · obtain ⟨before, listed, handle, conn⟩ := coherent.registered.before_modify (same ▸ member)
      have given := coherent.served before listed (handle.trans here)
      rw [conn]
      split
      next at_ =>
        refine given.spared (.inl ?_)
        rw [answers_item]
        intro named
        refine fresh (Option.some.inj named) (call.trans (congrArg some ?_))
        rw [← at_, ← here, ← handle]
        rfl
      next => exact given

theorem replay {copy : Bool} (admitted : desk.admits ref (.replay copy reserve) = true)
    (performed : desk.host.step (.replay copy reserve) = some host) :
    ∃ later, Coherent ref { desk with host := host } later sent := by
  obtain ⟨legal, _⟩ := Host.step_eq_some_iff.mp performed
  obtain ⟨item, rest, taken⟩ := List.exists_cons_of_ne_nil legal
  simp only [Desk.admits, taken, List.head?_cons, Option.all_some] at admitted
  cases own : ref.owns item with
  | true =>
      obtain ⟨owner, named⟩ : item.owner = ref.call.serial ∧ item.callId = ref.callId := by
        simpa [CallRef.owns] using own
      obtain ⟨rfl, rfl⟩ : copy = true ∧ reserve = true := by
        simpa [named, owner] using admitted
      exact coherent.replay_own taken own performed
  | false =>
      refine ⟨course, coherent.replay_other taken own ?_ performed⟩
      intro named
      have stale : item.owner ≠ ref.call.serial := by
        intro owner
        simp [CallRef.owns, owner, named] at own
      simpa [named, stale] using admitted

/-! ### Completions -/

theorem winner_of_untouched (untouched : desk.isUntouched = true) : course.winner = none := by
  obtain ⟨unreturned, unbegun⟩ : desk.returned = [] ∧ desk.pending = [] := by
    simpa [Desk.isUntouched] using untouched
  cases won : course.winner with
  | none => rfl
  | some completion =>
      have progress := coherent.progress completion won
      split at progress
      · simp [Desk.successes, unreturned] at progress
      · simp [Desk.active, unbegun] at progress

/-- Before the first completion nothing has been given to the call. -/
theorem start_of_untouched (untouched : desk.isUntouched = true) : course = .start ∧ sent = [] := by
  have none := coherent.winner_of_untouched untouched
  have split := coherent.split
  have part := coherent.part
  obtain ⟨winner, done, queued, left⟩ := course
  obtain rfl : winner = Option.none := none
  obtain ⟨rfl, rfl, rfl⟩ : done = [] ∧ queued = [] ∧ left = [] := by
    simpa [Course.script] using split
  exact ⟨rfl, List.prefix_nil.mp part⟩

theorem winner_of_touched (touched : desk.isUntouched ≠ true) : course.winner ≠ none := by
  intro none
  obtain ⟨unreturned, unbegun⟩ := coherent.untouched none
  exact touched (by simp [Desk.isUntouched, unreturned, unbegun])

omit coherent

/-- The connection of the call after a change. -/
theorem conn_of_modify (registered : Registered desk.host) {later : Connection}
    (member : connection ∈ desk.host.conns) (own : connection.handle = ref.call) {conn : Conn}
    (present : later ∈ (desk.host.modify ref.call.address fun _ => conn).conns)
    (same : later.handle = ref.call) : later.conn = conn := by
  obtain ⟨before, listed, handle, changed⟩ := registered.before_modify present
  obtain rfl := registered.eq_of_handle member listed (own.trans (handle.trans same).symm)
  have address : connection.address = ref.call.address := congrArg Handle.address own
  rw [if_pos address] at changed
  exact changed

include coherent

/-- The first completion, on the I/O thread. -/
theorem complete_first (untouched : desk.isUntouched = true) (issued : desk.issued = true)
    (member : connection ∈ desk.host.conns) (own : connection.handle = ref.call)
    (open_ : connection.conn.isAnswered ref.callId = false) (sound : completion.isSound = true) :
    let result := completion.onIoThread ref.callId true true connection.conn
    Coherent ref { desk with
      host := desk.host.modify ref.call.address fun _ => result.2
      returned := desk.returned ++ [(completion, result.1)] }
      ⟨some completion, completion.script, [], []⟩ sent := by
  intro result
  obtain ⟨rfl, rfl⟩ := coherent.start_of_untouched untouched
  obtain ⟨unreturned, unbegun⟩ := coherent.untouched rfl
  have encodes := Completion.encodes_of_isSound sound
  have present : (connection.conn.findStream ref.callId).isSome := by
    cases found : connection.conn.findStream ref.callId with
    | none => simp [Conn.isAnswered, found] at open_
    | some stream => rfl
  have given := coherent.served connection member own
  rw [issued] at given
  obtain ⟨ok, after⟩ := given.run sound (List.nil_append _).symm present
  have returned : result.1 = true := by
    simp only [result, Completion.onIoThread, ok, encodes, Bool.and_true]
  refine ⟨coherent.registered.frame (desk.host.live_modify _ _) rfl rfl fun _ waits => waits,
    ?_, fun _ => issued, ?_, ?_, coherent.waiting, List.nil_prefix, ?_, by simp, ?_, ?_⟩
  · exact fun unmade => absurd (coherent.made_of_member member own) unmade
  · rintro _ ⟨⟩
    exact sound
  · simp [Course.script]
  · intro later listed same
    have conn := conn_of_modify coherent.registered member own listed same
    rw [conn]
    exact (congrArg (Given ref _ · _ []) issued).mpr after
  · exact coherent.harmless
  · rintro _ ⟨⟩
    rw [if_pos rfl]
    simp [Desk.successes, Desk.active, unreturned, unbegun, returned]

/-- A later completion, on the I/O thread. -/
theorem complete_later (touched : desk.isUntouched ≠ true) (member : connection ∈ desk.host.conns)
    (own : connection.handle = ref.call)
    (refuses : Desk.refuses ref connection.conn completion = true) (copy reserve : Bool) :
    let result := completion.onIoThread ref.callId copy reserve connection.conn
    Coherent ref { desk with
      host := desk.host.modify ref.call.address fun _ => result.2
      returned := desk.returned ++ [(completion, result.1)] } course sent := by
  intro result
  have won := coherent.winner_of_touched touched
  obtain ⟨failed, after⟩ :=
    (coherent.served connection member own).refused refuses copy reserve
  have returned : result.1 = false := failed
  refine ⟨coherent.registered.frame (desk.host.live_modify _ _) rfl rfl fun _ waits => waits,
    coherent.unmade, coherent.granted, coherent.sound, coherent.split, coherent.waiting,
    coherent.part, ?_, fun none => absurd none won, coherent.harmless, ?_⟩
  · intro later listed same
    have conn := conn_of_modify coherent.registered member own listed same
    rw [conn]
    exact after
  · intro winner wins
    have progress := coherent.progress winner wins
    have same : Desk.successes { desk with
        host := desk.host.modify ref.call.address fun _ => result.2
        returned := desk.returned ++ [(completion, result.1)] } = desk.successes := by
      simp [Desk.successes, returned]
    rw [same]
    exact progress

theorem complete {copy : Bool} {next : Desk}
    (admitted : desk.admits ref (.complete completion copy reserve) = true)
    (performed : desk.complete ref completion copy reserve = some next) :
    ∃ later, Coherent ref next later sent := by
  obtain ⟨connection, found, performed⟩ := Option.bind_eq_some_iff.mp performed
  obtain ⟨member, own⟩ := (Desk.connection?_eq_some coherent.registered).mp found
  simp only [Desk.admits, found, Option.all_some] at admitted
  obtain ⟨ready, performed⟩ := Option.ite_none_right_eq_some.mp performed
  obtain rfl := Option.some.inj performed
  split at admitted
  next untouched =>
    obtain ⟨⟨⟨sound, rfl⟩, rfl⟩, open_⟩ : ((completion.isSound = true ∧ copy = true) ∧
        reserve = true) ∧ connection.conn.isAnswered ref.callId = false := by
      simpa using admitted
    exact ⟨_, coherent.complete_first untouched ready.2 member own open_ sound⟩
  next touched =>
    exact ⟨course, coherent.complete_later touched member own admitted copy reserve⟩

/-- A completion begins on another thread. -/
theorem begin (issued : desk.issued = true) (admitted : desk.admits ref (.begin completion) = true)
    :
    
    ∃ later, Coherent ref
      { desk with pending := desk.pending ++ [(completion, completion.script)] } later sent := by
  simp only [Desk.admits] at admitted
  split at admitted
  next untouched =>
    obtain ⟨rfl, rfl⟩ := coherent.start_of_untouched untouched
    obtain ⟨unreturned, unbegun⟩ := coherent.untouched rfl
    have encodes := Completion.encodes_of_isSound admitted
    have speaks : completion.script ≠ [] := by
      obtain ⟨last, _, _, shape⟩ := Completion.script_shape encodes
      simp [shape]
    refine ⟨⟨some completion, [], [], completion.script⟩, coherent.registered, coherent.unmade,
      fun _ => issued, ?_, rfl, coherent.waiting, List.nil_prefix, coherent.served, nofun, ?_, ?_⟩
    · rintro _ ⟨⟩
      exact admitted
    · intro entry listed silent
      obtain rfl : entry = (completion, completion.script) := by simpa [unbegun] using listed
      exact silent
    · rintro _ ⟨⟩
      rw [if_neg speaks]
      simp [Desk.successes, Desk.active, unreturned, unbegun, speaks]
  next touched =>
    have silent : completion.script = [] := of_decide_eq_true admitted
    refine ⟨course, coherent.registered, coherent.unmade, coherent.granted, coherent.sound,
      coherent.split, coherent.waiting, coherent.part, coherent.served,
      fun none => absurd none (coherent.winner_of_touched touched), ?_, ?_⟩
    · intro entry listed none
      rcases Table.mem_concat.mp listed with old | rfl
      · exact coherent.harmless entry old none
      · exact silent
    · intro winner won
      have same : Desk.active
          { desk with pending := desk.pending ++ [(completion, completion.script)] } =
            desk.active := by
        simp [Desk.active, silent]
      rw [same]
      exact coherent.progress winner won

/-- A completion in progress that has calls to make is the winner. -/
theorem winner_of_pending {index : Nat} {calls : List AbiCall}
    (found : desk.pending[index]? = some (completion, calls)) (speaks : completion.script ≠ []) :
    course.winner = some completion ∧ course.left = calls ∧ calls ≠ [] ∧ desk.successes = [] ∧
      desk.active = [(completion, calls)] := by
  have listed : (completion, calls) ∈ desk.active :=
    List.mem_filter.mpr ⟨List.mem_of_getElem? found, by simpa using speaks⟩
  cases won : course.winner with
  | none =>
      have unbegun := (coherent.untouched won).2
      simp [unbegun] at found
  | some winner =>
      have progress := coherent.progress winner won
      split at progress
      next =>
        rw [progress.2] at listed
        exact absurd listed List.not_mem_nil
      next more =>
        obtain ⟨failures, alone⟩ := progress
        rw [alone] at listed
        obtain ⟨rfl, rfl⟩ := Prod.mk.inj (List.mem_singleton.mp listed)
        exact ⟨rfl, rfl, more, failures, alone⟩

/-- A completion that has nothing to send returns. -/
theorem proceed_silent {index : Nat} (found : desk.pending[index]? = some (completion, [])) :
    Coherent ref { desk with
      pending := desk.pending.eraseIdx index
      returned := desk.returned ++ [(completion, completion.encodes)] } course sent := by
  have silent : completion.script = [] := by
    by_contra speaks
    exact (coherent.winner_of_pending found speaks).2.2.1 rfl
  have unencoded : completion.encodes = false := by
    cases encodes : completion.encodes with
    | false => rfl
    | true =>
        obtain ⟨last, _, _, shape⟩ := Completion.script_shape encodes
        simp [shape] at silent
  refine ⟨coherent.registered, coherent.unmade, coherent.granted, coherent.sound, coherent.split,
    coherent.waiting, coherent.part, coherent.served, ?_, ?_, ?_⟩
  · intro none
    have unbegun := (coherent.untouched none).2
    simp [unbegun] at found
  · exact fun entry listed => coherent.harmless entry (List.mem_of_mem_eraseIdx listed)
  · intro winner won
    have progress := coherent.progress winner won
    have failures : Desk.successes { desk with
        pending := desk.pending.eraseIdx index
        returned := desk.returned ++ [(completion, completion.encodes)] } = desk.successes := by
      simp [Desk.successes, unencoded]
    have others : Desk.active { desk with
        pending := desk.pending.eraseIdx index
        returned := desk.returned ++ [(completion, completion.encodes)] } = desk.active :=
      Table.filter_eraseIdx_of_skipped found (by simp [silent])
    rw [failures, others]
    exact progress

omit coherent

/-- The next call of the winner is queued. -/
theorem enqueue {done queued rest : List AbiCall} {call : AbiCall}
    (coherent : Coherent ref desk ⟨some completion, done, queued, call :: rest⟩ sent)
    (performed : desk.host.step (call.event ref true true) = some host) {next : Desk}
    (same : next.host = host ∧ next.frame = desk.frame ∧ next.issued = desk.issued)
    (harmless : ∀ entry ∈ next.pending, entry.1.script = [] → entry.2 = [])
    (progress : if rest = [] then next.successes = [completion] ∧ next.active = []
      else next.successes = [] ∧ next.active = [(completion, rest)]) :
    Coherent ref next ⟨some completion, done, queued ++ [call], rest⟩ sent := by
  obtain ⟨rfl, framed, issued⟩ := same
  obtain ⟨item, asks, detached⟩ := Option.map_eq_some_iff.mp (call.item_event ref true true)
  obtain ⟨conns, looks⟩ := @Host.producer desk.host _ item asks
  have own : ref.owns item = true := by
    have owned : ref.owns item.detached = true := by
      rw [detached]
      cases call <;> simp [CallRef.owns, AbiCall.item]
    exact owned
  have enqueues : ref.select (desk.host.enqueues (call.event ref true true)) = [call.item ref] := by
    rw [Host.enqueues, if_pos (call.code_event ref desk.host), asks, ← detached]
    exact CallRef.select_of_owned own
  have waiting : ref.select next.host.waiting = (queued ++ [call]).map (AbiCall.item ref) := by
    have moved := Host.step_select ref performed
    rw [looks, enqueues, coherent.waiting] at moved
    rw [List.map_append]
    exact moved
  refine ⟨coherent.registered.step performed, ?_, ?_, coherent.sound, ?_, waiting,
    coherent.part, ?_,
    by simp, harmless, ?_⟩
  · intro unmade
    rw [issued]
    exact coherent.unmade fun made => unmade ((Host.step_accepted performed).subset made)
  · rw [issued]
    exact coherent.granted
  · refine coherent.split.trans ?_
    simp
  · obtain ⟨_, stepped⟩ := Host.step_eq_some_iff.mp performed
    rw [← stepped, conns, issued, Desk.frameAt, framed]
    exact coherent.served
  · rintro _ ⟨⟩
    exact progress

include coherent

theorem proceed {index : Nat} {copy : Bool} {next : Desk}
    (admitted : desk.admits ref (.proceed index copy reserve) = true)
    (performed : desk.proceed ref index copy reserve = some next) :
    ∃ later, Coherent ref next later sent := by
  obtain ⟨rfl, rfl⟩ : copy = true ∧ reserve = true := by simpa [Desk.admits] using admitted
  obtain ⟨⟨completion, calls⟩, found, performed⟩ := Option.bind_eq_some_iff.mp performed
  cases calls with
  | nil =>
      obtain rfl := Option.some.inj performed
      exact ⟨course, coherent.proceed_silent found⟩
  | cons call rest =>
      have speaks : completion.script ≠ [] := fun silent =>
        absurd (coherent.harmless _ (List.mem_of_getElem? found) silent) nofun
      obtain ⟨won, left, _, failures, alone⟩ := coherent.winner_of_pending found speaks
      have encodes := Completion.encodes_of_isSound (coherent.sound completion won)
      obtain ⟨winner, done, queued, left'⟩ := course
      obtain rfl : winner = some completion := won
      obtain rfl : left' = call :: rest := left
      obtain ⟨_, erased, replaced⟩ := Table.filter_of_alone found (by simpa using speaks) alone
      obtain ⟨host, stepped, performed⟩ := Option.bind_eq_some_iff.mp performed
      rw [if_neg (not_not_intro (call.code_event ref desk.host))] at performed
      split at performed
      next last =>
        obtain rfl := Option.some.inj performed
        refine ⟨_, coherent.enqueue stepped ⟨rfl, rfl, rfl⟩ ?_ ?_⟩
        · exact fun entry listed => coherent.harmless entry (List.mem_of_mem_eraseIdx listed)
        · rw [if_pos last]
          refine ⟨?_, erased⟩
          have none : (desk.returned.filter Prod.snd).map Prod.fst = [] := failures
          simp only [Desk.successes, List.filter_append, List.map_append, none, encodes]
          rfl
      next more =>
        obtain rfl := Option.some.inj performed
        refine ⟨_, coherent.enqueue stepped ⟨rfl, rfl, rfl⟩ ?_ ?_⟩
        · intro entry listed silent
          rcases List.mem_or_eq_of_mem_set listed with old | rfl
          · exact coherent.harmless entry old silent
          · exact absurd silent speaks
        · rw [if_neg more]
          exact ⟨failures, replaced _ (by simpa using speaks)⟩

/-- An admitted step. -/
theorem step {event : DeskEvent} {next : Desk} (admitted : desk.admits ref event = true)
    (performed : desk.step ref event = some next) :
    ∃ later, Coherent ref next later (sent ++ desk.ships ref event) := by
  cases event with
  | turn address event => exact ⟨course, coherent.turn admitted performed⟩
  | accept address methods maxMessageLen fd =>
      obtain ⟨idle, performed⟩ := Option.ite_none_right_eq_some.mp performed
      obtain ⟨host, stepped, rfl⟩ := Option.map_eq_some_iff.mp performed
      simp only [Desk.ships, List.append_nil]
      exact ⟨course, coherent.accept idle stepped⟩
  | free address reserve =>
      obtain ⟨_, performed⟩ := Option.ite_none_right_eq_some.mp performed
      obtain ⟨host, stepped, rfl⟩ := Option.map_eq_some_iff.mp performed
      simp only [Desk.ships, List.append_nil]
      exact ⟨course, coherent.free stepped⟩
  | produce event =>
      obtain ⟨other, performed⟩ := Option.ite_none_right_eq_some.mp performed
      obtain ⟨host, stepped, rfl⟩ := Option.map_eq_some_iff.mp performed
      obtain ⟨item, asks, apart⟩ := Option.any_eq_true _ _ |>.mp other
      simp only [Desk.ships, List.append_nil]
      exact ⟨course, coherent.produce asks (by simpa using apart) stepped⟩
  | drain =>
      obtain ⟨_, performed⟩ := Option.ite_none_right_eq_some.mp performed
      obtain ⟨host, stepped, rfl⟩ := Option.map_eq_some_iff.mp performed
      simp only [Desk.ships, List.append_nil]
      exact ⟨course, coherent.drain stepped⟩
  | replay copy reserve =>
      obtain ⟨_, performed⟩ := Option.ite_none_right_eq_some.mp performed
      obtain ⟨host, stepped, rfl⟩ := Option.map_eq_some_iff.mp performed
      simp only [Desk.ships, List.append_nil]
      exact coherent.replay admitted stepped
  | complete completion copy reserve =>
      simp only [Desk.ships, List.append_nil]
      exact coherent.complete admitted performed
  | begin completion =>
      obtain ⟨issued, performed⟩ := Option.ite_none_right_eq_some.mp performed
      obtain rfl := Option.some.inj performed
      simp only [Desk.ships, List.append_nil]
      exact coherent.begin issued admitted
  | proceed index copy reserve =>
      simp only [Desk.ships, List.append_nil]
      exact coherent.proceed admitted performed

end Coherent

/-! ### Single use -/

/-- One completion returns success, and the call is answered by it: at most one message
leaves, and the trailer comes with the message or the status of that completion. -/
structure SingleUse (ref : CallRef) (desk : Desk) (sent : Bytes) : Prop where
  single : desk.successes.length ≤ 1
  returned : desk.returned ≠ [] → desk.pending = [] → desk.successes.length = 1
  message : ∃ message, sent <+: frame message
  bytes : ∀ completion ∈ desk.successes, sent <+: completion.bytes
  trailer : desk.issued = true → ∀ connection ∈ desk.host.conns, connection.handle = ref.call →
    ∀ nva rc, .submitTrailer ref.callId nva rc ∈ connection.conn.logOf ref.callId →
      ∃ completion ∈ desk.successes, nva = completion.trailer ∧ sent = completion.bytes

namespace Coherent

variable {ref : CallRef} {desk : Desk} {course : Course} {sent : Bytes}

variable (coherent : Coherent ref desk course sent)
include coherent

theorem successes_eq :
    desk.successes = if course.left = [] then course.winner.toList else [] := by
  cases won : course.winner with
  | none =>
      obtain ⟨unreturned, _⟩ := coherent.untouched won
      simp [Desk.successes, unreturned]
  | some completion =>
      have progress := coherent.progress completion won
      split at progress
      next last =>
        rw [if_pos last]
        exact progress.1
      next more =>
        rw [if_neg more]
        exact progress.1

theorem encodes (won : course.winner = some completion) :
    completion.encodes = true :=
  Completion.encodes_of_isSound (coherent.sound completion won)

theorem part_bytes (won : course.winner = some completion) : sent <+: completion.bytes := by
  have part := coherent.part
  rw [Course.script, won, Option.elim_some, completion.script_payloads] at part
  exact part

/-- A trailer is that of the winner, whose calls have all been made. -/
theorem trailer_eq (issued : desk.issued = true) (member : connection ∈ desk.host.conns)
    (own : connection.handle = ref.call) {nva : List Headers.Nv} {rc : Int}
    (submitted : .submitTrailer ref.callId nva rc ∈ connection.conn.logOf ref.callId) :
    ∃ completion, course.winner = some completion ∧ course.left = [] ∧
      nva = completion.trailer ∧ sent = completion.bytes := by
  obtain ⟨finish, heard, served⟩ := coherent.served connection member own
  obtain ⟨sends, asked, given, carries⟩ := served.trailer_eq issued submitted
  rw [given, Option.map_some, ← carries] at heard
  have split := coherent.split
  cases won : course.winner with
  | none =>
      rw [Course.script, won] at split
      obtain ⟨none, _⟩ := List.append_eq_nil_iff.mp (List.append_eq_nil_iff.mp split.symm).1
      simp [none] at heard
  | some completion =>
      rw [Course.script, won, Option.elim_some, List.append_assoc] at split
      have ended : course.queued ++ course.left = [] := by
        cases more : course.queued ++ course.left with
        | nil => rfl
        | cons call rest =>
            rw [more] at split
            have early := (Completion.script_split (coherent.encodes won) split).1
            exact absurd (heard.trans early) nofun
      rw [ended, List.append_nil] at split
      refine ⟨completion, rfl, (List.append_eq_nil_iff.mp ended).2, ?_, ?_⟩
      · rw [← split, Completion.script_trailer (coherent.encodes won)] at heard
        exact Option.some.inj heard
      · rw [sends, ← split, completion.script_payloads]
        rfl

theorem singleUse : SingleUse ref desk sent := by
  refine ⟨?_, ?_, ?_, ?_, ?_⟩
  · rw [coherent.successes_eq]
    split
    · cases course.winner <;> simp
    · exact Nat.zero_le 1
  · intro some_ none
    cases won : course.winner with
    | none => exact absurd (coherent.untouched won).1 some_
    | some completion =>
        have progress := coherent.progress completion won
        split at progress
        · rw [progress.1]
          rfl
        · simp [Desk.active, none] at progress
  · cases won : course.winner with
    | none =>
        have part := coherent.part
        rw [Course.script, won] at part
        obtain rfl := List.prefix_nil.mp part
        exact ⟨[], List.nil_prefix⟩
    | some completion =>
        have part := coherent.part_bytes won
        unfold Completion.bytes at part
        cases carries : completion.message with
        | none =>
            rw [carries] at part
            obtain rfl := List.prefix_nil.mp part
            exact ⟨[], List.nil_prefix⟩
        | some message =>
            rw [carries] at part
            refine ⟨message, part.trans ?_⟩
            simp
  · intro completion listed
    rw [coherent.successes_eq] at listed
    split at listed
    · exact coherent.part_bytes (Option.mem_toList.mp listed)
    · exact absurd listed List.not_mem_nil
  · intro issued connection member own nva rc submitted
    obtain ⟨completion, won, ended, carries, sends⟩ :=
      coherent.trailer_eq issued member own submitted
    refine ⟨completion, ?_, carries, sends⟩
    rw [coherent.successes_eq, if_pos ended, won]
    exact List.mem_singleton.mpr rfl

end Coherent

/-- In every interleaving of completions, on the I/O thread and on any others, in which the
core refuses every completion after the first: the responder is single-use. -/
theorem first_completion_wins {ref : CallRef} {events : List DeskEvent} {desk : Desk}
    (along : Along (Desk.step ref) (fun desk event => desk.admits ref event = true)
      .new events) (reached : run (Desk.step ref) .new events = some desk) :
    SingleUse ref desk (observe (Desk.step ref) (Desk.ships ref) .new events) := by
  have preserved : ∀ desk event next sent, (∃ course, Coherent ref desk course sent) →
      desk.admits ref event = true → desk.step ref event = some next →
      ∃ course, Coherent ref next course (sent ++ desk.ships ref event) := by
    rintro desk event next sent ⟨course, coherent⟩ admitted performed
    exact coherent.step admitted performed
  obtain ⟨course, coherent⟩ := along.run_record preserved ⟨.start, .new ref⟩ reached
  exact coherent.singleUse

/-- A connection is accepted, and the handler of its first call returns without an
answer. -/
def deferredCall : List DeskEvent :=
  [.accept 8 [⟨Headers.ascii "/S/M", 7, 0, none⟩] 100 (-1),
    .turn 8 (.plain (.beginHeaders ⟨1, nvHeaders, 0, .request⟩ true)),
    .turn 8 (.plain (.header 1 Headers.nPath (Headers.ascii "/S/M") 0 true)),
    .turn 8 (.plain (.dataChunkRecv 1 (frame [9]) true)),
    .turn 8 (.plain (.frameRecv ⟨1, nvData, flagEndStream, .headers⟩)),
    .turn 8 (.enter 0), .turn 8 (.leave 0 0)]

/-- Another thread responds with 5, and after the drain the I/O thread tries 6. -/
def respondsOnce : List DeskEvent := deferredCall ++
  [.begin (.respond (some [5])), .proceed 0 true true, .proceed 0 true true,
    .drain, .replay true true, .replay true true, .complete (.respond (some [6])) true true,
    .turn 8 (.plain (.read 1 100 0)), .turn 8 (.plain (.read 1 100 0))]

theorem first_completion_wins_after_drain :
    ∃ desk, run (Desk.step ⟨⟨8, 0⟩, 1⟩) .new respondsOnce = some desk ∧
      desk.returned = [(.respond (some [5]), true), (.respond (some [6]), false)] ∧
      observe (Desk.step ⟨⟨8, 0⟩, 1⟩) (Desk.ships ⟨⟨8, 0⟩, 1⟩) .new respondsOnce =
        frame [5] ∧
      SingleUse ⟨⟨8, 0⟩, 1⟩ desk
        (observe (Desk.step ⟨⟨8, 0⟩, 1⟩) (Desk.ships ⟨⟨8, 0⟩, 1⟩) .new respondsOnce) := by
  obtain ⟨desk, reached, returned⟩ : ∃ desk,
      run (Desk.step ⟨⟨8, 0⟩, 1⟩) .new respondsOnce = some desk ∧
        desk.returned = [(.respond (some [5]), true), (.respond (some [6]), false)] :=
    ⟨_, rfl, by decide⟩
  have along : Along (Desk.step ⟨⟨8, 0⟩, 1⟩)
      (fun desk event => desk.admits ⟨⟨8, 0⟩, 1⟩ event = true) .new respondsOnce := by
    decide
  exact ⟨desk, reached, returned, by decide, first_completion_wins along reached⟩

/-- Two other threads respond, and each queues its message before either queues its
finish. -/
def respondsTwice : List DeskEvent := deferredCall ++
  [.begin (.respond (some [5])), .begin (.respond (some [6])), .proceed 0 true true,
    .proceed 1 true true, .proceed 0 true true, .proceed 0 true true,
    .drain, .replay true true, .replay true true, .replay true true, .replay true true,
    .turn 8 (.plain (.read 1 100 0)), .turn 8 (.plain (.read 1 100 0))]

/-- Both completions return success, and both messages leave on the one call. -/
theorem two_completions_succeed :
    ∃ desk, run (Desk.step ⟨⟨8, 0⟩, 1⟩) .new respondsTwice = some desk ∧
      desk.returned = [(.respond (some [5]), true), (.respond (some [6]), true)] ∧
      observe (Desk.step ⟨⟨8, 0⟩, 1⟩) (Desk.ships ⟨⟨8, 0⟩, 1⟩) .new respondsTwice =
        frame [5] ++ frame [6] ∧
      ¬ SingleUse ⟨⟨8, 0⟩, 1⟩ desk
        (observe (Desk.step ⟨⟨8, 0⟩, 1⟩) (Desk.ships ⟨⟨8, 0⟩, 1⟩) .new
          respondsTwice) := by
  obtain ⟨desk, reached, returned⟩ : ∃ desk,
      run (Desk.step ⟨⟨8, 0⟩, 1⟩) .new respondsTwice = some desk ∧
        desk.returned = [(.respond (some [5]), true), (.respond (some [6]), true)] :=
    ⟨_, rfl, by decide⟩
  refine ⟨desk, reached, returned, by decide, fun single => ?_⟩
  have one := single.single
  simp [Desk.successes, returned] at one

end GrpcUds.Ffi
