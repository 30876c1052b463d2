import GrpcUds.Ffi.Health
import GrpcUds.Serve.Streams
import GrpcUds.Server.HookFirings

/-!
# Calls with an armed hook

A `Watch` call is armed: its handler has run, nothing has finished it and its hook
is in the slot.  An event of a tick leaves it armed or runs the hook, unless it
closes the stream with error code 0.
-/

namespace GrpcUds.Server

namespace Phase

/-- The stream may still be in the table. -/
def isOpen : Phase → Bool
  | live _ _ => true
  | owing _ closing => !closing
  | gone => false

/-- An event that takes the stream out of the table. -/
def takesAway : HookEvent → Bool
  | .closed _ _ => true
  | .dropped _ => true
  | _ => false

theorem isOpen_next {phase after : Phase} {event : HookEvent}
    (stepped : phase.next event = some after) (opened : phase.isOpen = true)
    (stays : takesAway event = false) : after.isOpen = true := by
  unfold next at stepped
  split at stepped <;> grind [isOpen, takesAway]

theorem isOpen_run {events : List HookEvent} {phase final : Phase}
    (followed : Transition.run next phase events = some final) (opened : phase.isOpen = true)
    (stay : ∀ event ∈ events, takesAway event = false) : final.isOpen = true := by
  induction events generalizing phase with
  | nil =>
      obtain rfl := Option.some.inj followed
      exact opened
  | cons event rest ih =>
      obtain ⟨after, stepped, continued⟩ := Option.bind_eq_some_iff.mp followed
      apply ih continued
      · exact isOpen_next stepped opened (stay event List.mem_cons_self)
      · intro later listed
        exact stay later (List.mem_cons_of_mem _ listed)

end Phase

namespace Conn

variable {conn : Conn} {id : StreamId}

theorem findStream_setCancelHook {stream : StreamCtx} {hook : CancelHook}
    (found : conn.findStream id = some stream) :
    (conn.api (.setCancelHook id hook)).2.findStream id =
      some { stream with cancelHook := some hook } := by
  simp only [api, setCancelHook, configure, found]
  rw [findStream_modify_self conn id (by intro; rfl), found]
  rfl

/-- A stream leaves the table only when it is closed. -/
theorem isSome_tick (wellFormed : conn.WellFormed) {event : ConnEvent} (legal : conn.Legal event)
    (allowed : Serve.ticks event = true) (stays : ∀ errorCode, event ≠ .streamClose id errorCode)
    (present : (conn.findStream id).isSome) : ((conn.perform event).findStream id).isSome := by
  have performed : conn.step event = some (conn.perform event) :=
    step_eq_some_iff.mpr ⟨legal, rfl⟩
  obtain ⟨stream, found⟩ := Option.isSome_iff_exists.mp present
  have opened := (wellFormed.logOf_grows performed id).subset (wellFormed.opened_of_found found)
  have lawful := perform_lawful wellFormed legal id
  rw [Lawful, phase_of_found found] at lawful
  have remains : (((conn.perform event).lane id).phase id).isOpen = true := by
    refine Phase.isOpen_run lawful rfl fun marked listed => ?_
    rcases List.mem_append.mp listed with mark | fired
    · cases event with
      | expireDeadlines now =>
          simp only [hookMarks] at mark
          split at mark
          · obtain rfl := List.mem_singleton.mp mark
            rfl
          · simp at mark
      | _ =>
          rw [Serve.hookMarks_tick allowed stays (by simp)] at mark
          simp at mark
    · obtain ⟨hook, _, rfl⟩ := List.mem_map.mp fired
      rfl
  cases after : (conn.perform event).findStream id with
  | some later => rfl
  | none =>
      have gone : ((conn.perform event).lane id).phase id = .gone := by
        simp only [Lane.phase, lane, after]
        exact if_pos opened
      simp [gone, Phase.isOpen] at remains

theorem isSome_of_keeps {next : Conn} (keeps : conn.Keeps next)
    (present : (conn.findStream id).isSome) : (next.findStream id).isSome := by
  have listed := Table.isSome_lookup.mp present
  exact Table.isSome_lookup.mpr (keeps.ids ▸ listed)

end Conn

end GrpcUds.Server

namespace GrpcUds.Ffi

open Server

/-- The call is dispatched and unfinished, and its hook is in the slot. -/
structure Armed (conn : Conn) (id : StreamId) (hook : CancelHook) : Prop where
  phase : (conn.lane id).phase id = .live (some hook) false
  dispatched : 0 < dispatches (conn.logOf id)

namespace Armed

variable {conn : Conn} {id : StreamId} {hook : CancelHook}

variable (armed : Armed conn id hook)
include armed

theorem found :
    ∃ stream, conn.findStream id = some stream ∧ stream.cancelHook = some hook ∧
      stream.out.finished = false := by
  have phase := armed.phase
  cases found : conn.findStream id with
  | none =>
      simp only [Lane.phase, Conn.lane, found] at phase
      split at phase <;> simp at phase
  | some stream =>
      rw [Conn.phase_of_found found] at phase
      obtain ⟨held, unfinished⟩ := Phase.live.inj phase
      exact ⟨stream, rfl, held, unfinished⟩

theorem isSome : (conn.findStream id).isSome := by
  obtain ⟨stream, found, _⟩ := armed.found
  simp [found]

theorem awaits : conn.Awaits id := by
  obtain ⟨stream, found, _, unfinished⟩ := armed.found
  exact ⟨stream, found, unfinished⟩

/-- The log only grows, so a call that was dispatched stays so. -/
theorem step (wellFormed : conn.WellFormed) {event : ConnEvent} (legal : conn.Legal event)
    (same : ((conn.perform event).lane id).phase id = (conn.lane id).phase id) :
    Armed (conn.perform event) id hook := by
  have performed : conn.step event = some (conn.perform event) :=
    Conn.step_eq_some_iff.mpr ⟨legal, rfl⟩
  exact ⟨same.trans armed.phase,
    armed.dispatched.trans_le (dispatches_mono (wellFormed.logOf_grows performed id))⟩

theorem mem_firedHooks {next : Conn} {other : CancelHook} (fired : other ∈ conn.firedSince id next)
    :
    other ∈ firedHooks conn next :=
  List.mem_flatMap.mpr ⟨id, Table.isSome_lookup.mp armed.isSome, fired⟩

/-- What asks for the hook gets it to run. -/
theorem fires (wellFormed : conn.WellFormed) {event : ConnEvent} (legal : conn.Legal event)
    {mark : HookEvent} {closing : Bool} (marks : conn.hookMarks id event = [mark])
    (asks : (Phase.live (some hook) false).next mark = some (.owing hook closing)) :
    hook ∈ firedHooks conn (conn.perform event) := by
  have lawful := Conn.perform_lawful wellFormed legal id
  rw [Conn.Lawful, Conn.hookEvents, marks, armed.phase] at lawful
  simp only [List.singleton_append, Transition.run_cons, asks, Option.bind_some] at lawful
  obtain ⟨later, runs, _⟩ := Phase.run_owing lawful (Lane.phase_settled _ id)
  apply armed.mem_firedHooks
  have listed : HookEvent.fired hook ∈
      (conn.firedSince id (conn.perform event)).map HookEvent.fired := by simp [runs]
  obtain ⟨other, member, same⟩ := List.mem_map.mp listed
  exact HookEvent.fired.inj same ▸ member

theorem tick (wellFormed : conn.WellFormed) {event : ConnEvent} (legal : conn.Legal event)
    (allowed : Serve.ticks event = true) (unclean : event ≠ .streamClose id 0) :
    Armed (conn.perform event) id hook ∨ hook ∈ firedHooks conn (conn.perform event) := by
  by_cases closes : ∃ errorCode, event = .streamClose id errorCode
  · obtain ⟨errorCode, rfl⟩ := closes
    obtain ⟨stream, found, _, unfinished⟩ := armed.found
    have failed : errorCode ≠ 0 := by
      rintro rfl
      exact unclean rfl
    right
    have marks : conn.hookMarks id (.streamClose id errorCode) = [.closed errorCode false] := by
      simp [Conn.hookMarks, found, unfinished]
    apply armed.fires wellFormed legal marks
    exact if_pos failed
  have stays : ∀ errorCode, event ≠ .streamClose id errorCode := fun errorCode same =>
    closes ⟨errorCode, same⟩
  by_cases expires : ∃ now, event = .expireDeadlines now ∧ id ∈ conn.expiring now
  · obtain ⟨now, rfl, listed⟩ := expires
    right
    have marks : conn.hookMarks id (.expireDeadlines now) = [.expired] := if_pos listed
    apply armed.fires wellFormed legal marks
    rfl
  · left
    apply armed.step wellFormed legal
    apply Conn.phase_of_unmarked wellFormed legal
    exact Serve.hookMarks_tick allowed stays fun now same listed => expires ⟨now, same, listed⟩

/-- A later pass does not take the call up again. -/
theorem dispatch (reachable : conn.Reachable) (submitRc : Nat → Int) :
    Armed (conn.dispatch (Serve.trampolines submitRc)).2 id hook := by
  have wellFormed := reachable.wellFormed
  have legal : conn.Legal (.dispatch (Serve.trampolines submitRc)) := trivial
  refine armed.step wellFormed legal
    (Conn.phase_dispatch wellFormed (Serve.trampolines_defer submitRc) ?_)
  rintro stream membership rfl complete
  have dispatched := armed.dispatched
  exact absurd dispatched (by simp [Serve.undispatched_of_complete reachable membership complete])

/-- Calls that say nothing about the hook leave the call armed. -/
theorem api (wellFormed : conn.WellFormed) {call : ApiCall} (unsaid : call.hookEvents id = []) :
    Armed (conn.api call).2 id hook := by
  have legal : conn.Legal (.api call) := trivial
  apply armed.step wellFormed legal
  apply Conn.phase_of_unmarked wellFormed legal
  simp [Conn.hookMarks, Conn.callEvents, unsaid]

omit armed

/-- The handler arms the call it runs for. -/
theorem of_setCancelHook (wellFormed : conn.WellFormed) (awaits : conn.Awaits id)
    (dispatched : 0 < dispatches (conn.logOf id)) (hook : CancelHook) :
    Armed (conn.api (.setCancelHook id hook)).2 id hook := by
  obtain ⟨stream, found, unfinished⟩ := awaits
  have legal : conn.Legal (.api (.setCancelHook id hook)) := trivial
  have performed : conn.step (.api (.setCancelHook id hook)) =
      some (conn.api (.setCancelHook id hook)).2 := rfl
  refine ⟨?_, dispatched.trans_le (dispatches_mono (wellFormed.logOf_grows performed id))⟩
  rw [Conn.phase_of_found (Conn.findStream_setCancelHook found), unfinished]

end Armed

end GrpcUds.Ffi
