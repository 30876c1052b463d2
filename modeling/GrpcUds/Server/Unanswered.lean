import GrpcUds.Server.Answer
import GrpcUds.Server.HookLaw
import GrpcUds.Server.Pass

/-!
# Streams that nothing has answered

A stream stays unanswered until a finish call names it, its deadline passes or
dispatch refuses it.  Every other event, and every pass whose handlers make no
calls and succeed, leaves the answer to the application.
-/

namespace GrpcUds.Server

open Relation

/-! ### Dispatched streams -/

theorem dispatches_mono {log later : List Effect} (grows : log <+: later) :
    dispatches log ≤ dispatches later := by
  obtain ⟨added, rfl⟩ := grows
  rw [dispatches_append]
  exact Nat.le_add_right _ _

variable {stream : StreamCtx}

namespace Lane

/-- A stream that is running or past its handler was taken up by dispatch. -/
structure Taken (lane : Lane) : Prop where
  running : lane.running = true → 0 < dispatches lane.log
  present : ∀ stream, lane.ctx = some stream →
    stream.state = .dispatched ∨ stream.state = .cancelled → 0 < dispatches lane.log

theorem empty_taken : empty.Taken := ⟨by simp [empty], by simp [empty]⟩

theorem Taken.put {lane : Lane} (taken : lane.Taken) {changed : StreamCtx}
    (found : lane.ctx = some stream) (state : changed.state = stream.state) (effects : List Effect)
    :
    (lane.put changed effects).Taken where
  running := fun running =>
    (taken.running running).trans_le (dispatches_mono (List.prefix_append _ _))
  present := by
    rintro _ ⟨⟩ late
    exact (taken.present stream found (state ▸ late)).trans_le
      (dispatches_mono (List.prefix_append _ _))

theorem Taken.receive {lane : Lane} (taken : lane.Taken) {changed : StreamCtx}
    (early : changed.state ≠ .dispatched ∧ changed.state ≠ .cancelled) (effects : List Effect) :
    (lane.put changed effects).Taken where
  running := fun running =>
    (taken.running running).trans_le (dispatches_mono (List.prefix_append _ _))
  present := by
    rintro _ ⟨⟩ late
    exact absurd late (by simp [early])

theorem Taken.of_dispatched {lane : Lane} (dispatched : 0 < dispatches lane.log) : lane.Taken :=
  ⟨fun _ => dispatched, fun _ _ _ => dispatched⟩

theorem Taken.step {id : StreamId} {lane next : Lane} (taken : lane.Taken)
    (step : LaneStep id lane next) : next.Taken := by
  cases step with
  | call step =>
      cases step with
      | opened fresh => exact taken.receive (by simp [StreamCtx.new]) _
      | header found path deadline => exact taken.put found (by rfl) _
      | received found chunk => exact taken.put found (by rfl) _
      | ended found once => exact taken.receive (by simp) _
      | bodyIn found once => exact taken.receive (by simp) _
      | closed found idle errorCode fired => exact ⟨by simp [idle], by simp⟩
      | wrote found unfinished enqueued => exact taken.put found (by rfl) _
      | finish found status message => exact taken.put found (by rfl) _
      | configured found hook backpressure => exact taken.put found (by rfl) _
      | disarmed found => exact taken.put found (by rfl) _
      | refused found complete idle status rc =>
          exact .of_dispatched (by simp [dispatches, Effect.startsDispatch])
      | invoked found complete idle handler userData payload =>
          exact .of_dispatched (by simp [dispatches, Effect.startsDispatch])
      | returned found running unstarted rc submitRc =>
          exact .of_dispatched ((taken.running running).trans_le
            (dispatches_mono (List.prefix_append _ _)))
      | returnedStarted found running started rc =>
          exact .of_dispatched ((taken.running running).trans_le
            (dispatches_mono (List.prefix_append _ _)))
  | transport step =>
      cases step with
      | promised found length readable => exact taken.put found (by rfl) _
      | copied found length readable => exact taken.put found (by rfl) _
      | trailed found room readable nothing finished rc => exact taken.put found (by rfl) _
      | paused found room readable nothing unfinished => exact taken.put found (by rfl) _
      | missed absent readable =>
          refine ⟨fun running => ?_, by simp [absent]⟩
          exact (taken.running running).trans_le (dispatches_mono (List.prefix_append _ _))
      | consumed found length => exact taken.put found (by rfl) _

end Lane

theorem Conn.Reachable.taken {conn : Conn} (reachable : conn.Reachable) (id : StreamId) :
    (conn.lane id).Taken :=
  reachable.lane_invariant Lane.empty_taken fun _ _ taken step => taken.step step

/-! ### Trailers -/

theorem finishedEarly_of_unfinished {log : List Effect} (unfinished : firstFinish log = none) :
    finishedEarly log = false := by
  induction log with
  | nil => rfl
  | cons effect rest ih =>
      obtain ⟨asked, later⟩ : effect.asFinish = none ∧ firstFinish rest = none := by
        simpa [firstFinish] using unfinished
      simp [finishedEarly, asked, ih later]

theorem Lane.Answer.firstFinish_eq_none {lane : Lane} {id : StreamId} (answer : lane.Answer id)
    (found : lane.ctx = some stream) (unfinished : stream.out.finished = false) :
    firstFinish lane.log = none := by
  have tracked := (answer.owes stream found).settled.tracked
  rw [unfinished] at tracked
  exact Option.isNone_iff_eq_none.mp (Option.isSome_eq_false_iff.mp tracked.symm)

/-- No trailer has been submitted for a stream that is open and not finished. -/
theorem Conn.trailers_eq_zero {conn : Conn} {id : StreamId} (answer : (conn.lane id).Answer id)
    (found : conn.findStream id = some stream) (unfinished : stream.out.finished = false) :
    trailers (conn.logOf id) = 0 := by
  have none : firstFinish (conn.logOf id) = none := answer.firstFinish_eq_none found unfinished
  rw [trailers, List.countP_eq_zero]
  intro effect membership isTrailer
  have named : effect.id = id := by simpa using (List.mem_filter.mp membership).2
  cases effect with
  | submitTrailer other nva rc =>
      obtain rfl : other = id := named
      obtain ⟨finish, asked, _⟩ :=
        answer.trailed.carried (finishedEarly_of_unfinished none) nva rc membership
      exact absurd (none.symm.trans asked) (by simp)
  | _ => simp [Effect.isTrailer] at isTrailer

theorem Conn.Reachable.trailers_eq_zero {conn : Conn} (reachable : conn.Reachable) {id : StreamId}
    (found : conn.findStream id = some stream) (unfinished : stream.out.finished = false) :
    trailers (conn.logOf id) = 0 :=
  Conn.trailers_eq_zero (reachable.answer id) found unfinished

/-! ### What keeps a stream unanswered -/

/-- Nothing has finished the stream, if it is open at all. -/
def Conn.Unanswered (conn : Conn) (id : StreamId) : Prop :=
  ∀ stream, conn.findStream id = some stream → stream.out.finished = false

/-- The stream is open and nothing has finished it. -/
def Conn.Awaits (conn : Conn) (id : StreamId) : Prop :=
  ∃ stream, conn.findStream id = some stream ∧ stream.out.finished = false

namespace Lane

theorem phase_unfired (id : StreamId) (lane : Lane) (hook : CancelHook) :
    (lane.phase id).next (.fired hook) = none := by
  unfold phase
  split
  · rfl
  · split <;> rfl

end Lane

namespace Conn

variable {conn next : Conn} {id : StreamId}

/-- An event that says nothing about a stream's hook leaves its phase alone. -/
theorem phase_of_unmarked (wellFormed : conn.WellFormed) {event : ConnEvent}
    (legal : conn.Legal event) (unmarked : conn.hookMarks id event = []) :
    ((conn.perform event).lane id).phase id = (conn.lane id).phase id := by
  have lawful := perform_lawful wellFormed legal id
  rw [Lawful, hookEvents, unmarked, List.nil_append] at lawful
  cases fired : conn.firedSince id (conn.perform event) with
  | nil =>
      rw [fired] at lawful
      exact (Option.some.inj lawful).symm
  | cons hook rest => simp [fired, Lane.phase_unfired] at lawful

theorem phase_of_found (found : conn.findStream id = some stream) :
    (conn.lane id).phase id = .live stream.cancelHook stream.out.finished := by
  simp [Lane.phase, lane, found]

theorem Unanswered.of_phase (unanswered : conn.Unanswered id)
    (same : (next.lane id).phase id = (conn.lane id).phase id) : next.Unanswered id := by
  intro later found
  rw [phase_of_found found] at same
  cases present : conn.findStream id with
  | none =>
      have resting : (conn.lane id).phase id = .gone ∨
          (conn.lane id).phase id = .live none false := by
        simp only [Lane.phase, lane, present]
        split
        · exact .inl rfl
        · exact .inr rfl
      rw [← same] at resting
      exact (Phase.live.inj (resting.resolve_left (by simp))).2
  | some stream =>
      rw [phase_of_found present, unanswered stream present] at same
      exact (Phase.live.inj same).2

theorem Awaits.of_phase (awaits : conn.Awaits id) (opened : .opened id ∈ next.logOf id)
    (same : (next.lane id).phase id = (conn.lane id).phase id) : next.Awaits id := by
  obtain ⟨stream, found, unfinished⟩ := awaits
  rw [phase_of_found found, unfinished] at same
  cases present : next.findStream id with
  | none => simp [Lane.phase, lane, present, opened] at same
  | some later =>
      rw [phase_of_found present] at same
      exact ⟨later, present, (Phase.live.inj same).2⟩

end Conn

/-! ### A pass whose handlers make no calls and succeed -/

/-- Handlers that leave the answer to later calls. -/
def DispatchEnv.Defers (env : DispatchEnv) : Prop :=
  ∀ position, (env.handler position).calls = [] ∧ (env.handler position).rc = 0

namespace Conn

variable {conn next : Conn} {id : StreamId} {env : DispatchEnv}

/-- Dispatch would not refuse the stream. -/
def Spared (conn : Conn) (id : StreamId) : Prop :=
  ∀ stream ∈ conn.streams, stream.id = id → stream.state = .complete →
    ∀ status, conn.verdict stream ≠ .refuse status

theorem turnEvents_of_spared (defers : env.Defers) (spared : conn.Spared id) (position : Nat) :
    conn.turnEvents id env position = [] := by
  unfold turnEvents
  cases found : conn.streams[position]? with
  | none => rfl
  | some stream =>
      by_cases complete : stream.state = .complete
      · have refused := spared stream (List.mem_of_getElem? found)
        obtain ⟨calls, rc⟩ := defers position
        cases judged : conn.verdict stream with
        | refuse status =>
            have other : stream.id ≠ id := fun named => refused named complete status judged
            simp [complete, judged, other]
        | call entry payload => simp [complete, judged, calls, rc, callsEvents]
      · simp [complete]

theorem Spared.turn (spared : conn.Spared id) {position : Nat} (acts : conn.Acts CallStep next)
    (turn : conn.Turn position next) : next.Spared id := by
  intro later membership named complete status
  obtain ⟨index, inside, rfl⟩ := List.getElem_of_mem membership
  have sizes := congrArg List.length acts.ids
  simp only [List.length_map] at sizes
  have found : conn.streams[index]? = some conn.streams[index] :=
    List.getElem?_eq_getElem (sizes ▸ inside)
  have present := List.getElem?_eq_getElem inside
  by_cases own : index = position
  · subst own
    obtain ⟨visited, placed, visit⟩ := turn.own _ found
    obtain rfl := Option.some.inj (present.symm.trans placed)
    exact absurd complete visit.state
  · obtain ⟨followed, placed, follows⟩ := turn.others index _ own found
    obtain rfl := Option.some.inj (present.symm.trans placed)
    rw [verdict_of_follows acts.toKeeps follows]
    exact spared _ (List.mem_of_getElem? found) (follows.id.symm.trans named)
      (follows.state.symm.trans complete) status

theorem passEvents_of_spared (defers : env.Defers) (positions : List Nat)
    (progress : Nat × Conn) (distinct : progress.2.Distinct) (idle : progress.2.running = none)
    (spared : progress.2.Spared id) : passEvents id env progress positions = [] := by
  induction positions generalizing progress with
  | nil => rfl
  | cons position rest ih =>
      have acts := dispatchAt_acts env progress position distinct idle
      rw [passEvents, turnEvents_of_spared defers spared, List.nil_append]
      exact ih _ (acts.distinct distinct) (acts.running.trans idle)
        (spared.turn acts (dispatchAt_turn env progress position distinct))

theorem phase_dispatch (wellFormed : conn.WellFormed) (defers : env.Defers)
    (spared : conn.Spared id) :
    ((conn.dispatch env).2.lane id).phase id = (conn.lane id).phase id := by
  have advances := pass_advances env (List.range conn.streams.length) (0, conn)
    wellFormed.distinct wellFormed.idle id
  rw [passEvents_of_spared defers _ (0, conn) wellFormed.distinct wellFormed.idle spared]
    at advances
  exact (Option.some.inj advances.phase).symm

/-! ### Deadlines -/

/-- A sweep keeps the states, and what it has ended was dispatched. -/
structure Sweeping (conn : Conn) (progress : Conn × List StreamId) : Prop where
  streams : progress.1.streams.map (fun stream => (stream.id, stream.state)) =
    conn.streams.map fun stream => (stream.id, stream.state)
  ended : ∀ id ∈ progress.2, (id, .dispatched) ∈
    conn.streams.map fun stream => (stream.id, stream.state)

theorem Sweeping.expireAt {progress : Conn × List StreamId} (sweeping : conn.Sweeping progress)
    (now position : Nat) : conn.Sweeping (expireAt now progress position) := by
  unfold Conn.expireAt
  split
  · exact sweeping
  cases found : progress.1.streams[position]? with
  | none => exact sweeping
  | some stream =>
      by_cases due : stream.due now
      · have state : stream.state = .dispatched := by
          simp only [StreamCtx.due, Bool.and_eq_true, decide_eq_true_eq] at due
          exact due.1.1
        simp only [due, if_true]
        refine ⟨?_, fun id membership => ?_⟩
        · have fired : ∀ (conn : Conn) (hook : Option CancelHook),
              (conn.fireHook stream.id hook).streams = conn.streams := by
            rintro conn (_ | hook) <;> rfl
          have kept : ∀ stream : StreamCtx,
              (stream.disarm.id, stream.disarm.state) = (stream.id, stream.state) := fun _ => rfl
          rw [fired, ← sweeping.streams]
          exact Table.map_modify_of_kept kept progress.1.streams position
        · rcases Table.mem_concat.mp membership with old | rfl
          · exact sweeping.ended id old
          · rw [← sweeping.streams, ← state]
            exact List.mem_map_of_mem (List.mem_of_getElem? found)
      · simpa [due] using sweeping

/-- The calls that a sweep ends were dispatched before. -/
theorem Reachable.dispatched_of_expiring (reachable : conn.Reachable) {now : Nat}
    (expires : id ∈ conn.expiring now) : 0 < dispatches (conn.logOf id) := by
  have sweeps : ∀ (positions : List Nat) (progress : Conn × List StreamId),
      conn.Sweeping progress → conn.Sweeping (positions.foldl (Conn.expireAt now) progress) := by
    intro positions
    induction positions with
    | nil => exact fun _ sweeping => sweeping
    | cons position rest ih =>
        exact fun progress sweeping => ih _ (sweeping.expireAt now position)
  have sweeping := sweeps (List.range conn.streams.length) (conn, []) ⟨rfl, by simp⟩
  obtain ⟨stream, membership, equal⟩ := List.mem_map.mp (sweeping.ended id expires)
  obtain ⟨rfl, state⟩ := Prod.mk.inj equal
  have found : conn.findStream stream.id = some stream :=
    (Table.lookup_eq_some_iff reachable.wellFormed.distinct).mpr ⟨membership, rfl⟩
  exact (reachable.taken stream.id).present stream found (.inl state)

end Conn

end GrpcUds.Server
