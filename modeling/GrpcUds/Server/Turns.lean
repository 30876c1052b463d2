import GrpcUds.Server.Invocation

/-!
# The turns of a dispatch pass

`Conn.step` takes a dispatch pass as one event, with the calls of its handlers
given in advance.  Here control passes to a handler and comes back in events of
their own, so that all that the application does on the I/O thread while the
handler is on the stack comes in between.  Every event of `Conn.step` is a run
of these.
-/

namespace GrpcUds.Server

open Relation

/-- All events but the calls of the application and dispatch. -/
def ConnEvent.isPlain : ConnEvent → Bool
  | api _ => false
  | dispatch _ => false
  | _ => true

inductive TurnEvent where
  | plain (event : ConnEvent)
  | call (call : ApiCall)
  | refuse (position : Nat) (submitRc : Int)
  | enter (position : Nat)
  | leave (rc submitRc : Int)

/-- A connection, and the table position whose handler is on the stack. -/
structure Turning where
  conn : Conn
  frame : Option Nat

namespace Turning

def start (conn : Conn) : Turning := ⟨conn, none⟩

/-- The stream at a position, if dispatch would take it up. -/
def complete? (conn : Conn) (position : Nat) : Option StreamCtx :=
  (conn.streams[position]?).filter fun stream => stream.state = .complete

def step (turning : Turning) (event : TurnEvent) : Option Turning :=
  match event, turning.frame with
  | .plain event, none => if event.isPlain then (turning.conn.step event).map start else none
  | .call call, frame => some ⟨(turning.conn.api call).2, frame⟩
  | .refuse position submitRc, none => do
      let stream ← complete? turning.conn position
      match turning.conn.verdict stream with
      | .refuse status => return start (turning.conn.refuse position stream.id status submitRc)
      | .call _ _ => none
  | .enter position, none => do
      let stream ← complete? turning.conn position
      match turning.conn.verdict stream with
      | .refuse _ => none
      | .call entry payload =>
          return ⟨turning.conn.handling position stream.id entry payload [], some position⟩
  | .leave rc submitRc, some position => do
      let stream ← turning.conn.streams[position]?
      return start (turning.conn.settle position stream.id rc submitRc)
  | _, _ => none

/-- What one turn does. -/
inductive Turns (turning : Turning) : TurnEvent → Turning → Prop where
  | plain {event : ConnEvent} {next : Conn} (idle : turning.frame = none)
      (isPlain : event.isPlain = true) (performed : turning.conn.step event = some next) :
      Turns turning (.plain event) (start next)
  | call (call : ApiCall) :
      Turns turning (.call call) ⟨(turning.conn.api call).2, turning.frame⟩
  | refuse {position : Nat} {submitRc : Int} {stream : StreamCtx} {status : GrpcStatus}
      (idle : turning.frame = none) (found : turning.conn.streams[position]? = some stream)
      (complete : stream.state = .complete)
      (judged : turning.conn.verdict stream = .refuse status) :
      Turns turning (.refuse position submitRc)
        (start (turning.conn.refuse position stream.id status submitRc))
  | enter {position : Nat} {stream : StreamCtx} {entry : MethodEntry} {payload : Bytes}
      (idle : turning.frame = none) (found : turning.conn.streams[position]? = some stream)
      (complete : stream.state = .complete)
      (judged : turning.conn.verdict stream = .call entry payload) :
      Turns turning (.enter position)
        ⟨turning.conn.handling position stream.id entry payload [], some position⟩
  | leave {position : Nat} {rc submitRc : Int} {stream : StreamCtx}
      (busy : turning.frame = some position)
      (found : turning.conn.streams[position]? = some stream) :
      Turns turning (.leave rc submitRc)
        (start (turning.conn.settle position stream.id rc submitRc))

theorem complete?_eq_some {conn : Conn} {position : Nat} {stream : StreamCtx} :
    complete? conn position = some stream ↔
      conn.streams[position]? = some stream ∧ stream.state = .complete := by
  simp [complete?, Option.filter_eq_some_iff]

theorem step_inv {turning next : Turning} {event : TurnEvent}
    (performed : turning.step event = some next) : turning.Turns event next := by
  cases event with
  | plain event =>
      cases frame : turning.frame <;> simp only [step, frame, reduceCtorEq] at performed
      split at performed
      next isPlain =>
        obtain ⟨conn, stepped, rfl⟩ := Option.map_eq_some_iff.mp performed
        exact .plain frame isPlain stepped
      next => simp at performed
  | call call =>
      obtain rfl := Option.some.inj performed
      exact .call call
  | refuse position submitRc =>
      cases frame : turning.frame <;> simp only [step, frame, reduceCtorEq] at performed
      obtain ⟨stream, taken, performed⟩ := Option.bind_eq_some_iff.mp performed
      obtain ⟨found, complete⟩ := complete?_eq_some.mp taken
      split at performed
      next judged =>
        obtain rfl := Option.some.inj performed
        exact .refuse frame found complete judged
      next => simp at performed
  | enter position =>
      cases frame : turning.frame <;> simp only [step, frame, reduceCtorEq] at performed
      obtain ⟨stream, taken, performed⟩ := Option.bind_eq_some_iff.mp performed
      obtain ⟨found, complete⟩ := complete?_eq_some.mp taken
      split at performed
      next => simp at performed
      next judged =>
        obtain rfl := Option.some.inj performed
        exact .enter frame found complete judged
  | leave rc submitRc =>
      cases frame : turning.frame <;> simp only [step, frame, reduceCtorEq] at performed
      obtain ⟨stream, found, performed⟩ := Option.bind_eq_some_iff.mp performed
      obtain rfl := Option.some.inj performed
      exact .leave frame found

/-! ### Every event is a run of turns -/

theorem run_calls (turning : Turning) (calls : List ApiCall) :
    Transition.run step turning (calls.map .call) =
      some ⟨calls.foldl (fun conn call => (conn.api call).2) turning.conn, turning.frame⟩ := by
  induction calls generalizing turning with
  | nil => rfl
  | cons call rest ih => exact ih ⟨(turning.conn.api call).2, _⟩

theorem run_serve {conn : Conn} {position : Nat} {stream : StreamCtx} {entry : MethodEntry}
    {payload : Bytes} (found : conn.streams[position]? = some stream)
    (complete : stream.state = .complete) (judged : conn.verdict stream = .call entry payload)
    (run : HandlerRun) (submitRc : Int) :
    Transition.run step (start conn)
        (.enter position :: run.calls.map .call ++ [.leave run.rc submitRc]) =
      some (start (conn.serve position stream.id entry payload run submitRc)) := by
  let entered := conn.handling position stream.id entry payload []
  have taken : complete? conn position = some stream := complete?_eq_some.mpr ⟨found, complete⟩
  have enters : (start conn).step (.enter position) = some ⟨entered, some position⟩ := by
    simp [step, start, taken, judged, entered]
  have placed : ∃ inside, entered.streams[position]? = some inside ∧ inside.id = stream.id := by
    refine ⟨applyBackpressure entry.backpressure stream, ?_, ?_⟩
    · simp [entered, Conn.handling, Conn.enter, Conn.emit, Conn.modifyAt, found]
    · unfold applyBackpressure
      split <;> rfl
  obtain ⟨inside, before, sameId⟩ := placed
  obtain ⟨later, after, named⟩ := (entered.calls_act run.calls).toKeeps.position before
  rw [List.cons_append, Transition.run_cons, enters, Option.bind_some, Transition.run_append,
    run_calls, Option.bind_some, Transition.run_cons]
  simp only [step, after, Option.bind_eq_bind, Option.bind_some, named, sameId]
  rfl

theorem run_pass (env : DispatchEnv) (positions : List Nat) (progress : Nat × Conn) :
    ∃ turns, Transition.run step (start progress.2) turns =
      some (start (positions.foldl (Conn.dispatchAt env) progress).2) := by
  induction positions generalizing progress with
  | nil => exact ⟨[], rfl⟩
  | cons position rest ih =>
      obtain ⟨first, ran⟩ : ∃ turns, Transition.run step (start progress.2) turns =
          some (start (Conn.dispatchAt env progress position).2) := by
        unfold Conn.dispatchAt
        split
        next => exact ⟨[], rfl⟩
        next stream found =>
          split
          next => exact ⟨[], rfl⟩
          next isComplete =>
            have complete : stream.state = .complete := not_not.mp isComplete
            have taken : complete? progress.2 position = some stream :=
              complete?_eq_some.mpr ⟨found, complete⟩
            rw [Conn.dispatchStream_eq_verdict]
            cases judged : progress.2.verdict stream with
            | refuse status =>
                refine ⟨[.refuse position (env.submitRc position)], ?_⟩
                simp [Transition.run, step, start, taken, judged]
            | call entry payload =>
                exact ⟨_, run_serve found complete judged (env.handler position)
                  (env.submitRc position)⟩
      obtain ⟨others, finished⟩ := ih (Conn.dispatchAt env progress position)
      refine ⟨first ++ others, ?_⟩
      rw [Transition.run_append, ran, Option.bind_some, List.foldl_cons]
      exact finished

/-- Nothing that the connection can do is missing from the turns. -/
theorem exists_turns {conn next : Conn} {event : ConnEvent}
    (performed : conn.step event = some next) :
    ∃ turns, Transition.run step (start conn) turns = some (start next) := by
  have plainly : event.isPlain = true →
      Transition.run step (start conn) [.plain event] = some (start next) := by
    intro isPlain
    simp [Transition.run, step, start, isPlain, performed]
  cases event with
  | api call =>
      obtain ⟨_, rfl⟩ := Conn.step_eq_some_iff.mp performed
      exact ⟨[.call call], rfl⟩
  | dispatch env =>
      obtain ⟨_, rfl⟩ := Conn.step_eq_some_iff.mp performed
      exact run_pass env _ (0, conn)
  | _ => exact ⟨_, plainly rfl⟩

/-! ### Between and inside handlers -/

/-- What holds after every turn. -/
structure Sound (turning : Turning) : Prop where
  distinct : turning.conn.Distinct
  opened : ∀ stream ∈ turning.conn.streams, .opened stream.id ∈ turning.conn.logOf stream.id
  idle : turning.frame = none → turning.conn.running = none
  busy : ∀ position, turning.frame = some position → ∃ stream,
    turning.conn.streams[position]? = some stream ∧ turning.conn.running = some stream.id
  lanes : ∀ id, ReflTransGen (LaneStep id) .empty (turning.conn.lane id)

namespace Sound

variable {turning next : Turning}

theorem wellFormed (sound : turning.Sound) (idle : turning.frame = none) :
    turning.conn.WellFormed :=
  ⟨sound.distinct, sound.idle idle, sound.opened⟩

theorem lane_invariant (sound : turning.Sound) {id : StreamId} {Invariant : Lane → Prop}
    (empty : Invariant .empty)
    (preserved : ∀ lane next, Invariant lane → LaneStep id lane next → Invariant next) :
    Invariant (turning.conn.lane id) :=
  LaneStep.invariant (sound.lanes id) empty preserved

theorem lifecycle (sound : turning.Sound) (id : StreamId) :
    (turning.conn.lane id).Lifecycle id :=
  sound.lane_invariant (Lane.empty_lifecycle id) fun _ _ alive step => alive.step step

theorem newServer (methods : List MethodEntry) (maxMessageLen : UInt32) (fd : Int) :
    (start (.newServer methods maxMessageLen fd)).Sound where
  distinct := List.nodup_nil
  opened := fun _ member => absurd member List.not_mem_nil
  idle := fun _ => rfl
  busy := nofun
  lanes := fun _ => .refl

/-- The table stays, and the lanes move by steps of the call API. -/
theorem keep (sound : turning.Sound) (keeps : turning.conn.Keeps next.conn)
    (lanes : ∀ id, ReflTransGen (CallStep id) (turning.conn.lane id) (next.conn.lane id))
    (idle : next.frame = none → next.conn.running = none)
    (busy : ∀ position, next.frame = some position → ∃ stream,
      next.conn.streams[position]? = some stream ∧ next.conn.running = some stream.id) :
    next.Sound where
  distinct := keeps.distinct sound.distinct
  opened := by
    intro stream member
    have listed : stream.id ∈ turning.conn.streams.map StreamCtx.id :=
      keeps.ids ▸ List.mem_map_of_mem member
    obtain ⟨earlier, present, named⟩ := List.mem_map.mp listed
    have opened := sound.opened earlier present
    rw [named] at opened
    exact (steps_log_grow CallStep.log_grows (lanes stream.id)).subset opened
  idle := idle
  busy := busy
  lanes := fun id =>
    (sound.lanes id).trans (ReflTransGen.mono (fun _ _ => LaneStep.call) _ _ (lanes id))

theorem step (sound : turning.Sound) {event : TurnEvent}
    (performed : turning.step event = some next) : next.Sound := by
  cases step_inv performed with
  | plain idle isPlain stepped =>
      have moves := Conn.step_moves (sound.wellFormed idle) stepped
      exact ⟨moves.wellFormed.distinct, moves.wellFormed.opened, fun _ => moves.wellFormed.idle,
        nofun, fun id => (sound.lanes id).trans (moves.lanes id)⟩
  | call call =>
      have acts := turning.conn.api_acts call
      refine sound.keep acts.toKeeps acts.lanes
        (fun idle => acts.running.trans (sound.idle idle)) ?_
      intro position busy
      obtain ⟨stream, found, running⟩ := sound.busy position busy
      obtain ⟨later, present, named⟩ := acts.toKeeps.position found
      exact ⟨later, present, acts.running.trans (running.trans (congrArg some named.symm))⟩
  | @refuse _ submitRc _ status idle found complete judged =>
      have acts := Conn.refuse_acts sound.distinct (sound.idle idle) found complete status submitRc
      exact sound.keep acts.toKeeps acts.lanes (fun _ => acts.running.trans (sound.idle idle)) nofun
  | enter idle found complete judged =>
      obtain ⟨keeps, running, lanes⟩ :=
        Conn.handling_lanes sound.distinct (sound.idle idle) found complete _ _ []
      refine sound.keep keeps lanes nofun fun position busy => ?_
      obtain rfl := Option.some.inj busy
      obtain ⟨later, present, named⟩ := keeps.position found
      exact ⟨later, present, running.trans (congrArg some named.symm)⟩
  | @leave position rc submitRc stream busy found =>
      obtain ⟨other, present, running⟩ := sound.busy position busy
      obtain rfl := Option.some.inj (found.symm.trans present)
      obtain ⟨keeps, idle⟩ := Conn.settle_keeps sound.distinct found rc submitRc
      exact sound.keep keeps (Conn.settle_lanes sound.distinct found running rc submitRc)
        (fun _ => idle) nofun

end Sound

end Turning

end GrpcUds.Server
