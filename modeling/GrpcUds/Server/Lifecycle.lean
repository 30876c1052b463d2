import GrpcUds.Server.Reachable

/-!
# The life of one stream

A stream is opened once, its request ends once, and it is dispatched at most
once.  The stream state, the handler on the stack and the effects so far agree
in every reachable connection.
-/

namespace GrpcUds.Server

open Relation

/-- The dispatch loop took the stream up. -/
def Effect.startsDispatch : Effect → Bool
  | refused _ _ => true
  | invoked _ _ _ _ => true
  | _ => false

/-- Effects that move a stream through its life. -/
def Effect.isMilestone : Effect → Bool
  | opened _ => true
  | endStream _ => true
  | effect => effect.startsDispatch

/-- How often a stream was dispatched. -/
def dispatches (log : List Effect) : Nat := log.countP Effect.startsDispatch

theorem dispatches_append (first second : List Effect) :
    dispatches (first ++ second) = dispatches first + dispatches second :=
  List.countP_append

namespace Lane

/-- What the stream state says about the effects so far. -/
def AtState (lane : Lane) (id : StreamId) : StreamState → Prop
  | .headersIn | .bodyIn => .endStream id ∉ lane.log ∧ lane.running = false
  | .complete => .endStream id ∈ lane.log ∧ (lane.running = false → dispatches lane.log = 0)
  | .dispatched | .cancelled => .endStream id ∈ lane.log ∧ lane.running = false
  | .closed => False

structure Lifecycle (id : StreamId) (lane : Lane) : Prop where
  unopened : .opened id ∉ lane.log → lane.log = []
  unended : .endStream id ∉ lane.log → dispatches lane.log = 0
  once : dispatches lane.log ≤ 1
  absent : lane.ctx = none → lane.running = false
  present : ∀ stream, lane.ctx = some stream →
    stream.id = id ∧ .opened id ∈ lane.log ∧ lane.AtState id stream.state ∧
      (stream.out.responseStarted = true → stream.state = .dispatched)

theorem empty_lifecycle (id : StreamId) : empty.Lifecycle id where
  unopened := fun _ => rfl
  unended := fun _ => rfl
  once := Nat.zero_le 1
  absent := fun _ => rfl
  present := by simp [empty]

section Quiet

variable {effects : List Effect}

theorem mem_append_of_quiet (silent : ∀ effect ∈ effects, effect.isMilestone = false)
    (log : List Effect) {milestone : Effect} (matters : milestone.isMilestone = true) :
    milestone ∈ log ++ effects ↔ milestone ∈ log := by
  refine ⟨fun membership => ?_, List.mem_append_left _⟩
  rcases List.mem_append.mp membership with old | new
  · exact old
  · exact absurd matters (by simp [silent _ new])

theorem dispatches_append_of_quiet (silent : ∀ effect ∈ effects, effect.isMilestone = false)
    (log : List Effect) : dispatches (log ++ effects) = dispatches log := by
  have none : dispatches effects = 0 := by
    rw [dispatches, List.countP_eq_zero]
    intro effect membership starts
    have silence := silent effect membership
    cases effect <;> simp_all [Effect.isMilestone, Effect.startsDispatch]
  rw [dispatches_append, none, Nat.add_zero]

variable {id : StreamId} {lane : Lane} {stream changed : StreamCtx}

/-- A step that leaves the state, the response flag and the milestones alone. -/
theorem Lifecycle.quiet (alive : lane.Lifecycle id) (found : lane.ctx = some stream)
    (sameId : changed.id = stream.id) (sameState : changed.state = stream.state)
    (sameStarted : changed.out.responseStarted = stream.out.responseStarted)
    (silent : ∀ effect ∈ effects, effect.isMilestone = false) :
    (lane.put changed effects).Lifecycle id := by
  obtain ⟨named, opened, atState, started⟩ := alive.present stream found
  have openedIff : .opened id ∈ lane.log ++ effects ↔ .opened id ∈ lane.log :=
    mem_append_of_quiet silent lane.log rfl
  have endedIff : .endStream id ∈ lane.log ++ effects ↔ .endStream id ∈ lane.log :=
    mem_append_of_quiet silent lane.log rfl
  have count := dispatches_append_of_quiet silent lane.log
  constructor
  · intro unopened
    exact absurd (openedIff.mpr opened) unopened
  · intro unended
    rw [put_log, count]
    exact alive.unended fun ended => unended (endedIff.mpr ended)
  · rw [put_log, count]
    exact alive.once
  · simp
  · rintro _ ⟨⟩
    refine ⟨sameId.trans named, openedIff.mpr opened, ?_, by rwa [sameState, sameStarted]⟩
    rw [sameState]
    cases shape : stream.state <;> simp_all [AtState]

end Quiet

theorem resumeEffects_quiet (id : StreamId) (stream : StreamCtx) :
    ∀ effect ∈ resumeEffects id stream, effect.isMilestone = false := by
  intro effect membership
  rw [Conn.mem_resumeEffects membership]
  rfl

theorem hookEffects_quiet (id : StreamId) (hook : Option CancelHook) :
    ∀ effect ∈ hookEffects id hook, effect.isMilestone = false := by
  intro effect membership
  obtain ⟨fired, rfl⟩ := Conn.mem_hookEffects membership
  rfl

@[simp]
theorem finish_responseStarted (queue : OutQueue) (status : GrpcStatus) (message : Option Bytes) :
    (queue.finish status message).responseStarted = queue.responseStarted := by
  unfold OutQueue.finish
  split <;> rfl

theorem enqueued_responseStarted {queue out : OutQueue} {body : Bytes}
    {result : Except ConnError Unit} (enqueued : OutQueue.Enqueued queue body result out) :
    out.responseStarted = queue.responseStarted := by
  cases enqueued <;> rfl

theorem promiseFront_responseStarted (queue : OutQueue) (length : Nat) :
    (queue.promiseFront length).2.responseStarted = queue.responseStarted := by
  simp only [OutQueue.promiseFront]
  split <;> rfl

section Milestones

variable {id : StreamId} {lane : Lane} {stream : StreamCtx}

/-- While a handler runs, its stream is complete and has no response. -/
theorem Lifecycle.of_running (alive : lane.Lifecycle id) (found : lane.ctx = some stream)
    (running : lane.running = true) :
    .endStream id ∈ lane.log ∧ stream.out.responseStarted = false := by
  obtain ⟨_, _, atState, started⟩ := alive.present stream found
  cases shape : stream.state <;> simp_all [AtState]

/-- Before the request has ended the stream is receiving. -/
theorem Lifecycle.of_unended (alive : lane.Lifecycle id) (found : lane.ctx = some stream)
    (once : .endStream id ∉ lane.log) :
    lane.running = false ∧ stream.out.responseStarted = false := by
  obtain ⟨_, _, atState, started⟩ := alive.present stream found
  cases shape : stream.state <;> simp_all [AtState]

/-- A complete stream whose handler is not running waits for its dispatch. -/
theorem Lifecycle.of_complete (alive : lane.Lifecycle id) (found : lane.ctx = some stream)
    (complete : stream.state = .complete) (idle : lane.running = false) :
    .opened id ∈ lane.log ∧ .endStream id ∈ lane.log ∧ dispatches lane.log = 0 ∧
      stream.out.responseStarted = false := by
  obtain ⟨_, opened, atState, started⟩ := alive.present stream found
  simp_all [AtState]

end Milestones

theorem Lifecycle.call {id : StreamId} {lane next : Lane} (alive : lane.Lifecycle id)
    (step : CallStep id lane next) : next.Lifecycle id := by
  cases step with
  | opened fresh =>
      have noLog := alive.unopened fresh
      have missing : lane.ctx = none := by
        cases found : lane.ctx with
        | none => rfl
        | some stream => exact absurd (alive.present stream found).2.1 fresh
      have idle := alive.absent missing
      refine ⟨by simp, by simp [noLog, dispatches, Effect.startsDispatch],
        by simp [noLog, dispatches, Effect.startsDispatch], by simp, ?_⟩
      rintro _ ⟨⟩
      exact ⟨rfl, by simp, ⟨by simp [noLog], idle⟩, by simp [StreamCtx.new, OutQueue.new]⟩
  | header found path deadline => exact alive.quiet found rfl rfl rfl (by simp)
  | received found chunk => exact alive.quiet found rfl rfl rfl (by simp)
  | ended found once =>
      obtain ⟨named, opened, _, _⟩ := alive.present _ found
      obtain ⟨_, unstarted⟩ := alive.of_unended found once
      have none := alive.unended once
      refine ⟨by simp [opened], by simp, ?_, by simp, ?_⟩
      · rw [put_log, dispatches_append, none]
        exact Nat.zero_le 1
      · rintro _ ⟨⟩
        refine ⟨named, by simp [opened], ⟨by simp, fun _ => ?_⟩, by simp [unstarted]⟩
        rw [put_log, dispatches_append, none]
        rfl
  | bodyIn found once =>
      obtain ⟨named, opened, _, _⟩ := alive.present _ found
      obtain ⟨idle, unstarted⟩ := alive.of_unended found once
      refine ⟨by simp [opened], by simpa using alive.unended, by simpa using alive.once, by simp,
        ?_⟩
      rintro _ ⟨⟩
      exact ⟨named, by simp [opened], ⟨by simpa using once, idle⟩, by simp [unstarted]⟩
  | closed found idle errorCode fired =>
      obtain ⟨_, opened, _, _⟩ := alive.present _ found
      have silent : ∀ effect ∈ .closed id errorCode :: hookEffects id fired,
          effect.isMilestone = false := by
        simpa [Effect.isMilestone, Effect.startsDispatch] using hookEffects_quiet id fired
      have count := dispatches_append_of_quiet silent lane.log
      have endedIff : .endStream id ∈ lane.log ++ _ ↔ .endStream id ∈ lane.log :=
        mem_append_of_quiet silent lane.log rfl
      refine ⟨by simp [opened], fun unended => ?_, count ▸ alive.once, fun _ => idle, by simp⟩
      exact count.trans (alive.unended fun ended => unended (endedIff.mpr ended))
  | wrote found unfinished enqueued =>
      refine alive.quiet found rfl rfl (enqueued_responseStarted enqueued) ?_
      split
      · exact resumeEffects_quiet id _
      · simp
  | finish found status message =>
      refine alive.quiet found rfl rfl (finish_responseStarted _ status message) ?_
      simpa [Effect.isMilestone, Effect.startsDispatch] using resumeEffects_quiet id _
  | configured found hook backpressure => exact alive.quiet found rfl rfl rfl (by simp)
  | disarmed found => exact alive.quiet found rfl rfl rfl (hookEffects_quiet id _)
  | refused found complete idle status rc =>
      obtain ⟨named, _, _, _⟩ := alive.present _ found
      obtain ⟨opened, ended, none, _⟩ := alive.of_complete found complete idle
      have count : dispatches (lane.log ++ [.refused id status, .submitResponse id rc]) = 1 := by
        rw [dispatches_append, none]
        rfl
      refine ⟨by simp [opened], by simp [ended], count.le, by simp, ?_⟩
      rintro _ ⟨⟩
      unfold StreamCtx.respond
      split
      · exact ⟨named, by simp [opened], ⟨by simp [ended], idle⟩, fun _ => rfl⟩
      · exact ⟨named, by simp [opened], ⟨by simp [ended], idle⟩, fun _ => rfl⟩
  | invoked found complete idle handler userData payload =>
      obtain ⟨named, _, _, started⟩ := alive.present _ found
      obtain ⟨opened, ended, none, _⟩ := alive.of_complete found complete idle
      have count : dispatches (lane.log ++ [.invoked id handler userData payload]) = 1 := by
        rw [dispatches_append, none]
        rfl
      refine ⟨by simp [opened], by simp [ended], count.le, by simp, ?_⟩
      rintro _ ⟨⟩
      exact ⟨named, by simp [opened], by simp [complete, AtState, ended], started⟩
  | returned found running unstarted rc submitRc =>
      obtain ⟨named, opened, _, _⟩ := alive.present _ found
      obtain ⟨ended, _⟩ := alive.of_running found running
      have count : dispatches (lane.log ++ [.returned id rc, .submitResponse id submitRc]) =
          dispatches lane.log :=
        dispatches_append_of_quiet (by simp [Effect.isMilestone, Effect.startsDispatch]) lane.log
      refine ⟨by simp [opened], by simp [ended], count ▸ alive.once, by simp, ?_⟩
      rintro _ ⟨⟩
      unfold StreamCtx.respond
      split
      · exact ⟨named, by simp [opened], ⟨by simp [ended], rfl⟩, fun _ => rfl⟩
      · refine ⟨named, by simp [opened], ⟨by simp [ended], rfl⟩, fun started => ?_⟩
        rw [Conn.concludeHandler_responseStarted, unstarted] at started
        exact absurd started (by simp)
  | returnedStarted found running started rc =>
      exact absurd started (by simp [(alive.of_running found running).2])

theorem Lifecycle.transport {id : StreamId} {lane next : Lane} (alive : lane.Lifecycle id)
    (step : TransportStep id lane next) : next.Lifecycle id := by
  cases step with
  | promised found length readable =>
      exact alive.quiet found rfl rfl (promiseFront_responseStarted _ length)
        (by simp [Effect.isMilestone, Effect.startsDispatch])
  | copied found length readable =>
      exact alive.quiet found rfl rfl rfl (by simp [Effect.isMilestone, Effect.startsDispatch])
  | trailed found room readable nothing finished rc =>
      exact alive.quiet found rfl rfl rfl (by simp [Effect.isMilestone, Effect.startsDispatch])
  | paused found room readable nothing unfinished =>
      exact alive.quiet found rfl rfl rfl (by simp [Effect.isMilestone, Effect.startsDispatch])
  | missed absent readable =>
      have count : dispatches (lane.log ++ [.readReturned id .temporalFailure]) =
          dispatches lane.log :=
        dispatches_append_of_quiet (by simp [Effect.isMilestone, Effect.startsDispatch]) lane.log
      refine ⟨fun unopened => ?_, fun unended => ?_, count ▸ alive.once,
        fun _ => alive.absent absent, by simp [absent]⟩
      · have noLog := alive.unopened fun opened => unopened (by simp [opened])
        exact absurd readable.1 (by simp [noLog])
      · exact count.trans (alive.unended fun ended => unended (by simp [ended]))
  | consumed found length => exact alive.quiet found rfl rfl rfl (by simp)

/-- Every lane step keeps the order of a stream's life. -/
theorem Lifecycle.step {id : StreamId} {lane next : Lane} (alive : lane.Lifecycle id)
    (step : LaneStep id lane next) : next.Lifecycle id := by
  cases step with
  | call step => exact alive.call step
  | transport step => exact alive.transport step

end Lane

theorem Conn.Reachable.lifecycle {conn : Conn} (reachable : conn.Reachable) (id : StreamId) :
    (conn.lane id).Lifecycle id :=
  reachable.lane_invariant (Lane.empty_lifecycle id) fun _ _ alive step => alive.step step

end GrpcUds.Server
