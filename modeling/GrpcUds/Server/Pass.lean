import GrpcUds.Server.Finish
import GrpcUds.Server.Invocation

/-!
# A dispatch pass visits every stream once

The table keeps its positions during a pass, and the calls a handler makes
change only the sending side of other streams.  So each turn of the loop sees
the request that was there when the pass began.
-/

namespace GrpcUds.Server

open Framing Headers

def Effect.isInvoked : Effect → Bool
  | invoked _ _ _ _ => true
  | _ => false

/-- The receiving side is the same, and a finish that was made stays. -/
structure StreamCtx.Follows (stream later : StreamCtx) : Prop where
  id : later.id = stream.id
  state : later.state = stream.state
  request : later.request = stream.request
  path : later.path = stream.path
  finish : stream.out.finished = true → SameFinish stream.out later.out

theorem StreamCtx.Follows.refl (stream : StreamCtx) : stream.Follows stream :=
  ⟨rfl, rfl, rfl, rfl, fun _ => ⟨rfl, rfl, rfl⟩⟩

theorem StreamCtx.Follows.trans {first second third : StreamCtx} (before : first.Follows second)
    (after : second.Follows third) : first.Follows third where
  id := after.id.trans before.id
  state := after.state.trans before.state
  request := after.request.trans before.request
  path := after.path.trans before.path
  finish := by
    intro finished
    obtain ⟨sameFinished, sameStatus, sameMessage⟩ := before.finish finished
    obtain ⟨nextFinished, nextStatus, nextMessage⟩ := after.finish (sameFinished.trans finished)
    exact ⟨nextFinished.trans sameFinished, nextStatus.trans sameStatus,
      nextMessage.trans sameMessage⟩

namespace Conn

/-- What calls of the API do to a connection. -/
structure Sends (conn next : Conn) : Prop where
  streams : ∀ (position : Nat) (stream : StreamCtx), conn.streams[position]? = some stream →
    ∃ later, next.streams[position]? = some later ∧ stream.Follows later
  log : ∃ added, next.log = conn.log ++ added ∧ added.filter Effect.isInvoked = []

theorem Sends.refl (conn : Conn) : conn.Sends conn :=
  ⟨fun _ stream found => ⟨stream, found, .refl stream⟩, [], by simp, rfl⟩

theorem Sends.trans {first second third : Conn} (before : first.Sends second)
    (after : second.Sends third) : first.Sends third where
  streams := by
    intro position stream found
    obtain ⟨middle, placed, follows⟩ := before.streams position stream found
    obtain ⟨later, placedLater, followsLater⟩ := after.streams position middle placed
    exact ⟨later, placedLater, follows.trans followsLater⟩
  log := by
    obtain ⟨added, log, none⟩ := before.log
    obtain ⟨more, logMore, noneMore⟩ := after.log
    exact ⟨added ++ more, by rw [logMore, log, List.append_assoc], by simp [none, noneMore]⟩

variable {conn : Conn} {stream : StreamCtx}

theorem sends_apply {id : StreamId} {change : StreamCtx → StreamCtx} {effects : List Effect}
    (follows : ∀ stream : StreamCtx, stream.Follows (change stream))
    (quiet : effects.filter Effect.isInvoked = []) : conn.Sends (conn.apply id change effects) where
  streams := by
    intro position stream found
    have placed : (conn.apply id change effects).streams[position]? = some stream ∨
        (conn.apply id change effects).streams[position]? = some (change stream) :=
      Table.getElem?_update found
    rcases placed with same | changed
    · exact ⟨stream, same, .refl stream⟩
    · exact ⟨change stream, changed, follows stream⟩
  log := ⟨effects, rfl, quiet⟩

theorem filter_resumeEffects (id : StreamId) (stream : StreamCtx) :
    (resumeEffects id stream).filter Effect.isInvoked = [] := by
  refine List.filter_eq_nil_iff.mpr fun effect membership => ?_
  rw [mem_resumeEffects membership]
  simp [Effect.isInvoked]

theorem writeCallWith_sends (conn : Conn) (id : StreamId)
    {enqueue : OutQueue → Except ConnError Unit × OutQueue} {body : Bytes}
    (spec : ∀ out, OutQueue.Enqueued out body (enqueue out).1 (enqueue out).2) :
    conn.Sends (conn.writeCallWith id enqueue).2 := by
  have follows : ∀ stream : StreamCtx,
      stream.Follows { stream with out := (enqueue stream.out).2 } := fun stream =>
    ⟨rfl, rfl, rfl, rfl, fun _ => sameFinish_of_enqueued (spec stream.out)⟩
  unfold writeCallWith
  cases conn.findStream id with
  | none => exact .refl conn
  | some stream =>
      dsimp only
      split
      · exact .refl conn
      · rw [← apply_nil]
        split
        · exact sends_apply follows rfl
        · rw [resumeIfStarted_apply]
          exact sends_apply follows (filter_resumeEffects id _)

theorem finishCallInner_sends (conn : Conn) (id : StreamId) (status : GrpcStatus)
    (message : Option Bytes) : conn.Sends (conn.finishCallInner id status message).2 := by
  have follows : ∀ stream : StreamCtx,
      stream.Follows { stream with out := stream.out.finish status message } := fun stream =>
    ⟨rfl, rfl, rfl, rfl, fun finished => by simp [OutQueue.finish, finished, SameFinish]⟩
  unfold finishCallInner
  cases conn.findStream id with
  | none => exact .refl conn
  | some stream =>
      dsimp only
      rw [← apply_nil, emit_apply, resumeIfStarted_apply]
      exact sends_apply follows (by simpa [Effect.isInvoked] using filter_resumeEffects id _)

theorem configure_sends (conn : Conn) (id : StreamId) {change : StreamCtx → StreamCtx}
    (follows : ∀ stream : StreamCtx, stream.Follows (change stream)) :
    conn.Sends (conn.configure id change).2 := by
  unfold configure
  cases conn.findStream id with
  | none => exact .refl conn
  | some stream =>
      dsimp only
      rw [← apply_nil]
      exact sends_apply follows rfl

theorem api_sends (conn : Conn) (call : ApiCall) : conn.Sends (conn.api call).2 := by
  cases call with
  | writeCall id payload copy reserve =>
      exact writeCallWith_sends conn id fun out => out.enqueueFramed_spec payload copy reserve
  | writeCallOwned id payload reserve =>
      exact writeCallWith_sends conn id fun out => out.enqueueOwned_spec payload reserve
  | finishCall id status => exact finishCallInner_sends conn id status none
  | finishCallMsg id status message => exact finishCallInner_sends conn id status (some message)
  | setCancelHook id hook =>
      exact configure_sends conn id fun stream => ⟨rfl, rfl, rfl, rfl, fun _ => ⟨rfl, rfl, rfl⟩⟩
  | setStreamPolicy id backpressure =>
      exact configure_sends conn id fun stream => ⟨rfl, rfl, rfl, rfl, fun _ => ⟨rfl, rfl, rfl⟩⟩

theorem calls_send (conn : Conn) (calls : List ApiCall) :
    conn.Sends (calls.foldl (fun conn call => (conn.api call).2) conn) := by
  induction calls generalizing conn with
  | nil => exact .refl conn
  | cons call rest ih =>
      exact (conn.api_sends call).trans (ih _)

/-! ### One turn of the loop -/

/-- The handler call that a complete stream asks for. -/
def invocation (conn : Conn) (stream : StreamCtx) : Option Effect :=
  if stream.state = .complete then
    match conn.verdict stream with
    | .refuse _ => none
    | .call entry payload =>
        some (.invoked stream.id entry.handler entry.userData payload)
  else none

/-- A stream after its turn. -/
structure Visited (conn : Conn) (stream later : StreamCtx) : Prop where
  id : later.id = stream.id
  state : later.state ≠ .complete
  untouched : stream.state ≠ .complete → stream.Follows later
  refused : ∀ status, stream.state = .complete → conn.verdict stream = .refuse status →
    later.out.finished = true ∧ later.out.finalStatus = status

/-- What the turn at one position does. -/
structure Turn (conn : Conn) (position : Nat) (next : Conn) : Prop where
  others : ∀ (other : Nat) (stream : StreamCtx), other ≠ position →
    conn.streams[other]? = some stream →
      ∃ later, next.streams[other]? = some later ∧ stream.Follows later
  own : ∀ stream, conn.streams[position]? = some stream →
    ∃ later, next.streams[position]? = some later ∧ conn.Visited stream later
  log : ∃ added, next.log = conn.log ++ added ∧
    added.filter Effect.isInvoked = (conn.streams[position]?.bind conn.invocation).toList

variable (distinct : conn.Distinct)
include distinct

theorem apply_position {position : Nat} (found : conn.streams[position]? = some stream)
    (change : StreamCtx → StreamCtx) (effects : List Effect) :
    (conn.apply stream.id change effects).streams[position]? = some (change stream) ∧
      ∀ other ≠ position,
        (conn.apply stream.id change effects).streams[other]? = conn.streams[other]? := by
  have placed : (conn.apply stream.id change effects).streams =
      conn.streams.modify position change :=
    (Table.modify_eq_update distinct found).symm
  rw [placed]
  refine ⟨by simp [found], fun other different => ?_⟩
  simp [different.symm]

theorem refuse_turn {position : Nat} (found : conn.streams[position]? = some stream)
    (complete : stream.state = .complete) {status : GrpcStatus}
    (refused : conn.verdict stream = .refuse status) (rc : Int) :
    conn.Turn position (conn.refuse position stream.id status rc) := by
  rw [refuse_eq_apply distinct found]
  obtain ⟨own, others⟩ := apply_position distinct found
    (fun stream => (finalizeError status stream).respond rc .dispatched)
    [.refused stream.id status, .submitResponse stream.id rc]
  refine ⟨fun other entry different present => ?_, fun entry present => ?_, _, rfl, ?_⟩
  · exact ⟨entry, (others other different).trans present, .refl entry⟩
  · obtain rfl : stream = entry := by simpa [found] using present
    refine ⟨_, own, ?_⟩
    unfold StreamCtx.respond
    split
    all_goals
      refine ⟨rfl, by simp [finalizeError, startResponse], fun other => absurd complete other,
        fun verdict _ same => ?_⟩
      obtain rfl : status = verdict := by simpa [refused] using same
      exact ⟨rfl, rfl⟩
  · simp [found, invocation, refused, Effect.isInvoked]

theorem settle_turn {position : Nat} (found : conn.streams[position]? = some stream)
    (rc submitRc : Int) :
    (∃ later, (conn.settle position stream.id rc submitRc).streams[position]? = some later ∧
        later.id = stream.id ∧ later.state ≠ .complete) ∧
      (∀ other ≠ position,
        (conn.settle position stream.id rc submitRc).streams[other]? = conn.streams[other]?) ∧
      ∃ added, (conn.settle position stream.id rc submitRc).log = conn.log ++ added ∧
        added.filter Effect.isInvoked = [] := by
  have calm : conn.idle.Distinct := distinct
  have placed : conn.idle.streams[position]? = some stream := found
  rw [settle_eq_apply distinct found]
  split
  · obtain ⟨own, others⟩ := apply_position calm placed (concludeHandler rc)
      [.returned stream.id rc]
    exact ⟨⟨_, own, rfl, by simp [concludeHandler]⟩, others, _, rfl, by simp [Effect.isInvoked]⟩
  · obtain ⟨own, others⟩ := apply_position calm placed
      (fun stream => (concludeHandler rc stream).respond submitRc .cancelled)
      [.returned stream.id rc, .submitResponse stream.id submitRc]
    refine ⟨⟨_, own, ?_⟩, others, _, rfl, by simp [Effect.isInvoked]⟩
    unfold StreamCtx.respond
    split <;> exact ⟨rfl, by simp [concludeHandler, startResponse]⟩

theorem serve_turn {position : Nat} (found : conn.streams[position]? = some stream)
    (complete : stream.state = .complete) {entry : MethodEntry} {payload : Bytes}
    (called : conn.verdict stream = .call entry payload) (run : HandlerRun) (submitRc : Int) :
    conn.Turn position (conn.serve position stream.id entry payload run submitRc) := by
  let configured := conn.modifyAt position (applyBackpressure entry.backpressure)
  let entered := configured.enter stream.id entry payload
  let ran := run.calls.foldl (fun conn call => (conn.api call).2) entered
  have sends : entered.Sends ran := entered.calls_send run.calls
  have keeps : entered.Keeps ran := (entered.calls_act run.calls).toKeeps
  have kept := applyBackpressure_id entry.backpressure
  have spread : entered.Distinct := by
    have applied : configured = conn.apply stream.id (applyBackpressure entry.backpressure) [] := by
      rw [apply_nil, ← modifyAt_eq_modify distinct found]
    have placed : configured.Distinct := applied ▸ (keeps_apply kept).distinct distinct
    exact placed
  have here : entered.streams[position]? = some (applyBackpressure entry.backpressure stream) := by
    simp [entered, configured, enter, emit, modifyAt, found]
  have there : ∀ other ≠ position, entered.streams[other]? = conn.streams[other]? := by
    intro other different
    simp [entered, configured, enter, emit, modifyAt, different.symm]
  obtain ⟨later, placed, follows⟩ := sends.streams position _ here
  have named : later.id = stream.id := follows.id.trans (kept stream)
  obtain ⟨⟨last, own, sameId, visited⟩, others, settled⟩ :=
    settle_turn (keeps.distinct spread) placed run.rc submitRc
  have served : conn.serve position stream.id entry payload run submitRc =
      ran.settle position later.id run.rc submitRc := by rw [named]; rfl
  rw [served]
  refine ⟨fun other current different present => ?_, fun current present => ?_, ?_⟩
  · obtain ⟨next, placedNext, followsNext⟩ :=
      sends.streams other current ((there other different).trans present)
    exact ⟨next, (others other different).trans placedNext, followsNext⟩
  · obtain rfl : stream = current := by simpa [found] using present
    refine ⟨last, own, sameId.trans named, visited, fun other => absurd complete other,
      fun status _ refused => ?_⟩
    simp [called] at refused
  · obtain ⟨sent, log, none⟩ := sends.log
    obtain ⟨added, logMore, noneMore⟩ := settled
    refine ⟨.invoked stream.id entry.handler entry.userData payload :: (sent ++ added), ?_, ?_⟩
    · rw [logMore, log]
      simp [entered, configured, enter, emit, modifyAt]
    · have asked : (conn.streams[position]?.bind conn.invocation).toList =
          [.invoked stream.id entry.handler entry.userData payload] := by
        simp [found, invocation, complete, called]
      rw [asked, List.filter_cons_of_pos rfl, List.filter_append, none, noneMore]
      rfl

omit distinct

theorem dispatchAt_turn (env : DispatchEnv) (progress : Nat × Conn) (position : Nat)
    (distinct : progress.2.Distinct) :
    progress.2.Turn position (dispatchAt env progress position).2 := by
  unfold dispatchAt
  cases found : progress.2.streams[position]? with
  | none =>
      refine ⟨fun _ stream _ present => ⟨stream, present, .refl stream⟩, ?_, [], ?_, ?_⟩
      · simp [found]
      · simp
      · simp [found]
  | some stream =>
      by_cases complete : stream.state = .complete
      · simp only [complete, ne_eq, not_true_eq_false, if_false]
        rw [dispatchStream_eq_verdict]
        cases judged : progress.2.verdict stream with
        | refuse status => exact refuse_turn distinct found complete judged _
        | call entry payload => exact serve_turn distinct found complete judged _ _
      · simp only [complete, ne_eq, not_false_eq_true, if_true]
        refine ⟨fun _ current _ present => ⟨current, present, .refl current⟩, ?_, [], ?_, ?_⟩
        · intro current present
          obtain rfl : stream = current := by simpa [found] using present
          exact ⟨stream, found, rfl, complete, fun _ => .refl stream,
            fun _ isComplete => absurd isComplete complete⟩
        · simp
        · simp [found, invocation, complete]

/-! ### The whole pass -/

/-- A pass that has visited the first `count` positions. -/
structure Pass (start : Conn) (count : Nat) (conn : Conn) : Prop where
  acts : start.Acts CallStep conn
  ahead : ∀ (position : Nat) (stream : StreamCtx), count ≤ position →
    start.streams[position]? = some stream →
      ∃ later, conn.streams[position]? = some later ∧ stream.Follows later
  behind : ∀ (position : Nat) (stream : StreamCtx), position < count →
    start.streams[position]? = some stream →
      ∃ later, conn.streams[position]? = some later ∧ start.Visited stream later
  log : ∃ added, conn.log = start.log ++ added ∧
    added.filter Effect.isInvoked = (start.streams.take count).filterMap start.invocation

theorem verdict_of_follows {start : Conn} (keeps : start.Keeps conn) {later : StreamCtx}
    (follows : stream.Follows later) :
    conn.verdict later = start.verdict stream := by
  simp only [verdict, follows.request, follows.path, keeps.maxMessageLen, keeps.methods]

theorem invocation_of_follows {start : Conn} (keeps : start.Keeps conn) {later : StreamCtx}
    (follows : stream.Follows later) :
    conn.invocation later = start.invocation stream := by
  simp only [invocation, verdict_of_follows keeps follows, follows.id, follows.state]

theorem Visited.follow {start : Conn} {later last : StreamCtx}
    (visited : start.Visited stream later) (follows : later.Follows last) :
    start.Visited stream last where
  id := follows.id.trans visited.id
  state := by rw [follows.state]; exact visited.state
  untouched := fun receiving => (visited.untouched receiving).trans follows
  refused := by
    intro status complete refused
    obtain ⟨finished, finalStatus⟩ := visited.refused status complete refused
    obtain ⟨sameFinished, sameStatus, _⟩ := follows.finish finished
    exact ⟨sameFinished.trans finished, sameStatus.trans finalStatus⟩

theorem pass_turn {start next : Conn} {count : Nat} (pass : start.Pass count conn)
    (acts : conn.Acts CallStep next) (turn : conn.Turn count next) :
    start.Pass (count + 1) next where
  acts := pass.acts.trans acts
  ahead := by
    intro position stream unvisited found
    obtain ⟨middle, placed, follows⟩ := pass.ahead position stream (by omega) found
    obtain ⟨later, placedLater, followsLater⟩ := turn.others position middle (by omega) placed
    exact ⟨later, placedLater, follows.trans followsLater⟩
  behind := by
    intro position stream visited found
    rcases Nat.lt_succ_iff_lt_or_eq.mp visited with earlier | rfl
    · obtain ⟨middle, placed, before⟩ := pass.behind position stream earlier found
      obtain ⟨later, placedLater, follows⟩ := turn.others position middle (by omega) placed
      exact ⟨later, placedLater, before.follow follows⟩
    · obtain ⟨middle, placed, follows⟩ := pass.ahead position stream (Nat.le_refl _) found
      obtain ⟨later, placedLater, now⟩ := turn.own middle placed
      refine ⟨later, placedLater, now.id.trans follows.id, now.state, fun receiving => ?_,
        fun status complete => ?_⟩
      · exact follows.trans (now.untouched (follows.state ▸ receiving))
      rw [← verdict_of_follows pass.acts.toKeeps follows]
      exact now.refused status (follows.state.trans complete)
  log := by
    obtain ⟨added, log, called⟩ := pass.log
    obtain ⟨more, logMore, calledMore⟩ := turn.log
    refine ⟨added ++ more, by rw [logMore, log, List.append_assoc], ?_⟩
    rw [List.filter_append, called, calledMore, List.take_add_one, List.filterMap_append]
    congr 1
    cases found : start.streams[count]? with
    | none =>
        have missing : conn.streams[count]? = none := by
          have sizes := congrArg List.length pass.acts.ids
          simp only [List.length_map] at sizes
          rw [List.getElem?_eq_none_iff] at found ⊢
          omega
        simp [missing]
    | some stream =>
        obtain ⟨later, placed, follows⟩ := pass.ahead count stream (Nat.le_refl _) found
        have same := invocation_of_follows pass.acts.toKeeps follows
        cases asked : start.invocation stream <;> simp [placed, same, asked]

theorem dispatch_pass (conn : Conn) (env : DispatchEnv) (distinct : conn.Distinct)
    (idle : conn.running = none) :
    conn.Pass conn.streams.length (conn.dispatch env).2 := by
  have passes : ∀ count,
      conn.Pass count ((List.range count).foldl (dispatchAt env) (0, conn)).2 := by
    intro count
    induction count with
    | zero =>
        exact ⟨.refl conn, fun _ stream _ found => ⟨stream, found, .refl stream⟩,
          fun _ _ visited => absurd visited (Nat.not_lt_zero _), [], by simp, by simp⟩
    | succ count ih =>
        rw [List.range_succ, List.foldl_append, List.foldl_cons, List.foldl_nil]
        have spread := ih.acts.distinct distinct
        have calm := ih.acts.running.trans idle
        exact pass_turn ih (dispatchAt_acts env _ count spread calm)
          (dispatchAt_turn env _ count spread)
  exact passes conn.streams.length

include distinct

/-- With distinct ids the calls that name a stream are its own. -/
theorem mem_invocations (membership : stream ∈ conn.streams) (complete : stream.state = .complete)
    {handler userData : Nat} {payload : Bytes} :
    .invoked stream.id handler userData payload ∈ conn.streams.filterMap conn.invocation ↔
      ∃ entry, conn.verdict stream = .call entry payload ∧ entry.handler = handler ∧
        entry.userData = userData := by
  have own : conn.invocation stream = some (.invoked stream.id handler userData payload) ↔
      ∃ entry, conn.verdict stream = .call entry payload ∧ entry.handler = handler ∧
        entry.userData = userData := by
    simp only [invocation, complete, if_true]
    cases conn.verdict stream with
    | refuse status => simp
    | call entry carried =>
        simp only [Option.some.injEq, Effect.invoked.injEq, true_and, Verdict.call.injEq]
        constructor
        · rintro ⟨rfl, rfl, rfl⟩
          exact ⟨entry, ⟨rfl, rfl⟩, rfl, rfl⟩
        · rintro ⟨_, ⟨rfl, rfl⟩, rfl, rfl⟩
          exact ⟨rfl, rfl, rfl⟩
  rw [List.mem_filterMap, ← own]
  refine ⟨fun ⟨other, present, asked⟩ => ?_, fun asked => ⟨stream, membership, asked⟩⟩
  have named : other.id = stream.id := by
    unfold invocation at asked
    split at asked
    · split at asked
      · simp at asked
      · simp at asked
        exact asked.1
    · simp at asked
  have same : other = stream := by
    have first := (Table.lookup_eq_some_iff distinct).mpr ⟨present, named⟩
    have second := (Table.lookup_eq_some_iff distinct).mpr ⟨membership, rfl⟩
    exact Option.some.inj (first.symm.trans second)
  exact same ▸ asked

/-- The handler calls a pass makes for a complete stream. -/
theorem invoked_mem_dispatch_iff (idle : conn.running = none) (membership : stream ∈ conn.streams)
    (complete : stream.state = .complete) (env : DispatchEnv) (handler userData : Nat)
    (payload : Bytes) :
    .invoked stream.id handler userData payload ∈
        (conn.dispatch env).2.log.drop conn.log.length ↔
      ∃ entry, FirstRegistered conn.methods stream.path entry ∧ entry.handler = handler ∧
        entry.userData = userData ∧ Carries conn.maxMessageLen stream.request payload := by
  obtain ⟨added, log, called⟩ := (conn.dispatch_pass env distinct idle).log
  rw [List.take_length] at called
  have mine : .invoked stream.id handler userData payload ∈ added ↔
      .invoked stream.id handler userData payload ∈ added.filter Effect.isInvoked := by
    simp [Effect.isInvoked]
  rw [log, List.drop_left, mine, called, mem_invocations distinct membership complete]
  simp only [verdict_eq_call_iff]
  constructor
  · rintro ⟨entry, ⟨carries, registered⟩, sameHandler, sameData⟩
    exact ⟨entry, registered, sameHandler, sameData, carries⟩
  · rintro ⟨entry, registered, sameHandler, sameData, carries⟩
    exact ⟨entry, ⟨carries, registered⟩, sameHandler, sameData⟩

end Conn

theorem countP_isInvoked_le (log : List Effect) :
    log.countP Effect.isInvoked ≤ dispatches log :=
  List.countP_mono_left fun effect _ invoked => by
    cases effect <;> simp_all [Effect.isInvoked, Effect.startsDispatch]

/-- In every run each stream's handler runs at most once.  A dispatch pass from
any reachable state leaves no stream complete.  It runs a handler for a complete
stream exactly when the request is well framed within the cap and the path is
registered: the first entry of that path, with the payload of the frame.  A
stream it does not run a handler for is finished with the matching status. -/
theorem dispatch_runs_each_handler_once {methods : List MethodEntry} {maxMessageLen : UInt32}
    {fd : Int} {events : List ConnEvent} {conn : Conn}
    (reached : Transition.run Conn.step (Conn.newServer methods maxMessageLen fd) events =
      some conn) :
    (∀ id, (conn.logOf id).countP Effect.isInvoked ≤ 1) ∧
    ∀ env, (∀ stream ∈ (conn.dispatch env).2.streams, stream.state ≠ .complete) ∧
      ∀ stream ∈ conn.streams, stream.state = .complete →
        (∀ handler userData payload,
          .invoked stream.id handler userData payload ∈
              (conn.dispatch env).2.log.drop conn.log.length ↔
            ∃ entry, FirstRegistered conn.methods stream.path entry ∧ entry.handler = handler ∧
              entry.userData = userData ∧ Carries conn.maxMessageLen stream.request payload) ∧
        ∃ later, (conn.dispatch env).2.findStream stream.id = some later ∧
          ((¬ ∃ payload, Carries conn.maxMessageLen stream.request payload) →
            later.out.finished = true ∧ later.out.finalStatus = .internal) ∧
          ((∃ payload, Carries conn.maxMessageLen stream.request payload) →
            (¬ ∃ entry, FirstRegistered conn.methods stream.path entry) →
              later.out.finished = true ∧ later.out.finalStatus = .unimplemented) := by
  have reachable : conn.Reachable := ⟨methods, maxMessageLen, fd, events, reached⟩
  have distinct := reachable.wellFormed.distinct
  refine ⟨fun id => ?_, fun env => ?_⟩
  · exact (countP_isInvoked_le _).trans (reachable.lifecycle id).once
  have pass := conn.dispatch_pass env distinct reachable.wellFormed.idle
  have sizes := congrArg List.length pass.acts.ids
  simp only [List.length_map] at sizes
  refine ⟨fun stream membership => ?_, fun stream membership complete => ?_⟩
  · obtain ⟨position, inside, rfl⟩ := List.getElem_of_mem membership
    have earlier : position < conn.streams.length := sizes ▸ inside
    obtain ⟨later, placed, visited⟩ := pass.behind position conn.streams[position] earlier (by simp)
    obtain ⟨_, rfl⟩ := List.getElem?_eq_some_iff.mp placed
    exact visited.state
  · obtain ⟨position, inside, rfl⟩ := List.getElem_of_mem membership
    obtain ⟨later, placed, visited⟩ := pass.behind position conn.streams[position] inside (by simp)
    have found : (conn.dispatch env).2.findStream conn.streams[position].id = some later :=
      visited.id ▸ Conn.findStream_of_getElem? (pass.acts.distinct distinct) placed
    refine ⟨fun handler userData payload => ?_, later, found, fun bad => ?_, fun good missing => ?_⟩
    · exact Conn.invoked_mem_dispatch_iff distinct reachable.wellFormed.idle membership complete env
        handler userData payload
    · exact visited.refused .internal complete
        (Conn.verdict_eq_refuse_iff.mpr (.inl ⟨bad, rfl⟩))
    · exact visited.refused .unimplemented complete
        (Conn.verdict_eq_refuse_iff.mpr (.inr ⟨good, missing, rfl⟩))

def twoEntries : List MethodEntry := [⟨ascii "/S/M", 7, 0, none⟩, ⟨ascii "/S/M", 8, 0, none⟩]

/-- Two requests, one of them compressed. -/
def twoRequests : List ConnEvent :=
  [.beginHeaders ⟨1, nvHeaders, 0, .request⟩ true, .header 1 nPath (ascii "/S/M") 0 true,
    .dataChunkRecv 1 (frame [9]) true, .frameRecv ⟨1, nvData, flagEndStream, .headers⟩,
    .beginHeaders ⟨3, nvHeaders, 0, .request⟩ true, .header 3 nPath (ascii "/S/M") 0 true,
    .dataChunkRecv 3 (encodeHeader true 1 ++ [9]) true,
    .frameRecv ⟨3, nvData, flagEndStream, .headers⟩]

/-- The handler of the first entry for the path runs, once. -/
theorem dispatch_runs_first_entry :
    ∃ conn, Transition.run Conn.step (Conn.newServer twoEntries 100 (-1)) twoRequests = some conn ∧
      (∀ id, (conn.logOf id).countP Effect.isInvoked ≤ 1) ∧
      (∀ stream ∈ (conn.dispatch ⟨fun _ => ⟨[], 0⟩, fun _ => 0⟩).2.streams,
        stream.state ≠ .complete) ∧
      ((conn.dispatch ⟨fun _ => ⟨[], 0⟩, fun _ => 0⟩).2.log.drop conn.log.length).filter
        Effect.isInvoked = [.invoked 1 7 0 [9]] := by
  have once := @dispatch_runs_each_handler_once twoEntries 100 (-1) twoRequests _ (by rfl)
  exact ⟨_, rfl, once.1, (once.2 _).1, by decide⟩

end GrpcUds.Server
