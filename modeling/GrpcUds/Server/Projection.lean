import GrpcUds.Server.Lane

/-!
# A connection moves its streams by lane steps

Every operation is reduced to `Conn.apply`, the change of one stream together
with the effects it has, or to a sequence of such changes.
-/

namespace GrpcUds.Server

open Relation Framing

namespace Conn

/-! ### The call API -/

theorem resumeIfStarted_apply (conn : Conn) (id : StreamId) (change : StreamCtx → StreamCtx)
    (effects : List Effect) (stream : StreamCtx) :
    (conn.apply id change effects).resumeIfStarted id stream =
      conn.apply id change (effects ++ resumeEffects id stream) := by
  unfold resumeIfStarted resumeEffects
  split
  · simp [apply, emit]
  · simp

variable {stream : StreamCtx} {conn : Conn} {position : Nat}

theorem mem_resumeEffects {id : StreamId} {effect : Effect}
    (membership : effect ∈ resumeEffects id stream) : effect = .resumeData id := by
  unfold resumeEffects at membership
  split at membership
  · simpa using membership
  · simp at membership

theorem mem_hookEffects {id : StreamId} {hook : Option CancelHook} {effect : Effect}
    (membership : effect ∈ hookEffects id hook) : ∃ fired, effect = .hookFired id fired := by
  cases hook with
  | none => simp [hookEffects] at membership
  | some fired => exact ⟨fired, by simpa [hookEffects] using membership⟩

theorem hookEffects_id {id : StreamId} {hook : Option CancelHook} :
    ∀ effect ∈ hookEffects id hook, effect.id = id := by
  intro effect membership
  obtain ⟨fired, rfl⟩ := mem_hookEffects membership
  rfl

theorem writeCallWith_acts (conn : Conn) (id : StreamId)
    {enqueue : OutQueue → Except ConnError Unit × OutQueue} {body : Bytes}
    (spec : ∀ out, OutQueue.Enqueued out body (enqueue out).1 (enqueue out).2) :
    conn.Acts CallStep (conn.writeCallWith id enqueue).2 := by
  unfold writeCallWith
  cases found : conn.findStream id with
  | none => exact .refl conn
  | some stream =>
      cases unfinished : stream.out.finished with
      | true => simpa [unfinished] using Acts.refl conn
      | false =>
          let write := fun stream : StreamCtx => { stream with out := (enqueue stream.out).2 }
          have kept : ∀ stream, (write stream).id = stream.id := fun _ => rfl
          have step : CallStep id (conn.lane id) _ := .wrote found unfinished (spec stream.out)
          simp only [unfinished, Bool.false_eq_true, if_false]
          cases outcome : (enqueue stream.out).1 with
          | error error =>
              have silent : CallStep id (conn.lane id) ((conn.lane id).put (write stream) []) := by
                rw [outcome] at step
                exact step
              exact acts_modify kept found silent
          | ok =>
              rw [outcome] at step
              have about : ∀ effect ∈ resumeEffects id (write stream), effect.id = id :=
                fun effect membership => mem_resumeEffects membership ▸ rfl
              have acts := acts_apply kept about found step
              have stored := resumeIfStarted_apply conn id write [] (write stream)
              rw [apply_nil, List.nil_append] at stored
              exact stored ▸ acts

theorem finishCallInner_acts (conn : Conn) (id : StreamId) (status : GrpcStatus)
    (message : Option Bytes) : conn.Acts CallStep (conn.finishCallInner id status message).2 := by
  unfold finishCallInner
  cases found : conn.findStream id with
  | none => exact .refl conn
  | some stream =>
      let finish := fun stream : StreamCtx =>
        { stream with out := stream.out.finish status message }
      have kept : ∀ stream, (finish stream).id = stream.id := fun _ => rfl
      have step : CallStep id (conn.lane id) _ := .finish found status message
      have about : ∀ effect ∈ .finish id status message :: resumeEffects id (finish stream),
          effect.id = id := by
        intro effect membership
        rcases List.mem_cons.mp membership with rfl | resumed
        · rfl
        · exact mem_resumeEffects resumed ▸ rfl
      have acts := acts_apply kept about found step
      have stored := resumeIfStarted_apply conn id finish [.finish id status message]
        (finish stream)
      rw [List.singleton_append] at stored
      rw [← stored] at acts
      exact acts

theorem configure_acts (conn : Conn) (id : StreamId) {change : StreamCtx → StreamCtx}
    (kept : ∀ stream, (change stream).id = stream.id)
    (step : ∀ stream, conn.findStream id = some stream →
      CallStep id (conn.lane id) ((conn.lane id).put (change stream) [])) :
    conn.Acts CallStep (conn.configure id change).2 := by
  unfold configure
  cases found : conn.findStream id with
  | none => exact .refl conn
  | some stream =>
      exact acts_modify kept found (step stream found)

theorem api_acts (conn : Conn) (call : ApiCall) : conn.Acts CallStep (conn.api call).2 := by
  cases call with
  | writeCall id payload copy reserve =>
      exact writeCallWith_acts conn id fun out => out.enqueueFramed_spec payload copy reserve
  | writeCallOwned id payload reserve =>
      exact writeCallWith_acts conn id fun out => out.enqueueOwned_spec payload reserve
  | finishCall id status => exact finishCallInner_acts conn id status none
  | finishCallMsg id status message => exact finishCallInner_acts conn id status (some message)
  | setCancelHook id hook =>
      exact configure_acts conn id (fun _ => rfl) fun stream found =>
        .configured found (some hook) stream.out.backpressure
  | setStreamPolicy id backpressure =>
      exact configure_acts conn id (fun _ => rfl) fun stream found =>
        .configured found stream.cancelHook backpressure

theorem calls_act (conn : Conn) (calls : List ApiCall) :
    conn.Acts CallStep (calls.foldl (fun conn call => (conn.api call).2) conn) := by
  induction calls generalizing conn with
  | nil => exact .refl conn
  | cons call rest ih =>
      exact (conn.api_acts call).trans (ih _)

/-! ### Table positions -/

variable (distinct : conn.Distinct)
include distinct

variable (found : conn.streams[position]? = some stream)
include found

theorem modifyAt_eq_modify (change : StreamCtx → StreamCtx) :
    conn.modifyAt position change = conn.modify stream.id change := by
  unfold modifyAt modify
  rw [Table.modify_eq_update distinct found]

theorem findStream_of_getElem? :
    conn.findStream stream.id = some stream :=
  Table.lookup_of_getElem? distinct found

/-! ### Deadlines -/

theorem fireHook_modifyAt :
    
    (conn.modifyAt position StreamCtx.disarm).fireHook stream.id stream.cancelHook =
      conn.apply stream.id StreamCtx.disarm (hookEffects stream.id stream.cancelHook) := by
  rw [modifyAt_eq_modify distinct found]
  cases stream.cancelHook <;> simp [fireHook, hookEffects, apply, emit, modify]

omit found

omit distinct

theorem expireAt_acts (now : Nat) (progress : Conn × List StreamId) (position : Nat)
    (distinct : progress.1.Distinct) :
    progress.1.Acts CallStep (expireAt now progress position).1 := by
  unfold expireAt
  split
  · exact .refl _
  · cases found : progress.1.streams[position]? with
    | none => exact .refl _
    | some stream =>
        by_cases due : stream.due now
        · have looked := findStream_of_getElem? distinct found
          have kept : ∀ stream : StreamCtx, stream.disarm.id = stream.id := fun _ => rfl
          have acts := acts_apply kept hookEffects_id looked (CallStep.disarmed looked)
          simpa [due, fireHook_modifyAt distinct found] using acts
        · simpa [due] using Acts.refl progress.1

theorem sweep_acts (now : Nat) (positions : List Nat) (progress : Conn × List StreamId)
    (distinct : progress.1.Distinct) :
    progress.1.Acts CallStep (positions.foldl (expireAt now) progress).1 := by
  induction positions generalizing progress with
  | nil => exact .refl _
  | cons position rest ih =>
      have acts := expireAt_acts now progress position distinct
      exact acts.trans (ih _ (acts.distinct distinct))

theorem expireDeadlines_acts (conn : Conn) (now : Nat) (distinct : conn.Distinct) :
    conn.Acts CallStep (conn.expireDeadlines now) := by
  have finishes : ∀ (ids : List StreamId) (conn : Conn),
      conn.Acts CallStep (ids.foldl (fun conn id =>
        (conn.finishCallMsg id .deadlineExceeded (Headers.ascii "deadline exceeded")).2) conn) := by
    intro ids
    induction ids with
    | nil => exact fun conn => .refl conn
    | cons id rest ih =>
        exact fun conn => (finishCallInner_acts conn id _ _).trans (ih _)
  exact (sweep_acts now _ (conn, []) distinct).trans (finishes _ _)

/-! ### Dispatch -/

theorem submitResponseFor_apply (conn : Conn) (id : StreamId) {change : StreamCtx → StreamCtx}
    (kept : ∀ stream, (change stream).id = stream.id) (effects : List Effect) (rc : Int) :
    ((conn.apply id change effects).submitResponseFor id rc).2 =
      conn.apply id (fun stream => if rc = 0 then startResponse (change stream) else change stream)
        (effects ++ [.submitResponse id rc]) := by
  unfold submitResponseFor
  by_cases accepted : rc = 0
  · simp [accepted, emit_apply, modify_apply conn id kept]
  · simp [accepted, emit_apply]

theorem refuse_eq_apply (distinct : conn.Distinct) (found : conn.streams[position]? = some stream)
    (status : GrpcStatus) (rc : Int) :
    conn.refuse position stream.id status rc =
      conn.apply stream.id (fun stream => (finalizeError status stream).respond rc .dispatched)
        [.refused stream.id status, .submitResponse stream.id rc] := by
  have kept : ∀ stream, (finalizeError status stream).id = stream.id := fun _ => rfl
  unfold refuse
  rw [modifyAt_eq_modify distinct found, ← apply_nil, emit_apply, List.nil_append,
    submitResponseFor_apply conn stream.id kept, List.singleton_append]
  rfl

theorem refuse_acts (distinct : conn.Distinct) (idle : conn.running = none)
    (found : conn.streams[position]? = some stream) (complete : stream.state = .complete)
    (status : GrpcStatus) (rc : Int) :
    conn.Acts CallStep (conn.refuse position stream.id status rc) := by
  have looked := findStream_of_getElem? distinct found
  have resting : (conn.lane stream.id).running = false := by simp [lane, idle]
  have kept : ∀ stream : StreamCtx,
      ((finalizeError status stream).respond rc .dispatched).id = stream.id := by
    intro stream
    unfold StreamCtx.respond
    split <;> rfl
  rw [refuse_eq_apply distinct found]
  exact acts_apply kept (by simp [Effect.id]) looked (.refused looked complete resting status rc)

theorem lane_enter_self (conn : Conn) (id : StreamId) (entry : MethodEntry) (payload : Bytes)
    (found : conn.findStream id = some stream) :
    (conn.enter id entry payload).lane id =
      { (conn.lane id).put stream [.invoked id entry.handler entry.userData payload] with
        running := true } := by
  have about : ∀ effect ∈ [Effect.invoked id entry.handler entry.userData payload],
      effect.id = id := by simp [Effect.id]
  exact Lane.ext found (by simp [lane, enter]) (logOf_append_self about)

theorem lane_enter_other (conn : Conn) (id : StreamId) (entry : MethodEntry) (payload : Bytes)
    (idle : conn.running = none) {other : StreamId} (different : other ≠ id) :
    (conn.enter id entry payload).lane other = conn.lane other := by
  have about : ∀ effect ∈ [Effect.invoked id entry.handler entry.userData payload],
      effect.id = id := by simp [Effect.id]
  exact Lane.ext rfl (by simp [lane, enter, idle, different.symm])
    (logOf_append_other about different)

/-- The connection with no handler on the stack. -/
def idle (conn : Conn) : Conn := { conn with running := none }

/-- What follows a handler's return. -/
def settle (conn : Conn) (position : Nat) (id : StreamId) (rc submitRc : Int) : Conn :=
  ((conn.leave id rc).modifyAt position (concludeHandler rc)).respondOnce position id submitRc

@[simp]
theorem concludeHandler_responseStarted (rc : Int) (stream : StreamCtx) :
    (concludeHandler rc stream).out.responseStarted = stream.out.responseStarted := by
  unfold concludeHandler
  split <;> rfl

/-- The response of a stream that was just changed: nothing if it has one, or
one submission whose failure cancels the stream. -/
theorem respondOnce_apply (distinct : conn.Distinct) {id : StreamId}
    {change : StreamCtx → StreamCtx} {effects : List Effect}
    (kept : ∀ stream, (change stream).id = stream.id)
    (found : (conn.apply id change effects).streams[position]? = some stream)
    (named : stream.id = id) (rc : Int) :
    (conn.apply id change effects).respondOnce position id rc =
      if stream.out.responseStarted then conn.apply id change effects
      else conn.apply id (fun stream => (change stream).respond rc .cancelled)
        (effects ++ [.submitResponse id rc]) := by
  unfold respondOnce
  rw [found]
  dsimp only
  split
  · rfl
  · by_cases accepted : rc = 0
    · simp [submitResponseFor, accepted, emit_apply, modify_apply conn id kept, StreamCtx.respond]
    · have placed : (conn.apply id change (effects ++ [.submitResponse id rc])).streams[position]? =
          some stream := found
      have spread : (conn.apply id change (effects ++ [.submitResponse id rc])).Distinct :=
        (keeps_apply kept).distinct distinct
      simp only [submitResponseFor, accepted, ne_eq, not_false_eq_true, if_true, emit_apply]
      rw [modifyAt_eq_modify spread placed, named, modify_apply conn id kept]
      simp [StreamCtx.respond, accepted]

theorem settle_eq_apply (distinct : conn.Distinct) (found : conn.streams[position]? = some stream)
    (rc submitRc : Int) :
    conn.settle position stream.id rc submitRc =
      if stream.out.responseStarted then
        conn.idle.apply stream.id (concludeHandler rc) [.returned stream.id rc]
      else
        conn.idle.apply stream.id
          (fun stream => (concludeHandler rc stream).respond submitRc .cancelled)
          [.returned stream.id rc, .submitResponse stream.id submitRc] := by
  have kept : ∀ stream, (concludeHandler rc stream).id = stream.id := fun _ => rfl
  have left : (conn.leave stream.id rc).Distinct := distinct
  have concluded : (conn.leave stream.id rc).modifyAt position (concludeHandler rc) =
      conn.idle.apply stream.id (concludeHandler rc) [.returned stream.id rc] :=
    modifyAt_eq_modify left found _
  have placed : (conn.idle.apply stream.id (concludeHandler rc)
      [.returned stream.id rc]).streams[position]? = some (concludeHandler rc stream) := by
    rw [← concluded]
    simp [modifyAt, leave, emit, found]
  have calm : conn.idle.Distinct := distinct
  rw [settle, concluded, respondOnce_apply calm kept placed rfl submitRc,
    concludeHandler_responseStarted]
  rfl

theorem idle_lane_other {id other : StreamId} (running : conn.running = some id)
    (different : other ≠ id) : conn.idle.lane other = conn.lane other :=
  Lane.ext rfl (by simp [lane, idle, running, different.symm]) rfl

/-- The lanes at the end of a handler run. -/
theorem settle_lanes (distinct : conn.Distinct) (found : conn.streams[position]? = some stream)
    (running : conn.running = some stream.id) (rc submitRc : Int) (id : StreamId) :
    ReflTransGen (CallStep id) (conn.lane id)
      ((conn.settle position stream.id rc submitRc).lane id) := by
  have kept : ∀ stream, (concludeHandler rc stream).id = stream.id := fun _ => rfl
  have keptRespond : ∀ stream : StreamCtx,
      ((concludeHandler rc stream).respond submitRc .cancelled).id = stream.id := by
    intro stream
    unfold StreamCtx.respond
    split <;> rfl
  have looked : conn.findStream stream.id = some stream := findStream_of_getElem? distinct found
  have calm : conn.idle.findStream stream.id = some stream := looked
  have active : (conn.lane stream.id).running = true := by simp [lane, running]
  have resting : conn.idle.lane stream.id = { conn.lane stream.id with running := false } :=
    Lane.ext rfl (by simp [lane, idle]) rfl
  rw [settle_eq_apply distinct found]
  by_cases same : id = stream.id
  · subst same
    split
    next started =>
      rw [lane_apply_self kept (by simp [Effect.id]) calm, resting]
      exact .single (.returnedStarted looked active started rc)
    next unstarted =>
      rw [lane_apply_self keptRespond (by simp [Effect.id]) calm, resting]
      exact .single (.returned looked active (by simpa using unstarted) rc submitRc)
  · split
    · rw [lane_apply_other kept (by simp [Effect.id]) same, idle_lane_other running same]
    · rw [lane_apply_other keptRespond (by simp [Effect.id]) same, idle_lane_other running same]

theorem settle_keeps (distinct : conn.Distinct) (found : conn.streams[position]? = some stream)
    (rc submitRc : Int) :
    conn.Keeps (conn.settle position stream.id rc submitRc) ∧
      (conn.settle position stream.id rc submitRc).running = none := by
  have calm : conn.Keeps conn.idle := ⟨rfl, rfl, rfl, rfl, rfl⟩
  rw [settle_eq_apply distinct found]
  split
  · exact ⟨calm.trans (keeps_apply fun _ => rfl), rfl⟩
  · refine ⟨calm.trans (keeps_apply fun stream => ?_), rfl⟩
    unfold StreamCtx.respond
    split <;> rfl

/-- The connection inside a handler, after some of its calls. -/
def handling (conn : Conn) (position : Nat) (callId : StreamId) (entry : MethodEntry)
    (payload : Bytes) (calls : List ApiCall) : Conn :=
  let configured := conn.modifyAt position (applyBackpressure entry.backpressure)
  calls.foldl (fun conn call => (conn.api call).2) (configured.enter callId entry payload)

include distinct

theorem handling_lanes (idle : conn.running = none) (found : conn.streams[position]? = some stream)
    (complete : stream.state = .complete) (entry : MethodEntry) (payload : Bytes)
    (calls : List ApiCall) :
    conn.Keeps (conn.handling position stream.id entry payload calls) ∧
      (conn.handling position stream.id entry payload calls).running = some stream.id ∧
      ∀ id, ReflTransGen (CallStep id) (conn.lane id)
        ((conn.handling position stream.id entry payload calls).lane id) := by
  have looked := findStream_of_getElem? distinct found
  -- the method's backpressure is applied first
  let configured := conn.modifyAt position (applyBackpressure entry.backpressure)
  have kept := applyBackpressure_id entry.backpressure
  have applied : configured = conn.apply stream.id (applyBackpressure entry.backpressure) [] := by
    rw [apply_nil, ← modifyAt_eq_modify distinct found]
  have chosen : CallStep stream.id (conn.lane stream.id)
      ((conn.lane stream.id).put (applyBackpressure entry.backpressure stream) []) := by
    unfold applyBackpressure
    split
    · exact .configured looked stream.cancelHook stream.out.backpressure
    · exact .configured looked stream.cancelHook _
  have before : conn.Acts CallStep configured := applied ▸ acts_apply kept (by simp) looked chosen
  have here : configured.findStream stream.id =
      some (applyBackpressure entry.backpressure stream) := by
    change (configured.lane stream.id).ctx = _
    rw [applied, lane_apply_self kept (by simp) looked]
    rfl
  -- then the handler runs
  let entered := configured.enter stream.id entry payload
  have acts : entered.Acts CallStep (conn.handling position stream.id entry payload calls) :=
    entered.calls_act calls
  have entering : configured.Keeps entered := ⟨rfl, rfl, rfl, rfl, rfl⟩
  refine ⟨(before.toKeeps.trans entering).trans acts.toKeeps, acts.running, fun id => ?_⟩
  refine (before.lanes id).trans ?_
  by_cases same : id = stream.id
  · subst same
    refine ReflTransGen.trans (.single ?_) (acts.lanes stream.id)
    rw [lane_enter_self configured stream.id entry payload here]
    refine .invoked here ?_ ?_ entry.handler entry.userData payload
    · unfold applyBackpressure
      split <;> exact complete
    · simp [lane, before.running, idle]
  · have unchanged := lane_enter_other configured stream.id entry payload
      (before.running.trans idle) same
    exact unchanged ▸ acts.lanes id

theorem serve_acts (idle : conn.running = none) (found : conn.streams[position]? = some stream)
    (complete : stream.state = .complete) (entry : MethodEntry) (payload : Bytes) (run : HandlerRun)
    (submitRc : Int) :
    conn.Acts CallStep (conn.serve position stream.id entry payload run submitRc) := by
  let ran := conn.handling position stream.id entry payload run.calls
  obtain ⟨keeps, entered, lanes⟩ :=
    handling_lanes distinct idle found complete entry payload run.calls
  have spread : ran.Distinct := keeps.distinct distinct
  obtain ⟨later, placed, named⟩ := keeps.position found
  have running : ran.running = some later.id := by rw [named, entered]
  have settled := settle_keeps spread placed run.rc submitRc
  have served : conn.serve position stream.id entry payload run submitRc =
      ran.settle position later.id run.rc submitRc := by rw [named]; rfl
  rw [served]
  refine ⟨keeps.trans settled.1, settled.2.trans idle.symm, fun id => ?_⟩
  exact (lanes id).trans (settle_lanes spread placed running run.rc submitRc id)

theorem dispatchStream_acts (idle : conn.running = none)
    (found : conn.streams[position]? = some stream) (complete : stream.state = .complete)
    (env : DispatchEnv) :
    conn.Acts CallStep (conn.dispatchStream env position stream) := by
  have refused := refuse_acts distinct idle found complete
  unfold dispatchStream
  split
  · exact refused _ _
  · dsimp only
    split
    · exact refused _ _
    · split
      · exact refused _ _
      · exact serve_acts distinct idle found complete _ _ _ _

omit distinct

theorem dispatchAt_acts (env : DispatchEnv) (progress : Nat × Conn) (position : Nat)
    (distinct : progress.2.Distinct) (idle : progress.2.running = none) :
    progress.2.Acts CallStep (dispatchAt env progress position).2 := by
  unfold dispatchAt
  cases found : progress.2.streams[position]? with
  | none => exact .refl _
  | some stream =>
      by_cases complete : stream.state = .complete
      · simpa [complete] using dispatchStream_acts distinct idle found complete env
      · simpa [complete] using Acts.refl progress.2

/-- Turns of the dispatch loop at any positions. -/
theorem turns_act (env : DispatchEnv) (positions : List Nat) (progress : Nat × Conn)
    (distinct : progress.2.Distinct) (idle : progress.2.running = none) :
    progress.2.Acts CallStep (positions.foldl (dispatchAt env) progress).2 := by
  induction positions generalizing progress with
  | nil => exact .refl _
  | cons position rest ih =>
      have acts := dispatchAt_acts env progress position distinct idle
      exact acts.trans
        (ih _ (acts.distinct distinct) (acts.running.trans idle))

theorem dispatch_acts (conn : Conn) (env : DispatchEnv) (distinct : conn.Distinct)
    (idle : conn.running = none) : conn.Acts CallStep (conn.dispatch env).2 :=
  turns_act env _ (0, conn) distinct idle

end Conn

end GrpcUds.Server
