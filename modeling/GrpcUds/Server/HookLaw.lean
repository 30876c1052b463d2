import GrpcUds.Server.Finish
import GrpcUds.Server.Hooks

/-!
# Every step of a connection obeys the law of its hooks

The phase of a stream is read off its lane.  An operation advances a lane by a
list of marks when it fires nothing and the marks lead from the old phase to
the new one.  Only a deadline sweep and a close fire hooks.
-/

namespace GrpcUds.Server

open Transition Relation

variable {stream : StreamCtx} {id : StreamId}

namespace Lane

structure Advances (id : StreamId) (lane : Lane) (marks : List HookEvent) (next : Lane) :
    Prop where
  silent : ∃ effects, next.log = lane.log ++ effects ∧ effects.filterMap Effect.asFired = []
  phase : run Phase.next (lane.phase id) marks = some (next.phase id)

variable {id : StreamId} {lane next : Lane} {marks : List HookEvent} {effects : List Effect}

namespace Advances

theorem refl (id : StreamId) (lane : Lane) : lane.Advances id [] lane :=
  ⟨⟨[], by simp⟩, rfl⟩

theorem trans {later : Lane} {more : List HookEvent} (before : lane.Advances id marks next)
    (after : next.Advances id more later) : lane.Advances id (marks ++ more) later := by
  obtain ⟨first, log, none⟩ := before.silent
  obtain ⟨second, logMore, noneMore⟩ := after.silent
  refine ⟨⟨first ++ second, by rw [logMore, log, List.append_assoc], ?_⟩, ?_⟩
  · rw [List.filterMap_append, none, noneMore]
    rfl
  · rw [run_append, before.phase]
    exact after.phase

/-- The context is the same. -/
theorem of_ctx (same : next.ctx = lane.ctx) (log : next.log = lane.log ++ effects)
    (silent : effects.filterMap Effect.asFired = []) (unopened : .opened id ∉ effects) :
    lane.Advances id [] next := by
  refine ⟨⟨effects, log, silent⟩, ?_⟩
  have opened : .opened id ∈ next.log ↔ .opened id ∈ lane.log := by simp [log, unopened]
  simp [Lane.phase, same, opened]

/-- An open stream changes. -/
theorem of_put {changed : StreamCtx} (found : lane.ctx = some stream)
    (silent : effects.filterMap Effect.asFired = [])
    (law : run Phase.next (.live stream.cancelHook stream.out.finished) marks =
      some (.live changed.cancelHook changed.out.finished)) :
    lane.Advances id marks (lane.put changed effects) :=
  ⟨⟨effects, rfl, silent⟩, by simpa [Lane.phase, found] using law⟩

end Advances

end Lane

theorem filterMap_asFired_eq_nil {effects : List Effect}
    (silent : ∀ effect ∈ effects, effect.asFired = none) :
    effects.filterMap Effect.asFired = [] :=
  List.filterMap_eq_nil_iff.mpr silent

theorem resumeEffects_asFired (id : StreamId) (stream : StreamCtx) :
    (resumeEffects id stream).filterMap Effect.asFired = [] :=
  filterMap_asFired_eq_nil fun _ membership => Conn.mem_resumeEffects membership ▸ rfl

theorem hookEffects_asFired (id : StreamId) (hook : Option CancelHook) :
    (hookEffects id hook).filterMap Effect.asFired = hook.toList := by
  cases hook <;> rfl

theorem promiseFront_finished (queue : OutQueue) (length : Nat) :
    (queue.promiseFront length).2.finished = queue.finished := by
  unfold OutQueue.promiseFront
  dsimp only
  split <;> rfl

/-- Sending leaves the hook alone. -/
theorem TransportStep.advances {lane next : Lane} (step : TransportStep id lane next) :
    lane.Advances id [] next := by
  cases step with
  | promised found length readable =>
      exact .of_put found rfl (by simp [promiseFront_finished])
  | copied found length readable => exact .of_put found rfl rfl
  | trailed found room readable nothing finished rc => exact .of_put found rfl rfl
  | paused found room readable nothing unfinished => exact .of_put found rfl rfl
  | missed absent readable => exact .of_ctx rfl rfl rfl (by simp)
  | consumed found length => exact .of_put found rfl rfl

theorem TransportStep.advances_all {lane next : Lane}
    (steps : ReflTransGen (TransportStep id) lane next) : lane.Advances id [] next := by
  induction steps with
  | refl => exact .refl id lane
  | tail _ step ih => exact ih.trans step.advances

namespace Conn

variable {change : StreamCtx → StreamCtx} {conn : Conn}

/-- A change of one stream, seen by every stream. -/
theorem apply_advances {target : StreamId} {effects : List Effect} {marks : List HookEvent}
    (kept : ∀ stream, (change stream).id = stream.id)
    (about : ∀ effect ∈ effects, effect.id = target) (found : conn.findStream target = some stream)
    (silent : effects.filterMap Effect.asFired = [])
    (law : run Phase.next (.live stream.cancelHook stream.out.finished) marks =
      some (.live (change stream).cancelHook (change stream).out.finished)) (id : StreamId) :
    (conn.lane id).Advances id (if target = id then marks else [])
      ((conn.apply target change effects).lane id) := by
  by_cases same : target = id
  · subst same
    rw [lane_apply_self kept about found, if_pos rfl]
    exact .of_put found silent law
  · rw [lane_apply_other kept about (Ne.symm same), if_neg same]
    exact .refl id _

/-- A change that leaves the hook and the finish alone. -/
theorem apply_advances_nil {target : StreamId} {effects : List Effect}
    (kept : ∀ stream, (change stream).id = stream.id)
    (about : ∀ effect ∈ effects, effect.id = target) (found : conn.findStream target = some stream)
    (silent : effects.filterMap Effect.asFired = [])
    (hook : (change stream).cancelHook = stream.cancelHook)
    (finished : (change stream).out.finished = stream.out.finished) (id : StreamId) :
    (conn.lane id).Advances id [] ((conn.apply target change effects).lane id) := by
  have law : run Phase.next (.live stream.cancelHook stream.out.finished) [] =
      some (.live (change stream).cancelHook (change stream).out.finished) := by
    rw [hook, finished]
    rfl
  have advances := apply_advances kept about found silent law id
  rwa [ite_self] at advances

/-! ### The call API -/

theorem writeCallWith_advances (conn : Conn) (target : StreamId)
    {enqueue : OutQueue → Except ConnError Unit × OutQueue} {body : Bytes}
    (spec : ∀ out, OutQueue.Enqueued out body (enqueue out).1 (enqueue out).2) (id : StreamId) :
    (conn.lane id).Advances id [] ((conn.writeCallWith target enqueue).2.lane id) := by
  unfold writeCallWith
  cases found : conn.findStream target with
  | none => exact .refl id _
  | some stream =>
      cases unfinished : stream.out.finished with
      | true => simpa [unfinished] using Lane.Advances.refl id (conn.lane id)
      | false =>
          let write := fun stream : StreamCtx => { stream with out := (enqueue stream.out).2 }
          have kept : ∀ stream, (write stream).id = stream.id := fun _ => rfl
          have same : (write stream).out.finished = stream.out.finished :=
            (sameFinish_of_enqueued (spec stream.out)).1
          simp only [unfinished, Bool.false_eq_true, if_false]
          cases (enqueue stream.out).1 with
          | error error =>
              rw [← apply_nil]
              exact apply_advances_nil kept (by simp) found rfl rfl same id
          | ok =>
              have stored := resumeIfStarted_apply conn target write [] (write stream)
              rw [apply_nil, List.nil_append] at stored
              dsimp only
              rw [stored]
              exact apply_advances_nil kept
                (fun effect membership => mem_resumeEffects membership ▸ rfl) found
                (resumeEffects_asFired _ _) rfl same id

theorem finishCallInner_advances (conn : Conn) (target : StreamId) (status : GrpcStatus)
    (message : Option Bytes) (id : StreamId) :
    (conn.lane id).Advances id
      (if (conn.finishCallInner target status message).1.isOk then
        if target = id then [.finish] else []
      else [])
      ((conn.finishCallInner target status message).2.lane id) := by
  unfold finishCallInner
  cases found : conn.findStream target with
  | none => exact .refl id _
  | some stream =>
      let finish := fun stream : StreamCtx =>
        { stream with out := stream.out.finish status message }
      have kept : ∀ stream, (finish stream).id = stream.id := fun _ => rfl
      have finished : (finish stream).out.finished = true := by
        simp only [finish, OutQueue.finish]
        split <;> simp_all
      have about : ∀ effect ∈ .finish target status message ::
          resumeEffects target (finish stream), effect.id = target := by
        intro effect membership
        rcases List.mem_cons.mp membership with rfl | resumed
        · rfl
        · exact mem_resumeEffects resumed ▸ rfl
      have stored := resumeIfStarted_apply conn target finish [.finish target status message]
        (finish stream)
      rw [List.singleton_append] at stored
      have law : run Phase.next (.live stream.cancelHook stream.out.finished)
          [.finish] = some (.live (finish stream).cancelHook (finish stream).out.finished) := by
        rw [finished]
        rfl
      have advances := apply_advances kept about found
        (resumeEffects_asFired target (finish stream)) law id
      rw [← stored] at advances
      exact advances

theorem configure_advances (conn : Conn) (target : StreamId) {marks : List HookEvent}
    (kept : ∀ stream, (change stream).id = stream.id) (law : ∀ stream : StreamCtx,
      run Phase.next (.live stream.cancelHook stream.out.finished) marks =
        some (.live (change stream).cancelHook (change stream).out.finished)) (id : StreamId) :
    (conn.lane id).Advances id
      (if (conn.configure target change).1.isOk then if target = id then marks else [] else [])
      ((conn.configure target change).2.lane id) := by
  unfold configure
  cases found : conn.findStream target with
  | none => exact .refl id _
  | some stream =>
      rw [← apply_nil]
      exact apply_advances kept (by simp) found rfl (law stream) id

theorem api_advances (conn : Conn) (call : ApiCall) (id : StreamId) :
    (conn.lane id).Advances id (conn.callEvents id call) ((conn.api call).2.lane id) := by
  have unmarked : call.hookEvents id = [] → conn.callEvents id call = [] := fun none => by
    rw [callEvents, none, ite_self]
  cases call with
  | writeCall target payload copy reserve =>
      rw [unmarked rfl]
      exact writeCallWith_advances conn target
        (fun out => out.enqueueFramed_spec payload copy reserve) id
  | writeCallOwned target payload reserve =>
      rw [unmarked rfl]
      exact writeCallWith_advances conn target
        (fun out => out.enqueueOwned_spec payload reserve) id
  | finishCall target status => exact finishCallInner_advances conn target status none id
  | finishCallMsg target status message =>
      exact finishCallInner_advances conn target status (some message) id
  | setCancelHook target hook =>
      let install := fun stream : StreamCtx => { stream with cancelHook := some hook }
      have kept : ∀ stream, (install stream).id = stream.id := fun _ => rfl
      have law : ∀ stream : StreamCtx,
          run Phase.next (.live stream.cancelHook stream.out.finished)
            [.installed hook] =
              some (.live (install stream).cancelHook (install stream).out.finished) :=
        fun _ => rfl
      exact configure_advances conn target kept law id
  | setStreamPolicy target backpressure =>
      let limit := fun stream : StreamCtx =>
        { stream with out := { stream.out with backpressure := backpressure } }
      have kept : ∀ stream, (limit stream).id = stream.id := fun _ => rfl
      have advances := configure_advances conn target kept (fun _ => run_nil _) id
      rw [ite_self, ite_self] at advances
      rw [unmarked rfl]
      exact advances

theorem calls_advance (calls : List ApiCall) (conn : Conn) (id : StreamId) :
    (conn.lane id).Advances id (callsEvents id conn calls)
      ((calls.foldl (fun conn call => (conn.api call).2) conn).lane id) := by
  induction calls generalizing conn with
  | nil => exact .refl id _
  | cons call rest ih =>
      exact (conn.api_advances call id).trans (ih (conn.api call).2)

/-! ### Dispatch -/

theorem respond_cancelHook (stream : StreamCtx) (rc : Int) (failed : StreamState) :
    (stream.respond rc failed).cancelHook = stream.cancelHook := by
  unfold StreamCtx.respond
  split <;> rfl

theorem respond_finished (stream : StreamCtx) (rc : Int) (failed : StreamState) :
    (stream.respond rc failed).out.finished = stream.out.finished := by
  unfold StreamCtx.respond
  split <;> rfl

theorem respond_id (stream : StreamCtx) (rc : Int) (failed : StreamState) :
    (stream.respond rc failed).id = stream.id := by
  unfold StreamCtx.respond
  split <;> rfl

theorem refuse_advances (distinct : conn.Distinct) {position : Nat}
    (found : conn.streams[position]? = some stream) (status : GrpcStatus) (rc : Int) (id : StreamId)
    :
    
    (conn.lane id).Advances id (if stream.id = id then [.concluded] else [])
      ((conn.refuse position stream.id status rc).lane id) := by
  have about : ∀ effect ∈ [Effect.refused stream.id status, .submitResponse stream.id rc],
      effect.id = stream.id := by simp [Effect.id]
  have kept : ∀ stream : StreamCtx,
      ((finalizeError status stream).respond rc .dispatched).id = stream.id :=
    fun _ => respond_id _ _ _
  rw [refuse_eq_apply distinct found]
  apply apply_advances kept about (findStream_of_getElem? distinct found) rfl
  rw [respond_cancelHook, respond_finished]
  rfl

/-- A handler's error code finishes a call that is not finished. -/
theorem concludeHandler_law (rc : Int) (stream : StreamCtx) :
    run Phase.next (.live stream.cancelHook stream.out.finished)
        (if rc ≠ 0 then [.concluded] else []) =
      some (.live (concludeHandler rc stream).cancelHook
        (concludeHandler rc stream).out.finished) := by
  by_cases failed : rc = 0
  · simp [failed, concludeHandler]
  · cases finished : stream.out.finished <;>
      simp [failed, concludeHandler, finished, Phase.next]

theorem settle_advances (distinct : conn.Distinct) {position : Nat}
    (found : conn.streams[position]? = some stream) (rc submitRc : Int) (id : StreamId) :
    (conn.lane id).Advances id (if stream.id = id ∧ rc ≠ 0 then [.concluded] else [])
      ((conn.settle position stream.id rc submitRc).lane id) := by
  have resting : (conn.lane id).Advances id [] (conn.idle.lane id) :=
    .of_ctx rfl (List.append_nil _).symm rfl List.not_mem_nil
  have calm : conn.idle.findStream stream.id = some stream :=
    findStream_of_getElem? distinct found
  have marks : (if stream.id = id ∧ rc ≠ 0 then [HookEvent.concluded] else []) =
      if stream.id = id then if rc ≠ 0 then [.concluded] else [] else [] := by
    split <;> simp_all
  have law := concludeHandler_law rc stream
  rw [marks, settle_eq_apply distinct found]
  refine resting.trans ?_
  by_cases started : stream.out.responseStarted
  · have kept : ∀ stream, (concludeHandler rc stream).id = stream.id := fun _ => rfl
    have about : ∀ effect ∈ [Effect.returned stream.id rc], effect.id = stream.id := by
      simp [Effect.id]
    rw [if_pos started]
    exact apply_advances kept about calm rfl law id
  · have kept : ∀ stream : StreamCtx,
        ((concludeHandler rc stream).respond submitRc .cancelled).id = stream.id :=
      fun _ => respond_id _ _ _
    have about : ∀ effect ∈ [Effect.returned stream.id rc, .submitResponse stream.id submitRc],
        effect.id = stream.id := by simp [Effect.id]
    rw [if_neg started]
    apply apply_advances kept about calm rfl
    rw [respond_cancelHook, respond_finished]
    exact law

theorem enterAt_advances (distinct : conn.Distinct) {position : Nat}
    (found : conn.streams[position]? = some stream) (entry : MethodEntry) (payload : Bytes)
    (id : StreamId) :
    (conn.lane id).Advances id []
      ((conn.enterAt position stream.id entry payload).lane id) := by
  have kept := applyBackpressure_id entry.backpressure
  have configured : (conn.lane id).Advances id []
      ((conn.modifyAt position (applyBackpressure entry.backpressure)).lane id) := by
    rw [modifyAt_eq_modify distinct found, ← apply_nil]
    refine apply_advances_nil kept (by simp) (findStream_of_getElem? distinct found) rfl ?_ ?_ id
    all_goals
      unfold applyBackpressure
      split <;> rfl
  refine configured.trans ?_
  refine .of_ctx rfl (List.filter_append _ _) ?_ ?_
  · by_cases same : stream.id = id <;> simp [Effect.id, Effect.asFired, same]
  · by_cases same : stream.id = id <;> simp [Effect.id, same]

theorem enterAt_keeps (distinct : conn.Distinct) {position : Nat}
    (found : conn.streams[position]? = some stream) (entry : MethodEntry) (payload : Bytes) :
    conn.Keeps (conn.enterAt position stream.id entry payload) := by
  have kept := applyBackpressure_id entry.backpressure
  have configured : conn.Keeps
      (conn.modifyAt position (applyBackpressure entry.backpressure)) := by
    rw [modifyAt_eq_modify distinct found, ← apply_nil]
    exact keeps_apply kept
  exact configured.trans ⟨rfl, rfl, rfl, rfl, rfl⟩

theorem dispatchAt_advances (env : DispatchEnv) (progress : Nat × Conn) (position : Nat)
    (distinct : progress.2.Distinct) (id : StreamId) :
    (progress.2.lane id).Advances id (turnEvents id env progress.2 position)
      ((dispatchAt env progress position).2.lane id) := by
  unfold dispatchAt turnEvents
  cases found : progress.2.streams[position]? with
  | none => exact .refl id _
  | some stream =>
      by_cases complete : stream.state = .complete
      · simp only [complete, ne_eq, not_true_eq_false, if_false]
        rw [dispatchStream_eq_verdict]
        cases progress.2.verdict stream with
        | refuse status => exact refuse_advances distinct found status _ id
        | call entry payload =>
            let entered := progress.2.enterAt position stream.id entry payload
            let run := env.handler position
            have entering := enterAt_advances distinct found entry payload id
            have keeps := (enterAt_keeps distinct found entry payload).trans
              (entered.calls_act run.calls).toKeeps
            obtain ⟨later, placed, named⟩ := keeps.position found
            have settling := settle_advances (keeps.distinct distinct) placed run.rc
              (env.submitRc position) id
            rw [named] at settling
            exact entering.trans ((calls_advance run.calls entered id).trans settling)
      · simpa [complete] using Lane.Advances.refl id (progress.2.lane id)

theorem pass_advances (env : DispatchEnv) (positions : List Nat) (progress : Nat × Conn)
    (distinct : progress.2.Distinct) (idle : progress.2.running = none) (id : StreamId) :
    (progress.2.lane id).Advances id (passEvents id env progress positions)
      ((positions.foldl (dispatchAt env) progress).2.lane id) := by
  induction positions generalizing progress with
  | nil => exact .refl id _
  | cons position rest ih =>
      have acts := dispatchAt_acts env progress position distinct idle
      exact (dispatchAt_advances env progress position distinct id).trans
        (ih _ (acts.distinct distinct) (acts.running.trans idle))

/-! ### The deadline sweep -/

/-- What a sweep that has ended the calls `ids` did to one stream: nothing, or it
took the hook of an unfinished call and ran it. -/
def Swept (id : StreamId) (start : Lane) (ids : List StreamId) (lane : Lane) : Prop :=
  if id ∈ ids then
    ∃ hook stream effects, start.phase id = .live hook false ∧ lane.ctx = some stream ∧
      stream.cancelHook = none ∧ stream.out.finished = false ∧ stream.deadlineMs = none ∧
      lane.log = start.log ++ effects ∧ effects.filterMap Effect.asFired = hook.toList
  else start.Advances id [] lane

theorem expireAt_swept {start : Conn} {now : Nat} {progress : Conn × List StreamId} (position : Nat)
    (distinct : progress.1.Distinct)
    (swept : Swept id (start.lane id) progress.2 (progress.1.lane id)) :
    Swept id (start.lane id) (expireAt now progress position).2
      ((expireAt now progress position).1.lane id) := by
  unfold expireAt
  split
  · exact swept
  cases found : progress.1.streams[position]? with
  | none => exact swept
  | some stream =>
      by_cases due : stream.due now
      · have looked := findStream_of_getElem? distinct found
        have kept : ∀ stream : StreamCtx, stream.disarm.id = stream.id := fun _ => rfl
        simp only [due, if_true, fireHook_modifyAt distinct found]
        by_cases same : id = stream.id
        · have unfinished : stream.out.finished = false ∧ stream.deadlineMs ≠ none := by
            unfold StreamCtx.due at due
            cases armed : stream.deadlineMs <;> simp_all
          -- a call the sweep has ended has no deadline left, so it is not due again
          have first : id ∉ progress.2 := by
            intro ended
            rw [Swept, if_pos ended] at swept
            obtain ⟨_, current, _, _, present, _, _, disarmed, _⟩ := swept
            rw [same] at present
            obtain rfl : stream = current := by simpa [lane, looked] using present
            exact unfinished.2 disarmed
          rw [Swept, if_neg first] at swept
          obtain ⟨before, log, none⟩ := swept.silent
          have phase : (start.lane id).phase id = .live stream.cancelHook false := by
            have ending := swept.phase
            rw [same] at ending ⊢
            simpa [Lane.phase, lane, looked, unfinished.1] using ending
          rw [Swept, if_pos (by simp [same])]
          refine ⟨stream.cancelHook, stream.disarm,
            before ++ hookEffects stream.id stream.cancelHook,
            phase, ?_, rfl, unfinished.1, rfl, ?_, ?_⟩
          · rw [same, lane_apply_self kept hookEffects_id looked, Lane.put_ctx]
          · rw [same] at log ⊢
            rw [lane_apply_self kept hookEffects_id looked, Lane.put_log, log, List.append_assoc]
          · rw [List.filterMap_append, none, hookEffects_asFired, List.nil_append]
        · rw [lane_apply_other kept hookEffects_id same]
          simpa [Swept, same] using swept
      · simpa [due] using swept

theorem sweep_swept {start : Conn} {now : Nat} (positions : List Nat)
    (progress : Conn × List StreamId) (distinct : progress.1.Distinct)
    (swept : Swept id (start.lane id) progress.2 (progress.1.lane id)) :
    Swept id (start.lane id) (positions.foldl (expireAt now) progress).2
      ((positions.foldl (expireAt now) progress).1.lane id) := by
  induction positions generalizing progress with
  | nil => exact swept
  | cons position rest ih =>
      exact ih _ ((expireAt_acts now progress position distinct).distinct distinct)
        (expireAt_swept position distinct swept)

/-- The finish calls that conclude a sweep. -/
def expiryCalls (ids : List StreamId) : List ApiCall :=
  ids.map fun id => .finishCallMsg id .deadlineExceeded (Headers.ascii "deadline exceeded")

theorem callsEvents_expiryCalls_of_not_mem {ids : List StreamId} (absent : id ∉ ids) (conn : Conn) :
    callsEvents id conn (expiryCalls ids) = [] := by
  induction ids generalizing conn with
  | nil => rfl
  | cons first rest ih =>
      obtain ⟨different, later⟩ : id ≠ first ∧ id ∉ rest := by simpa using absent
      rw [expiryCalls, List.map_cons, callsEvents, ← expiryCalls, ih later]
      simp [callEvents, ApiCall.hookEvents, Ne.symm different]

/-- The calls finish an open stream among them and leave its slot alone. -/
theorem run_callsEvents_expiryCalls (ids : List StreamId) (present : (conn.findStream id).isSome)
    (hook : Option CancelHook) (finished : Bool) :
    run Phase.next (.live hook finished) (callsEvents id conn (expiryCalls ids)) =
      some (.live hook (finished || decide (id ∈ ids))) := by
  induction ids generalizing conn finished with
  | nil => simp [expiryCalls, callsEvents]
  | cons first rest ih =>
      have kept := (conn.api_acts (.finishCallMsg first .deadlineExceeded
        (Headers.ascii "deadline exceeded"))).toKeeps.ids
      have still : (((conn.api (.finishCallMsg first .deadlineExceeded
          (Headers.ascii "deadline exceeded"))).2).findStream id).isSome := by
        rw [findStream, Table.isSome_lookup, kept, ← Table.isSome_lookup]
        exact present
      rw [expiryCalls, List.map_cons, callsEvents, ← expiryCalls, run_append]
      by_cases same : first = id
      · subst same
        obtain ⟨stream, found⟩ := Option.isSome_iff_exists.mp present
        have marked : callEvents first conn (.finishCallMsg first .deadlineExceeded
            (Headers.ascii "deadline exceeded")) = [.finish] := by
          simp [callEvents, api, finishCallMsg, finishCallInner, found, ApiCall.hookEvents,
            Except.isOk, Except.toBool]
        rw [marked]
        simpa [Phase.next] using ih still true
      · have unmarked : callEvents id conn (.finishCallMsg first .deadlineExceeded
            (Headers.ascii "deadline exceeded")) = [] := by
          simp [callEvents, ApiCall.hookEvents, same]
        rw [unmarked]
        simpa [Ne.symm same] using ih still finished

theorem firedSince_eq {next : Conn} {effects : List Effect}
    (log : next.logOf id = conn.logOf id ++ effects) :
    conn.firedSince id next = effects.filterMap Effect.asFired := by
  rw [firedSince, log, List.drop_left]

/-- One event leads a stream from phase to phase. -/
def Lawful (id : StreamId) (conn : Conn) (event : ConnEvent) : Prop :=
  run Phase.next ((conn.lane id).phase id) (conn.hookEvents id event) =
    some (((conn.perform event).lane id).phase id)

theorem lawful_of_advances {event : ConnEvent}
    (advances : (conn.lane id).Advances id (conn.hookMarks id event)
      ((conn.perform event).lane id)) : conn.Lawful id event := by
  obtain ⟨effects, log, none⟩ := advances.silent
  rw [Lawful, hookEvents, firedSince_eq log, none, List.map_nil, List.append_nil]
  exact advances.phase

theorem expireDeadlines_lawful (distinct : conn.Distinct) (now : Nat) (id : StreamId) :
    conn.Lawful id (.expireDeadlines now) := by
  let swept := (List.range conn.streams.length).foldl (expireAt now) (conn, [])
  have sweep : Swept id (conn.lane id) swept.2 (swept.1.lane id) := by
    apply sweep_swept _ (conn, []) distinct
    simpa [Swept] using Lane.Advances.refl id (conn.lane id)
  have after : conn.expireDeadlines now =
      (expiryCalls swept.2).foldl (fun conn call => (conn.api call).2) swept.1 := by
    rw [expiryCalls, List.foldl_map]
    rfl
  have finishes := calls_advance (expiryCalls swept.2) swept.1 id
  rw [← after] at finishes
  by_cases ended : id ∈ swept.2
  · rw [Swept, if_pos ended] at sweep
    obtain ⟨hook, stream, effects, phase, present, emptied, unfinished, _, log, fired⟩ := sweep
    obtain ⟨more, logMore, silent⟩ := finishes.silent
    have found : swept.1.findStream id = some stream := present
    have phaseMore := finishes.phase
    have resting : (swept.1.lane id).phase id = .live none false := by
      simp [Lane.phase, present, emptied, unfinished]
    rw [resting, run_callsEvents_expiryCalls swept.2 (by rw [found]; rfl)] at phaseMore
    have marks : conn.hookMarks id (.expireDeadlines now) = [.expired] := if_pos ended
    have firings : conn.firedSince id (conn.expireDeadlines now) = hook.toList := by
      have joined : (conn.expireDeadlines now).logOf id = conn.logOf id ++ (effects ++ more) := by
        rw [← List.append_assoc]
        exact logMore.trans (congrArg (· ++ more) log)
      rw [firedSince_eq joined, List.filterMap_append, fired, silent, List.append_nil]
    rw [Lawful, hookEvents, marks, phase]
    change run Phase.next _ ([.expired] ++
      (conn.firedSince id (conn.expireDeadlines now)).map .fired) =
        some (((conn.expireDeadlines now).lane id).phase id)
    rw [firings, ← phaseMore]
    cases hook <;> simp [Phase.next, ended]
  · rw [Swept, if_neg ended] at sweep
    have marks : conn.hookMarks id (.expireDeadlines now) = [] := if_neg ended
    rw [callsEvents_expiryCalls_of_not_mem ended] at finishes
    apply lawful_of_advances
    rw [marks]
    exact sweep.trans finishes

/-! ### Opening and closing -/

/-- Only a call, a pass, the close of the stream and its expiry say something about its hook. -/
theorem hookMarks_eq_nil {event : ConnEvent} (uncalled : ∀ call, event ≠ .api call)
    (undispatched : ∀ env, event ≠ .dispatch env)
    (stays : ∀ errorCode, event ≠ .streamClose id errorCode)
    (unexpired : ∀ now, event = .expireDeadlines now → id ∉ conn.expiring now) :
    conn.hookMarks id event = [] := by
  cases event with
  | api call => exact absurd rfl (uncalled call)
  | dispatch env => exact absurd rfl (undispatched env)
  | expireDeadlines now => exact if_neg (unexpired now rfl)
  | streamClose closing errorCode =>
      refine if_neg fun same => ?_
      exact stays errorCode (same ▸ rfl)
  | _ => rfl

theorem beginHeaders_advances (wellFormed : conn.WellFormed) {hd : FrameHd}
    (fresh : .opened hd.streamId ∉ conn.logOf hd.streamId) (reserve : Bool) (id : StreamId) :
    (conn.lane id).Advances id [] ((conn.onBeginHeaders hd reserve).2.lane id) := by
  rcases conn.onBeginHeaders_cases hd reserve with idle | pushed
  · rw [idle]
    exact .refl id _
  rw [pushed]
  by_cases same : id = hd.streamId
  · subst same
    have missing := findStream_of_unopened wellFormed.opened fresh
    have absent : (conn.lane hd.streamId).ctx = none := missing
    have unopened : .opened hd.streamId ∉ (conn.lane hd.streamId).log := fresh
    rw [lane_pushStream_self missing]
    refine ⟨⟨[.opened hd.streamId], rfl, rfl⟩, ?_⟩
    simp [Lane.phase, absent, unopened, StreamCtx.new, OutQueue.new]
  · rw [lane_pushStream_other same]
    exact .refl id _

theorem streamClose_lawful (wellFormed : conn.WellFormed) (closing : StreamId) (errorCode : Nat)
    (id : StreamId) : conn.Lawful id (.streamClose closing errorCode) := by
  cases found : conn.findStream closing with
  | none =>
      have marks : conn.hookMarks id (.streamClose closing errorCode) = [] := by
        simp only [hookMarks]
        split
        next same => rw [← same, found]; rfl
        next => rfl
      have after : conn.perform (.streamClose closing errorCode) = conn := by
        simp [perform, onStreamClose, found]
      apply lawful_of_advances
      rw [marks, after]
      exact .refl id _
  | some stream =>
      let fired := if errorCode ≠ 0 then stream.cancelHook else none
      have after : conn.perform (.streamClose closing errorCode) =
          conn.dropStream closing errorCode fired := by
        simp [perform, onStreamClose, found, fired]
      by_cases same : id = closing
      · subst same
        have present : (conn.lane id).ctx = some stream := found
        have lane := @lane_dropStream_self conn id wellFormed.distinct errorCode fired
        have opened : .opened id ∈ (conn.lane id).log := wellFormed.opened_of_found found
        have marks : conn.hookMarks id (.streamClose id errorCode) =
            [.closed errorCode stream.out.finished] := by simp [hookMarks, found]
        have firings : conn.firedSince id (conn.dropStream id errorCode fired) = fired.toList := by
          rw [firedSince_eq (congrArg Lane.log lane)]
          exact (List.filterMap_cons_none rfl).trans (hookEffects_asFired id fired)
        rw [Lawful, hookEvents, marks, after, firings, lane]
        by_cases clean : errorCode = 0 <;> cases hook : stream.cancelHook <;>
          simp [Lane.phase, present, opened, fired, clean, hook, Phase.next]
      · have marks : conn.hookMarks id (.streamClose closing errorCode) = [] :=
          if_neg (Ne.symm same)
        apply lawful_of_advances
        rw [marks, after, lane_dropStream_other wellFormed.distinct errorCode fired same]
        exact .refl id _

/-! ### Every event -/

theorem modify_advances (conn : Conn) {target : StreamId}
    (found : conn.findStream target = some stream)
    (same : ∀ stream, (change stream).id = stream.id ∧
      (change stream).cancelHook = stream.cancelHook ∧
      (change stream).out.finished = stream.out.finished) (id : StreamId) :
    (conn.lane id).Advances id [] ((conn.modify target change).lane id) := by
  obtain ⟨_, hook, finished⟩ := same stream
  rw [← apply_nil]
  exact apply_advances_nil (fun stream => (same stream).1) (by simp) found rfl hook finished id

theorem onHeader_advances (conn : Conn) (target : StreamId) (name value : Bytes) (now : Nat)
    (reserve : Bool) (id : StreamId) :
    (conn.lane id).Advances id [] ((conn.onHeader target name value now reserve).2.lane id) := by
  unfold onHeader
  cases found : conn.findStream target with
  | none => exact .refl id _
  | some stream =>
      dsimp only
      split
      · split
        · exact .refl id _
        · exact conn.modify_advances found (by simp) id
      · split
        · exact conn.modify_advances found (by simp) id
        · exact .refl id _

theorem onFrameRecv_advances (conn : Conn) (hd : FrameHd) (id : StreamId) :
    (conn.lane id).Advances id [] ((conn.onFrameRecv hd).lane id) := by
  unfold onFrameRecv
  cases found : conn.findStream hd.streamId with
  | none => exact .refl id _
  | some stream =>
      dsimp only
      split
      · let complete := fun stream : StreamCtx => { stream with state := StreamState.complete }
        have kept : ∀ stream, (complete stream).id = stream.id := fun _ => rfl
        have about : ∀ effect ∈ [Effect.endStream hd.streamId], effect.id = hd.streamId := by
          simp [Effect.id]
        exact apply_advances_nil kept about found rfl rfl rfl id
      · split
        · exact conn.modify_advances found (by simp) id
        · exact .refl id _

theorem onDataChunkRecv_advances (conn : Conn) (target : StreamId) (chunk : Bytes)
    (reserve : Bool) (id : StreamId) :
    (conn.lane id).Advances id [] ((conn.onDataChunkRecv target chunk reserve).2.lane id) := by
  unfold onDataChunkRecv
  cases found : conn.findStream target with
  | none => exact .refl id _
  | some stream =>
      dsimp only
      split
      · exact .refl id _
      · split
        · exact .refl id _
        · exact conn.modify_advances found (by simp) id

theorem perform_lawful (wellFormed : conn.WellFormed) {event : ConnEvent} (legal : conn.Legal event)
    (id : StreamId) : conn.Lawful id event := by
  cases event with
  | registerMethod entry copy reserve =>
      apply lawful_of_advances
      simp only [perform, registerMethodInner]
      split
      · exact .of_ctx rfl (List.append_nil _).symm rfl List.not_mem_nil
      · exact .refl id _
  | beginHeaders hd reserve =>
      exact lawful_of_advances (beginHeaders_advances wellFormed legal reserve id)
  | header target name value now reserve =>
      exact lawful_of_advances (conn.onHeader_advances target name value now reserve id)
  | frameRecv hd => exact lawful_of_advances (conn.onFrameRecv_advances hd id)
  | dataChunkRecv target chunk reserve =>
      exact lawful_of_advances (conn.onDataChunkRecv_advances target chunk reserve id)
  | streamClose closing errorCode => exact streamClose_lawful wellFormed closing errorCode id
  | api call => exact lawful_of_advances (conn.api_advances call id)
  | expireDeadlines now => exact expireDeadlines_lawful wellFormed.distinct now id
  | dispatch env =>
      exact lawful_of_advances
        (pass_advances env _ (0, conn) wellFormed.distinct wellFormed.idle id)
  | read target length trailerRc =>
      have acts := conn.dataProviderRead_acts target legal.1 legal.2 trailerRc
      exact lawful_of_advances (TransportStep.advances_all (acts.lanes id))
  | consumePromise target length =>
      have acts := conn.consumePromise_acts target length
      exact lawful_of_advances (TransportStep.advances_all (acts.lanes id))

end Conn

namespace Session

/-- What holds between two events of every session. -/
def Sound (session : Session) : Prop := session.conn.WellFormed

theorem newServer_sound (methods : List MethodEntry) (maxMessageLen : UInt32) (fd : Int) :
    (newServer methods maxMessageLen fd).Sound :=
  Conn.newServer_wellFormed methods maxMessageLen fd

/-- What a step of a session is. -/
inductive Steps (session : Session) : SessionEvent → Session → Prop where
  | conn (event : ConnEvent) (legal : session.conn.Legal event) :
      Steps session (.conn event) { session with conn := session.conn.perform event }
  | drop : Steps session .drop { session with dropped := true }

theorem step_inv {session next : Session} {event : SessionEvent}
    (performed : session.step event = some next) :
    session.dropped = false ∧ session.Steps event next := by
  cases open_ : session.dropped with
  | true => simp [step, open_] at performed
  | false =>
      refine ⟨rfl, ?_⟩
      cases event with
      | conn event =>
          obtain ⟨after, stepped, rfl⟩ : ∃ after, session.conn.step event = some after ∧
              { session with conn := after } = next := by simpa [step, open_] using performed
          obtain ⟨legal, rfl⟩ := Conn.step_eq_some_iff.mp stepped
          exact .conn event legal
      | drop =>
          obtain rfl : { session with dropped := true } = next := by
            simpa [step, open_] using performed
          exact .drop

theorem step_sound {session next : Session} {event : SessionEvent} (sound : session.Sound)
    (performed : session.step event = some next) : next.Sound := by
  obtain ⟨_, steps⟩ := step_inv performed
  cases steps with
  | conn event legal => exact (Conn.perform_moves sound legal).wellFormed
  | drop => exact sound

/-- The connection is not dropped while the call is open, unfinished and has a hook. -/
def DropsDisarmed (id : StreamId) (session : Session) : SessionEvent → Prop
  | .conn _ => True
  | .drop => ∀ stream, session.conn.findStream id = some stream →
      stream.out.finished = false → stream.cancelHook = none

end Session

end GrpcUds.Server
