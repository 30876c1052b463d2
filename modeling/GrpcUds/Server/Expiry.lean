import GrpcUds.Server.Finished
import GrpcUds.Server.Hooks

/-!
# The deadline sweep

A sweep takes the first eight streams that are due, in table order.  It disarms them and
runs their hooks, and then finishes them by id.  Written as one map over the table, this
gives what repeated sweeps at one clock reading do, and when `next_deadline_ms` asks for
another.
-/

namespace GrpcUds.Server

/-- The finish that a passed deadline asks for. -/
def StreamCtx.lapse (stream : StreamCtx) : StreamCtx :=
  { stream with
    out := stream.out.finish .deadlineExceeded (some (Headers.ascii "deadline exceeded")) }

/-- What the sweep does to a stream that is due. -/
def StreamCtx.expire (stream : StreamCtx) : StreamCtx := stream.disarm.lapse

/-- A finish after the first changes nothing. -/
theorem StreamCtx.lapse_lapse (stream : StreamCtx) : stream.lapse.lapse = stream.lapse := by
  unfold lapse OutQueue.finish
  by_cases finished : stream.out.finished <;> simp [finished]

/-- The first `room` streams that are due. -/
def firstDue (now room : Nat) (streams : List StreamCtx) : List StreamCtx :=
  (streams.filter (StreamCtx.due now)).take room

/-- The table after the first loop of the sweep. -/
def disarmFirst (now : Nat) : Nat → List StreamCtx → List StreamCtx
  | _, [] => []
  | 0, stream :: rest => stream :: rest
  | room + 1, stream :: rest =>
      if stream.due now then stream.disarm :: disarmFirst now room rest
      else stream :: disarmFirst now (room + 1) rest

theorem due_expire (now : Nat) (stream : StreamCtx) : stream.expire.due now = false := by
  simp [StreamCtx.due, StreamCtx.expire, StreamCtx.lapse, StreamCtx.disarm]

theorem modify_append_length (before : List StreamCtx) (stream : StreamCtx)
    (rest : List StreamCtx) (change : StreamCtx → StreamCtx) :
    (before ++ stream :: rest).modify before.length change = before ++ change stream :: rest := by
  induction before with
  | nil => rfl
  | cons head tail ih => simpa using ih

/-- The first loop as a map. -/
theorem disarmFirst_eq_map (now room : Nat) {streams : List StreamCtx} (distinct : streams.Nodup) :
    disarmFirst now room streams =
      streams.map fun stream =>
        if stream ∈ firstDue now room streams then stream.disarm else stream := by
  induction streams generalizing room with
  | nil => rfl
  | cons head tail ih =>
      obtain ⟨fresh, distinct⟩ := List.nodup_cons.mp distinct
      cases room with
      | zero => simp [disarmFirst, firstDue]
      | succ room =>
          by_cases due : head.due now
          · have chosen : firstDue now (room + 1) (head :: tail) =
                head :: firstDue now room tail := by simp [firstDue, due]
            rw [disarmFirst, if_pos due, ih room distinct, chosen, List.map_cons,
              if_pos List.mem_cons_self]
            congr 1
            apply List.map_congr_left
            intro stream membership
            have different : stream ≠ head := fun same => fresh (same ▸ membership)
            simp only [List.mem_cons, different, false_or]
          · have chosen : firstDue now (room + 1) (head :: tail) =
                firstDue now (room + 1) tail := by simp [firstDue, due]
            have spared : head ∉ firstDue now (room + 1) tail := by
              intro membership
              exact due (List.mem_filter.mp (List.mem_of_mem_take membership)).2
            rw [disarmFirst, if_neg due, ih (room + 1) distinct, chosen,
              List.map_cons, if_neg spared]

namespace Conn

/-- The streams that are due. -/
def dues (conn : Conn) (now : Nat) : List StreamCtx := conn.streams.filter (StreamCtx.due now)

/-- The remaining times of the dispatched, unfinished streams that have a deadline. -/
def remaining (conn : Conn) (now : Nat) : List Nat :=
  (((conn.streams.filter fun stream =>
    decide (stream.state = .dispatched) && !stream.out.finished).filterMap
      StreamCtx.deadlineMs)).map fun deadline => deadline - now

theorem fireHook_eq (conn : Conn) (id : StreamId) (hook : Option CancelHook) :
    conn.fireHook id hook = { conn with log := conn.log ++ hookEffects id hook } := by
  cases hook with
  | none => simp [fireHook, hookEffects]
  | some hook => rfl

variable {conn : Conn}

/-- The first loop from a position on. -/
theorem sweep_eq (now : Nat) (rest : List StreamCtx) {before : List StreamCtx} {ids : List StreamId}
    {room : Nat} (table : conn.streams = before ++ rest) (free : ids.length + room = maxExpired) :
    (List.range' before.length rest.length).foldl (expireAt now) (conn, ids) =
      ({ conn with
          streams := before ++ disarmFirst now room rest
          log := conn.log ++ (firstDue now room rest).flatMap fun stream =>
            hookEffects stream.id stream.cancelHook },
        ids ++ (firstDue now room rest).map StreamCtx.id) := by
  induction rest generalizing conn before ids room with
  | nil =>
      rw [List.append_nil] at table
      simp [disarmFirst, firstDue, ← table]
  | cons stream rest ih =>
      have placed : conn.streams[before.length]? = some stream := by simp [table]
      have shifted : before ++ stream :: rest = (before ++ [stream]) ++ rest := by simp
      rw [List.length_cons, List.range'_succ, List.foldl_cons]
      cases room with
      | zero =>
          have full : ids.length = maxExpired := free
          have skipped : expireAt now (conn, ids) before.length = (conn, ids) := by
            simp [expireAt, full]
          have later := ih (table.trans shifted) free
          rw [List.length_append, List.length_singleton] at later
          rw [skipped, later]
          cases rest <;> simp [disarmFirst, firstDue]
      | succ room =>
          have open_ : ids.length ≠ maxExpired := by omega
          by_cases due : stream.due now
          · have taken : expireAt now (conn, ids) before.length =
                ((conn.modifyAt before.length StreamCtx.disarm).fireHook stream.id
                  stream.cancelHook, ids ++ [stream.id]) := by
              simp [expireAt, open_, placed, due]
            let next : Conn := { conn with
              streams := (before ++ [stream.disarm]) ++ rest
              log := conn.log ++ hookEffects stream.id stream.cancelHook }
            have moved : (conn.modifyAt before.length StreamCtx.disarm).fireHook stream.id
                stream.cancelHook = next := by
              simp only [fireHook_eq, modifyAt, table, modify_append_length, next,
                List.append_assoc, List.singleton_append]
            have later := @ih next (before ++ [stream.disarm])
              (ids ++ [stream.id]) room rfl (by
                simp only [List.length_append, List.length_singleton]
                omega)
            rw [List.length_append, List.length_singleton] at later
            rw [taken, moved, later]
            simp [disarmFirst, firstDue, due, next]
          · have skipped : expireAt now (conn, ids) before.length = (conn, ids) := by
              simp [expireAt, placed, due]
            have later := ih (table.trans shifted) free
            rw [List.length_append, List.length_singleton] at later
            rw [skipped, later]
            simp [disarmFirst, firstDue, due]

/-- The streams that one sweep takes. -/
def expired (conn : Conn) (now : Nat) : List StreamCtx := firstDue now maxExpired conn.streams

/-- A finish by id, seen on the whole table. -/
theorem finishCallInner_streams (distinct : conn.Distinct) (id : StreamId) (status : GrpcStatus)
    (message : Option Bytes) :
    (conn.finishCallInner id status message).2.streams =
      conn.streams.map fun stream =>
        if stream.id = id then { stream with out := stream.out.finish status message }
        else stream := by
  unfold finishCallInner
  cases found : conn.findStream id with
  | none =>
      have absent := Table.lookup_eq_none_iff.mp found
      refine ((List.map_congr_left fun stream membership => ?_).trans (List.map_id _)).symm
      rw [if_neg (absent stream membership)]
      rfl
  | some stream =>
      simp only [resumeIfStarted_streams, emit]
      exact Table.update_eq_map distinct

/-- A finish fires no hook. -/
theorem finishCallInner_log (conn : Conn) (id : StreamId) (status : GrpcStatus)
    (message : Option Bytes) :
    ∃ effects, (conn.finishCallInner id status message).2.log = conn.log ++ effects ∧
      ∀ effect ∈ effects, effect.asFired = none := by
  unfold finishCallInner
  cases found : conn.findStream id with
  | none => exact ⟨[], by simp⟩
  | some stream =>
      simp only [resumeIfStarted, emit, modify]
      split
      · exact ⟨[.finish id status message, .resumeData id], by simp, by simp [Effect.asFired]⟩
      · exact ⟨[.finish id status message], rfl, by simp [Effect.asFired]⟩

/-- The second loop of the sweep. -/
def finishExpired (conn : Conn) (ids : List StreamId) : Conn :=
  ids.foldl (fun conn id =>
    (conn.finishCallMsg id .deadlineExceeded (Headers.ascii "deadline exceeded")).2) conn

theorem finishExpired_streams (distinct : conn.Distinct) (ids : List StreamId) :
    (conn.finishExpired ids).streams =
      conn.streams.map fun stream =>
        if stream.id ∈ ids then stream.lapse else stream := by
  induction ids generalizing conn with
  | nil => simp [finishExpired]
  | cons id rest ih =>
      let next := (conn.finishCallMsg id .deadlineExceeded (Headers.ascii "deadline exceeded")).2
      have finished : next.streams = _ := finishCallInner_streams distinct id _ _
      have spread : next.Distinct :=
        (finishCallInner_acts conn id _ _).toKeeps.distinct distinct
      have later : (next.finishExpired rest).streams = _ := ih spread
      have unfolded : conn.finishExpired (id :: rest) = next.finishExpired rest := rfl
      rw [unfolded, later, finished, List.map_map]
      apply List.map_congr_left
      intro stream _
      by_cases here : stream.id = id
      · have named : stream.id ∈ id :: rest := List.mem_cons.mpr (.inl here)
        rw [Function.comp_apply, if_pos here, if_pos named]
        change (if _ then stream.lapse.lapse else stream.lapse) = stream.lapse
        rw [StreamCtx.lapse_lapse, ite_self]
      · simp [here]

theorem finishExpired_log (conn : Conn) (ids : List StreamId) :
    ∃ effects, (conn.finishExpired ids).log = conn.log ++ effects ∧
      ∀ effect ∈ effects, effect.asFired = none := by
  induction ids generalizing conn with
  | nil => exact ⟨[], by simp [finishExpired], by simp⟩
  | cons id rest ih =>
      obtain ⟨first, log, quiet⟩ := conn.finishCallInner_log id .deadlineExceeded
        (some (Headers.ascii "deadline exceeded"))
      obtain ⟨later, logs, silent⟩ := ih
        (conn.finishCallMsg id .deadlineExceeded (Headers.ascii "deadline exceeded")).2
      refine ⟨first ++ later, ?_, ?_⟩
      · rw [← List.append_assoc, ← log]
        exact logs
      · intro effect membership
        rcases List.mem_append.mp membership with early | late
        · exact quiet effect early
        · exact silent effect late

/-- The sweep is the two loops. -/
theorem expireDeadlines_eq (conn : Conn) (now : Nat) :
    conn.expireDeadlines now =
      finishExpired
        { conn with
          streams := disarmFirst now maxExpired conn.streams
          log := conn.log ++ (conn.expired now).flatMap fun stream =>
            hookEffects stream.id stream.cancelHook }
        ((conn.expired now).map StreamCtx.id) := by
  have swept := @sweep_eq conn now conn.streams [] [] maxExpired rfl rfl
  rw [expireDeadlines, List.range_eq_range']
  simp only [List.length_nil] at swept
  rw [swept]
  rfl

/-- A sweep expires the streams it takes and leaves the others alone. -/
theorem expireDeadlines_streams (distinct : conn.Distinct) (now : Nat) :
    (conn.expireDeadlines now).streams =
      conn.streams.map fun stream =>
        if stream ∈ conn.expired now then stream.expire else stream := by
  have disarmed := disarmFirst_eq_map now maxExpired distinct.of_map
  have kept : (disarmFirst now maxExpired conn.streams).map StreamCtx.id =
      conn.streams.map StreamCtx.id := by
    rw [disarmed, List.map_map]
    apply List.map_congr_left
    intro stream _
    simp only [Function.comp_apply]
    split <;> rfl
  rw [expireDeadlines_eq, finishExpired_streams (by rw [Distinct, kept]; exact distinct)]
  simp only [disarmed, List.map_map]
  apply List.map_congr_left
  intro stream present
  by_cases taken : stream ∈ conn.expired now
  · have named : stream.disarm.id ∈ (conn.expired now).map StreamCtx.id :=
      List.mem_map.mpr ⟨stream, taken, rfl⟩
    have chosen : stream ∈ firstDue now maxExpired conn.streams := taken
    simp only [Function.comp_apply, if_pos taken, if_pos chosen, if_pos named]
    rfl
  · have unnamed : stream.id ∉ (conn.expired now).map StreamCtx.id := by
      intro membership
      obtain ⟨other, chosen, same⟩ := List.mem_map.mp membership
      have there : other ∈ conn.streams := List.mem_of_mem_filter (List.mem_of_mem_take chosen)
      exact taken (List.inj_on_of_nodup_map distinct there present same ▸ chosen)
    have skipped : stream ∉ firstDue now maxExpired conn.streams := taken
    simp only [Function.comp_apply, if_neg taken, if_neg skipped, if_neg unnamed]

/-- The hooks that a sweep runs are those of the streams it takes, once each. -/
theorem expireDeadlines_hooks (conn : Conn) (now : Nat) :
    ∃ effects, (conn.expireDeadlines now).log = conn.log ++ effects ∧
      (effects.filter fun effect => effect.asFired.isSome) =
        (conn.expired now).flatMap fun stream => hookEffects stream.id stream.cancelHook := by
  rw [expireDeadlines_eq]
  obtain ⟨effects, log, quiet⟩ := finishExpired_log
    { conn with
      streams := disarmFirst now maxExpired conn.streams
      log := conn.log ++ (conn.expired now).flatMap fun stream =>
        hookEffects stream.id stream.cancelHook }
    ((conn.expired now).map StreamCtx.id)
  refine ⟨_, log.trans (List.append_assoc _ _ _), ?_⟩
  have finishes : (effects.filter fun effect => effect.asFired.isSome) = [] := by
    refine List.filter_eq_nil_iff.mpr fun effect membership => ?_
    simp [quiet effect membership]
  rw [List.filter_append, finishes, List.append_nil, List.filter_eq_self]
  intro effect membership
  obtain ⟨stream, _, fired⟩ := List.mem_flatMap.mp membership
  obtain ⟨hook, rfl⟩ := mem_hookEffects fired
  rfl

/-! ### Sweeps at one clock reading -/

theorem filter_not_mem_take {Entry : Type*} [DecidableEq Entry] {entries : List Entry}
    (distinct : entries.Nodup) (count : Nat) :
    (entries.filter fun entry => entry ∉ entries.take count) = entries.drop count := by
  have split := List.take_append_drop count entries
  conv_lhs => rw [← split]
  rw [List.filter_append]
  have apart : List.Disjoint (entries.take count) (entries.drop count) :=
    List.disjoint_take_drop distinct le_rfl
  have first : ((entries.take count).filter fun entry =>
      entry ∉ (entries.take count ++ entries.drop count).take count) = [] := by
    rw [split]
    simp
  have second : ((entries.drop count).filter fun entry =>
      entry ∉ (entries.take count ++ entries.drop count).take count) = entries.drop count := by
    rw [split, List.filter_eq_self]
    intro entry membership
    simpa using fun early => apart early membership
  rw [first, second, List.nil_append]

/-- A sweep takes the first eight streams off the list of those that are due. -/
theorem dues_expireDeadlines (distinct : conn.Distinct) (now : Nat) :
    (conn.expireDeadlines now).dues now = (conn.dues now).drop maxExpired := by
  have spared : (conn.streams.filter fun stream =>
      StreamCtx.due now (if stream ∈ conn.expired now then stream.expire else stream)) =
        (conn.dues now).filter fun stream => stream ∉ conn.expired now := by
    rw [dues, List.filter_filter]
    apply List.filter_congr
    intro stream _
    by_cases taken : stream ∈ conn.expired now
    · simp [taken, due_expire]
    · simp [taken]
  rw [dues, expireDeadlines_streams distinct, List.filter_map]
  have unmoved : ∀ stream ∈ (conn.dues now).filter (fun stream => stream ∉ conn.expired now),
      (if stream ∈ conn.expired now then stream.expire else stream) = stream := by
    intro stream membership
    have kept := (List.mem_filter.mp membership).2
    simp only [decide_eq_true_eq] at kept
    exact if_neg kept
  have listed := List.map_congr_left unmoved
  rw [← spared] at listed
  refine listed.trans ?_
  rw [spared, List.map_id']
  exact filter_not_mem_take (distinct.of_map.filter _) maxExpired

theorem expireDeadlines_distinct (distinct : conn.Distinct) (now : Nat) :
    (conn.expireDeadlines now).Distinct :=
  (expireDeadlines_acts conn now distinct).toKeeps.distinct distinct

theorem dues_iterate (distinct : conn.Distinct) (now : Nat) (count : Nat) :
    (((fun conn => conn.expireDeadlines now)^[count] conn).dues now) =
      (conn.dues now).drop (count * maxExpired) := by
  induction count generalizing conn with
  | zero => simp
  | succ count ih =>
      rw [Function.iterate_succ_apply,
        ih (expireDeadlines_distinct distinct now), dues_expireDeadlines distinct,
        List.drop_drop, Nat.succ_mul, Nat.add_comm]

/-! ### The next deadline -/

/-- The query answers with the least remaining time. -/
theorem nextDeadlineMs_eq_min (conn : Conn) (now : Nat) :
    conn.nextDeadlineMs now = (conn.remaining now).min? := by
  unfold nextDeadlineMs remaining
  generalize (conn.streams.filter _).filterMap StreamCtx.deadlineMs = deadlines
  cases least : deadlines.min? with
  | none =>
      obtain rfl := List.min?_eq_none_iff.mp least
      rfl
  | some first =>
      obtain ⟨listed, below⟩ := List.min?_eq_some_iff.mp least
      have minimal : ∀ time ∈ deadlines.map (fun deadline => deadline - now),
          first - now ≤ time := by
        intro time membership
        obtain ⟨deadline, armed, rfl⟩ := List.mem_map.mp membership
        exact Nat.sub_le_sub_right (below deadline armed) now
      symm
      apply List.min?_eq_some_iff.mpr
      exact ⟨List.mem_map.mpr ⟨first, listed, rfl⟩, minimal⟩

theorem nextDeadlineMs_eq_zero_iff (conn : Conn) (now : Nat) :
    conn.nextDeadlineMs now = some 0 ↔ conn.dues now ≠ [] := by
  rw [nextDeadlineMs_eq_min, List.min?_eq_some_iff, ← List.length_pos_iff,
    List.length_pos_iff_exists_mem]
  constructor
  · rintro ⟨zero, _⟩
    obtain ⟨deadline, armed, passed⟩ := List.mem_map.mp zero
    obtain ⟨stream, pending, carries⟩ := List.mem_filterMap.mp armed
    obtain ⟨present, open_⟩ := List.mem_filter.mp pending
    refine ⟨stream, List.mem_filter.mpr ⟨present, ?_⟩⟩
    have due : deadline ≤ now := Nat.sub_eq_zero_iff_le.mp passed
    simpa [StreamCtx.due, carries, due] using open_
  · rintro ⟨stream, membership⟩
    obtain ⟨present, due⟩ := List.mem_filter.mp membership
    refine ⟨List.mem_map.mpr ?_, fun _ _ => Nat.zero_le _⟩
    unfold StreamCtx.due at due
    rw [Bool.and_eq_true] at due
    cases carries : stream.deadlineMs with
    | none => simp [carries] at due
    | some deadline =>
        have passed : deadline ≤ now := by simpa [carries] using due.2
        exact ⟨deadline, List.mem_filterMap.mpr ⟨stream, List.mem_filter.mpr ⟨present, due.1⟩,
          carries⟩, Nat.sub_eq_zero_of_le passed⟩

theorem expire_finishes {now : Nat} {stream : StreamCtx} (due : stream.due now = true) :
    stream.expire.out.finished = true ∧ stream.expire.out.finalStatus = .deadlineExceeded := by
  have unfinished : stream.out.finished = false := by
    simp only [StreamCtx.due, Bool.and_eq_true, Bool.not_eq_true'] at due
    exact due.1.2
  simp [StreamCtx.expire, StreamCtx.lapse, StreamCtx.disarm, OutQueue.finish, unfinished]

end Conn

/-- One sweep of any table with distinct ids expires the first eight streams that are
due, or all of them, runs their hooks, and leaves every other stream as it was.  The
query answers 0 exactly while a stream is due.  So a host that sweeps while it answers 0
sweeps once for every eight due streams, and then none is due. -/
theorem expire_deadlines_sweeps {conn : Conn} (distinct : conn.Distinct) (now : Nat) :
    ((conn.expired now).length = min 8 (conn.dues now).length ∧
      (∀ stream ∈ conn.expired now, stream ∈ conn.dues now ∧
        stream.expire.out.finished = true ∧
        stream.expire.out.finalStatus = .deadlineExceeded) ∧
      (conn.expireDeadlines now).streams = conn.streams.map fun stream =>
        if stream ∈ conn.expired now then stream.expire else stream) ∧
    (∃ effects, (conn.expireDeadlines now).log = conn.log ++ effects ∧
      (effects.filter fun effect => effect.asFired.isSome) =
        (conn.expired now).flatMap fun stream => hookEffects stream.id stream.cancelHook) ∧
    (conn.nextDeadlineMs now = some 0 ↔ conn.dues now ≠ []) ∧
    conn.nextDeadlineMs now = (conn.remaining now).min? ∧
    (∀ count < ((conn.dues now).length + 7) / 8,
      ((fun conn => conn.expireDeadlines now)^[count] conn).nextDeadlineMs now = some 0) ∧
    ((fun conn => conn.expireDeadlines now)^[((conn.dues now).length + 7) / 8] conn).dues now =
      [] := by
  have chosen : ∀ stream ∈ conn.expired now, stream ∈ conn.dues now :=
    fun stream taken => List.mem_of_mem_take taken
  refine ⟨⟨?_, ?_, Conn.expireDeadlines_streams distinct now⟩, conn.expireDeadlines_hooks now,
    conn.nextDeadlineMs_eq_zero_iff now, conn.nextDeadlineMs_eq_min now, ?_, ?_⟩
  · exact List.length_take
  · intro stream taken
    exact ⟨chosen stream taken, Conn.expire_finishes (List.mem_filter.mp (chosen stream taken)).2⟩
  · intro count early
    rw [Conn.nextDeadlineMs_eq_zero_iff, Conn.dues_iterate distinct, Conn.maxExpired,
      ← List.length_pos_iff, List.length_drop]
    omega
  · rw [Conn.dues_iterate distinct, List.drop_eq_nil_iff, Conn.maxExpired]
    omega

/-- Nine calls that are due take two sweeps. -/
theorem expire_deadlines_sweeps_nine :
    ∃ conn : Conn, (conn.dues 8).length = 9 ∧ (conn.expired 8).length = 8 ∧
      (conn.expireDeadlines 8).nextDeadlineMs 8 = some 0 ∧
      ((conn.expireDeadlines 8).expireDeadlines 8).dues 8 = [] := by
  let call : Nat → StreamCtx := fun number =>
    { StreamCtx.new (2 * number + 1) with state := .dispatched, deadlineMs := some number }
  let conn : Conn := { Conn.newServer [] 100 (-1) with streams := (List.range 9).map call }
  have distinct : conn.Distinct := by
    unfold Conn.Distinct
    decide
  have nine : (conn.dues 8).length = 9 := by decide
  obtain ⟨⟨count, _⟩, _, _, _, again, done⟩ := expire_deadlines_sweeps distinct 8
  rw [nine] at count again done
  exact ⟨conn, nine, count, again 1 (by decide), done⟩

end GrpcUds.Server
