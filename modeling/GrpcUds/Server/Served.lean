import GrpcUds.Server.Sending
import GrpcUds.Server.Turns

/-!
# A call that is given one message and one status

When its handler is entered, a call is handed to the application.  As long as the
application gives it at most one message and one status, and neither its deadline
nor the code of its handler answers it, what leaves the connection is what it was
given: bytes of the message alone, and a trailer that carries the status and comes
after the whole message.
-/

namespace GrpcUds.Server

open Framing Relation

namespace Conn

/-- The stream is gone, or something has finished it. -/
def isAnswered (conn : Conn) (id : StreamId) : Bool :=
  (conn.findStream id).all fun stream => stream.out.finished

variable {conn next : Conn} {id : StreamId}

theorem isAnswered_iff : conn.isAnswered id = true ↔
    ∀ stream, conn.findStream id = some stream → stream.out.finished = true := by
  cases found : conn.findStream id <;> simp [isAnswered, found]

theorem Unanswered.missing (unanswered : conn.Unanswered id) (answered : conn.isAnswered id = true)
    :
    
    conn.findStream id = none := by
  cases found : conn.findStream id with
  | none => rfl
  | some stream =>
      have finished := isAnswered_iff.mp answered stream found
      rw [unanswered stream found] at finished
      exact absurd finished Bool.false_ne_true

theorem unanswered_of_missing (missing : conn.findStream id = none) : conn.Unanswered id := by
  intro stream found
  exact absurd (missing.symm.trans found) nofun

/-- A call that says nothing about the stream's end. -/
theorem Unanswered.api (unanswered : conn.Unanswered id) {call : ApiCall}
    (other : call.answers? ≠ some id) : (conn.api call).2.Unanswered id := by
  have advances := conn.api_advances call id
  have marks : conn.callEvents id call = [] ∨
      ∃ hook, conn.callEvents id call = [.installed hook] := by
    unfold callEvents
    split
    next =>
      cases call with
      | setCancelHook target hook =>
          simp only [ApiCall.hookEvents]
          split
          · exact .inr ⟨hook, rfl⟩
          · exact .inl rfl
      | finishCall target status | finishCallMsg target status message =>
          refine .inl (if_neg ?_)
          rintro rfl
          exact other rfl
      | _ => exact .inl rfl
    next => exact .inl rfl
  rcases marks with none | ⟨hook, installs⟩
  · rw [none] at advances
    exact unanswered.of_phase (Option.some.inj advances.phase).symm
  · intro later found
    have moved := advances.phase
    rw [installs, phase_of_found found] at moved
    obtain ⟨stream, present⟩ := exists_of_api found
    rw [phase_of_found present, unanswered stream present] at moved
    exact (Phase.live.inj (Option.some.inj moved)).2.symm

/-- A call leaves the messages of a stream that it does not answer, or that is answered. -/
theorem content_api_kept {call : ApiCall}
    (spared : call.answers? ≠ some id ∨ conn.isAnswered id = true) {later : StreamCtx}
    (present : (conn.api call).2.findStream id = some later) :
    ∃ stream, conn.findStream id = some stream ∧ later.content = stream.content := by
  obtain ⟨stream, found⟩ := exists_of_api present
  refine ⟨stream, found, ?_⟩
  by_cases answers : call.answers? = some id
  · have answered := spared.resolve_left (not_not_intro answers)
    have same := (api_of_finished found (isAnswered_iff.mp answered stream found) answers).2
    rw [findStream, same] at present
    obtain rfl := Option.some.inj (found.symm.trans present)
    rfl
  · have silent : ∀ payload, written? call ≠ some (id, payload) := by
      intro payload written
      cases call with
      | writeCall | writeCallOwned =>
          obtain ⟨rfl, _⟩ := Prod.mk.inj (Option.some.inj written)
          exact answers rfl
      | _ => simp [written?] at written
    obtain ⟨other, looked, content⟩ := conn.content_api_other silent found
    obtain rfl := Option.some.inj (looked.symm.trans present)
    exact content

/-- The bytes that an event takes out of a stream's queue while the stream goes away. -/
theorem ships_of_gone {event : ConnEvent} (legal : conn.Legal event)
    (gone : (conn.perform event).findStream id = none) : conn.ships id event = [] := by
  have before : ∀ {after : Conn}, conn.Keeps after → after.findStream id = none →
      conn.findStream id = none := by
    intro after keeps missing
    exact findStream_of_ids keeps.ids.symm missing
  cases event with
  | read reader length trailerRc =>
      apply ships_of_missing
      exact before (conn.dataProviderRead_acts reader legal.1 legal.2 trailerRc).toKeeps gone
  | consumePromise reader length =>
      apply ships_of_missing
      exact before (conn.consumePromise_acts reader length).toKeeps gone
  | _ => rfl

end Conn

namespace Turning

/-- The turn puts the call's handler on the stack. -/
def enters (id : StreamId) (turning : Turning) : TurnEvent → Bool
  | .enter position => (turning.conn.streams[position]?).any fun stream => stream.id = id
  | _ => false

/-- The bytes that a turn hands out of the call's queue. -/
def ships (id : StreamId) (turning : Turning) : TurnEvent → Bytes
  | .plain event => turning.conn.ships id event
  | _ => []

/-- The turn does not answer the call: its deadline does not pass, no write and no
finish of the application reaches it unfinished, and its handler does not fail. -/
def spares (id : StreamId) (turning : Turning) : TurnEvent → Bool
  | .plain (.expireDeadlines now) => id ∉ turning.conn.expiring now
  | .call call => decide (call.answers? ≠ some id) || turning.conn.isAnswered id
  | .leave rc _ => decide (rc = 0) || decide (turning.conn.running ≠ some id) ||
      turning.conn.isAnswered id
  | _ => true

theorem Sound.answer {turning : Turning} (sound : turning.Sound) (id : StreamId) :
    (turning.conn.lane id).Answer id :=
  sound.lane_invariant (Lane.empty_answer id) fun _ _ answer step => answer.step step

theorem Sound.taken {turning : Turning} (sound : turning.Sound) (id : StreamId) :
    (turning.conn.lane id).Taken :=
  sound.lane_invariant Lane.empty_taken fun _ _ taken step => taken.step step

end Turning

/-- What has become of a call: whether its handler was entered, what the application gave
it, and the bytes that have left. -/
structure Served (id : StreamId) (turning : Turning) (issued : Bool) (payloads : List Bytes)
    (finish : Option (GrpcStatus × Option Bytes)) (sent : Bytes) : Prop where
  sound : turning.Sound
  delivered : turning.conn.Delivered id payloads sent
  single : payloads.length ≤ 1
  part : sent <+: payloads.flatMap frame
  unissued : issued = false → payloads = [] ∧ finish = none ∧ turning.conn.running ≠ some id
  dispatched : issued = true → 0 < dispatches (turning.conn.logOf id)
  unanswered : finish = none → issued = true ∨ dispatches (turning.conn.logOf id) = 0 →
    turning.conn.Unanswered id
  concluded : ∀ asked, finish = some asked → ∀ stream, turning.conn.findStream id = some stream →
    Concluded asked (turning.conn.logOf id)
  trailed : issued = true → 0 < trailers (turning.conn.logOf id) →
    ∃ asked, finish = some asked ∧ Concluded asked (turning.conn.logOf id)

namespace Served

variable {id : StreamId} {turning next : Turning} {issued : Bool} {payloads : List Bytes}
  {finish : Option (GrpcStatus × Option Bytes)} {sent : Bytes}

theorem newServer (id : StreamId) (methods : List MethodEntry) (maxMessageLen : UInt32)
    (fd : Int) : Served id (.start (.newServer methods maxMessageLen fd)) false [] none [] := by
  have missing : (Conn.newServer methods maxMessageLen fd).findStream id = none := rfl
  constructor
  · exact .newServer methods maxMessageLen fd
  · exact .newServer methods maxMessageLen fd id
  · exact Nat.zero_le 1
  · exact List.prefix_rfl
  · exact fun _ => ⟨rfl, rfl, nofun⟩
  · exact fun entered => absurd entered Bool.false_ne_true
  · exact fun _ _ => Conn.unanswered_of_missing missing
  · exact fun _ given => absurd given nofun
  · exact fun entered => absurd entered Bool.false_ne_true

variable (served : Served id turning issued payloads finish sent)
include served

/-- A call whose handler was entered was opened before. -/
theorem opened (entered : issued = true) :
    .opened id ∈ turning.conn.logOf id := by
  by_contra fresh
  have empty : turning.conn.logOf id = [] := (served.sound.lifecycle id).unopened fresh
  have dispatched := served.dispatched entered
  rw [empty] at dispatched
  exact absurd dispatched (Nat.lt_irrefl 0)

theorem issued_of_finish {asked : GrpcStatus × Option Bytes} (given : finish = some asked) :
    issued = true := by
  cases entered : issued with
  | true => rfl
  | false => exact absurd ((served.unissued entered).2.1.symm.trans given) nofun

/-- Every trailer carries the given status and comes after the given message. -/
theorem trailer_eq (entered : issued = true) {nva : List Headers.Nv} {rc : Int}
    (submitted : .submitTrailer id nva rc ∈ turning.conn.logOf id) :
    sent = payloads.flatMap frame ∧ ∃ asked, finish = some asked ∧ nva = trailerOf asked := by
  have trailed : 0 < trailers (turning.conn.logOf id) :=
    List.countP_pos_iff.mpr ⟨_, submitted, rfl⟩
  obtain ⟨asked, given, concluded⟩ := served.trailed entered trailed
  exact ⟨served.delivered.trailed trailed served.single, asked, given,
    concluded.trailer_eq (served.sound.answer id) submitted⟩

/-! ### Turns that leave the messages alone -/

/-- Steps of the call API that leave the call's messages alone. -/
theorem keep (sound : next.Sound)
    (steps : ReflTransGen (CallStep id) (turning.conn.lane id) (next.conn.lane id))
    (kept : ∀ later, next.conn.findStream id = some later →
      ∃ stream, turning.conn.findStream id = some stream ∧ later.content = stream.content)
    (idle : issued = false → next.conn.running ≠ some id)
    (unanswered : finish = none → issued = true ∨ dispatches (next.conn.logOf id) = 0 →
      next.conn.Unanswered id) : Served id next issued payloads finish sent := by
  have grows : turning.conn.logOf id <+: next.conn.logOf id :=
    steps_log_grow CallStep.log_grows steps
  have same : trailers (next.conn.logOf id) = trailers (turning.conn.logOf id) :=
    calls_trailers steps
  refine ⟨sound, served.delivered.keep steps kept, served.single, served.part, ?_, ?_, unanswered,
    ?_, ?_⟩
  · intro fresh
    obtain ⟨silent, unfinished, _⟩ := served.unissued fresh
    exact ⟨silent, unfinished, idle fresh⟩
  · intro entered
    exact (served.dispatched entered).trans_le (dispatches_mono grows)
  · intro asked given later present
    obtain ⟨stream, found, _⟩ := kept later present
    exact (served.concluded asked given stream found).grow grows
  · intro entered trailed
    rw [same] at trailed
    obtain ⟨asked, given, concluded⟩ := served.trailed entered trailed
    exact ⟨asked, given, concluded.grow grows⟩

theorem call {call : ApiCall} (spared : turning.spares id (.call call) = true) :
    Served id ⟨(turning.conn.api call).2, turning.frame⟩ issued payloads finish sent := by
  have acts := turning.conn.api_acts call
  have grows : turning.conn.logOf id <+: (turning.conn.api call).2.logOf id :=
    steps_log_grow CallStep.log_grows (acts.lanes id)
  have performed : turning.step (.call call) =
      some ⟨(turning.conn.api call).2, turning.frame⟩ := rfl
  have spared : call.answers? ≠ some id ∨ turning.conn.isAnswered id = true := by
    simpa [Turning.spares] using spared
  refine served.keep (served.sound.step performed) (acts.lanes id) ?_ ?_ ?_
  · exact fun later => Conn.content_api_kept spared
  · intro fresh
    rw [acts.running]
    exact (served.unissued fresh).2.2
  · intro unfinished early
    have before : turning.conn.Unanswered id := served.unanswered unfinished
      (early.imp_right fun none => Nat.le_zero.mp ((dispatches_mono grows).trans_eq none))
    rcases spared with other | answered
    · exact before.api other
    · exact Conn.unanswered_of_missing
        (Conn.findStream_of_ids acts.ids (before.missing answered))

/-- A complete stream waits for its handler. -/
theorem waits (idle : turning.frame = none) {position : Nat} {stream : StreamCtx}
    (found : turning.conn.streams[position]? = some stream) (complete : stream.state = .complete)
    (own : stream.id = id) : issued = false ∧ dispatches (turning.conn.logOf id) = 0 := by
  subst own
  have looked := Conn.findStream_of_getElem? served.sound.distinct found
  have resting : (turning.conn.lane stream.id).running = false := by
    simp [Conn.lane, served.sound.idle idle]
  have none : dispatches (turning.conn.logOf stream.id) = 0 :=
    ((served.sound.lifecycle stream.id).of_complete looked complete resting).2.2.1
  refine ⟨?_, none⟩
  cases entered : issued with
  | false => rfl
  | true => exact absurd (served.dispatched entered) (by omega)

omit served

theorem kept_of_contents {conn after : Conn} (same : after.contents = conn.contents)
    {later : StreamCtx} (present : after.findStream id = some later) :
    ∃ stream, conn.findStream id = some stream ∧ later.content = stream.content := by
  obtain ⟨stream, found, content⟩ := Conn.findStream_of_contents same.symm present
  exact ⟨stream, found, content.symm⟩

include served

theorem refuse {position : Nat} {submitRc : Int} {stream : StreamCtx} {status : GrpcStatus}
    (idle : turning.frame = none) (found : turning.conn.streams[position]? = some stream)
    (complete : stream.state = .complete) (sound : (Turning.start
      (turning.conn.refuse position stream.id status submitRc)).Sound) :
    Served id (.start (turning.conn.refuse position stream.id status submitRc)) issued payloads
      finish sent := by
  have distinct := served.sound.distinct
  have acts := Conn.refuse_acts distinct (served.sound.idle idle) found complete status submitRc
  have grows : turning.conn.logOf id <+:
      (turning.conn.refuse position stream.id status submitRc).logOf id :=
    steps_log_grow CallStep.log_grows (acts.lanes id)
  refine served.keep sound (acts.lanes id) ?_ ?_ ?_
  · exact fun later => kept_of_contents (turning.conn.contents_refuse position _ status submitRc)
  · intro _
    rw [show (Turning.start _).conn.running = none from sound.idle rfl]
    exact nofun
  · intro unfinished early
    have advances := Conn.refuse_advances distinct found status submitRc id
    by_cases own : stream.id = id
    · -- the refusal counts as a dispatch, and the handler of the call was not entered
      obtain ⟨fresh, none⟩ := served.waits idle found complete own
      subst own
      have looked := Conn.findStream_of_getElem? distinct found
      have kept : ∀ stream : StreamCtx,
          ((finalizeError status stream).respond submitRc .dispatched).id = stream.id :=
        fun _ => Conn.respond_id _ _ _
      have about : ∀ effect ∈ [Effect.refused stream.id status,
          .submitResponse stream.id submitRc], effect.id = stream.id := by
        simp [Effect.id]
      have lane := Conn.lane_apply_self kept about looked
      rw [← Conn.refuse_eq_apply distinct found] at lane
      have log := congrArg Lane.log lane
      have counted : dispatches
          ((turning.conn.refuse position stream.id status submitRc).logOf stream.id) = 1 := by
        refine (congrArg dispatches log).trans ?_
        rw [Lane.put_log, dispatches_append]
        exact congrArg (· + 1) none
      rw [fresh] at early
      exact absurd (early.resolve_left Bool.false_ne_true) (by simp [Turning.start, counted])
    · rw [if_neg own] at advances
      refine Conn.Unanswered.of_phase (served.unanswered unfinished ?_)
        (Option.some.inj advances.phase).symm
      exact early.imp_right fun none => Nat.le_zero.mp ((dispatches_mono grows).trans_eq none)

/-- The handler of the call, or of another one, is entered. -/
theorem enter {position : Nat} {stream : StreamCtx} {entry : MethodEntry} {payload : Bytes}
    (idle : turning.frame = none) (found : turning.conn.streams[position]? = some stream)
    (complete : stream.state = .complete) (sound : Turning.Sound
      ⟨turning.conn.handling position stream.id entry payload [], some position⟩) :
    Served id ⟨turning.conn.handling position stream.id entry payload [], some position⟩
      (issued || decide (stream.id = id)) payloads finish sent := by
  have distinct := served.sound.distinct
  obtain ⟨keeps, running, lanes⟩ :=
    Conn.handling_lanes distinct (served.sound.idle idle) found complete entry payload []
  have grows : turning.conn.logOf id <+:
      (turning.conn.handling position stream.id entry payload []).logOf id :=
    steps_log_grow CallStep.log_grows (lanes id)
  have phase : ((turning.conn.handling position stream.id entry payload []).lane id).phase id =
      (turning.conn.lane id).phase id :=
    (Option.some.inj (Conn.enterAt_advances distinct found entry payload id).phase).symm
  have unanswered : finish = none → issued = true ∨ dispatches (turning.conn.logOf id) = 0 →
      (turning.conn.handling position stream.id entry payload []).Unanswered id :=
    fun unfinished early => (served.unanswered unfinished early).of_phase phase
  have kept : ∀ later,
      (turning.conn.handling position stream.id entry payload []).findStream id = some later →
        ∃ stream, turning.conn.findStream id = some stream ∧ later.content = stream.content :=
    fun later => kept_of_contents (turning.conn.contents_handling position _ entry payload)
  by_cases own : stream.id = id
  · obtain ⟨fresh, none⟩ := served.waits idle found complete own
    obtain ⟨silent, unfinished, _⟩ := served.unissued fresh
    have untrailed : trailers (turning.conn.logOf id) = 0 := by
      have looked := Conn.findStream_of_getElem? distinct found
      rw [own] at looked
      exact Conn.trailers_eq_zero (served.sound.answer id) looked
        (served.unanswered unfinished (.inr none) stream looked)
    rw [fresh, Bool.false_or, decide_eq_true own]
    refine ⟨sound, served.delivered.keep (lanes id) kept, served.single, served.part, nofun, ?_, ?_,
      ?_, ?_⟩
    · intro _
      exact (sound.taken id).running (decide_eq_true (running.trans (congrArg some own)))
    · exact fun _ _ => unanswered unfinished (.inr none)
    · exact fun asked given => absurd (unfinished.symm.trans given) nofun
    · intro _ trailed
      have same : trailers ((turning.conn.handling position stream.id entry payload []).logOf id) =
          trailers (turning.conn.logOf id) := calls_trailers (lanes id)
      rw [same, untrailed] at trailed
      exact absurd trailed (Nat.lt_irrefl 0)
  · rw [decide_eq_false own, Bool.or_false]
    refine served.keep sound (lanes id) kept ?_ ?_
    · intro _ same
      exact own (Option.some.inj (running.symm.trans same))
    · intro unfinished early
      refine unanswered unfinished (early.imp_right fun none => ?_)
      exact Nat.le_zero.mp ((dispatches_mono grows).trans_eq none)

theorem leave {position : Nat} {rc submitRc : Int} {stream : StreamCtx}
    (busy : turning.frame = some position) (found : turning.conn.streams[position]? = some stream)
    (spared : turning.spares id (.leave rc submitRc) = true)
    (sound : (Turning.start (turning.conn.settle position stream.id rc submitRc)).Sound) :
    Served id (.start (turning.conn.settle position stream.id rc submitRc)) issued payloads finish
      sent := by
  have distinct := served.sound.distinct
  obtain ⟨other, present, running⟩ := served.sound.busy position busy
  obtain rfl := Option.some.inj (found.symm.trans present)
  have lanes := Conn.settle_lanes distinct found running rc submitRc id
  have grows : turning.conn.logOf id <+:
      (turning.conn.settle position stream.id rc submitRc).logOf id :=
    steps_log_grow CallStep.log_grows lanes
  refine served.keep sound lanes ?_ ?_ ?_
  · exact fun later => kept_of_contents (turning.conn.contents_settle position _ rc submitRc)
  · intro _
    rw [show (Turning.start _).conn.running = none from sound.idle rfl]
    exact nofun
  · intro unfinished early
    have before : turning.conn.Unanswered id := served.unanswered unfinished
      (early.imp_right fun none => Nat.le_zero.mp ((dispatches_mono grows).trans_eq none))
    have advances := Conn.settle_advances distinct found rc submitRc id
    have unmarked : ¬ (stream.id = id ∧ rc ≠ 0) := by
      rintro ⟨rfl, failed⟩
      have answered : turning.conn.isAnswered stream.id = true := by
        simpa [Turning.spares, failed, running] using spared
      have missing := before.missing answered
      rw [Conn.findStream_of_getElem? distinct found] at missing
      exact absurd missing nofun
    rw [if_neg unmarked] at advances
    exact before.of_phase (Option.some.inj advances.phase).symm

omit served

/-! ### Events of the session -/

theorem unmarked_of_plain {conn : Conn} {event : ConnEvent} (isPlain : event.isPlain = true)
    (stays : ∀ errorCode, event ≠ .streamClose id errorCode)
    (unexpired : ∀ now, event = .expireDeadlines now → id ∉ conn.expiring now) :
    conn.hookMarks id event = [] := by
  apply Conn.hookMarks_eq_nil _ _ stays unexpired
  · rintro call rfl
    simp [ConnEvent.isPlain] at isPlain
  · rintro env rfl
    simp [ConnEvent.isPlain] at isPlain

include served

theorem unanswered_plain (idle : turning.frame = none) {event : ConnEvent}
    (isPlain : event.isPlain = true) (spared : turning.spares id (.plain event) = true)
    {conn : Conn} (performed : turning.conn.step event = some conn) (unfinished : finish = none)
    (early : issued = true ∨ dispatches (conn.logOf id) = 0) : conn.Unanswered id := by
  have wellFormed := served.sound.wellFormed idle
  have grows := wellFormed.logOf_grows performed id
  have before : turning.conn.Unanswered id := served.unanswered unfinished
    (early.imp_right fun none => Nat.le_zero.mp ((dispatches_mono grows).trans_eq none))
  obtain ⟨legal, rfl⟩ := Conn.step_eq_some_iff.mp performed
  by_cases closes : ∃ errorCode, event = .streamClose id errorCode
  · obtain ⟨errorCode, rfl⟩ := closes
    apply Conn.unanswered_of_missing
    exact Conn.findStream_onStreamClose_self wellFormed.distinct id errorCode
  · apply before.of_phase
    apply Conn.phase_of_unmarked wellFormed legal
    apply unmarked_of_plain isPlain
    · exact fun errorCode same => closes ⟨errorCode, same⟩
    · rintro now rfl
      simpa [Turning.spares] using spared

theorem plain (idle : turning.frame = none) {event : ConnEvent} (isPlain : event.isPlain = true)
    (spared : turning.spares id (.plain event) = true) {conn : Conn}
    (performed : turning.conn.step event = some conn) (sound : (Turning.start conn).Sound) :
    Served id (.start conn) issued payloads finish (sent ++ turning.conn.ships id event) := by
  have wellFormed := served.sound.wellFormed idle
  have grows := wellFormed.logOf_grows performed id
  have delivered : conn.Delivered id payloads (sent ++ turning.conn.ships id event) := by
    apply served.delivered.step wellFormed performed
    · rintro env rfl
      simp [ConnEvent.isPlain] at isPlain
    · rintro call rfl
      simp [ConnEvent.isPlain] at isPlain
  have before : ∀ later, conn.findStream id = some later → issued = true →
      ∃ stream, turning.conn.findStream id = some stream := by
    intro later present entered
    obtain ⟨legal, rfl⟩ := Conn.step_eq_some_iff.mp performed
    cases found : turning.conn.findStream id with
    | some stream => exact ⟨stream, rfl⟩
    | none =>
        have fresh := (Conn.findStream_new wellFormed legal found present).2
        exact absurd (served.opened entered) fresh
  have unanswered := @unanswered_plain _ _ _ _ _ _ served idle _ isPlain spared _ performed
  refine ⟨sound, delivered, served.single, ?_, ?_, ?_, unanswered, ?_, ?_⟩
  · cases present : conn.findStream id with
    | some later =>
        have bytes := (delivered.queued later present served.single).1
        exact ⟨later.out.unshipped, bytes⟩
    | none =>
        obtain ⟨legal, rfl⟩ := Conn.step_eq_some_iff.mp performed
        rw [Conn.ships_of_gone legal present, List.append_nil]
        exact served.part
  · intro fresh
    obtain ⟨silent, unfinished, _⟩ := served.unissued fresh
    refine ⟨silent, unfinished, ?_⟩
    rw [sound.idle rfl]
    exact nofun
  · intro entered
    exact (served.dispatched entered).trans_le (dispatches_mono grows)
  · intro asked given later present
    obtain ⟨stream, found⟩ := before later present (served.issued_of_finish given)
    exact (served.concluded asked given stream found).grow grows
  · intro entered trailed
    by_cases already : 0 < trailers (turning.conn.logOf id)
    · obtain ⟨asked, given, concluded⟩ := served.trailed entered already
      exact ⟨asked, given, concluded.grow grows⟩
    · -- the trailer is submitted by this event, for a stream that is finished
      have submits : trailers (turning.conn.logOf id) < trailers (conn.logOf id) :=
        (Nat.eq_zero_of_not_pos already).trans_lt trailed
      obtain ⟨stream, found, finished, _⟩ :=
        Conn.trailer_after_last_byte wellFormed performed submits
      cases given : finish with
      | none =>
          have open_ := served.unanswered given (.inl entered) stream found
          exact absurd (finished.symm.trans open_) nofun
      | some asked =>
          exact ⟨asked, rfl, (served.concluded asked given stream found).grow grows⟩

/-- A turn that does not answer the call. -/
theorem step {event : TurnEvent} (spared : turning.spares id event = true)
    (performed : turning.step event = some next) :
    Served id next (issued || turning.enters id event) payloads finish
      (sent ++ turning.ships id event) := by
  have sound := served.sound.step performed
  cases Turning.step_inv performed with
  | plain idle isPlain stepped =>
      simp only [Turning.enters, Bool.or_false]
      exact served.plain idle isPlain spared stepped sound
  | call call =>
      simp only [Turning.enters, Bool.or_false, Turning.ships, List.append_nil]
      exact served.call spared
  | refuse idle found complete judged =>
      simp only [Turning.enters, Bool.or_false, Turning.ships, List.append_nil]
      exact served.refuse idle found complete sound
  | enter idle found complete judged =>
      simp only [Turning.enters, found, Option.any_some, Turning.ships, List.append_nil]
      exact served.enter idle found complete sound
  | leave busy found =>
      simp only [Turning.enters, Bool.or_false, Turning.ships, List.append_nil]
      exact served.leave busy found spared sound

omit served

/-! ### Completions -/

theorem untrailed (served : Served id turning true payloads none sent) :
    trailers (turning.conn.logOf id) = 0 := by
  by_contra submitted
  obtain ⟨asked, given, _⟩ := served.trailed rfl (Nat.pos_of_ne_zero submitted)
  exact absurd given nofun

/-- The first write.  It is accepted if the stream is there. -/
theorem write (served : Served id turning true [] none sent) {payload : Bytes}
    (fits : payload.length ≤ u32Max) :
    Served id ⟨(turning.conn.writeCall id payload true true).2, turning.frame⟩ true [payload] none
        sent ∧
      (turning.conn.isAnswered id = false →
        (turning.conn.writeCall id payload true true).1 = .ok ()) := by
  let call : ApiCall := .writeCall id payload true true
  have acts := turning.conn.api_acts call
  have grows : turning.conn.logOf id <+: (turning.conn.api call).2.logOf id :=
    steps_log_grow CallStep.log_grows (acts.lanes id)
  have sound := served.sound.step
    (show turning.step (.call call) = some ⟨(turning.conn.api call).2, turning.frame⟩ from rfl)
  have empty : sent = [] := List.prefix_nil.mp served.part
  have untrailed : trailers ((turning.conn.api call).2.logOf id) = 0 :=
    (calls_trailers (acts.lanes id)).trans served.untrailed
  have before := served.unanswered rfl (.inl rfl)
  have accepts : turning.conn.isAnswered id = false → (turning.conn.api call).1 = .ok () ∧
      ∃ later, (turning.conn.api call).2.findStream id = some later ∧
        later.out.messages.map OutMsg.body = [payload] ∧ later.out.frontOffset = 0 := by
    intro open_
    obtain ⟨stream, found⟩ : ∃ stream, turning.conn.findStream id = some stream := by
      cases found : turning.conn.findStream id with
      | none => simp [Conn.isAnswered, found] at open_
      | some stream => exact ⟨stream, rfl⟩
    have nothing := (served.delivered.queued stream found (Nat.zero_le 1)).2 rfl
    exact turning.conn.writeCallOwned_of_empty found (before stream found) nothing fits
  have delivered : (turning.conn.api call).2.Delivered id [payload] sent := by
    cases found : turning.conn.findStream id with
    | none =>
        have missing := Conn.findStream_of_ids acts.ids found
        refine ⟨fun unopened => absurd (grows.subset (served.opened rfl)) unopened, ?_, ?_⟩
        · exact fun later present => absurd (missing.symm.trans present) nofun
        · exact fun trailed => absurd trailed (Nat.not_lt.mpr untrailed.le)
    | some stream =>
        have open_ : turning.conn.isAnswered id = false := by
          simp [Conn.isAnswered, found, before stream found]
        obtain ⟨_, later, present, messages, offset⟩ := accepts open_
        exact served.delivered.write (served.opened rfl) served.untrailed found present messages
          offset
  refine ⟨⟨sound, delivered, Nat.le_refl 1, ?_, nofun, ?_, ?_, nofun, ?_⟩, fun open_ =>
    (accepts open_).1⟩
  · rw [empty]
    exact List.nil_prefix
  · exact fun _ => (served.dispatched rfl).trans_le (dispatches_mono grows)
  · intro _ _
    have advances := turning.conn.api_advances call id
    have unmarked : turning.conn.callEvents id call = [] := by
      rw [Conn.callEvents, show call.hookEvents id = [] from rfl, ite_self]
    rw [unmarked] at advances
    exact before.of_phase (Option.some.inj advances.phase).symm
  · exact fun _ trailed => absurd trailed (Nat.not_lt.mpr untrailed.le)

/-- The first finish.  It is accepted if the stream is there. -/
theorem conclude (served : Served id turning true payloads none sent) (status : GrpcStatus)
    (message : Option Bytes) :
    Served id ⟨(turning.conn.finishCallInner id status message).2, turning.frame⟩ true payloads
        (some (status, message)) sent ∧
      (turning.conn.isAnswered id = false →
        (turning.conn.finishCallInner id status message).1 = .ok ()) := by
  obtain ⟨call, same⟩ : ∃ call : ApiCall,
      turning.conn.api call = turning.conn.finishCallInner id status message := by
    cases message with
    | none => exact ⟨.finishCall id status, rfl⟩
    | some text => exact ⟨.finishCallMsg id status text, rfl⟩
  have acts := turning.conn.api_acts call
  rw [same] at acts
  have grows : turning.conn.logOf id <+:
      (turning.conn.finishCallInner id status message).2.logOf id :=
    steps_log_grow CallStep.log_grows (acts.lanes id)
  have sound := served.sound.step
    (show turning.step (.call call) = some ⟨(turning.conn.api call).2, turning.frame⟩ from rfl)
  rw [same] at sound
  have kept : ∀ later, (turning.conn.finishCallInner id status message).2.findStream id =
      some later → ∃ stream, turning.conn.findStream id = some stream ∧
        later.content = stream.content :=
    fun later => kept_of_contents (turning.conn.contents_finishCallInner id status message)
  refine ⟨⟨sound, served.delivered.keep (acts.lanes id) kept, served.single, served.part, nofun, ?_,
    nofun, ?_, ?_⟩, ?_⟩
  · exact fun _ => (served.dispatched rfl).trans_le (dispatches_mono grows)
  · rintro asked ⟨⟩ later present
    obtain ⟨stream, found, _⟩ := kept later present
    exact Concluded.of_finish (served.sound.answer id) found
      (served.unanswered rfl (.inl rfl) stream found) (served.dispatched rfl) status message
  · intro _ trailed
    have untrailed : trailers ((turning.conn.finishCallInner id status message).2.logOf id) = 0 :=
      (calls_trailers (acts.lanes id)).trans served.untrailed
    exact absurd trailed (Nat.not_lt.mpr untrailed.le)
  · intro open_
    cases found : turning.conn.findStream id with
    | none => simp [Conn.isAnswered, found] at open_
    | some stream => simp [Conn.finishCallInner, found]

end Served

end GrpcUds.Server
