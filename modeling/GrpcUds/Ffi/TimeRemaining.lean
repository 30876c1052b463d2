import GrpcUds.Ffi.Direct
import GrpcUds.Server.Marks
import GrpcUds.Server.Timeout

/-!
# The time that a call has left

`call_time_remaining_ms` reads the deadline of a stream, and the sweep that expires a call
clears it.  From then on until the stream is closed the query answers as for a call whose
client sent no deadline.
-/

namespace GrpcUds.Server

open Headers

/-- What is left of the call's timeout at a clock reading. -/
def Conn.callTimeRemainingMs (conn : Conn) (callId : StreamId) (now : Nat) :
    Except ConnError (Option Nat) :=
  match conn.findStream callId with
  | none => .error .streamNotFound
  | some stream => .ok (stream.deadlineMs.map fun deadline => deadline - now)

/-- The stream is open and has the deadline. -/
def Conn.Armed (conn : Conn) (id : StreamId) (deadline : Nat) : Prop :=
  ∃ stream, conn.findStream id = some stream ∧ stream.deadlineMs = some deadline

theorem Conn.armed_iff {conn : Conn} {id : StreamId} {deadline : Nat} :
    conn.Armed id deadline ↔
      ∀ now, conn.callTimeRemainingMs id now = .ok (some (deadline - now)) := by
  constructor
  · rintro ⟨stream, found, armed⟩ now
    simp [callTimeRemainingMs, found, armed]
  · intro remaining
    have start := remaining 0
    unfold callTimeRemainingMs at start
    cases found : conn.findStream id with
    | none => simp [found] at start
    | some stream =>
        cases armed : stream.deadlineMs with
        | none => simp [found, armed] at start
        | some other =>
            simp only [found, armed, Option.map_some, Nat.sub_zero, Except.ok.injEq,
              Option.some.injEq] at start
            exact ⟨stream, found, armed.trans (congrArg some start)⟩

/-- The turn neither closes the stream nor brings it another timeout. -/
def TurnEvent.spares (id : StreamId) : TurnEvent → Bool
  | .plain (.streamClose target _) => decide (target ≠ id)
  | .plain (.header target name _ _ _) => decide (target ≠ id ∨ name ≠ nGrpcTimeout)
  | _ => true

namespace Turning

/-- No sweep takes the stream. -/
def Untaken (id : StreamId) (turning : Turning) : TurnEvent → Prop
  | .plain (.expireDeadlines now) => ∀ stream ∈ turning.conn.expired now, stream.id ≠ id
  | _ => True

instance (id : StreamId) (turning : Turning) (event : TurnEvent) :
    Decidable (turning.Untaken id event) := by
  unfold Untaken
  split <;> infer_instance

variable {turning next : Turning} {event : TurnEvent} {id : StreamId} {deadline : Nat}

theorem Sound.armed_of_untaken (sound : turning.Sound) (armed : turning.conn.Armed id deadline)
    (spares : event.spares id = true) (performed : turning.step event = some next)
    (untaken : turning.Untaken id event) : next.conn.Armed id deadline := by
  obtain ⟨stream, found, set⟩ := armed
  have fate := sound.fate performed id
  rw [found] at fate
  generalize looked : next.conn.findStream id = after at fate
  cases fate with
  | closed sent =>
      subst sent
      simp [TurnEvent.spares] at spares
  | kept same => exact ⟨_, looked, same.deadline.trans set⟩
  | timed sent =>
      subst sent
      simp [TurnEvent.spares] at spares
  | swept sent taken =>
      subst sent
      exact absurd (Table.lookup_key found) (untaken stream taken)
  | finished sent asked => exact ⟨_, looked, set⟩
  | refused status same => exact ⟨_, looked, same.deadline.trans set⟩
  | returned sent busy placed same => exact ⟨_, looked, same.deadline.trans set⟩

/-- A sweep that takes the stream clears its deadline. -/
theorem Sound.untaken_of_armed (sound : turning.Sound) (performed : turning.step event = some next)
    (armed : next.conn.Armed id deadline) : turning.Untaken id event := by
  cases step_inv performed with
  | @plain event _ idle isPlain stepped =>
      cases event with
      | expireDeadlines now =>
          intro stream taken named
          obtain ⟨_, rfl⟩ := Conn.step_eq_some_iff.mp stepped
          obtain ⟨later, looked, set⟩ := armed
          have found : turning.conn.findStream id = some stream :=
            (Table.lookup_eq_some_iff sound.distinct).mpr
              ⟨List.mem_of_mem_filter (List.mem_of_mem_take taken), named⟩
          have swept := Conn.findStream_expireDeadlines sound.distinct now id
          rw [found, Option.map_some, if_pos taken] at swept
          obtain rfl := Option.some.inj (looked.symm.trans swept)
          simp [StreamCtx.expire, StreamCtx.lapse, StreamCtx.disarm] at set
      | _ => exact trivial
  | call | refuse | enter | leave => exact trivial

end Turning

end GrpcUds.Server

namespace GrpcUds.Ffi

open Server Headers

def i64Max : Nat := 2 ^ 63 - 1

/-- `call` is none for a null pointer. -/
def grpcudsCallTimeRemainingMs (call : Option Conn) (callId : StreamId) (now : Nat) : Int :=
  match call with
  | none => errInval
  | some conn =>
      match conn.callTimeRemainingMs callId now with
      | .ok (some ms) => (min ms i64Max : Nat)
      | .ok none => -1
      | .error _ => errNoent

/-- At every clock reading the query gives what is left until the deadline, and nothing
once it has passed; the C ABI never reports that there is no deadline. -/
structure CountsDown (conn : Conn) (id : StreamId) (deadline : Nat) : Prop where
  remaining : ∀ now, conn.callTimeRemainingMs id now = .ok (some (deadline - now))
  reported : ∀ now, grpcudsCallTimeRemainingMs (some conn) id now ≠ -1

theorem countsDown_iff {conn : Conn} {id : StreamId} {deadline : Nat} :
    CountsDown conn id deadline ↔ conn.Armed id deadline := by
  constructor
  · exact fun counts => Conn.armed_iff.mpr counts.remaining
  · intro armed
    have remaining := Conn.armed_iff.mp armed
    refine ⟨remaining, fun now => ?_⟩
    simp only [grpcudsCallTimeRemainingMs, remaining]
    omega

/-- After a valid timeout the query counts down to the stored deadline in every later state,
until the stream is closed, if and only if no sweep on the way takes the stream. -/
theorem time_remaining_counts_down_iff {methods : List MethodEntry} {maxMessageLen : UInt32}
    {fd : Int} {earlier events : List TurnEvent} {turning armed final : Turning} {id : StreamId}
    {value : Bytes} {ms now : Nat} {reserve : Bool}
    (reached : Transition.run Turning.step (.start (.newServer methods maxMessageLen fd)) earlier =
      some turning) (open_ : (turning.conn.findStream id).isSome = true)
    (valid : parseGrpcTimeoutMs value = some ms)
    (sent : turning.step (.plain (.header id nGrpcTimeout value now reserve)) = some armed)
    (continued : Transition.run Turning.step armed events = some final)
    (spared : ∀ event ∈ events, event.spares id = true) :
    Transition.Along Turning.step (Turning.Untaken id) armed events ↔
      ∀ before after middle, events = before ++ after →
        Transition.run Turning.step armed before = some middle →
        CountsDown middle.conn id ((now + ms) % 2 ^ 64) := by
  have sound : turning.Sound :=
    Transition.run_invariant (fun _ _ _ sound performed => sound.step performed)
      (Turning.Sound.newServer methods maxMessageLen fd) reached
  have start : armed.conn.Armed id ((now + ms) % 2 ^ 64) := by
    obtain ⟨stream, found⟩ := Option.isSome_iff_exists.mp open_
    cases Turning.step_inv sent with
    | plain idle isPlain stepped =>
        obtain ⟨_, rfl⟩ := Conn.step_eq_some_iff.mp stepped
        exact ⟨_, Conn.onHeader_timeout found valid now reserve, rfl⟩
  simp only [countsDown_iff]
  refine @Transition.along_iff_forall_reached _ _ Turning.step (Turning.Untaken id) Turning.Sound
    (fun turning => turning.conn.Armed id ((now + ms) % 2 ^ 64))
    (fun event => event.spares id = true) (fun _ _ _ sound performed => sound.step performed)
    ?_ armed final events (sound.step sent) start spared continued
  intro turning event next sound armed spares performed
  constructor
  · exact sound.untaken_of_armed performed
  · exact sound.armed_of_untaken armed spares performed

/-- The turns of a request that its handler leaves open. -/
def timedCall : List TurnEvent :=
  [.plain (.dataChunkRecv 1 [0, 0, 0, 0, 0] true),
    .plain (.frameRecv ⟨1, nvData, flagEndStream, .headers⟩), .enter 0, .leave 0 0]

/-- A call with five milliseconds from time 10 on, finished before a sweep at time 20. -/
theorem time_remaining_counts_down_when_finished :
    let opened : List TurnEvent := [.plain (.beginHeaders ⟨1, nvHeaders, 0, .request⟩ true)]
    let timeout : TurnEvent := .plain (.header 1 nGrpcTimeout (ascii "5m") 10 true)
    let events := timedCall ++ [.call (.finishCall 1 .ok), .plain (.expireDeadlines 20)]
    ∃ final, Transition.run Turning.step (.start (.newServer [⟨[], 7, 0, none⟩] 64 3))
        (opened ++ timeout :: events) = some final ∧
      CountsDown final.conn 1 15 ∧ final.conn.callTimeRemainingMs 1 20 = .ok (some 0) := by
  intro opened timeout events
  have counts := @time_remaining_counts_down_iff [⟨[], 7, 0, none⟩] 64 3 opened events _ _ _ 1
    (ascii "5m") 5 10 true rfl rfl (by decide) rfl rfl (List.all_eq_true.mp (by decide))
  have final := (counts.mp (by decide)) events [] _ (List.append_nil _).symm rfl
  exact ⟨_, rfl, final, final.remaining 20⟩

/-- The sweep at its deadline finds the call open, and the query then says that the client
sent no deadline. -/
theorem time_remaining_lost_after_sweep :
    ∃ final, Transition.run Turning.step (.start (.newServer [⟨[], 7, 0, none⟩] 64 3))
        (.plain (.beginHeaders ⟨1, nvHeaders, 0, .request⟩ true) ::
          .plain (.header 1 nGrpcTimeout (ascii "5m") 10 true) ::
          (timedCall ++ [.plain (.expireDeadlines 15)])) = some final ∧
      (final.conn.findStream 1).isSome = true ∧
      final.conn.callTimeRemainingMs 1 15 = .ok none ∧
      grpcudsCallTimeRemainingMs (some final.conn) 1 15 = -1 :=
  ⟨_, rfl, by decide, by decide, by decide⟩

end GrpcUds.Ffi
