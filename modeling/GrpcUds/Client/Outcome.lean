import GrpcUds.Client.Isolation

/-!
# What success rests on

The status a call reports is the last one its state recorded, and a state records
nothing but the headers its streams carried and the deadline.  A call that ends
well had a zero grpc-status, or its stream ended, cleanly or not, without one to go by.
-/

namespace GrpcUds.Client

open Framing Headers

/-- The values of the headers with this name. -/
def headerValues (name : Bytes) (history : List Happening) : List Bytes :=
  history.filterMap fun
    | .header other value => if other = name then some value else none
    | _ => none

theorem mem_headerValues {name value : Bytes} {history : List Happening} :
    value ∈ headerValues name history ↔ .header name value ∈ history := by
  simp only [headerValues, List.mem_filterMap]
  constructor
  · rintro ⟨happening, membership, selected⟩
    split at selected
    next other found =>
      obtain ⟨rfl, same⟩ := Option.ite_none_right_eq_some.mp selected
      exact Option.some.inj same ▸ membership
    next => simp at selected
  · exact fun membership => ⟨_, membership, if_pos rfl⟩

theorem headerValues_append (name : Bytes) (history : List Happening) (happening : Happening) :
    headerValues name (history ++ [happening]) =
      headerValues name history ++ headerValues name [happening] :=
  List.filterMap_append

/-- The stream carried a grpc-status with this value. -/
def CarriedStatus (history : List Happening) (code : Int) : Prop :=
  ∃ value ∈ headerValues nGrpcStatus history, parseI32 value = some code

/-- The stream carried an HTTP status with this value. -/
def CarriedHttp (history : List Happening) (code : Nat) : Prop :=
  ∃ value ∈ headerValues nStatus history, parseU32 value = some code

instance (history : List Happening) (code : Int) : Decidable (CarriedStatus history code) :=
  inferInstanceAs (Decidable (∃ value ∈ headerValues nGrpcStatus history, _))

/-- The last grpc-status that the stream carried, if it is a number. -/
def statedStatus (history : List Happening) : Option Int :=
  (headerValues nGrpcStatus history).getLast?.bind parseI32

theorem CarriedStatus.of_stated {history : List Happening} {code : Int}
    (stated : statedStatus history = some code) : CarriedStatus history code := by
  obtain ⟨value, last, parsed⟩ := Option.bind_eq_some_iff.mp stated
  exact ⟨value, List.mem_of_getLast? last, parsed⟩

theorem happen_grpcStatus (kind : Kind) (state : CallState) (history : List Happening)
    (happening : Happening)
    (before : state.grpcStatus = statedStatus history ∨ state.grpcStatus = some 4) :
    (state.happen kind happening).grpcStatus = statedStatus (history ++ [happening]) ∨
      (state.happen kind happening).grpcStatus = some 4 := by
  have other (silent : headerValues nGrpcStatus [happening] = [])
      (kept : (state.happen kind happening).grpcStatus = state.grpcStatus) :
      (state.happen kind happening).grpcStatus = statedStatus (history ++ [happening]) ∨
        (state.happen kind happening).grpcStatus = some 4 := by
    rwa [kept, statedStatus, headerValues_append, silent, List.append_nil]
  cases happening with
  | header name value =>
      by_cases isStatus : name = nGrpcStatus
      · subst isStatus
        have apart : nGrpcStatus ≠ nStatus := by decide
        left
        simp [CallState.happen, CallState.onHeader, statedStatus, apart,
          headerValues]
      · refine other (by simp [headerValues, isStatus]) ?_
        simp only [CallState.happen, CallState.onHeader, isStatus, if_false]
        split
        · rfl
        · split <;> rfl
  | close errorCode => cases kind <;> exact other rfl rfl
  | expired => exact .inr rfl
  | _ => exact other rfl rfl

theorem happen_httpStatus {kind : Kind} {state : CallState} {happening : Happening} {code : Nat}
    (recorded : (state.happen kind happening).httpStatus = some code) :
    (∃ value, happening = .header nStatus value ∧ parseU32 value = some code) ∨
      state.httpStatus = some code := by
  cases happening with
  | header name value =>
      simp only [CallState.happen, CallState.onHeader] at recorded
      split at recorded
      next isStatus => exact .inl ⟨value, by rw [isStatus], recorded⟩
      next =>
        split at recorded
        next => exact .inr recorded
        next => split at recorded <;> exact .inr recorded
  | close errorCode => cases kind <;> exact .inr recorded
  | _ => exact .inr recorded

/-- The recorded grpc-status is the last that was carried, or the local one of an expired
call. -/
theorem replay_grpcStatus (kind : Kind) (req : Bytes) (history : List Happening) :
    (replay kind req history).grpcStatus = statedStatus history ∨
      (replay kind req history).grpcStatus = some 4 := by
  induction history using List.reverseRecOn with
  | nil => exact .inl rfl
  | append_singleton history happening ih =>
      rw [replay_append]
      exact happen_grpcStatus kind _ history happening ih

theorem replay_httpStatus {kind : Kind} {req : Bytes} {history : List Happening} {code : Nat}
    (recorded : (replay kind req history).httpStatus = some code) : CarriedHttp history code := by
  induction history using List.reverseRecOn with
  | nil => simp [replay, CallState.reset] at recorded
  | append_singleton history happening ih =>
      rw [replay_append] at recorded
      rcases happen_httpStatus recorded with ⟨value, rfl, parsed⟩ | before
      · exact ⟨value, mem_headerValues.mpr (by simp), parsed⟩
      · obtain ⟨value, carried, parsed⟩ := ih before
        exact ⟨value, headerValues_append nStatus _ _ ▸ List.mem_append_left _ carried, parsed⟩

/-- An isolated call on whose stream the last grpc-status is a number has it recorded, unless
it expired. -/
theorem Isolated.recorded {past : List Stream} {client : ClientConn}
    (isolated : Isolated past client) : client.state.grpcStatus = statedStatus client.history ∨
      client.state.grpcStatus = some 4 := by
  rw [isolated.observes]
  exact replay_grpcStatus client.kind _ client.history

theorem Isolated.carriedStatus {past : List Stream} {client : ClientConn}
    (isolated : Isolated past client) (zero : client.state.grpcStatus = some 0) :
    CarriedStatus client.history 0 := by
  rcases isolated.recorded with stated | expired
  · exact .of_stated (stated ▸ zero)
  · simp [expired] at zero

/-- What an isolated call that ends well has seen of its stream. -/
theorem Isolated.succeeded {past : List Stream} {client : ClientConn}
    (isolated : Isolated past client) (ok : client.finalStatus = .ok ())
    (telling : statedStatus client.history ≠ none ∨ ¬ CarriedHttp client.history 200) :
    CarriedStatus client.history 0 := by
  rcases ClientConn.finalStatus_eq_ok_iff.mp ok with zero | ⟨unstated, accepted⟩
  · exact isolated.carriedStatus zero
  · exfalso
    rcases telling with stated | refused
    · rcases isolated.recorded with same | expired
      · exact stated (same ▸ unstated)
      · simp [unstated] at expired
    · rw [isolated.observes] at accepted
      exact refused (replay_httpStatus accepted)

/-- A connection in the call that was submitted from `start`. -/
inductive InCall (start : ClientConn) : ClientConn → Prop where
  | submitted {opened : ClientConn} (request : Bytes) (env : SubmitEnv) (sid : Nat)
      (submitted : start.submit request env = (.ok sid, opened)) : InCall start opened
  | step {client : ClientConn} (event : ClientEvent) (before : InCall start client)
      (same : event.isSubmit = false) : InCall start (client.step event)

/-- A call submitted on a clear session is isolated to its end. -/
theorem InCall.isolated {start client : ClientConn} (inCall : InCall start client)
    (clear : start.Clear) : Isolated (start.gone ++ start.streams) client := by
  induction inCall with
  | submitted request env sid submitted =>
      have isolated := ClientConn.submit_isolated clear (fun _ listed => .inl listed) request
        (ClientConn.submit_eq_ok submitted).1
      rwa [submitted] at isolated
  | step event _ same ih => exact ih.step (by simp [same])

/-- For a call submitted on a clear session, `unary` returns a message and `message`
reports the end of the stream only if the stream carried a zero grpc-status, provided that
the last grpc-status it carried is a number or that it carried no HTTP 200.  A stream reader
of the C ABI ends with status 0 only then, provided that the last grpc-status is a number. -/
theorem success_rests_on_status {start last : ClientConn} (clear : start.Clear) :
    (∀ request env turns body, start.unary request env turns = (some (.ok body), last) →
      statedStatus last.history ≠ none ∨ ¬ CarriedHttp last.history 200 →
      CarriedStatus last.history 0) ∧
    ∀ client turns, InCall start client →
      (client.message turns = (some (.ok none), last) →
        statedStatus last.history ≠ none ∨ ¬ CarriedHttp last.history 200 →
        CarriedStatus last.history 0) ∧
      ∀ reader after : StreamReader, reader.done = false →
        client.grpcudsStreamNext reader turns = (some none, after, last) → after.status = 0 →
        statedStatus last.history ≠ none → CarriedStatus last.history 0 := by
  refine ⟨fun request env turns body returned telling => ?_,
    fun client turns inCall => ⟨fun ended telling => ?_,
      fun reader after unread ended zero stated => ?_⟩⟩
  · obtain ⟨sid, opened, driven, submitted, moves, final, rfl⟩ :=
      ClientConn.unary_eq_ok returned
    have isolated := ((InCall.submitted request env sid submitted).isolated clear).moves moves
    -- Taking the message leaves the recorded status as it is.
    exact isolated.take.succeeded final telling
  · obtain ⟨received, final⟩ := ClientConn.message_eq_none ended
    have moves := ClientConn.receive_none_moves received
    exact ((inCall.isolated clear).moves moves).succeeded final telling
  · rcases ClientConn.grpcudsStreamNext_eq_null unread ended with failed | ⟨received, status⟩
    · simp [failed] at zero
    · have isolated := (inCall.isolated clear).moves (ClientConn.receive_none_moves received)
      rcases isolated.recorded with same | expired
      · obtain ⟨code, isCode⟩ := Option.ne_none_iff_exists'.mp stated
        rw [same, isCode] at status
        exact .of_stated (isCode.trans (congrArg some (status.symm.trans zero)))
      · simp [status, expired] at zero

/-- A message and a zero grpc-status for both clients, and an empty stream. -/
theorem success_rests_on_status_zero :
    let env : SubmitEnv := ⟨true, true, 0, ⟨[], true⟩⟩
    let unaryTurn : Turn := ⟨false, ⟨⟨[], true⟩, 0, .ready, .received
      [.header 1 nStatus (ascii "200"), .data 1 (frame [5]), .header 1 nGrpcStatus (ascii "0"),
        .close 1 0], ⟨[], true⟩⟩⟩
    let emptyTurn : Turn := ⟨false, ⟨⟨[], true⟩, 0, .ready, .received
      [.header 1 nStatus (ascii "200"), .header 1 nGrpcStatus (ascii "0"), .close 1 0],
      ⟨[], true⟩⟩⟩
    let opened := ((ClientConn.connect .std).submit [1] env).2
    (∃ last, (ClientConn.connect .std).unary [1] env [unaryTurn] = (some (.ok [5]), last) ∧
      CarriedStatus last.history 0) ∧
    (∃ last, opened.message [emptyTurn] = (some (.ok none), last) ∧
      CarriedStatus last.history 0) ∧
    ∃ after last, opened.grpcudsStreamNext .new [emptyTurn] = (some none, after, last) ∧
      after.status = 0 ∧ CarriedStatus last.history 0 := by
  intro env unaryTurn emptyTurn opened
  have inCall : InCall (.connect .std) opened := .submitted [1] env 1 rfl
  have clear : (ClientConn.connect .std).Clear := .inr rfl
  exact ⟨⟨_, rfl, (success_rests_on_status clear).1 [1] env [unaryTurn] [5] rfl
      (.inl (by decide))⟩,
    ⟨_, rfl, ((success_rests_on_status clear).2 opened [emptyTurn] inCall).1 rfl
      (.inl (by decide))⟩,
    ⟨_, _, rfl, rfl, ((success_rests_on_status clear).2 opened [emptyTurn] inCall).2 .new _
      rfl rfl rfl (by decide)⟩⟩

/-- Success without a zero grpc-status on the stream of the call: HTTP 200, and then a reset
of the stream or the end of the connection; the trailers of a stream that was abandoned;
and, for a stream reader of the C ABI, the end of the connection before any header. -/
theorem success_without_status :
    let env : SubmitEnv := ⟨true, true, 0, ⟨[], true⟩⟩
    let turn (read : ReadResult) : Turn := ⟨false, ⟨⟨[], true⟩, 0, .ready, read, ⟨[], true⟩⟩⟩
    let opened := ((ClientConn.connect .std).submit [1] env).2
    (∃ last, (ClientConn.connect .std).unary [1] env [turn (.received
        [.header 1 nStatus (ascii "200"), .data 1 (frame [5]), .close 1 2])] =
          (some (.ok [5]), last) ∧ ¬ CarriedStatus last.history 0) ∧
    (∃ last, opened.message [turn (.received [.header 1 nStatus (ascii "200")]),
        turn .endOfFile] = (some (.ok none), last) ∧ ¬ CarriedStatus last.history 0) ∧
    (∃ last, opened.unary [2] env [turn (.received
        [.data 1 (frame [7]), .header 1 nGrpcStatus (ascii "0")])] =
          (some (.ok [7]), last) ∧ ¬ CarriedStatus last.history 0) ∧
    ∃ after last, opened.grpcudsStreamNext .new [turn .endOfFile] = (some none, after, last) ∧
      after.status = 0 ∧ ¬ CarriedStatus last.history 0 := by
  exact ⟨⟨_, rfl, by decide⟩, ⟨_, rfl, by decide⟩, ⟨_, rfl, by decide⟩,
    ⟨_, _, rfl, rfl, by decide⟩⟩

end GrpcUds.Client
