import GrpcUds.Client.Outcome

/-!
# What a call delivers of the bytes it received

The bytes that reach the deframer are the frames of the messages taken and
queued, followed by its buffer.  Nothing looks at the buffer when a call ends, so
a call delivers all its DATA exactly when the DATA is whole frames.
-/

namespace GrpcUds.Client

open Framing Headers

/-- Every byte that reached the deframer is in a message or in the buffer. -/
theorem happen_deframed (kind : Kind) {state : CallState} {happening : Happening} {fed : Bytes}
    {returned : List Bytes} (notTaken : happening ≠ .taken)
    (before : Deframed fed (returned ++ state.messages) state.inbuf) :
    Deframed (fed ++ happening.dataBytes) (returned ++ (state.happen kind happening).messages)
      (state.happen kind happening).inbuf := by
  have quiet (noData : happening.dataBytes = [])
      (messages : (state.happen kind happening).messages = state.messages)
      (inbuf : (state.happen kind happening).inbuf = state.inbuf) :
      Deframed (fed ++ happening.dataBytes) (returned ++ (state.happen kind happening).messages)
        (state.happen kind happening).inbuf := by
    rwa [noData, messages, inbuf, List.append_nil]
  cases happening with
  | data bytes =>
      simp only [CallState.happen, CallState.onData, ← List.append_assoc]
      exact before.append (deframe_deframed _)
  | header name value =>
      obtain ⟨_, _, _, same⟩ := state.onHeader_eq name value
      exact quiet rfl (by rw [CallState.happen, same]) (by rw [CallState.happen, same])
  | close errorCode => cases kind <;> exact quiet rfl rfl rfl
  | taken => exact absurd rfl notTaken
  | _ => exact quiet rfl rfl rfl

/-- The messages of a call and the buffer of its deframer make up what was fed. -/
def ClientConn.Split (client : ClientConn) : Prop :=
  Deframed client.fed (client.returned ++ client.state.messages) client.state.inbuf

namespace ClientConn.Split

variable {client : ClientConn}

theorem openStream (session : ClientConn) (framed : Bytes) (now : Nat) :
    ((session.arm framed).openStream now).Split :=
  Deframed.nil

variable (split : client.Split)
include split

theorem note {happening : Happening} (notTaken : happening ≠ .taken)
    (noData : happening.dataBytes = []) : (client.note happening).Split := by
  have after : Deframed (client.fed ++ happening.dataBytes) _ _ :=
    happen_deframed client.kind notTaken split
  rwa [noData, List.append_nil] at after

theorem onSession (event : SessionEvent) :
    (client.onSession event).Split := by
  unfold ClientConn.onSession
  cases client.streams.find? fun stream => stream.id = event.sid with
  | none => exact split
  | some stream =>
      have notTaken : event.happening ≠ .taken := by cases event <;> simp [SessionEvent.happening]
      have after := happen_deframed client.kind notTaken split
      cases event <;> exact after

theorem move {next : ClientConn} (move : ClientMove client next) :
    next.Split := by
  cases move with
  | session event => exact split.onSession event
  | expired => exact split.note (by simp) rfl
  | disconnected => exact split.note (by simp) rfl
  | settings => exact split

theorem moves {next : ClientConn} (moves : ClientMoves client next) :
    next.Split := by
  induction moves with
  | refl => exact split
  | tail _ move ih => exact ih.move move

/-- The message taken moves from one list to the other. -/
theorem take : client.take.Split := by
  unfold Split at split ⊢
  simp only [ClientConn.take, ClientConn.note, CallState.happen, List.append_assoc]
  cases queued : client.state.messages with
  | nil => simpa [queued] using split
  | cons message rest => simpa [queued] using split

end ClientConn.Split

theorem InCall.split {start client : ClientConn} (inCall : InCall start client) :
    client.Split := by
  induction inCall with
  | submitted request env sid submitted =>
      exact (ClientConn.Split.openStream _ _ _).moves (ClientConn.submit_eq_ok submitted).2
  | step event _ same ih =>
      cases event with
      | setTimeout timeout => exact ih
      | submit request env => simp [ClientEvent.isSubmit] at same
      | pump env => exact ih.moves (ClientConn.pump_moves _ env)
      | take => exact ih.take

/-- When a reader of a call reports a clean end, the frames of the messages it
returned are all the DATA of the stream exactly when that DATA is whole frames and no
frame of another stream follows it into the deframer.  On a session that was clear no
other stream does. -/
theorem clean_end_delivers_all {start client last : ClientConn} {turns : List Turn}
    (inCall : InCall start client) (ended : client.message turns = (some (.ok none), last) ∨
      (client.recvCurrent turns = (some (.ok none), last) ∧ last.state.grpcStatus = some 0)) :
    (frames last.returned = receivedData last.history ↔
      WholeFrames (receivedData last.history) ∧
      ∃ left, last.fed = receivedData last.history ++ left ∧
        ∀ payload, ¬ Carries maxMessageLen left payload) ∧
    (start.Clear → (frames last.returned = receivedData last.history ↔
      WholeFrames (receivedData last.history))) := by
  have received : ClientConn.receive turns client = (some (.ok none), last) :=
    ended.elim (fun message => (ClientConn.message_eq_none message).1) And.left
  have moves := ClientConn.receive_none_moves received
  have split : Deframed last.fed last.returned last.state.inbuf := by
    simpa [ClientConn.Split, (ClientConn.receive_eq_none received).2] using
      inCall.split.moves moves
  have delivered := @Deframed.frames_eq_iff _ _ _ (receivedData last.history) split
  refine ⟨delivered, fun clear => ?_⟩
  have fed := ((inCall.isolated clear).moves moves).fed
  rw [delivered, fed]
  exact and_iff_left ⟨[], (List.append_nil _).symm, Deframed.nil.stuck⟩

/-- One message is read, then the stream ends. -/
theorem clean_end_delivers_one :
    let env : SubmitEnv := ⟨true, true, 0, ⟨[], true⟩⟩
    let pump (events : List SessionEvent) : PumpEnv :=
      ⟨⟨[], true⟩, 0, .ready, .received events, ⟨[], true⟩⟩
    let client := ((ClientConn.connect .std).submit [1] env).2.run
      [.pump (pump [.header 1 nStatus (ascii "200"), .data 1 (frame [5])]), .take]
    let turns : List Turn := [⟨false, pump [.header 1 nGrpcStatus (ascii "0"), .close 1 0]⟩]
    ∃ last, client.message turns = (some (.ok none), last) ∧ last.returned = [[5]] ∧
      frames last.returned = receivedData last.history := by
  intro env pump client turns
  have inCall : InCall (.connect .std) client :=
    .step .take (.step (.pump _) (.submitted [1] env 1 rfl) rfl) rfl
  have ended : client.message turns = (some (.ok none), (client.message turns).2) := rfl
  exact ⟨_, ended, rfl, ((clean_end_delivers_all inCall (.inl ended)).2 (.inr rfl)).mpr
    ⟨[[5]], by decide, by decide⟩⟩

/-- A compressed frame and a zero grpc-status: both readers report a clean end and the
frame is lost. -/
theorem clean_end_drops_compressed :
    let opened (kind : Kind) := ((ClientConn.connect kind).submit [1] ⟨true, true, 0, ⟨[], true⟩⟩).2
    let turn : Turn := ⟨false, ⟨⟨[], true⟩, 0, .ready, .received
      [.header 1 nStatus (ascii "200"), .data 1 [1, 0, 0, 0, 1, 7],
        .header 1 nGrpcStatus (ascii "0"), .close 1 0], ⟨[], true⟩⟩⟩
    (∃ last, (opened .std).message [turn] = (some (.ok none), last) ∧ last.returned = [] ∧
      receivedData last.history = [1, 0, 0, 0, 1, 7]) ∧
    ∃ last, (opened .core).recvCurrent [turn] = (some (.ok none), last) ∧
      last.state.grpcStatus = some 0 ∧ last.returned = [] ∧
      receivedData last.history = [1, 0, 0, 0, 1, 7] :=
  ⟨⟨_, rfl, rfl, rfl⟩, ⟨_, rfl, rfl, rfl, rfl⟩⟩

/-- Driving a call takes none of its messages. -/
theorem ClientMoves.returned {client next : ClientConn} (moves : ClientMoves client next) :
    next.returned = client.returned := by
  induction moves with
  | refl => rfl
  | tail _ move ih =>
      rw [← ih]
      cases move with
      | session event =>
          unfold ClientConn.onSession
          split
          · rfl
          · cases event <;> rfl
      | _ => rfl

/-- A unary call of the C ABI with status 0 has the payload of the first frame of its
stream as its body exactly when the stream starts with a complete frame, which is also
the first one that reaches the deframer; an empty first payload is also met by chance,
when no frame reaches the deframer.  On a session that was clear the first frame of the
stream is all it takes. -/
theorem unary_body_is_first_frame {start last : ClientConn} {request : Bytes} {env : SubmitEnv}
    {turns : List Turn} {response : Response}
    (returned : start.grpcudsClientUnary request env turns = (some (some response), last)) :
    let own := receivedData last.history
    response.status = 0 →
    (Carries maxMessageLen own response.body ↔
      (∃ payload, Carries maxMessageLen own payload ∧ Carries maxMessageLen last.fed payload) ∨
      (Carries maxMessageLen own [] ∧ ∀ payload, ¬ Carries maxMessageLen last.fed payload)) ∧
    (start.Clear →
      (Carries maxMessageLen own response.body ↔
        ∃ payload, Carries maxMessageLen own payload)) := by
  intro own _
  obtain ⟨sid, opened, driven, submitted, moves, body, fed, data⟩ :=
    ClientConn.grpcudsClientUnary_eq_some returned
  have inCall : InCall start opened := .submitted request env sid submitted
  have untaken : driven.returned = [] := by
    rw [moves.returned, ClientMoves.returned (ClientConn.submit_eq_ok submitted).2]
    rfl
  have split : Deframed last.fed driven.state.messages driven.state.inbuf := by
    simpa [ClientConn.Split, untaken, fed] using inCall.split.moves moves
  have first : (Carries maxMessageLen own response.body ↔
      (∃ payload, Carries maxMessageLen own payload ∧ Carries maxMessageLen last.fed payload) ∨
      (Carries maxMessageLen own [] ∧ ∀ payload, ¬ Carries maxMessageLen last.fed payload)) := by
    simp only [body, split.carries_iff]
    cases driven.state.messages with
    | nil => simp
    | cons message rest => simp
  refine ⟨first, fun clear => ⟨fun carries => ⟨_, carries⟩, ?_⟩⟩
  rintro ⟨payload, carries⟩
  have same : last.fed = own := by
    rw [fed, ((inCall.isolated clear).moves moves).fed, ← data]
  exact first.mpr (.inl ⟨payload, carries, same ▸ carries⟩)

/-- The message arrives in two chunks, with the status between them. -/
theorem unary_body_is_first_frame_in_chunks :
    let env : SubmitEnv := ⟨true, true, 0, ⟨[], true⟩⟩
    let turns : List Turn := [⟨false, ⟨⟨[], true⟩, 0, .ready, .received
      [.header 1 nStatus (ascii "200"), .data 1 [0, 0, 0, 0], .header 1 nGrpcStatus (ascii "0"),
        .data 1 [1, 5], .close 1 0], ⟨[], true⟩⟩⟩]
    ∃ response last,
      (ClientConn.connect .core).grpcudsClientUnary [1] env turns = (some (some response), last) ∧
      response.status = 0 ∧ response.body = [5] ∧
      Carries maxMessageLen (receivedData last.history) response.body := by
  intro env turns
  have response : ((ClientConn.connect .core).grpcudsClientUnary [1] env turns).1 =
      some (some ⟨[5], 0, none⟩) := by decide +kernel
  have data : receivedData ((ClientConn.connect .core).grpcudsClientUnary [1] env turns).2.history =
      frame [5] := by decide +kernel
  have returned : (ClientConn.connect .core).grpcudsClientUnary [1] env turns =
      (some (some ⟨[5], 0, none⟩),
        ((ClientConn.connect .core).grpcudsClientUnary [1] env turns).2) :=
    Prod.ext response rfl
  refine ⟨⟨[5], 0, none⟩, _, returned, rfl, rfl, ?_⟩
  apply ((unary_body_is_first_frame returned rfl).2 (.inr rfl)).mpr
  refine ⟨[5], ?_⟩
  rw [data]
  exact carries_iff_frame.mpr ⟨by decide, [], rfl⟩

/-- A compressed message and a zero grpc-status: status 0 with an empty body. -/
theorem unary_reports_empty_body :
    let turns : List Turn := [⟨false, ⟨⟨[], true⟩, 0, .ready, .received
      [.header 1 nStatus (ascii "200"), .data 1 [1, 0, 0, 0, 1, 7],
        .header 1 nGrpcStatus (ascii "0"), .close 1 0], ⟨[], true⟩⟩⟩]
    ∃ last,
      (ClientConn.connect .core).grpcudsClientUnary [1] ⟨true, true, 0, ⟨[], true⟩⟩ turns =
        (some (some ⟨[], 0, none⟩), last) ∧
      ∀ payload, ¬ Carries maxMessageLen (receivedData last.history) payload := by
  intro turns
  generalize call : (ClientConn.connect .core).grpcudsClientUnary [1] ⟨true, true, 0, ⟨[], true⟩⟩
    turns = reply
  have response : reply.1 = some (some ⟨[], 0, none⟩) := by
    rw [← call]
    decide +kernel
  have data : receivedData reply.2.history = [1, 0, 0, 0, 1, 7] := by
    rw [← call]
    decide +kernel
  refine ⟨reply.2, Prod.ext response rfl, fun payload carries => ?_⟩
  rw [data] at carries
  obtain ⟨header, accepted, _⟩ := carries_iff.mp carries
  exact absurd accepted nofun

end GrpcUds.Client
