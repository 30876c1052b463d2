import Mathlib.Logic.Relation
import GrpcUds.Client.Calls

/-!
# What a pump can do

While a call is driven, a connection changes by callbacks, by the deadline and by
the end of the connection.  Every loop is a sequence of these moves, so an
invariant is checked against the moves only.
-/

namespace GrpcUds.Client

open Framing Relation

inductive ClientMove (client : ClientConn) : ClientConn → Prop where
  | session (event : SessionEvent) : ClientMove client (client.onSession event)
  | expired : ClientMove client (client.note .expired)
  | disconnected : ClientMove client (client.note .disconnected)
  | settings (broken : Bool) (deadline timeout : Option Nat) :
      ClientMove client
        { client with
          broken := broken
          deadlineMs := deadline
          timeoutMs := timeout }

abbrev ClientMoves : ClientConn → ClientConn → Prop := ReflTransGen ClientMove

/-- The DATA bytes of a history. -/
def receivedData (history : List Happening) : Bytes := history.flatMap Happening.dataBytes

theorem receivedData_append (history : List Happening) (happening : Happening) :
    receivedData (history ++ [happening]) = receivedData history ++ happening.dataBytes := by
  simp [receivedData]

namespace ClientConn

variable (client : ClientConn)

theorem broken_moves (broken : Bool) :
    ClientMoves client { client with broken := broken } :=
  .single (.settings broken client.deadlineMs client.timeoutMs)

theorem feed_moves (events : List SessionEvent) :
    ClientMoves client (client.feed events) := by
  induction events generalizing client with
  | nil => exact .refl
  | cons event events ih =>
      exact (ReflTransGen.single (.session event)).trans (ih _)

theorem flushSend_moves (env : FlushEnv) :
    ClientMoves client (client.flushSend env).2 := by
  unfold flushSend
  split
  · exact client.feed_moves env.events
  · exact (client.feed_moves env.events).trans (broken_moves _ _)

theorem disconnect_moves : ClientMoves client client.disconnect :=
  (ReflTransGen.single .disconnected).trans (broken_moves _ true)

theorem expireCall_moves (env : FlushEnv) :
    ClientMoves client (client.expireCall env) := by
  have expired : ClientMoves client { client.note .expired with deadlineMs := none } :=
    (ReflTransGen.single .expired).trans (.single (.settings client.broken none client.timeoutMs))
  unfold expireCall
  split
  · exact expired.trans (flushSend_moves _ env)
  · exact expired

theorem pumpRead_moves (read : ReadResult) :
    ClientMoves client (client.pumpRead read).2 := by
  cases read with
  | received events => exact client.feed_moves events
  | refused events => exact (client.feed_moves events).trans (broken_moves _ true)
  | endOfFile => exact client.disconnect_moves
  | interrupted => exact .refl
  | failed => exact client.disconnect_moves

theorem pump_moves (env : PumpEnv) :
    ClientMoves client (client.pump env).2 := by
  have sent := client.flushSend_moves env.flush
  unfold pump
  generalize client.flushSend env.flush = flushed at sent ⊢
  obtain ⟨written, after⟩ := flushed
  cases written with
  | false => exact sent.trans (broken_moves after true)
  | true =>
      dsimp only
      cases after.deadlineMs with
      | none => exact sent.trans (after.pumpRead_moves env.read)
      | some deadline =>
          dsimp only
          split
          · exact sent.trans (after.expireCall_moves env.cancel)
          · cases env.poll with
            | ready => exact sent.trans (after.pumpRead_moves env.read)
            | timedOut => exact sent.trans (after.expireCall_moves env.cancel)
            | interrupted => exact sent
            | failed => exact sent.trans after.disconnect_moves

theorem drive_moves (stop : Bool → ClientConn → Bool) (turns : List Turn) (client : ClientConn) :
    ClientMoves client (drive stop turns client).2 := by
  induction turns generalizing client with
  | nil =>
      unfold drive
      split <;> exact .refl
  | cons turn turns ih =>
      unfold drive
      split
      · exact .refl
      · have pumped := client.pump_moves turn.pump
        generalize client.pump turn.pump = reply at pumped ⊢
        obtain ⟨outcome, after⟩ := reply
        cases outcome with
        | error error => exact pumped
        | ok _ => exact pumped.trans (ih after)

variable {client last : ClientConn} {turns : List Turn}

/-- A loop that ends well has met its condition. -/
theorem drive_stops {stop : Bool → ClientConn → Bool}
    (ended : drive stop turns client = (some (.ok ()), last)) : ∃ idle, stop idle last = true := by
  induction turns generalizing client with
  | nil =>
      unfold drive at ended
      split at ended
      next stopped =>
        obtain ⟨_, rfl⟩ := Prod.mk.inj ended
        exact ⟨false, stopped⟩
      next => simp at ended
  | cons turn turns ih =>
      unfold drive at ended
      split at ended
      next stopped =>
        obtain ⟨_, rfl⟩ := Prod.mk.inj ended
        exact ⟨turn.idle, stopped⟩
      next =>
        generalize client.pump turn.pump = reply at ended
        obtain ⟨outcome, after⟩ := reply
        cases outcome with
        | error error => simp at ended
        | ok _ => exact ih ended

/-- A submit that succeeds opens a stream for its request and sends. -/
theorem submit_eq_ok {opened : ClientConn} {request : Bytes} {env : SubmitEnv} {sid : Nat}
    (submitted : client.submit request env = (.ok sid, opened)) :
    (client.broken = true → env.connected = true) ∧
    ClientMoves
      (((if client.broken then client.reconnect else client).arm (frame request)).openStream
        env.now) opened := by
  unfold submit at submitted
  split at submitted
  next => simp at submitted
  next live =>
    refine ⟨fun broken => by simpa [broken] using live, ?_⟩
    generalize (if client.broken then client.reconnect else client) = session at submitted ⊢
    dsimp only at submitted
    split at submitted
    next =>
      have sent := ((session.arm (frame request)).openStream env.now).flushSend_moves env.flush
      generalize ((session.arm (frame request)).openStream env.now).flushSend env.flush = flushed
        at submitted sent
      obtain ⟨written, after⟩ := flushed
      cases written with
      | true =>
          obtain ⟨_, rfl⟩ := Prod.mk.inj submitted
          exact sent
      | false => simp at submitted
    next => simp at submitted

theorem receive_eq_none (ended : receive turns client = (some (.ok none), last)) :
    drive readable turns client = (some (.ok ()), last) ∧ last.state.messages = [] := by
  unfold receive at ended
  generalize drive readable turns client = reply at ended ⊢
  obtain ⟨outcome, after⟩ := reply
  cases outcome with
  | none => simp at ended
  | some result =>
      cases result with
      | error error => simp at ended
      | ok _ =>
          dsimp only at ended
          split at ended
          next => simp at ended
          next empty =>
            obtain ⟨_, rfl⟩ := Prod.mk.inj ended
            exact ⟨rfl, empty⟩

/-- Ending a stream takes no message. -/
theorem receive_none_moves (ended : receive turns client = (some (.ok none), last)) :
    ClientMoves client last := by
  have moves := drive_moves readable turns client
  rwa [(receive_eq_none ended).1] at moves

theorem message_eq_none (ended : client.message turns = (some (.ok none), last)) :
    receive turns client = (some (.ok none), last) ∧ last.finalStatus = .ok () := by
  unfold message at ended
  generalize receive turns client = reply at ended ⊢
  obtain ⟨outcome, after⟩ := reply
  cases outcome with
  | none => simp at ended
  | some result =>
      cases result with
      | error error => simp at ended
      | ok received =>
          cases received with
          | some message => simp at ended
          | none =>
              obtain ⟨same, rfl⟩ := Prod.mk.inj ended
              refine ⟨rfl, ?_⟩
              cases final : after.finalStatus with
              | error status => simp [final, Except.map] at same
              | ok _ => rfl

theorem finalStatus_eq_ok_iff :
    client.finalStatus = .ok () ↔ client.state.grpcStatus = some 0 ∨
      (client.state.grpcStatus = none ∧ client.state.httpStatus = some 200) := by
  unfold finalStatus
  cases client.state.grpcStatus with
  | none => by_cases ok : client.state.httpStatus = some 200 <;> simp [ok]
  | some code => by_cases zero : code = 0 <;> simp [zero]

/-- A unary call of the std client that succeeds. -/
theorem unary_eq_ok {request body : Bytes} {env : SubmitEnv}
    (returned : client.unary request env turns = (some (.ok body), last)) :
    ∃ sid opened driven, client.submit request env = (.ok sid, opened) ∧
      ClientMoves opened driven ∧ driven.finalStatus = .ok () ∧ last = driven.take := by
  unfold unary at returned
  generalize client.submit request env = submitted at returned ⊢
  obtain ⟨outcome, opened⟩ := submitted
  cases outcome with
  | error error => simp at returned
  | ok sid =>
      dsimp only at returned
      have moves := drive_moves answered turns opened
      generalize drive answered turns opened = reply at returned moves
      obtain ⟨ended, driven⟩ := reply
      cases ended with
      | none => simp at returned
      | some result =>
          cases result with
          | error error => simp at returned
          | ok _ =>
              refine ⟨sid, opened, driven, rfl, moves, ?_⟩
              dsimp only at returned
              split at returned
              next => simp at returned
              next final =>
                split at returned
                next => simp at returned
                next => exact ⟨final, (Prod.mk.inj returned).2.symm⟩

/-- A stream reader that turns to its end. -/
theorem grpcudsStreamNext_eq_null {reader after : StreamReader} (open' : reader.done = false)
    (ended : client.grpcudsStreamNext reader turns = (some none, after, last)) :
    after.status = 14 ∨ (receive turns client = (some (.ok none), last) ∧
      after.status = last.state.grpcStatus.getD 0) := by
  unfold grpcudsStreamNext recvCurrent at ended
  rw [open'] at ended
  generalize receive turns client = reply at ended ⊢
  obtain ⟨outcome, driven⟩ := reply
  cases outcome with
  | none => simp at ended
  | some result =>
      cases result with
      | error error =>
          obtain ⟨rfl, rfl⟩ : _ = after ∧ driven = last := by simpa using ended
          exact .inl rfl
      | ok received =>
          cases received with
          | some message => simp at ended
          | none =>
              obtain ⟨rfl, rfl⟩ : _ = after ∧ driven = last := by simpa using ended
              exact .inr ⟨rfl, rfl⟩

/-- Reading a closed stream does not wait. -/
theorem receive_of_closed (closed : client.state.closed = true) :
    receive [] client =
      match client.state.messages with
      | message :: _ => (some (.ok (some message)), client.take)
      | [] => (some (.ok none), client) := by
  cases queued : client.state.messages <;> simp [receive, drive, readable, closed, queued]

/-- A unary call of the C ABI that returns a response. -/
theorem grpcudsClientUnary_eq_some {request : Bytes} {env : SubmitEnv} {response : Response}
    (returned : client.grpcudsClientUnary request env turns = (some (some response), last)) :
    ∃ sid opened driven, client.submit request env = (.ok sid, opened) ∧
      ClientMoves opened driven ∧ response.body = driven.state.messages.head?.getD [] ∧
      last.fed = driven.fed ∧ receivedData last.history = receivedData driven.history := by
  unfold grpcudsClientUnary unaryCore at returned
  generalize client.submit request env = submitted at returned ⊢
  obtain ⟨outcome, opened⟩ := submitted
  cases outcome with
  | error error => simp at returned
  | ok sid =>
      dsimp only at returned
      have moves := drive_moves (fun _ client => client.state.closed) turns opened
      have stops {last : ClientConn} :=
        @drive_stops opened last turns fun _ client => client.state.closed
      generalize drive (fun _ client => client.state.closed) turns opened = reply
        at returned moves stops
      obtain ⟨ended, driven⟩ := reply
      cases ended with
      | none => simp at returned
      | some result =>
          cases result with
          | error error => simp at returned
          | ok _ =>
              obtain ⟨_, closed⟩ := stops rfl
              refine ⟨sid, opened, driven, rfl, moves, ?_⟩
              simp only [recvCurrent, receive_of_closed closed] at returned
              cases queued : driven.state.messages with
              | nil =>
                  obtain ⟨rfl, rfl⟩ : _ = response ∧ driven = last := by
                    simpa [queued] using returned
                  exact ⟨rfl, rfl, rfl⟩
              | cons message rest =>
                  obtain ⟨rfl, rfl⟩ : _ = response ∧ driven.take = last := by
                    simpa [queued] using returned
                  refine ⟨rfl, rfl, ?_⟩
                  simp [take, note, receivedData_append, Happening.dataBytes]

end ClientConn

end GrpcUds.Client
