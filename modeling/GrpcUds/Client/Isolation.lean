import Mathlib.Data.List.Induction
import GrpcUds.Client.Moves

/-!
# What a call sees of other calls

Every stream of a session leads to the one call state, so a stream that outlives
its call feeds the next one.  If each call is submitted on a session without
open streams, a call observes its own stream only and its request goes to no
other stream.
-/

namespace GrpcUds.Client

open Framing Headers

theorem happen_req (kind : Kind) (state : CallState) (happening : Happening) :
    (state.happen kind happening).req = state.req := by
  cases happening with
  | header name value =>
      obtain ⟨_, _, _, same⟩ := state.onHeader_eq name value
      rw [CallState.happen, same]
  | close errorCode => cases kind <;> rfl
  | _ => rfl

theorem replay_req (kind : Kind) (req : Bytes) (history : List Happening) :
    (replay kind req history).req = req := by
  induction history using List.reverseRecOn with
  | nil => rfl
  | append_singleton history happening ih =>
      rw [replay_append, happen_req, ih]

/-- Only a read of the request body moves the reader. -/
theorem happen_reqOff (kind : Kind) (state : CallState) {happening : Happening}
    (notRead : ∀ length, happening ≠ .read length) :
    (state.happen kind happening).reqOff = state.reqOff := by
  cases happening with
  | header name value =>
      obtain ⟨_, _, _, same⟩ := state.onHeader_eq name value
      rw [CallState.happen, same]
  | close errorCode => cases kind <;> rfl
  | read length => exact absurd rfl (notRead length)
  | _ => rfl

theorem take_supply (state : CallState) (length : Nat) :
    state.req.take state.reqOff ++ state.supply length =
      state.req.take (state.dataRead length).reqOff := by
  simp only [CallState.supply, CallState.dataRead, List.take_add]
  congr 1
  rw [List.take_eq_take_iff, List.length_drop]
  omega

/-- A connection whose call observes its own stream only.  Streams that are gone,
other than `past` ones, were supplied with their own requests. -/
structure Isolated (past : List Stream) (client : ClientConn) : Prop where
  observes : client.state = replay client.kind client.request client.history
  fed : client.fed = receivedData client.history
  own : ∀ stream ∈ client.streams, stream.id = client.currentSid ∧
    stream.request = client.request ∧ stream.supplied = client.request.take client.state.reqOff
  gone : ∀ stream ∈ client.gone, stream ∈ past ∨ stream.supplied <+: stream.request

namespace Isolated

variable {past : List Stream} {client : ClientConn}

theorem connect (kind : Kind) : Isolated past (.connect kind) where
  observes := rfl
  fed := rfl
  own := by simp [ClientConn.connect]
  gone := by simp [ClientConn.connect]

variable (isolated : Isolated past client)
include isolated

theorem req : client.state.req = client.request := by
  rw [isolated.observes, replay_req]

theorem supplied :
    ∀ stream ∈ client.streams, stream.supplied <+: stream.request := by
  intro stream membership
  obtain ⟨_, request, supplied⟩ := isolated.own stream membership
  rw [request, supplied]
  exact List.take_prefix _ _

/-- Something that happens to the call without a callback. -/
theorem note (happening : Happening) (noData : happening.dataBytes = [])
    (notRead : ∀ length, happening ≠ .read length) :
    Isolated past (client.note happening) where
  observes := by rw [ClientConn.note, isolated.observes, replay_append]
  fed := by simp [ClientConn.note, receivedData_append, noData, isolated.fed]
  own := by
    intro stream membership
    simp only [ClientConn.note]
    rw [happen_reqOff client.kind client.state notRead]
    exact isolated.own stream membership
  gone := isolated.gone

theorem onSession (event : SessionEvent) :
    Isolated past (client.onSession event) := by
  unfold ClientConn.onSession
  cases found : client.streams.find? fun stream => stream.id = event.sid with
  | none => exact isolated
  | some stream =>
      have membership := List.mem_of_find?_eq_some found
      have named : stream.id = event.sid := by simpa using List.find?_some found
      obtain ⟨current, _, _⟩ := isolated.own stream membership
      have own : event.sid = client.currentSid := named.symm.trans current
      have observes : client.state.happen client.kind event.happening =
          replay client.kind client.request (client.history ++ [event.happening]) := by
        rw [replay_append, ← isolated.observes]
      have fed : client.fed ++ event.happening.dataBytes =
          receivedData (client.history ++ [event.happening]) := by
        rw [receivedData_append, isolated.fed]
      have unread : (∀ length, event.happening ≠ .read length) → ∀ stream ∈ client.streams,
          stream.id = client.currentSid ∧ stream.request = client.request ∧ stream.supplied =
            client.request.take (client.state.happen client.kind event.happening).reqOff := by
        intro notRead stream membership
        rw [happen_reqOff client.kind client.state notRead]
        exact isolated.own stream membership
      simp only [own, if_true]
      cases event with
      | header sid name value =>
          exact ⟨observes, fed, unread (by simp [SessionEvent.happening]), isolated.gone⟩
      | data sid bytes =>
          exact ⟨observes, fed, unread (by simp [SessionEvent.happening]), isolated.gone⟩
      | close sid errorCode =>
          refine ⟨observes, fed, fun other kept => ?_, fun other listed => ?_⟩
          · exact unread (by simp [SessionEvent.happening]) other (List.mem_of_mem_filter kept)
          · rcases List.mem_append.mp listed with past | last
            · exact isolated.gone other past
            · obtain rfl := List.mem_singleton.mp last
              exact .inr (isolated.supplied other membership)
      | read sid length =>
          refine ⟨observes, fed, fun other listed => ?_, isolated.gone⟩
          obtain ⟨before, present, rfl⟩ := List.mem_map.mp listed
          obtain ⟨same, asked, given⟩ := isolated.own before present
          have mine : before.id = sid := same.trans own.symm
          rw [if_pos mine]
          refine ⟨same, asked, ?_⟩
          rw [given, ← isolated.req, take_supply]
          rfl

theorem move {next : ClientConn} (move : ClientMove client next) : Isolated past next := by
  cases move with
  | session event => exact isolated.onSession event
  | expired => exact isolated.note .expired rfl (by simp)
  | disconnected => exact isolated.note .disconnected rfl (by simp)
  | settings => exact ⟨isolated.observes, isolated.fed, isolated.own, isolated.gone⟩

theorem take : Isolated past client.take := by
  have noted := isolated.note .taken rfl (by simp)
  exact ⟨noted.observes, noted.fed, noted.own, noted.gone⟩

theorem moves {next : ClientConn} (moves : ClientMoves client next) : Isolated past next := by
  induction moves with
  | refl => exact isolated
  | tail _ move ih => exact ih.move move

end Isolated

/-- A request submitted now meets no older stream: none is open, or the session is
about to be replaced. -/
def ClientConn.Clear (client : ClientConn) : Prop := client.broken = true ∨ client.streams = []

instance (client : ClientConn) : Decidable client.Clear :=
  inferInstanceAs (Decidable (_ ∨ _))

variable {client : ClientConn} {past : List Stream}

theorem Isolated.arm (empty : client.streams = [])
    (gone : ∀ stream ∈ client.gone, stream ∈ past ∨ stream.supplied <+: stream.request)
    (framed : Bytes) : Isolated past (client.arm framed) where
  observes := rfl
  fed := rfl
  own := by simp [ClientConn.arm, empty]
  gone := gone

theorem Isolated.armOpen (empty : client.streams = [])
    (gone : ∀ stream ∈ client.gone, stream ∈ past ∨ stream.supplied <+: stream.request)
    (framed : Bytes) (now : Nat) : Isolated past ((client.arm framed).openStream now) where
  observes := rfl
  fed := rfl
  own := by simp [ClientConn.arm, ClientConn.openStream, empty, CallState.reset]
  gone := gone

/-- Whatever came before, a call submitted on a clear session is isolated. -/
theorem ClientConn.submit_isolated (clear : client.Clear)
    (before : ∀ stream ∈ client.gone ++ client.streams,
      stream ∈ past ∨ stream.supplied <+: stream.request) (request : Bytes) {env : SubmitEnv}
    (live : client.broken = true → env.connected = true) :
    Isolated past (client.submit request env).2 := by
  have fresh : (if client.broken then client.reconnect else client).streams = [] ∧
      ∀ stream ∈ (if client.broken then client.reconnect else client).gone,
        stream ∈ past ∨ stream.supplied <+: stream.request := by
    split
    next => exact ⟨rfl, before⟩
    next unbroken =>
      exact ⟨clear.resolve_left unbroken, fun stream listed =>
        before stream (List.mem_append_left _ listed)⟩
  unfold ClientConn.submit
  rw [if_neg (by simpa using live)]
  generalize (if client.broken then client.reconnect else client) = session at fresh
  dsimp only
  split
  · have opened := Isolated.armOpen fresh.1 fresh.2 (frame request) env.now
    have sent := opened.moves (ClientConn.flushSend_moves _ env.flush)
    generalize ((session.arm (frame request)).openStream env.now).flushSend env.flush = flushed
      at sent
    obtain ⟨written, after⟩ := flushed
    cases written with
    | true => exact sent
    | false => exact sent.moves (after.broken_moves true)
  · exact Isolated.arm fresh.1 fresh.2 (frame request)

theorem Isolated.submit (isolated : Isolated past client) (clear : client.Clear) (request : Bytes)
    (env : SubmitEnv) :
    Isolated past (client.submit request env).2 := by
  by_cases offline : client.broken = true ∧ env.connected = false
  · simpa [ClientConn.submit, offline] using isolated
  · refine ClientConn.submit_isolated clear ?_ request fun broken => ?_
    · intro stream listed
      rcases List.mem_append.mp listed with before | current
      · exact isolated.gone stream before
      · exact .inr (isolated.supplied stream current)
    · simpa [broken] using offline

/-- A run in which every request is submitted on a clear session. -/
def Orderly : ClientConn → List ClientEvent → Prop
  | _, [] => True
  | client, event :: events =>
      (event.isSubmit = true → client.Clear) ∧ Orderly (client.step event) events

theorem Isolated.step (isolated : Isolated past client) {event : ClientEvent}
    (clear : event.isSubmit = true → client.Clear) :
    Isolated past (client.step event) := by
  cases event with
  | setTimeout timeout =>
      exact isolated.move (.settings client.broken client.deadlineMs timeout)
  | submit request env => exact isolated.submit (clear rfl) request env
  | pump env => exact isolated.moves (client.pump_moves env)
  | take => exact isolated.take

theorem Isolated.run (isolated : Isolated past client) {events : List ClientEvent}
    (orderly : Orderly client events) :
    Isolated past (client.run events) := by
  induction events generalizing client with
  | nil => exact isolated
  | cons event events ih =>
      exact ih (isolated.step orderly.1) orderly.2

/-- In a run in which every request is submitted on a clear session, a call
observes exactly what its own stream and its own connection did, and every stream
was supplied with a part of its own request. -/
theorem calls_are_isolated {kind : Kind} {events : List ClientEvent}
    (orderly : Orderly (.connect kind) events) :
    let client := (ClientConn.connect kind).run events
    client.state = replay client.kind client.request client.history ∧
    ∀ stream ∈ client.streams ++ client.gone, stream.supplied <+: stream.request := by
  have isolated : Isolated [] ((ClientConn.connect kind).run events) :=
    (Isolated.connect kind).run orderly
  refine ⟨isolated.observes, fun stream listed => ?_⟩
  rcases List.mem_append.mp listed with current | past
  · exact isolated.supplied stream current
  · exact (isolated.gone stream past).resolve_left (by simp)

/-- A second call after the first one has closed. -/
theorem calls_are_isolated_in_turn :
    let client := (ClientConn.connect .std).run
      [.submit [1] ⟨true, true, 0, ⟨[.read 1 64], true⟩⟩,
        .pump ⟨⟨[], true⟩, 0, .ready, .received [.header 1 nStatus (ascii "200"),
          .data 1 (frame [5]), .header 1 nGrpcStatus (ascii "0"), .close 1 0], ⟨[], true⟩⟩,
        .take, .submit [2] ⟨true, true, 0, ⟨[.read 3 64], true⟩⟩,
        .pump ⟨⟨[], true⟩, 0, .ready, .received [.data 1 (frame [7]), .data 3 (frame [6])],
          ⟨[], true⟩⟩]
    client.state.messages = [[6]] ∧
    client.state = replay client.kind client.request client.history ∧
    ∀ stream ∈ client.streams ++ client.gone, stream.supplied <+: stream.request := by
  refine ⟨by decide, calls_are_isolated ?_⟩
  exact ⟨fun _ => .inr rfl, nofun, nofun, fun _ => .inr (by decide), nofun, trivial⟩

/-- The first call is abandoned with its stream open.  The second one observes the
late message of the first, and its request goes out on the first stream. -/
theorem abandoned_stream_feeds_next_call :
    let client := (ClientConn.connect .std).run
      [.submit [1] ⟨true, true, 0, ⟨[], true⟩⟩, .submit [2] ⟨true, true, 0, ⟨[.read 1 64], true⟩⟩,
        .pump ⟨⟨[], true⟩, 0, .ready, .received [.data 1 (frame [7])], ⟨[], true⟩⟩]
    client.history = [] ∧ client.state.messages = [[7]] ∧
    client.state ≠ replay client.kind client.request client.history ∧
    ∃ stream ∈ client.streams, stream.request = frame [1] ∧ stream.supplied = frame [2] := by
  decide

end GrpcUds.Client
