import Mathlib.Data.List.Range
import GrpcUds.Lib.Fallible
import GrpcUds.Lib.Transition
import GrpcUds.Client.Moves

/-!
# Lazy reconnect

A connection that broke under a call is replaced before the next one.  Here the core
client is followed closer than in the call model: with every way in which `connect` can
fail, and with the order in which a submit connects, hands its request to nghttp2 and
sends.
-/

namespace GrpcUds.Client

open Framing Relation

/-- What a `connect` meets: `connect_uds`, the setup of the callbacks, of the session and of
its SETTINGS, and the first flush. -/
structure ConnectEnv where
  socket : Bool
  callbacks : Bool
  session : Bool
  settings : Bool
  flush : FlushEnv

/-- One attempt to connect. -/
def ConnectEnv.connect (env : ConnectEnv) : Except ClientError ClientConn :=
  if env.socket = false then .error .connect
  else if env.callbacks = false then .error .session
  else if env.session = false then .error .session
  else if env.settings = false then .error .session
  else
    match (ClientConn.connect .core).flushSend env.flush with
    | (true, conn) => .ok conn
    | (false, _) => .error .io

/-- What a call meets while it is submitted. -/
structure CallEnv where
  connect : ConnectEnv
  accepted : Bool
  now : Nat
  flush : FlushEnv

/-- What a submit does to the outside, in order. -/
inductive Effect where
  | connect
  | submitRequest
  | flushSend
  deriving DecidableEq, Repr

/-- What a submit did, what it returned, and the connection after it. -/
structure Submitted where
  effects : List Effect
  result : Except ClientError Nat
  client : ClientConn
  deriving DecidableEq

/-- What an operation did and how it ended. -/
structure Report where
  effects : List Effect
  result : Except ClientError Unit
  deriving DecidableEq

/-- The operations of an application on one connection. -/
inductive Operation where
  | setTimeoutMs (ms : Nat)
  | unary (request : Bytes) (env : CallEnv) (turns : List Turn)
  | serverStreaming (request : Bytes) (env : CallEnv)
  | recv (turns : List Turn)

namespace ClientConn

/-- Replace the connection by a fresh one, if there is one to be had.  The timeout
survives; `gone` is the record of the streams that went with the old session. -/
def reconnectOnce (client : ClientConn) (env : ConnectEnv) :
    Except ClientError Unit × ClientConn :=
  match env.connect with
  | .error error => (.error error, client)
  | .ok fresh =>
      (.ok (),
        { fresh with
          timeoutMs := client.timeoutMs
          gone := client.gone ++ client.streams })

/-- The rest of `submit`, on a connection that is not broken. -/
def sendRequest (client : ClientConn) (request : Bytes) (env : CallEnv) : Submitted :=
  let armed := client.arm (frame request)
  if env.accepted then
    match (armed.openStream env.now).flushSend env.flush with
    | (true, sent) => ⟨[.submitRequest, .flushSend], .ok armed.nextStreamId, sent⟩
    | (false, sent) => ⟨[.submitRequest, .flushSend], .error .io, sent⟩
  else ⟨[.submitRequest], .error .protocol, armed⟩

/-- `submit` of the core client. -/
def submitCore (client : ClientConn) (request : Bytes) (env : CallEnv) : Submitted :=
  if client.broken then
    match client.reconnectOnce env.connect with
    | (.error error, client) => ⟨[.connect], .error error, client⟩
    | (.ok (), client) =>
        let sent := client.sendRequest request env
        { sent with effects := .connect :: sent.effects }
  else client.sendRequest request env

/-- An operation that returns.  One that still waits has no result. -/
def perform (client : ClientConn) : Operation → Option (Report × ClientConn)
  | .setTimeoutMs ms => some (⟨[], .ok ()⟩, client.setTimeoutMs ms)
  | .unary request env turns =>
      let sent := client.submitCore request env
      match sent.result with
      | .error error => some (⟨sent.effects, .error error⟩, sent.client)
      | .ok _ =>
          match drive (fun _ client => client.state.closed) turns sent.client with
          | (none, _) => none
          | (some result, client) => some (⟨sent.effects, result⟩, client)
  | .serverStreaming request env =>
      let sent := client.submitCore request env
      some (⟨sent.effects, sent.result.map fun _ => ()⟩, sent.client)
  | .recv turns =>
      match receive turns client with
      | (none, _) => none
      | (some result, client) => some (⟨[], result.map fun _ => ()⟩, client)

def operate (client : ClientConn) (operation : Operation) : Option ClientConn :=
  (client.perform operation).map Prod.snd

end ClientConn

/-- What a call is submitted with. -/
def Operation.call : Operation → Option CallEnv
  | .unary _ env _ => some env
  | .serverStreaming _ env => some env
  | _ => none

/-- The request gets to nghttp2, and nghttp2 does not take it. -/
def CallEnv.Rejects (env : CallEnv) (client : ClientConn) : Prop :=
  env.accepted = false ∧ (client.broken = true → ∃ fresh, env.connect.connect = .ok fresh)

def Operation.Rejected (operation : Operation) (client : ClientConn) : Prop :=
  ∃ env, operation.call = some env ∧ env.Rejects client

/-- The operation returned `Io` or `Protocol`. -/
def Report.Failed (report : Report) : Prop :=
  report.result = .error .io ∨ report.result = .error .protocol

/-- A submit that connects first: one attempt before anything else.  When it fails, the
connection is as it was; when it succeeds, nothing but the timeout is left of it. -/
structure ClientConn.ReconnectsFirst (client : ClientConn) (request : Bytes) (env : CallEnv) :
    Prop where
  once : ∃ rest, (client.submitCore request env).effects = .connect :: rest ∧
    Effect.connect ∉ rest
  failed : ∀ error, env.connect.connect = .error error →
    client.submitCore request env = ⟨[.connect], .error error, client⟩
  connected : ∀ conn, env.connect.connect = .ok conn →
    ∃ fresh, client.reconnectOnce env.connect = (.ok (), fresh) ∧ fresh.broken = false ∧
      fresh.timeoutMs = client.timeoutMs ∧
      { fresh with timeoutMs := none, gone := [] } = ClientConn.connect .core ∧
      client.submitCore request env =
        { fresh.sendRequest request env with
          effects := .connect :: (fresh.sendRequest request env).effects }

/-! ### Connecting -/

variable {client : ClientConn}

theorem ClientConn.feed_of_no_streams (none : client.streams = []) (events : List SessionEvent) :
    client.feed events = client := by
  induction events with
  | nil => rfl
  | cons event events ih =>
      have same : client.onSession event = client := by
        simp [ClientConn.onSession, none]
      change (client.onSession event).feed events = client
      rw [same, ih]

/-- Every connection starts alike: no callback is made before the first stream. -/
theorem ConnectEnv.connect_eq_ok {env : ConnectEnv} {conn : ClientConn}
    (connected : env.connect = .ok conn) : conn = .connect .core := by
  have empty := ClientConn.feed_of_no_streams
    (show (ClientConn.connect .core).streams = [] from rfl)
    env.flush.events
  simp only [ConnectEnv.connect, ClientConn.flushSend, empty] at connected
  split_ifs at connected
  all_goals simp_all

namespace ClientConn

variable {client : ClientConn}

variable {error : ClientError} {env : CallEnv} {last : ClientConn}

theorem reconnectOnce_of_error {env : ConnectEnv} (failed : env.connect = .error error) :
    client.reconnectOnce env = (.error error, client) := by
  simp [reconnectOnce, failed]

theorem reconnectOnce_of_ok {env : ConnectEnv} {conn : ClientConn}
    (connected : env.connect = .ok conn) :
    client.reconnectOnce env =
      (.ok (), { ClientConn.connect .core with
        timeoutMs := client.timeoutMs
        gone := client.gone ++ client.streams }) := by
  rw [ConnectEnv.connect_eq_ok connected] at connected
  simp [reconnectOnce, connected]

theorem submitCore_of_error (broken : client.broken = true)
    (failed : env.connect.connect = .error error) (request : Bytes) :
    client.submitCore request env = ⟨[.connect], .error error, client⟩ := by
  simp [submitCore, broken, reconnectOnce_of_error failed]

theorem submitCore_of_ok {fresh : ClientConn} (broken : client.broken = true)
    (connected : client.reconnectOnce env.connect = (.ok (), fresh)) (request : Bytes) :
    client.submitCore request env =
      { fresh.sendRequest request env with
        effects := .connect :: (fresh.sendRequest request env).effects } := by
  simp [submitCore, broken, connected]

theorem submitCore_of_whole (whole : client.broken = false) (request : Bytes) (env : CallEnv) :
    client.submitCore request env = client.sendRequest request env := by
  simp [submitCore, whole]

/-- Once connected, a submit does not connect again. -/
theorem connect_notMem_sendRequest (client : ClientConn) (request : Bytes) (env : CallEnv) :
    Effect.connect ∉ (client.sendRequest request env).effects := by
  unfold sendRequest
  dsimp only
  split
  · split <;> simp
  · simp

theorem reconnectsFirst (broken : client.broken = true) (request : Bytes) (env : CallEnv) :
    client.ReconnectsFirst request env := by
  constructor
  · cases outcome : env.connect.connect with
    | error error =>
        rw [submitCore_of_error broken outcome]
        exact ⟨[], rfl, List.not_mem_nil⟩
    | ok conn =>
        rw [submitCore_of_ok broken (reconnectOnce_of_ok outcome)]
        exact ⟨_, rfl, connect_notMem_sendRequest _ request env⟩
  · intro error failed
    exact submitCore_of_error broken failed request
  · intro conn connected
    have reconnected := @reconnectOnce_of_ok client env.connect conn connected
    exact ⟨_, reconnected, rfl, rfl, rfl, submitCore_of_ok broken reconnected request⟩

/-! ### What breaks a connection -/

@[simp]
theorem onSession_broken (client : ClientConn) (event : SessionEvent) :
    (client.onSession event).broken = client.broken := by
  unfold onSession
  cases client.streams.find? fun stream => stream.id = event.sid with
  | none => rfl
  | some stream => cases event <;> rfl

@[simp]
theorem feed_broken (client : ClientConn) (events : List SessionEvent) :
    (client.feed events).broken = client.broken := by
  induction events generalizing client with
  | nil => rfl
  | cons event events ih =>
      change ((client.onSession event).feed events).broken = client.broken
      rw [ih, onSession_broken]

theorem flushSend_broken (broken : client.broken = true) (env : FlushEnv) :
    (client.flushSend env).2.broken = true := by
  unfold flushSend
  split <;> simp [broken]

/-- A connection only changes by moves that keep its kind. -/
theorem kind_of_moves (moves : ClientMoves client last) :
    last.kind = client.kind := by
  induction moves with
  | refl => rfl
  | tail _ move ih =>
      rw [← ih]
      cases move with
      | session event =>
          unfold onSession
          split
          · rfl
          · cases event <;> rfl
      | expired => rfl
      | disconnected => rfl
      | settings => rfl

/-- A flush of the core client that fails breaks the connection. -/
theorem flushSend_failed {env : FlushEnv} {sent : ClientConn} (core : client.kind = .core)
    (failed : client.flushSend env = (false, sent)) : sent.broken = true := by
  have kept := kind_of_moves (client.feed_moves env.events)
  unfold flushSend at failed
  split at failed
  · simp at failed
  · obtain ⟨_, rfl⟩ := Prod.mk.inj failed
    simp [kept, core]

theorem expireCall_broken (broken : client.broken = true) (env : FlushEnv) :
    (client.expireCall env).broken = true := by
  unfold expireCall
  split
  · apply flushSend_broken
    exact broken
  · exact broken

/-- A connection is broken after a read if it was before, and after every failure. -/
theorem pumpRead_broken {read : ReadResult} {result : Except ClientError Unit}
    (done : client.pumpRead read = (result, last))
    (cause : client.broken = true ∨ ∃ error, result = .error error) : last.broken = true := by
  cases read with
  | received events =>
      obtain ⟨rfl, rfl⟩ := Prod.mk.inj done
      simpa using cause
  | refused events =>
      obtain ⟨_, rfl⟩ := Prod.mk.inj done
      rfl
  | endOfFile =>
      obtain ⟨_, rfl⟩ := Prod.mk.inj done
      rfl
  | interrupted =>
      obtain ⟨rfl, rfl⟩ := Prod.mk.inj done
      simpa using cause
  | failed =>
      obtain ⟨_, rfl⟩ := Prod.mk.inj done
      rfl

theorem pump_broken {env : PumpEnv} {result : Except ClientError Unit}
    (done : client.pump env = (result, last))
    (cause : client.broken = true ∨ ∃ error, result = .error error) : last.broken = true := by
  have kept : client.broken = true → (client.flushSend env.flush).2.broken = true :=
    fun broken => flushSend_broken broken env.flush
  unfold pump at done
  generalize client.flushSend env.flush = flushed at done kept
  obtain ⟨written, sent⟩ := flushed
  cases written with
  | false =>
      obtain ⟨_, rfl⟩ := Prod.mk.inj done
      rfl
  | true =>
      have still : sent.broken = true ∨ ∃ error, result = .error error := cause.imp_left kept
      dsimp only at done
      split at done
      · exact pumpRead_broken done still
      · split at done
        · obtain ⟨rfl, rfl⟩ := Prod.mk.inj done
          exact expireCall_broken (by simpa using still) env.cancel
        · split at done
          · obtain ⟨rfl, rfl⟩ := Prod.mk.inj done
            exact expireCall_broken (by simpa using still) env.cancel
          · obtain ⟨rfl, rfl⟩ := Prod.mk.inj done
            simpa using still
          · obtain ⟨_, rfl⟩ := Prod.mk.inj done
            rfl
          · exact pumpRead_broken done still

theorem drive_broken {stop : Bool → ClientConn → Bool} {turns : List Turn}
    {result : Option (Except ClientError Unit)} (done : drive stop turns client = (result, last))
    (cause : client.broken = true ∨ ∃ error, result = some (.error error)) :
    last.broken = true := by
  induction turns generalizing client with
  | nil =>
      unfold drive at done
      split at done
      · obtain ⟨rfl, rfl⟩ := Prod.mk.inj done
        simpa using cause
      · obtain ⟨rfl, rfl⟩ := Prod.mk.inj done
        simpa using cause
  | cons turn turns ih =>
      unfold drive at done
      split at done
      · obtain ⟨rfl, rfl⟩ := Prod.mk.inj done
        simpa using cause
      · cases pumped : client.pump turn.pump with
        | mk outcome after =>
            rw [pumped] at done
            cases outcome with
            | error error =>
                obtain ⟨_, rfl⟩ := Prod.mk.inj done
                exact pump_broken pumped (.inr ⟨error, rfl⟩)
            | ok _ =>
                apply ih done
                exact cause.imp_left fun broken => pump_broken pumped (.inl broken)

theorem receive_broken {turns : List Turn} {result : Except ClientError (Option Bytes)}
    (done : receive turns client = (some result, last))
    (cause : client.broken = true ∨ ∃ error, result = .error error) : last.broken = true := by
  unfold receive at done
  cases driven : drive readable turns client with
  | mk outcome after =>
      rw [driven] at done
      cases outcome with
      | none => simp at done
      | some outcome =>
          cases outcome with
          | error error =>
              obtain ⟨_, rfl⟩ := Prod.mk.inj done
              exact drive_broken driven (.inr ⟨error, rfl⟩)
          | ok _ =>
              have broken : client.broken = true := by
                rcases cause with broken | ⟨error, rfl⟩
                · exact broken
                · dsimp only at done
                  split at done <;> simp at done
              have still := drive_broken driven (.inl broken)
              dsimp only at done
              split at done
              · obtain ⟨_, rfl⟩ := Prod.mk.inj done
                exact still
              · obtain ⟨_, rfl⟩ := Prod.mk.inj done
                exact still

theorem receive_kind (turns : List Turn) (client : ClientConn) :
    (receive turns client).2.kind = client.kind := by
  have kept := kind_of_moves (drive_moves readable turns client)
  unfold receive
  split
  next driven =>
    rw [driven] at kept
    exact kept
  next driven =>
    rw [driven] at kept
    exact kept
  next driven =>
    rw [driven] at kept
    split <;> exact kept

/-! ### Submitting -/

theorem sendRequest_of_rejected (rejected : env.accepted = false) (client : ClientConn)
    (request : Bytes) :
    client.sendRequest request env =
      ⟨[.submitRequest], .error .protocol, client.arm (frame request)⟩ := by
  simp [sendRequest, rejected]

theorem sendRequest_failed {request : Bytes} (core : client.kind = .core)
    (accepted : env.accepted = true)
    (failed : (client.sendRequest request env).result = .error error) :
    (client.sendRequest request env).client.broken = true := by
  simp only [sendRequest, accepted, if_true] at failed ⊢
  cases flushed : ((client.arm (frame request)).openStream env.now).flushSend env.flush with
  | mk written sent =>
      cases written with
      | true => simp [flushed] at failed
      | false =>
          change sent.broken = true
          apply flushSend_failed _ flushed
          exact core

theorem sendRequest_kind (client : ClientConn) (request : Bytes) (env : CallEnv) :
    (client.sendRequest request env).client.kind = client.kind := by
  have kept := kind_of_moves
    (((client.arm (frame request)).openStream env.now).flushSend_moves env.flush)
  unfold sendRequest
  dsimp only
  split
  · split
    next flushed =>
      rw [flushed] at kept
      exact kept
    next flushed =>
      rw [flushed] at kept
      exact kept
  · rfl

/-- A submit cannot connect, or it sends on a connection that is not broken. -/
theorem submitCore_cases (client : ClientConn) (request : Bytes) (env : CallEnv) :
    (∃ error, client.broken = true ∧ env.connect.connect = .error error ∧
      client.submitCore request env = ⟨[.connect], .error error, client⟩) ∨
    ∃ session : ClientConn, session.broken = false ∧
      (client.kind = .core → session.kind = .core) ∧
      (client.broken = true → ∃ conn, env.connect.connect = .ok conn) ∧
      (client.submitCore request env).result = (session.sendRequest request env).result ∧
      (client.submitCore request env).client = (session.sendRequest request env).client := by
  cases broken : client.broken with
  | false =>
      right
      rw [submitCore_of_whole broken]
      exact ⟨client, broken, id, by simp, rfl, rfl⟩
  | true =>
      cases outcome : env.connect.connect with
      | error error => exact .inl ⟨error, rfl, rfl, submitCore_of_error broken outcome request⟩
      | ok conn =>
          right
          rw [submitCore_of_ok broken (reconnectOnce_of_ok outcome)]
          exact ⟨_, rfl, fun _ => rfl, fun _ => ⟨conn, rfl⟩, rfl, rfl⟩

/-- A rejected request leaves a connection that is not marked as broken. -/
theorem submitCore_of_rejected (rejected : env.Rejects client) (request : Bytes) :
    (client.submitCore request env).result = .error .protocol ∧
      (client.submitCore request env).client.broken = false := by
  obtain ⟨refused, connects⟩ := rejected
  rcases client.submitCore_cases request env with
    ⟨error, broken, failed, _⟩ | ⟨session, whole, _, _, result, last⟩
  · obtain ⟨conn, connected⟩ := connects broken
    simp [failed] at connected
  · rw [result, last, sendRequest_of_rejected refused]
    exact ⟨rfl, whole⟩

/-- Every other submit that fails leaves a broken connection. -/
theorem submitCore_failed {request : Bytes} (core : client.kind = .core)
    (taken : ¬ env.Rejects client) (failed : (client.submitCore request env).result = .error error)
    :
    
    (client.submitCore request env).client.broken = true := by
  rcases client.submitCore_cases request env with
    ⟨_, broken, _, same⟩ | ⟨session, _, kind, connects, result, last⟩
  · rw [same]
    exact broken
  · have accepted : env.accepted = true := by
      by_contra refused
      exact taken ⟨by simpa using refused, connects⟩
    rw [last]
    exact sendRequest_failed (kind core) accepted (result.symm.trans failed)

theorem submitCore_kind (core : client.kind = .core) (request : Bytes) (env : CallEnv) :
    (client.submitCore request env).client.kind = .core := by
  rcases client.submitCore_cases request env with ⟨_, _, _, same⟩ | ⟨session, _, kind, _, _, last⟩
  · rw [same]
    exact core
  · rw [last, sendRequest_kind]
    exact kind core

/-! ### Operations -/

variable {operation : Operation} {report : Report} {after : ClientConn}

theorem perform_unary_eq_some {request : Bytes} {turns : List Turn}
    (performed : client.perform (.unary request env turns) = some (report, after)) :
    (∃ error, (client.submitCore request env).result = .error error ∧
      report.result = .error error ∧ after = (client.submitCore request env).client) ∨
    (∃ sid, (client.submitCore request env).result = .ok sid ∧
      drive (fun _ client => client.state.closed) turns (client.submitCore request env).client =
        (some report.result, after)) := by
  unfold perform at performed
  dsimp only at performed
  split at performed
  next error failed =>
    obtain ⟨rfl, rfl⟩ := Prod.mk.inj (Option.some.inj performed)
    exact .inl ⟨error, failed, rfl, rfl⟩
  next sid submitted =>
    split at performed
    next => simp at performed
    next result last driven =>
      obtain ⟨rfl, rfl⟩ := Prod.mk.inj (Option.some.inj performed)
      exact .inr ⟨sid, submitted, driven⟩

theorem perform_recv_eq_some {turns : List Turn}
    (performed : client.perform (.recv turns) = some (report, after)) :
    ∃ result, receive turns client = (some result, after) ∧
      report.result = result.map fun _ => () := by
  unfold perform at performed
  dsimp only at performed
  split at performed
  next => simp at performed
  next result last received =>
    obtain ⟨rfl, rfl⟩ := Prod.mk.inj (Option.some.inj performed)
    exact ⟨result, received, rfl⟩

/-- An operation that fails breaks the connection, unless nghttp2 refused its request. -/
theorem perform_failed (core : client.kind = .core) (taken : ¬ operation.Rejected client)
    (performed : client.perform operation = some (report, after))
    (failed : report.result = .error error) : after.broken = true := by
  cases operation with
  | setTimeoutMs ms =>
      obtain ⟨rfl, _⟩ := Prod.mk.inj (Option.some.inj performed)
      simp at failed
  | unary request env turns =>
      have accepted : ¬ env.Rejects client := fun rejected => taken ⟨env, rfl, rejected⟩
      rcases perform_unary_eq_some performed with ⟨_, ended, _, rfl⟩ | ⟨_, _, driven⟩
      · exact submitCore_failed core accepted ended
      · apply drive_broken driven
        exact .inr ⟨error, by rw [failed]⟩
  | serverStreaming request env =>
      have accepted : ¬ env.Rejects client := fun rejected => taken ⟨env, rfl, rejected⟩
      obtain ⟨rfl, rfl⟩ := Prod.mk.inj (Option.some.inj performed)
      exact submitCore_failed core accepted (Fallible.map_eq_error_iff.mp failed)
  | recv turns =>
      obtain ⟨result, received, same⟩ := perform_recv_eq_some performed
      apply receive_broken received
      exact .inr ⟨error, Fallible.map_eq_error_iff.mp (same.symm.trans failed)⟩

/-- A rejected call returns `Protocol` and breaks nothing. -/
theorem perform_rejected (rejected : operation.Rejected client)
    (performed : client.perform operation = some (report, after)) :
    report.result = .error .protocol ∧ after.broken = false := by
  obtain ⟨env, called, rejects⟩ := rejected
  cases operation with
  | setTimeoutMs ms => simp [Operation.call] at called
  | recv turns => simp [Operation.call] at called
  | unary request callEnv turns =>
      obtain rfl : callEnv = env := Option.some.inj called
      obtain ⟨refused, whole⟩ := submitCore_of_rejected rejects request
      rcases perform_unary_eq_some performed with ⟨error, ended, same, rfl⟩ | ⟨_, accepted, _⟩
      · obtain rfl := Except.error.inj (ended.symm.trans refused)
        exact ⟨same, whole⟩
      · simp [refused] at accepted
  | serverStreaming request callEnv =>
      obtain rfl : callEnv = env := Option.some.inj called
      obtain ⟨refused, whole⟩ := submitCore_of_rejected rejects request
      obtain ⟨rfl, rfl⟩ := Prod.mk.inj (Option.some.inj performed)
      refine ⟨?_, whole⟩
      rw [refused]
      rfl

/-- Between two calls nothing repairs a connection. -/
theorem perform_keeps_broken (broken : client.broken = true) (between : operation.call = none)
    (performed : client.perform operation = some (report, after)) : after.broken = true := by
  cases operation with
  | setTimeoutMs ms =>
      obtain ⟨_, rfl⟩ := Prod.mk.inj (Option.some.inj performed)
      exact broken
  | unary request env turns => simp [Operation.call] at between
  | serverStreaming request env => simp [Operation.call] at between
  | recv turns =>
      obtain ⟨result, received, _⟩ := perform_recv_eq_some performed
      exact receive_broken received (.inl broken)

theorem perform_kind (core : client.kind = .core)
    (performed : client.perform operation = some (report, after)) : after.kind = .core := by
  cases operation with
  | setTimeoutMs ms =>
      obtain ⟨_, rfl⟩ := Prod.mk.inj (Option.some.inj performed)
      exact core
  | unary request env turns =>
      have submitted := submitCore_kind core request env
      rcases perform_unary_eq_some performed with ⟨_, _, _, rfl⟩ | ⟨_, _, driven⟩
      · exact submitted
      · have kept := kind_of_moves (drive_moves (fun _ client => client.state.closed) turns
          (client.submitCore request env).client)
        rw [driven] at kept
        exact kept.trans submitted
  | serverStreaming request env =>
      obtain ⟨_, rfl⟩ := Prod.mk.inj (Option.some.inj performed)
      exact submitCore_kind core request env
  | recv turns =>
      obtain ⟨result, received, _⟩ := perform_recv_eq_some performed
      have kept := receive_kind turns client
      rw [received] at kept
      exact kept.trans core

theorem operate_eq_some (operated : client.operate operation = some after) :
    ∃ report, client.perform operation = some (report, after) := by
  obtain ⟨⟨report, last⟩, performed, rfl⟩ := Option.map_eq_some_iff.mp operated
  exact ⟨report, performed⟩

/-- A run between two calls leaves a broken connection broken. -/
theorem run_keeps_broken {between : List Operation} (broken : client.broken = true)
    (noCall : ∀ operation ∈ between, operation.call = none)
    (reached : Transition.run operate client between = some last) : last.broken = true := by
  induction between generalizing client with
  | nil =>
      obtain rfl := Option.some.inj reached
      exact broken
  | cons operation between ih =>
      obtain ⟨next, operated, continued⟩ := Option.bind_eq_some_iff.mp reached
      obtain ⟨report, performed⟩ := operate_eq_some operated
      have still := perform_keeps_broken broken (noCall operation List.mem_cons_self) performed
      exact ih still
        (fun later listed => noCall later (List.mem_cons_of_mem _ listed)) continued

theorem run_kind {operations : List Operation} (core : client.kind = .core)
    (reached : Transition.run operate client operations = some last) : last.kind = .core := by
  have preserved : ∀ (conn : ClientConn) operation next, conn.kind = .core →
      conn.operate operation = some next → next.kind = .core := by
    intro conn operation next kind operated
    obtain ⟨report, performed⟩ := operate_eq_some operated
    exact perform_kind kind performed
  exact Transition.run_invariant preserved core reached

end ClientConn

/-! ### The coarse submit -/

/-- What the call model sees of a call's environment. -/
def CallEnv.toSubmitEnv (env : CallEnv) : SubmitEnv where
  connected := env.connect.connect.isOk
  accepted := env.accepted
  now := env.now
  flush := env.flush

namespace ClientConn

theorem sendRequest_eq_submit (core : client.kind = .core) (whole : client.broken = false)
    (request : Bytes) (env : CallEnv) :
    ((client.sendRequest request env).result, (client.sendRequest request env).client) =
      client.submit request env.toSubmitEnv := by
  simp only [sendRequest, submit, whole, CallEnv.toSubmitEnv, Bool.false_eq_true, false_and,
    if_false]
  cases env.accepted with
  | false => rfl
  | true =>
      simp only [if_true]
      cases flushed : ((client.arm (frame request)).openStream env.now).flushSend env.flush with
      | mk written sent =>
          cases written with
          | true => rfl
          | false =>
              have broken : sent.broken = true := by
                apply flushSend_failed _ flushed
                exact core
              simp [← broken]

/-- The call model's `submit` is this one, but for the error of a failed reconnect. -/
theorem submitCore_refines (core : client.kind = .core) (request : Bytes) (env : CallEnv) :
    (client.submitCore request env).client = (client.submit request env.toSubmitEnv).2 ∧
      ((client.broken = true → ∃ conn, env.connect.connect = .ok conn) →
        (client.submitCore request env).result = (client.submit request env.toSubmitEnv).1) := by
  cases broken : client.broken with
  | false =>
      rw [submitCore_of_whole broken, ← sendRequest_eq_submit core broken]
      exact ⟨rfl, fun _ => rfl⟩
  | true =>
      cases outcome : env.connect.connect with
      | error error =>
          have failed : client.submit request env.toSubmitEnv = (.error .connect, client) := by
            simp [submit, broken, CallEnv.toSubmitEnv, outcome, Except.isOk, Except.toBool]
          rw [submitCore_of_error broken outcome, failed]
          refine ⟨rfl, fun connects => ?_⟩
          obtain ⟨conn, connected⟩ := connects rfl
          simp at connected
      | ok conn =>
          have reconnected : client.submit request env.toSubmitEnv =
              client.reconnect.submit request env.toSubmitEnv := by
            simp [submit, broken, CallEnv.toSubmitEnv, outcome, Except.isOk, Except.toBool,
              reconnect, ClientConn.connect]
          have fresh : client.reconnectOnce env.connect = (.ok (), client.reconnect) := by
            rw [reconnectOnce_of_ok outcome, reconnect, core]
          rw [submitCore_of_ok broken fresh, reconnected,
            ← sendRequest_eq_submit (show client.reconnect.kind = .core from core) rfl]
          exact ⟨rfl, fun _ => rfl⟩

end ClientConn

/-- A failed operation, the operations up to the next call and that call: the call connects
first, unless the failure is a request that nghttp2 did not take. -/
theorem failed_call_reconnects_iff {env : ConnectEnv} {fresh client after : ClientConn}
    {earlier : List Operation} {operation : Operation} {report : Report}
    (connected : env.connect = .ok fresh)
    (reached : Transition.run ClientConn.operate fresh earlier = some client)
    (performed : client.perform operation = some (report, after)) :
    (report.Failed → ∀ between last, (∀ later ∈ between, later.call = none) →
      Transition.run ClientConn.operate after between = some last →
      last.broken = true ∧ ∀ request env, last.ReconnectsFirst request env) ↔
    ¬ operation.Rejected client := by
  have core : client.kind = .core := by
    apply ClientConn.run_kind _ reached
    rw [ConnectEnv.connect_eq_ok connected]
    rfl
  constructor
  · intro reconnects rejected
    obtain ⟨failed, whole⟩ := ClientConn.perform_rejected rejected performed
    obtain ⟨broken, _⟩ := reconnects (.inr failed) [] after (by simp) rfl
    simp [whole] at broken
  · intro taken failed between last noCall continued
    have broken : after.broken = true := by
      rcases failed with io | protocol
      · exact ClientConn.perform_failed core taken performed io
      · exact ClientConn.perform_failed core taken performed protocol
    have still := ClientConn.run_keeps_broken broken noCall continued
    exact ⟨still, ClientConn.reconnectsFirst still⟩

/-- A server that accepts the connection. -/
def ConnectEnv.up : ConnectEnv := ⟨true, true, true, true, ⟨[], true⟩⟩

/-- The flush of a call fails; the next call connects before it sends. -/
theorem failed_call_reconnects_after_flush :
    ∃ report after,
      (ClientConn.connect .core).perform (.unary [1] ⟨.up, true, 0, ⟨[], false⟩⟩ []) =
        some (report, after) ∧ report.Failed ∧ after.broken = true ∧
      (after.submitCore [1] ⟨.up, true, 0, ⟨[], true⟩⟩).effects =
        [.connect, .submitRequest, .flushSend] := by
  have taken : ¬ (Operation.unary [1] ⟨.up, true, 0, ⟨[], false⟩⟩ []).Rejected
      (.connect .core) := by
    rintro ⟨env, called, refused, _⟩
    obtain rfl := Option.some.inj called
    simp at refused
  obtain ⟨broken, _⟩ := (failed_call_reconnects_iff
    (show ConnectEnv.up.connect = .ok (.connect .core) from rfl)
    (Transition.run_nil _) rfl).mpr taken (.inl rfl) [] _ (by simp) rfl
  exact ⟨_, _, rfl, .inl rfl, broken, rfl⟩

/-! ### Exhausted stream ids -/

/-- `INT32_MAX`, the last stream id of a session. -/
def maxStreamId : Nat := 2 ^ 31 - 1

/-- nghttp2 takes a request as long as the session has a stream id for it. -/
def Operation.Lawful (client : ClientConn) (operation : Operation) : Prop :=
  ∀ env, operation.call = some env →
    env.accepted = decide ((if client.broken then 1 else client.nextStreamId) ≤ maxStreamId)

/-- A unary call whose stream `sid` closes at once. -/
def Operation.closing (sid : Nat) : Operation :=
  .unary [] ⟨.up, true, 0, ⟨[.close sid 0], true⟩⟩ []

/-- A unary call that nghttp2 does not take. -/
def Operation.refused : Operation := .unary [] ⟨.up, false, 0, ⟨[], true⟩⟩ []

/-- An idle connection that has used the stream ids below `sid`. -/
structure ClientConn.Spent (client : ClientConn) (sid : Nat) : Prop where
  whole : client.broken = false
  idle : client.streams = []
  next : client.nextStreamId = sid

namespace ClientConn

theorem Spent.closing {sid : Nat} (spent : client.Spent sid) :
    ∃ next, client.operate (.closing sid) = some next ∧ next.Spent (sid + 2) := by
  obtain ⟨whole, idle, rfl⟩ := spent
  have sent : client.submitCore [] ⟨.up, true, 0, ⟨[.close client.nextStreamId 0], true⟩⟩ =
      ⟨[.submitRequest, .flushSend], .ok client.nextStreamId,
        ((client.arm (frame [])).openStream 0).onSession (.close client.nextStreamId 0)⟩ := by
    rw [submitCore_of_whole whole]
    rfl
  have closed : ((client.arm (frame [])).openStream 0).onSession (.close client.nextStreamId 0) =
      { (client.arm (frame [])).openStream 0 with
        state := (CallState.reset (frame [])).happen client.kind (.close 0)
        history := [.close 0]
        streams := []
        gone := client.gone ++ [⟨client.nextStreamId, frame [], []⟩] } := by
    simp [onSession, openStream, arm, idle, SessionEvent.sid, SessionEvent.happening,
      Happening.dataBytes]
  have ended : (((client.arm (frame [])).openStream 0).onSession
      (.close client.nextStreamId 0)).state.closed = true := by
    rw [closed]
    change ((CallState.reset (frame [])).happen client.kind (.close 0)).closed = true
    cases client.kind <;> rfl
  refine ⟨((client.arm (frame [])).openStream 0).onSession (.close client.nextStreamId 0), ?_, ?_⟩
  · simp only [operate, perform, Operation.closing, sent, drive, ended, if_true, Option.map_some]
  · rw [closed]
    exact ⟨whole, rfl, rfl⟩

theorem Spent.perform_refused {sid : Nat} (spent : client.Spent sid) :
    client.perform .refused =
        some (⟨[.submitRequest], .error .protocol⟩, client.arm (frame [])) ∧
      (client.arm (frame [])).Spent sid := by
  refine ⟨?_, ⟨spent.whole, spent.idle, spent.next⟩⟩
  simp only [perform, Operation.refused]
  rw [submitCore_of_whole spent.whole, sendRequest_of_rejected rfl]

theorem Spent.lawful_closing {sid : Nat} (spent : client.Spent sid) (left : sid ≤ maxStreamId) :
    (Operation.closing sid).Lawful client := by
  intro env called
  obtain rfl := Option.some.inj called
  simp [spent.whole, spent.next, left]

theorem Spent.lawful_refused {sid : Nat} (spent : client.Spent sid) (used : maxStreamId < sid) :
    Operation.refused.Lawful client := by
  intro env called
  obtain rfl := Option.some.inj called
  simp [spent.whole, spent.next, used]

end ClientConn

/-- Unary calls one after the other, from the stream id `sid`. -/
def Operation.calls (sid : Nat) : Nat → List Operation
  | 0 => []
  | count + 1 => .closing sid :: calls (sid + 2) count

/-- As many calls as there are stream ids all succeed. -/
theorem ClientConn.Spent.run_calls {sid : Nat} (spent : client.Spent sid) {count : Nat}
    (left : sid + 2 * count ≤ maxStreamId + 2) :
    Transition.Along ClientConn.operate (fun client operation => operation.Lawful client) client
      (Operation.calls sid count) ∧
    ∃ last, Transition.run ClientConn.operate client (Operation.calls sid count) = some last ∧
      last.Spent (sid + 2 * count) := by
  induction count generalizing client sid with
  | zero => exact ⟨trivial, client, rfl, spent⟩
  | succ count ih =>
      obtain ⟨next, operated, spentNext⟩ := spent.closing
      obtain ⟨lawful, last, reached, spentLast⟩ := ih spentNext (by omega)
      have total : sid + 2 + 2 * count = sid + 2 * (count + 1) := by omega
      rw [total] at spentLast
      refine ⟨⟨spent.lawful_closing (by omega), ?_⟩, last, ?_, spentLast⟩
      · rw [operated]
        exact lawful
      · rw [Operation.calls, Transition.run_cons, operated]
        exact reached

/-- After as many calls as a session has stream ids, every call returns `Protocol`, and none
connects again. -/
theorem exhausted_client_never_reconnects :
    Transition.Along ClientConn.operate (fun client operation => operation.Lawful client)
      (.connect .core) (Operation.calls 1 (2 ^ 30)) ∧
    ∃ client after,
      Transition.run ClientConn.operate (.connect .core) (Operation.calls 1 (2 ^ 30)) =
        some client ∧
      Operation.refused.Lawful client ∧
      client.perform .refused = some (⟨[.submitRequest], .error .protocol⟩, after) ∧
      after.broken = false ∧ Operation.refused.Lawful after ∧
      after.perform .refused = some (⟨[.submitRequest], .error .protocol⟩, after) := by
  have fresh : (ClientConn.connect .core).Spent 1 := ⟨rfl, rfl, rfl⟩
  have used : maxStreamId < 1 + 2 * 2 ^ 30 := by decide
  obtain ⟨lawful, client, reached, spent⟩ := fresh.run_calls (show 1 + 2 * 2 ^ 30 ≤ _ by decide)
  obtain ⟨first, spentAfter⟩ := spent.perform_refused
  obtain ⟨second, _⟩ := spentAfter.perform_refused
  exact ⟨lawful, client, client.arm (frame []), reached, spent.lawful_refused used, first,
    spentAfter.whole, spentAfter.lawful_refused used, second⟩

end GrpcUds.Client
