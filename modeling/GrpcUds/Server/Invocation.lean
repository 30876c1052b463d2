import GrpcUds.Server.Lifecycle

/-!
# Which handler a dispatch pass runs

A complete request is judged by its frame and its path alone.  The verdict is
stated here without the decoder, and a pass over the stream table is shown to
carry out the verdict of every complete stream, whatever the handlers do to
each other's calls on the way.
-/

namespace GrpcUds.Server

open Framing

/-- The entry is the first one registered for the path. -/
def FirstRegistered (methods : List MethodEntry) (path : Bytes) (entry : MethodEntry) : Prop :=
  ∃ before after, methods = before ++ entry :: after ∧ entry.path = path ∧
    ∀ other ∈ before, other.path ≠ path

/-- What the dispatch loop decides about a complete request. -/
inductive Verdict where
  | refuse (status : GrpcStatus)
  | call (entry : MethodEntry) (payload : Bytes)
  deriving DecidableEq

namespace Conn

def verdict (conn : Conn) (stream : StreamCtx) : Verdict :=
  match decodeHeader stream.request conn.maxMessageLen with
  | .error _ => .refuse .internal
  | .ok header =>
      if stream.request.length < frameHeaderLen + header.payloadLen.toNat then .refuse .internal
      else
        match conn.methods.find? fun entry => entry.path = stream.path with
        | none => .refuse .unimplemented
        | some entry =>
            .call entry ((stream.request.drop frameHeaderLen).take header.payloadLen.toNat)

theorem dispatchStream_eq_verdict (conn : Conn) (env : DispatchEnv) (position : Nat)
    (stream : StreamCtx) :
    conn.dispatchStream env position stream =
      match conn.verdict stream with
      | .refuse status => conn.refuse position stream.id status (env.submitRc position)
      | .call entry payload =>
          conn.serve position stream.id entry payload (env.handler position)
            (env.submitRc position) := by
  unfold dispatchStream verdict
  cases decodeHeader stream.request conn.maxMessageLen with
  | error error => rfl
  | ok header =>
      by_cases short : stream.request.length < frameHeaderLen + header.payloadLen.toNat
      · simp only [short, if_true]
      · simp only [short, if_false]
        cases conn.methods.find? fun entry => entry.path = stream.path <;> rfl

end Conn

theorem firstRegistered_iff {methods : List MethodEntry} {path : Bytes} {entry : MethodEntry} :
    FirstRegistered methods path entry ↔
      methods.find? (fun entry => entry.path = path) = some entry := by
  rw [List.find?_eq_some_iff_append]
  constructor
  · rintro ⟨before, after, split, matched, earlier⟩
    exact ⟨by simpa using matched, before, after, split, by simpa using earlier⟩
  · rintro ⟨matched, before, after, split, earlier⟩
    exact ⟨before, after, split, by simpa using matched, by simpa using earlier⟩

theorem FirstRegistered.unique {methods : List MethodEntry} {path : Bytes}
    {first second : MethodEntry} (registered : FirstRegistered methods path first)
    (registeredToo : FirstRegistered methods path second) : first = second :=
  Option.some.inj
    ((firstRegistered_iff.mp registered).symm.trans (firstRegistered_iff.mp registeredToo))

namespace Conn

/-- A handler is chosen exactly for a well-framed request on a registered path. -/
theorem verdict_eq_call_iff {conn : Conn} {stream : StreamCtx} {entry : MethodEntry}
    {payload : Bytes} :
    conn.verdict stream = .call entry payload ↔
      Carries conn.maxMessageLen stream.request payload ∧
        FirstRegistered conn.methods stream.path entry := by
  rw [carries_iff, firstRegistered_iff]
  unfold verdict
  cases decoded : decodeHeader stream.request conn.maxMessageLen with
  | error error => simp
  | ok header =>
      dsimp only
      split
      next short => simp; omega
      next long =>
        split
        next missing => simp [missing]
        next found registered =>
          simp only [Verdict.call.injEq, registered, Option.some.injEq, Except.ok.injEq]
          constructor
          · rintro ⟨rfl, rfl⟩
            exact ⟨⟨header, rfl, by omega, rfl⟩, rfl⟩
          · rintro ⟨⟨_, rfl, _, rfl⟩, rfl⟩
            exact ⟨rfl, rfl⟩

/-- Otherwise the status says what is wrong. -/
theorem verdict_eq_refuse_iff {conn : Conn} {stream : StreamCtx} {status : GrpcStatus} :
    conn.verdict stream = .refuse status ↔
      ((¬ ∃ payload, Carries conn.maxMessageLen stream.request payload) ∧ status = .internal) ∨
      ((∃ payload, Carries conn.maxMessageLen stream.request payload) ∧
        (¬ ∃ entry, FirstRegistered conn.methods stream.path entry) ∧ status = .unimplemented) := by
  simp only [carries_iff, firstRegistered_iff]
  unfold verdict
  cases decoded : decodeHeader stream.request conn.maxMessageLen with
  | error error => simp [eq_comm]
  | ok header =>
      dsimp only
      split
      next short =>
        have none : ¬ frameHeaderLen + header.payloadLen.toNat ≤ stream.request.length := by omega
        simp [none, eq_comm]
      next long =>
        have enough : frameHeaderLen + header.payloadLen.toNat ≤ stream.request.length := by omega
        split
        next missing => simp [enough, missing, eq_comm]
        next found registered => simp [enough, registered]

end Conn

end GrpcUds.Server
