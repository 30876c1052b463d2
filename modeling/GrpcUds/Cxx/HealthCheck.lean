import GrpcUds.Cxx.CheckRequest
import GrpcUds.Cxx.ServerThread

/-!
# A health check and its answer

The C++ client encodes a name, the C ABI decodes it, looks its status up and encodes that,
and the client decodes the status.  The status is any `int`, and the answer has seven bits.
-/

namespace GrpcUds.Cxx

open Cursor Ffi Server Headers

/-- The calls that `check_tr` makes. -/
def checkTr (state : HealthState) (callId : StreamId) (request : Bytes)
    (encoded copy reserve : Bool) : List ApiCall :=
  match Ffi.decodeCheckRequest request with
  | none => [.finishCallMsg callId .invalidArgument (ascii "malformed HealthCheckRequest")]
  | some service =>
      match state.find service with
      | none => [.finishCallMsg callId .notFound (ascii "unknown service")]
      | some status => [.writeCall callId (encodeResponse status encoded) copy reserve,
          .finishCallMsg callId .ok []]

/-- The field loop of `DecodeResponse`. -/
def statusAt (d : Bytes) : Nat → Nat → Int → Except Fault (Option Int)
  | 0, _, _ => .error .outOfTurns
  | turns + 1, index, status =>
      if index < d.length then do
        let tag ← get d index
        if tag ≠ 0x08 then .ok none
        else
          match ← (continuedAt d varintTurns (index + 1) 0 0 >>= lastByteAt d) with
          | none => .ok none
          | some (v, index) => statusAt d turns index (toInt v)
      else .ok (some status)

def decodeResponse (d : Bytes) : Except Fault (Option Int) := statusAt d (d.length + 1) 0 0

/-- The registry after calls of `grpcuds_health_set_status`, each with its service, its status
and whether a new name could be stored. -/
def setAll (calls : List (Bytes × Int × Bool)) : HealthState :=
  calls.foldl (fun state call => state.set call.1 call.2.1 call.2.2) .registered

/-- The status that the calls leave a service; the server overall starts as `SERVING`. -/
def lastStatus (calls : List (Bytes × Int × Bool)) (service : Bytes) : Option Int :=
  calls.foldl (fun known call =>
    if call.1 = service ∧ (call.2.2 = true ∨ known.isSome) then some call.2.1 else known)
    (if service = [] then some serving else none)

theorem find_set (state : HealthState) (name service : Bytes) (status : Int) (reserve : Bool) :
    (state.set name status reserve).find service =
      if name = service ∧ (reserve = true ∨ (state.find service).isSome) then some status
      else state.find service := by
  have keyed (entry : Bytes × Int) : ((entry.1, status) : Bytes × Int).1 = entry.1 := rfl
  unfold HealthState.set HealthState.find
  rcases eq_or_ne name service with rfl | different
  · cases known : Table.lookup Prod.fst name state.statuses with
    | some entry => simp [Table.lookup_update_self keyed, known]
    | none =>
        have new : Table.lookup Prod.fst ((name, status) : Bytes × Int).1 state.statuses = none :=
          known
        cases reserve <;> simp [known, Table.lookup_append_new new]
  · split
    · simp [Table.lookup_update_other keyed different.symm, different]
    · split <;> simp [Table.lookup_append_of_ne, different]

theorem find_setAll (calls : List (Bytes × Int × Bool)) (service : Bytes) :
    (setAll calls).find service = lastStatus calls service := by
  induction calls using List.reverseRecOn with
  | nil =>
      rcases eq_or_ne [] service with rfl | other
      · rfl
      · simp [setAll, lastStatus, HealthState.find, HealthState.registered, Table.lookup, other,
          other.symm]
  | append_singleton calls call ih =>
      unfold setAll lastStatus at ih ⊢
      rw [List.foldl_concat, List.foldl_concat, find_set, ih]

theorem decodeResponse_encode_iff (status : Int) :
    decodeResponse (encodeResponse status true) = .ok (some status) ↔
      0 ≤ status ∧ status < 128 := by
  have pair (byte : Byte) : decodeResponse [0x08, byte] =
      .ok (if byte.toNat < 128 then some (toInt (byte.toNat % 2 ^ 64 : Nat)) else none) := by
    have first : get [0x08, byte] 0 = .ok 0x08 := rfl
    have second : get [0x08, byte] 1 = .ok byte := rfl
    by_cases last : byte &&& 0x80 = 0 <;>
      simp [decodeResponse, statusAt, continuedAt, lastByteAt, varintTurns, first, second, last,
        bind, Except.bind, ← and_high_eq_zero_iff]
  unfold encodeResponse
  split
  next none =>
    subst none
    decide
  next some =>
    rw [if_pos rfl, pair, toInt_eq]
    have small : (UInt8.ofNat (status % 256).toNat).toNat = (status % 256).toNat := by
      simp; omega
    rw [small]
    split <;> simp <;> omega

/-- After any calls of `grpcuds_health_set_status`, a check is answered with the last status of
the service, or with NOT_FOUND; the client reads the status exactly if it has seven bits. -/
theorem health_check_reads_last_status (calls : List (Bytes × Int × Bool)) (service : CxxString)
    (callId : StreamId) (copy reserve : Bool) :
    let answer := checkTr (setAll calls) callId (encodeCheckRequest service) true copy reserve
    (lastStatus calls service.bytes = none →
        answer = [.finishCallMsg callId .notFound (ascii "unknown service")]) ∧
      ∀ status, lastStatus calls service.bytes = some status → ∃ response,
        answer = [.writeCall callId response copy reserve, .finishCallMsg callId .ok []] ∧
          (decodeResponse response = .ok (some status) ↔ 0 ≤ status ∧ status < 128) := by
  have decoded := encodeCheckRequest_decodes service
  rw [decodeCheckRequestAt_eq, Except.ok.injEq] at decoded
  simp only [checkTr, decoded, find_setAll]
  refine ⟨fun missing => by rw [missing], fun status found => ?_⟩
  rw [found]
  exact ⟨_, rfl, decodeResponse_encode_iff status⟩

end GrpcUds.Cxx
