import GrpcUds.Framing

/-!
# Status codes and response headers

The header blocks the server submits to nghttp2, and the two header values it
reads or writes itself: percent-encoded messages and `grpc-timeout`.
-/

namespace GrpcUds

/-- The canonical gRPC status codes, in wire order. -/
inductive GrpcStatus where
  | ok
  | cancelled
  | unknown
  | invalidArgument
  | deadlineExceeded
  | notFound
  | alreadyExists
  | permissionDenied
  | resourceExhausted
  | failedPrecondition
  | aborted
  | outOfRange
  | unimplemented
  | internal
  | unavailable
  | dataLoss
  | unauthenticated
  deriving DecidableEq, Repr

namespace GrpcStatus

/-- The `repr(u8)` discriminant. -/
def code : GrpcStatus → Nat
  | ok => 0
  | cancelled => 1
  | unknown => 2
  | invalidArgument => 3
  | deadlineExceeded => 4
  | notFound => 5
  | alreadyExists => 6
  | permissionDenied => 7
  | resourceExhausted => 8
  | failedPrecondition => 9
  | aborted => 10
  | outOfRange => 11
  | unimplemented => 12
  | internal => 13
  | unavailable => 14
  | dataLoss => 15
  | unauthenticated => 16

end GrpcStatus

/-- Numeric status to typed status.  Everything out of range is `Unknown`; the
dispatcher, the C ABI and the client each carry a copy of this table. -/
def grpcStatusFromI32 (code : Int) : GrpcStatus :=
  match code with
  | 0 => .ok
  | 1 => .cancelled
  | 2 => .unknown
  | 3 => .invalidArgument
  | 4 => .deadlineExceeded
  | 5 => .notFound
  | 6 => .alreadyExists
  | 7 => .permissionDenied
  | 8 => .resourceExhausted
  | 9 => .failedPrecondition
  | 10 => .aborted
  | 11 => .outOfRange
  | 12 => .unimplemented
  | 13 => .internal
  | 14 => .unavailable
  | 15 => .dataLoss
  | 16 => .unauthenticated
  | _ => .unknown

namespace Headers

/-- The bytes of a literal header name or value. -/
def ascii (text : String) : Bytes := text.toList.map fun character => UInt8.ofNat character.toNat

/-- A name and value pair handed to nghttp2. -/
abbrev Nv := Bytes × Bytes

def nStatus : Bytes := ascii ":status"

def nPath : Bytes := ascii ":path"

def nGrpcStatus : Bytes := ascii "grpc-status"

def nGrpcMessage : Bytes := ascii "grpc-message"

def nGrpcTimeout : Bytes := ascii "grpc-timeout"

/-- The pre-rendered digits of a status code. -/
def vGrpcStatus (status : GrpcStatus) : Bytes := ascii (toString status.code)

def trailer (status : GrpcStatus) : List Nv := [(nGrpcStatus, vGrpcStatus status)]

def trailerWithMessage (status : GrpcStatus) (message : Bytes) : List Nv :=
  [(nGrpcStatus, vGrpcStatus status), (nGrpcMessage, message)]

/-- One uppercase hexadecimal digit. -/
def hexDigit (value : Nat) : Byte :=
  if value < 10 then UInt8.ofNat (48 + value) else UInt8.ofNat (55 + value)

/-- Bytes outside `0x20..=0x7E`, and `%` itself, become `%XX`. -/
def percentEncodeMessage : Bytes → Bytes
  | [] => []
  | byte :: rest =>
      if byte < 0x20 ∨ 0x7E < byte ∨ byte = 0x25 then
        0x25 :: hexDigit (byte.toNat / 16) :: hexDigit (byte.toNat % 16) ::
          percentEncodeMessage rest
      else
        byte :: percentEncodeMessage rest

theorem percentEncodeMessage_eq_nil_iff (message : Bytes) :
    percentEncodeMessage message = [] ↔ message = [] := by
  cases message with
  | nil => simp [percentEncodeMessage]
  | cons byte rest =>
      simp only [percentEncodeMessage]
      split <;> simp

def u64Max : Nat := 2 ^ 64 - 1

/-- `u64::saturating_mul`. -/
def saturatingMul (left right : Nat) : Nat := min (left * right) u64Max

/-- The digit loop of the timeout parser. -/
def timeoutDigits (acc : Nat) : Bytes → Option Nat
  | [] => some acc
  | digit :: rest =>
      if 48 ≤ digit ∧ digit ≤ 57 then timeoutDigits (acc * 10 + (digit.toNat - 48)) rest
      else none

/-- The unit byte of a timeout, applied to its digits. -/
def timeoutUnit (value : Nat) (unit : Byte) : Option Nat :=
  if unit = 72 then some (saturatingMul value 3600000)
  else if unit = 77 then some (saturatingMul value 60000)
  else if unit = 83 then some (saturatingMul value 1000)
  else if unit = 109 then some value
  else if unit = 117 then some ((value + 999) / 1000)
  else if unit = 110 then some ((value + 999999) / 1000000)
  else none

/-- Parse a `grpc-timeout` value into milliseconds.  Sub-millisecond values
round up to one, and malformed values are ignored. -/
def parseGrpcTimeoutMs (value : Bytes) : Option Nat :=
  if value.length < 2 ∨ 9 < value.length then none
  else
    match value.getLast? with
    | none => none
    | some unit =>
        (timeoutDigits 0 value.dropLast).bind fun digits =>
          (timeoutUnit digits unit).map fun ms => if ms = 0 then 1 else ms

end Headers

end GrpcUds
