import GrpcUds.Headers
import GrpcUds.Client.Deframe

/-!
# The state of a call

Both clients keep one call state and hand its address to every stream they
open.  The nghttp2 callbacks change it, and so do the deadline, the end of the
connection and the reader that takes messages.
-/

namespace GrpcUds.Client

open Framing Headers

/-- Decimal digits within a limit. -/
def parseDigits (limit : Nat) (digits : Bytes) : Option Nat :=
  if digits = [] then none else (timeoutDigits 0 digits).filter (· ≤ limit)

/-- `str::parse::<u32>`: an optional plus sign and digits. -/
def parseU32 : Bytes → Option Nat
  | 43 :: digits => parseDigits u32Max digits
  | digits => parseDigits u32Max digits

/-- `str::parse::<i32>`: an optional sign and digits. -/
def parseI32 : Bytes → Option Int
  | 43 :: digits => (parseDigits (2 ^ 31 - 1) digits).map Int.ofNat
  | 45 :: digits => (parseDigits (2 ^ 31) digits).map fun magnitude => -(magnitude : Int)
  | digits => (parseDigits (2 ^ 31 - 1) digits).map Int.ofNat

/-- `char::to_digit(16)`. -/
def toDigit (byte : Byte) : Option Nat :=
  if 48 ≤ byte ∧ byte ≤ 57 then some (byte.toNat - 48)
  else if 97 ≤ byte ∧ byte ≤ 102 then some (byte.toNat - 87)
  else if 65 ≤ byte ∧ byte ≤ 70 then some (byte.toNat - 55)
  else none

/-- The decoding loop; an invalid escape passes through. -/
def percentDecodeBytes : Bytes → Bytes
  | 37 :: high :: low :: rest =>
      match toDigit high, toDigit low with
      | some h, some l => UInt8.ofNat (h * 16 + l) :: percentDecodeBytes rest
      | _, _ => 37 :: percentDecodeBytes (high :: low :: rest)
  | byte :: rest => byte :: percentDecodeBytes rest
  | [] => []

/-- The decoded message, if it is UTF-8. -/
def percentDecode (value : Bytes) : Option Bytes :=
  let out := percentDecodeBytes value
  if (ByteArray.mk out.toArray).validateUTF8 then some out else none

/-- The two clients: `ClientConn` of the core crate and `Client` of the std crate. -/
inductive Kind where
  | core
  | std
  deriving DecidableEq, Repr

/-- Per-call state.  The reader of the request body never passes its end. -/
structure CallState where
  req : Bytes
  reqOff : Nat
  httpStatus : Option Nat
  grpcStatus : Option Int
  /-- Decoded UTF-8. -/
  grpcMessage : Option Bytes
  inbuf : Bytes
  messages : List Bytes
  closed : Bool
  /-- Only the std client has this field. -/
  closeError : Nat
  within : reqOff ≤ req.length
  deriving DecidableEq

namespace CallState

def new : CallState where
  req := []
  reqOff := 0
  httpStatus := none
  grpcStatus := none
  grpcMessage := none
  inbuf := []
  messages := []
  closed := false
  closeError := 0
  within := Nat.zero_le _

/-- Arm the state for the next call; every field is overwritten. -/
def reset (req : Bytes) : CallState where
  req := req
  reqOff := 0
  httpStatus := none
  grpcStatus := none
  grpcMessage := none
  inbuf := []
  messages := []
  closed := false
  closeError := 0
  within := Nat.zero_le _

def onHeader (state : CallState) (name value : Bytes) : CallState :=
  if name = nStatus then { state with httpStatus := parseU32 value }
  else if name = nGrpcStatus then { state with grpcStatus := parseI32 value }
  else if name = nGrpcMessage then { state with grpcMessage := percentDecode value }
  else state

/-- A header reaches the three status fields only. -/
theorem onHeader_eq (state : CallState) (name value : Bytes) :
    ∃ http grpc message, state.onHeader name value =
      { state with httpStatus := http, grpcStatus := grpc, grpcMessage := message } := by
  unfold onHeader
  split
  · exact ⟨_, _, _, rfl⟩
  · split
    · exact ⟨_, _, _, rfl⟩
    · split <;> exact ⟨_, _, _, rfl⟩

/-- Allocation is assumed to succeed: the core client also stops at a message it
cannot allocate. -/
def onData (state : CallState) (data : Bytes) : CallState :=
  let split := deframe (state.inbuf ++ data)
  { state with
    inbuf := split.2
    messages := state.messages ++ split.1 }

def onClose (kind : Kind) (state : CallState) (errorCode : Nat) : CallState :=
  match kind with
  | .core => { state with closed := true }
  | .std => { state with closed := true, closeError := errorCode }

/-- The bytes the next read of the request body supplies. -/
def supply (state : CallState) (length : Nat) : Bytes := (state.req.drop state.reqOff).take length

def dataRead (state : CallState) (length : Nat) : CallState :=
  { state with
    reqOff := state.reqOff + min (state.req.length - state.reqOff) length
    within := by
      have within := state.within
      omega }

/-- `DEADLINE_EXCEEDED`, set locally. -/
def expire (state : CallState) : CallState :=
  { state with
    grpcStatus := some GrpcStatus.deadlineExceeded.code
    grpcMessage := some (ascii "deadline exceeded (client-side)")
    closed := true }

end CallState

/-- What can happen to a call. -/
inductive Happening where
  | header (name value : Bytes)
  | data (bytes : Bytes)
  | close (errorCode : Nat)
  | read (length : Nat)
  | expired
  | disconnected
  | taken
  deriving DecidableEq

def CallState.happen (kind : Kind) (state : CallState) : Happening → CallState
  | .header name value => state.onHeader name value
  | .data bytes => state.onData bytes
  | .close errorCode => state.onClose kind errorCode
  | .read length => state.dataRead length
  | .expired => state.expire
  | .disconnected => { state with closed := true }
  | .taken => { state with messages := state.messages.tail }

/-- What a call observes of a history. -/
def replay (kind : Kind) (req : Bytes) (history : List Happening) : CallState :=
  history.foldl (CallState.happen kind) (.reset req)

theorem replay_append (kind : Kind) (req : Bytes) (history : List Happening)
    (happening : Happening) :
    replay kind req (history ++ [happening]) = (replay kind req history).happen kind happening := by
  simp [replay]

end GrpcUds.Client
