import Mathlib.Data.Nat.Digits.Lemmas
import GrpcUds.Client.Conn

/-!
# The timeout on the wire

The core client renders its timeout digit by digit into a fixed buffer, and the std
client formats it.  Both write the decimal digits of a number of milliseconds and the
unit `m`; the server's parser takes at most eight digits.
-/

namespace GrpcUds.Client

open Framing Headers

/-- The byte of a decimal digit. -/
def digitByte (digit : Nat) : Byte := UInt8.ofNat (48 + digit)

def unitMs : Byte := 109

/-- The first loop of `fmt_ms_value`: the digits in `slots` places, the last one first. -/
def digitLoop : Nat → Nat → Bytes
  | 0, _ => []
  | slots + 1, value =>
      digitByte (value % 10) :: if value / 10 = 0 then [] else digitLoop slots (value / 10)

/-- The second loop: `count` digits of `tmp` from the last one on, and the unit. -/
def renderLoop (tmp : Bytes) : Nat → Nat → Bytes
  | 0, _ => []
  | _ + 1, 0 => [unitMs]
  | slots + 1, count + 1 => tmp.getD count 48 :: renderLoop tmp slots count

def fmtMsValue (value : UInt32) : Bytes :=
  let tmp := digitLoop 10 value.toNat
  renderLoop tmp 11 tmp.length

/-- The `grpc-timeout` value that the core client sends with a call. -/
def ClientConn.grpcTimeout (client : ClientConn) : Option Bytes :=
  client.timeoutMs.map fun ms => fmtMsValue (UInt32.ofNat ms)

/-- `std::time::Duration`. -/
structure Duration where
  secs : UInt64
  nanos : Nat
  subsecond : nanos < 1000000000

def Duration.asMillis (duration : Duration) : Nat :=
  duration.secs.toNat * 1000 + duration.nanos / 1000000

/-- The timeout in milliseconds, clamped to `1..=u32::MAX`. -/
def Duration.clampedMillis (duration : Duration) : Nat :=
  max 1 (min duration.asMillis u32Max)

/-- A number as `format!` writes it. -/
def decimal (value : Nat) : Bytes := (Nat.digits 10 value).reverse.map digitByte

/-- The value the std client sends. -/
def timeoutValue (duration : Duration) : Bytes :=
  decimal duration.clampedMillis ++ [unitMs]

theorem digitLoop_eq_digits {slots value : Nat} (positive : 0 < value)
    (short : value < 10 ^ slots) : digitLoop slots value = (Nat.digits 10 value).map digitByte := by
  induction slots generalizing value with
  | zero => omega
  | succ slots ih =>
      rw [Nat.digits_def' (by decide) positive, List.map_cons, digitLoop]
      congr 1
      split
      next done => simp [done]
      next more =>
        have smaller : value / 10 < 10 ^ slots := by
          rw [Nat.div_lt_iff_lt_mul (by decide)]
          rwa [Nat.pow_succ] at short
        exact ih (Nat.pos_of_ne_zero more) smaller

theorem renderLoop_eq (tmp : Bytes) {slots count : Nat} (room : count < slots)
    (within : count ≤ tmp.length) :
    renderLoop tmp slots count = (tmp.take count).reverse ++ [unitMs] := by
  induction count generalizing slots with
  | zero =>
      cases slots with
      | zero => omega
      | succ slots => rfl
  | succ count ih =>
      cases slots with
      | zero => omega
      | succ slots =>
          have inside : count < tmp.length := by omega
          have digit : tmp.getD count 48 = tmp[count] := by
            rw [List.getD_eq_getElem?_getD, List.getElem?_eq_getElem inside]
            rfl
          have grown : tmp.take (count + 1) = tmp.take count ++ [tmp[count]] :=
            (List.take_append_getElem inside).symm
          rw [renderLoop, ih (by omega) (by omega), digit, grown,
            List.reverse_append, List.reverse_singleton, List.append_assoc]
          rfl

/-- The renderer writes the decimal digits and the unit. -/
theorem fmtMsValue_eq {value : UInt32} (positive : 0 < value.toNat) :
    fmtMsValue value = decimal value.toNat ++ [unitMs] := by
  have bounded : value.toNat < 10 ^ 10 := by
    have := value.toNat_lt
    omega
  have digits := digitLoop_eq_digits positive bounded
  have count : (Nat.digits 10 value.toNat).length ≤ 10 :=
    (Nat.digits_length_le_iff (by decide) _).mpr bounded
  unfold fmtMsValue
  rw [digits, renderLoop_eq _ (by simp; omega) le_rfl, List.take_length, decimal,
    List.map_reverse]

theorem timeoutDigits_digits {digits : List Nat} (small : ∀ digit ∈ digits, digit < 10)
    (acc : Nat) :
    timeoutDigits acc (digits.map digitByte) =
      some (digits.foldl (fun acc digit => acc * 10 + digit) acc) := by
  induction digits generalizing acc with
  | nil => rfl
  | cons digit rest ih =>
      obtain ⟨less, others⟩ := List.forall_mem_cons.mp small
      have value : (digitByte digit).toNat = 48 + digit := by
        simp only [digitByte, UInt8.toNat_ofNat']
        omega
      have isDigit : 48 ≤ digitByte digit ∧ digitByte digit ≤ 57 := by
        simp only [UInt8.le_iff_toNat_le, value]
        exact ⟨Nat.le_add_right _ _, by simp; omega⟩
      rw [List.map_cons, timeoutDigits, if_pos isDigit, ih others, value,
        Nat.add_sub_cancel_left, List.foldl_cons]

/-- The parser reads back what `decimal` writes. -/
theorem timeoutDigits_decimal (value : Nat) : timeoutDigits 0 (decimal value) = some value := by
  have small : ∀ digit ∈ (Nat.digits 10 value).reverse, digit < 10 := by
    intro digit membership
    exact Nat.digits_lt_base (by decide) (List.mem_reverse.mp membership)
  rw [decimal, timeoutDigits_digits small, List.foldl_reverse]
  have horner : (Nat.digits 10 value).foldr (fun digit acc => acc * 10 + digit) 0 =
      Nat.ofDigits 10 (Nat.digits 10 value) := by
    rw [Nat.ofDigits_eq_foldr]
    congr 1
    funext digit acc
    simp [Nat.mul_comm, Nat.add_comm]
  rw [horner, Nat.ofDigits_digits]

/-- A value of milliseconds is read back exactly if it has at most eight digits. -/
theorem parse_decimal_iff {value : Nat} (positive : 0 < value) :
    parseGrpcTimeoutMs (decimal value ++ [unitMs]) = some value ↔ value < 10 ^ 8 := by
  have count : (decimal value).length = (Nat.digits 10 value).length := by simp [decimal]
  have some_ : 0 < (decimal value).length := by
    rw [count, List.length_pos_iff]
    exact Nat.digits_ne_nil_iff_ne_zero.mpr (Nat.pos_iff_ne_zero.mp positive)
  have fits : (decimal value).length ≤ 8 ↔ value < 10 ^ 8 := by
    rw [count, Nat.digits_length_le_iff (by decide)]
  rw [← fits]
  unfold parseGrpcTimeoutMs
  rw [List.length_append, List.length_singleton]
  split
  next refused =>
    have long : ¬ (decimal value).length ≤ 8 := by omega
    simp [long]
  next accepted =>
    have short : (decimal value).length ≤ 8 := by omega
    have unit : timeoutUnit value unitMs = some value := rfl
    simp [timeoutDigits_decimal, unit, Nat.pos_iff_ne_zero.mp positive, short]

theorem clampedMillis_lt_iff (duration : Duration) :
    duration.clampedMillis < 10 ^ 8 ↔ duration.asMillis < 10 ^ 8 := by
  unfold Duration.clampedMillis u32Max
  omega

/-- A timeout of the core client, and a duration given to the std client, arrive at the
server as they were set if and only if they are below 10⁸ milliseconds. -/
theorem timeout_arrives_iff (client : ClientConn) {ms : UInt32} (positive : 0 < ms.toNat)
    (duration : Duration) :
    (∃ value, (client.setTimeoutMs ms.toNat).grpcTimeout = some value ∧
      (parseGrpcTimeoutMs value = some ms.toNat ↔ ms.toNat < 10 ^ 8)) ∧
    (parseGrpcTimeoutMs (timeoutValue duration) = some duration.clampedMillis ↔
      duration.asMillis < 10 ^ 8) := by
  refine ⟨⟨fmtMsValue ms, ?_, ?_⟩, ?_⟩
  · simp [ClientConn.grpcTimeout, ClientConn.setTimeoutMs, ClientConn.setTimeout,
      Nat.pos_iff_ne_zero.mp positive]
  · rw [fmtMsValue_eq positive]
    exact parse_decimal_iff positive
  · have clamped : 0 < duration.clampedMillis := Nat.le_max_left 1 _
    rw [timeoutValue, parse_decimal_iff clamped, clampedMillis_lt_iff]

/-- Two seconds arrive from either client. -/
theorem timeout_arrives_two_seconds :
    (∃ value, ((ClientConn.connect .core).setTimeoutMs (2000 : UInt32).toNat).grpcTimeout =
        some value ∧ parseGrpcTimeoutMs value = some (2000 : UInt32).toNat) ∧
    ∃ duration : Duration, duration.asMillis = 2000 ∧
      parseGrpcTimeoutMs (timeoutValue duration) = some duration.clampedMillis := by
  let duration : Duration := ⟨2, 0, by decide⟩
  have millis : duration.asMillis = 2000 := by decide
  obtain ⟨⟨value, sent, arrives⟩, std⟩ :=
    timeout_arrives_iff (ClientConn.connect .core) (show 0 < (2000 : UInt32).toNat by decide)
      duration
  refine ⟨⟨value, sent, arrives.mpr (by decide)⟩, duration, millis, std.mpr ?_⟩
  rw [millis]
  decide

/-- A timeout of 10⁸ milliseconds is rendered with nine digits, and the server ignores
it. -/
theorem timeout_of_nine_digits_is_ignored :
    ((ClientConn.connect .core).setTimeoutMs 100000000).grpcTimeout =
        some (ascii "100000000m") ∧
      parseGrpcTimeoutMs (ascii "100000000m") = none := by
  refine ⟨?_, by decide⟩
  decide +kernel

end GrpcUds.Client
