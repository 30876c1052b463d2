import Mathlib.Data.Nat.Digits.Lemmas
import GrpcUds.Server.Lane

/-!
# The timeout grammar

A `grpc-timeout` is one to eight digits and a unit.  Its value in milliseconds is
rounded up, so the deadline that the server stores is never earlier than the one
requested, and no step of the computation leaves the `u64` range.
-/

namespace GrpcUds.Headers

def isAsciiDigit (byte : Byte) : Bool := 48 ≤ byte && byte ≤ 57

/-- The number that decimal digits stand for. -/
def decimalValue (digits : Bytes) : Nat :=
  Nat.ofDigits 10 (digits.reverse.map fun digit => digit.toNat - 48)

/-- Nanoseconds in a unit: hours, minutes, seconds, milli-, micro- and nanoseconds. -/
def unitNanos (unit : Byte) : Option Nat :=
  if unit = 72 then some (3600 * 10 ^ 9)
  else if unit = 77 then some (60 * 10 ^ 9)
  else if unit = 83 then some (10 ^ 9)
  else if unit = 109 then some (10 ^ 6)
  else if unit = 117 then some (10 ^ 3)
  else if unit = 110 then some 1
  else none

/-- The grammar, with the time a value asks for in nanoseconds. -/
inductive Requests : Bytes → Nat → Prop where
  | digits {digits : Bytes} {unit : Byte} {perUnit : Nat} :
      1 ≤ digits.length → digits.length ≤ 8 →
      (∀ digit ∈ digits, isAsciiDigit digit = true) → unitNanos unit = some perUnit →
      Requests (digits ++ [unit]) (decimalValue digits * perUnit)

/-- A time in milliseconds, rounded up, and at least one. -/
def roundedMs (nanos : Nat) : Nat := max 1 ((nanos + 999999) / 1000000)

/-! ### Checked arithmetic -/

/-- A `u64` result, unless the operation overflows. -/
def checked (value : Nat) : Option Nat := if value ≤ u64Max then some value else none

/-- The digit loop with every operation checked; the outer `none` is an overflow. -/
def checkedDigits (acc : Nat) : Bytes → Option (Option Nat)
  | [] => some (some acc)
  | digit :: rest =>
      if 48 ≤ digit ∧ digit ≤ 57 then do
        let tens ← checked (acc * 10)
        let next ← checked (tens + (digit.toNat - 48))
        checkedDigits next rest
      else some none

/-- The unit with a product that saturates counted as an overflow. -/
def checkedUnit (value : Nat) (unit : Byte) : Option (Option Nat) :=
  if unit = 72 then (checked (value * 3600000)).map some
  else if unit = 77 then (checked (value * 60000)).map some
  else if unit = 83 then (checked (value * 1000)).map some
  else some (timeoutUnit value unit)

/-- `parse_grpc_timeout_ms` with every operation checked. -/
def checkedTimeoutMs (value : Bytes) : Option (Option Nat) :=
  if value.length < 2 ∨ 9 < value.length then some none
  else
    match value.getLast? with
    | none => some none
    | some unit => do
        match ← checkedDigits 0 value.dropLast with
        | none => some none
        | some digits =>
            let ms ← checkedUnit digits unit
            some (ms.map fun ms => if ms = 0 then 1 else ms)

theorem checked_eq {value : Nat} (fits : value ≤ u64Max) : checked value = some value := if_pos fits

theorem isAsciiDigit_iff {byte : Byte} : isAsciiDigit byte = true ↔ 48 ≤ byte ∧ byte ≤ 57 := by
  simp [isAsciiDigit]

theorem decimalValue_cons (digit : Byte) (rest : Bytes) :
    decimalValue (digit :: rest) = (digit.toNat - 48) * 10 ^ rest.length + decimalValue rest := by
  simp only [decimalValue, List.reverse_cons, List.map_append, List.map_cons, List.map_nil,
    Nat.ofDigits_append, Nat.ofDigits_singleton, List.length_map, List.length_reverse]
  rw [Nat.mul_comm, Nat.add_comm]

theorem timeoutDigits_eq (acc : Nat) (digits : Bytes) :
    timeoutDigits acc digits =
      if digits.all isAsciiDigit = true then
        some (acc * 10 ^ digits.length + decimalValue digits)
      else none := by
  induction digits generalizing acc with
  | nil => simp [timeoutDigits, decimalValue]
  | cons digit rest ih =>
      rw [timeoutDigits]
      simp only [List.all_cons, Bool.and_eq_true, isAsciiDigit_iff, decimalValue_cons,
        List.length_cons]
      split
      next isDigit =>
        rw [ih]
        simp only [isDigit, and_self, true_and]
        split
        · rw [Nat.add_mul, Nat.mul_assoc, Nat.pow_succ', Nat.add_assoc]
        · rfl
      next other => rw [if_neg fun all => other all.1]

theorem decimalValue_lt {digits : Bytes} (all : ∀ digit ∈ digits, isAsciiDigit digit = true) :
    decimalValue digits < 10 ^ digits.length := by
  induction digits with
  | nil => decide
  | cons digit rest ih =>
      obtain ⟨isDigit, others⟩ := List.forall_mem_cons.mp all
      have later := ih others
      have small : digit.toNat - 48 ≤ 9 := by
        have upper := UInt8.le_iff_toNat_le.mp (isAsciiDigit_iff.mp isDigit).2
        have : (57 : UInt8).toNat = 57 := rfl
        omega
      have scaled := Nat.mul_le_mul_right (10 ^ rest.length) small
      rw [decimalValue_cons, List.length_cons, Nat.pow_succ]
      omega

theorem timeoutDigits_lt {digits : Bytes} {value : Nat}
    (read : timeoutDigits 0 digits = some value) : value < 10 ^ digits.length := by
  rw [timeoutDigits_eq] at read
  obtain ⟨all, read⟩ := Option.ite_none_right_eq_some.mp read
  rw [← Option.some.inj read, Nat.zero_mul, Nat.zero_add]
  exact decimalValue_lt (List.all_eq_true.mp all)

/-- Eight digits are in range of every unit. -/
theorem timeoutUnit_eq {value : Nat} (small : value < 10 ^ 8) (unit : Byte) :
    timeoutUnit value unit =
      (unitNanos unit).map fun perUnit => (value * perUnit + 999999) / 1000000 := by
  unfold timeoutUnit unitNanos saturatingMul u64Max
  split_ifs <;> simp only [Option.map_some, Option.map_none, Option.some.injEq] <;> omega

theorem checkedUnit_eq {value : Nat} (small : value < 10 ^ 8) (unit : Byte) :
    checkedUnit value unit = some (timeoutUnit value unit) := by
  have inRange (factor : Nat) (bounded : factor ≤ 3600000) :
      value * factor ≤ u64Max ∧ saturatingMul value factor = value * factor := by
    have product : value * factor ≤ 10 ^ 8 * 3600000 := Nat.mul_le_mul (Nat.le_of_lt small) bounded
    have fits : value * factor ≤ u64Max := by
      unfold u64Max
      omega
    exact ⟨fits, Nat.min_eq_left fits⟩
  unfold checkedUnit timeoutUnit
  split_ifs
  · rw [checked_eq (inRange 3600000 (by decide)).1, (inRange 3600000 (by decide)).2]
    rfl
  · rw [checked_eq (inRange 60000 (by decide)).1, (inRange 60000 (by decide)).2]
    rfl
  · rw [checked_eq (inRange 1000 (by decide)).1, (inRange 1000 (by decide)).2]
    rfl
  all_goals rfl

theorem checkedDigits_eq {acc places : Nat} {digits : Bytes} (small : acc < 10 ^ places)
    (short : places + digits.length ≤ 19) :
    checkedDigits acc digits = some (timeoutDigits acc digits) := by
  induction digits generalizing acc places with
  | nil => rfl
  | cons digit rest ih =>
      rw [checkedDigits, timeoutDigits]
      split
      next isDigit =>
        have nine : digit.toNat - 48 ≤ 9 := by
          have upper := UInt8.le_iff_toNat_le.mp isDigit.2
          have : (57 : UInt8).toNat = 57 := rfl
          omega
        have next : acc * 10 + (digit.toNat - 48) < 10 ^ (places + 1) := by
          rw [Nat.pow_succ]
          omega
        rw [List.length_cons] at short
        have largest : 10 ^ (places + 1) ≤ 10 ^ 19 := Nat.pow_le_pow_right (by decide) (by omega)
        have range : acc * 10 + (digit.toNat - 48) ≤ u64Max := by
          unfold u64Max
          omega
        simp only [checked_eq (show acc * 10 ≤ u64Max by omega), Option.bind_eq_bind,
          Option.bind_some, checked_eq range]
        exact ih next (by omega)
      next => rfl

/-! ### The parser -/

theorem atLeastOne_eq (ms : Nat) : (if ms = 0 then 1 else ms) = max 1 ms := by
  split <;> omega

/-- The parser on digits and a unit, if their count is in range. -/
theorem parseGrpcTimeoutMs_eq {digits : Bytes} (some_ : 1 ≤ digits.length)
    (short : digits.length ≤ 8) (unit : Byte) :
    parseGrpcTimeoutMs (digits ++ [unit]) =
      if digits.all isAsciiDigit = true then
        (unitNanos unit).map fun perUnit => roundedMs (decimalValue digits * perUnit)
      else none := by
  have inRange : ¬ ((digits ++ [unit]).length < 2 ∨ 9 < (digits ++ [unit]).length) := by
    rw [List.length_append, List.length_singleton]
    omega
  rw [parseGrpcTimeoutMs, if_neg inRange, List.getLast?_concat, List.dropLast_concat]
  simp only [timeoutDigits_eq, Nat.zero_mul, Nat.zero_add]
  split
  next all =>
    have small : decimalValue digits < 10 ^ 8 :=
      Nat.lt_of_lt_of_le (decimalValue_lt (List.all_eq_true.mp all))
        (Nat.pow_le_pow_right (by decide) short)
    rw [Option.bind_some, timeoutUnit_eq small, Option.map_map]
    simp only [Function.comp_def, atLeastOne_eq, roundedMs]
  next => rfl

theorem parse_eq_some_iff {value : Bytes} {ms : Nat} :
    parseGrpcTimeoutMs value = some ms ↔ ∃ nanos, Requests value nanos ∧ ms = roundedMs nanos := by
  constructor
  · intro parsed
    have inRange : ¬ (value.length < 2 ∨ 9 < value.length) := by
      intro outside
      rw [parseGrpcTimeoutMs, if_pos outside] at parsed
      simp at parsed
    obtain ⟨digits, unit, rfl⟩ : ∃ digits unit, value = digits ++ [unit] := by
      rcases List.eq_nil_or_concat' value with rfl | ⟨digits, unit, rfl⟩
      · simp at inRange
      · exact ⟨digits, unit, rfl⟩
    rw [List.length_append, List.length_singleton] at inRange
    have some_ : 1 ≤ digits.length := by omega
    have short : digits.length ≤ 8 := by omega
    rw [parseGrpcTimeoutMs_eq some_ short] at parsed
    obtain ⟨all, parsed⟩ := Option.ite_none_right_eq_some.mp parsed
    obtain ⟨perUnit, known, rounded⟩ := Option.map_eq_some_iff.mp parsed
    exact ⟨_, .digits some_ short (List.all_eq_true.mp all) known, rounded.symm⟩
  · rintro ⟨_, ⟨some_, short, all, known⟩, rfl⟩
    rw [parseGrpcTimeoutMs_eq some_ short, if_pos (List.all_eq_true.mpr all), known]
    rfl

/-- No step of the parser leaves the `u64` range. -/
theorem checkedTimeoutMs_eq (value : Bytes) :
    checkedTimeoutMs value = some (parseGrpcTimeoutMs value) := by
  unfold checkedTimeoutMs parseGrpcTimeoutMs
  split
  next => rfl
  next inRange =>
    cases value.getLast? with
    | none => rfl
    | some unit =>
        have short : value.dropLast.length ≤ 8 := by
          rw [List.length_dropLast]
          omega
        have digitsChecked : checkedDigits 0 value.dropLast =
            some (timeoutDigits 0 value.dropLast) :=
          checkedDigits_eq (show 0 < 10 ^ 0 by decide) (by omega)
        simp only [digitsChecked, Option.bind_eq_bind, Option.bind_some]
        cases read : timeoutDigits 0 value.dropLast with
        | none => rfl
        | some digits =>
            have small : digits < 10 ^ 8 :=
              Nat.lt_of_lt_of_le (timeoutDigits_lt read) (Nat.pow_le_pow_right (by decide) short)
            simp only [checkedUnit_eq small, Option.bind_some]

/-- The longest time that the grammar can ask for is far below the `u64` range. -/
theorem Requests.roundedMs_lt {value : Bytes} {nanos : Nat} (requests : Requests value nanos) :
    roundedMs nanos < 2 ^ 49 := by
  cases requests with
  | @digits digits unit perUnit _ short all known =>
      have small : decimalValue digits < 10 ^ 8 :=
        Nat.lt_of_lt_of_le (decimalValue_lt all) (Nat.pow_le_pow_right (by decide) short)
      have hours : perUnit ≤ 3600 * 10 ^ 9 := by
        unfold unitNanos at known
        split_ifs at known <;> cases known <;> decide
      have product : decimalValue digits * perUnit ≤ (10 ^ 8 - 1) * (3600 * 10 ^ 9) :=
        Nat.mul_le_mul (Nat.le_sub_one_of_lt small) hours
      unfold roundedMs
      omega

end GrpcUds.Headers

namespace GrpcUds.Server

open Headers

/-- A timeout header sets the deadline of its stream. -/
theorem Conn.onHeader_timeout {conn : Conn} {id : StreamId} {stream : StreamCtx} {value : Bytes}
    {ms : Nat} (found : conn.findStream id = some stream)
    (parsed : parseGrpcTimeoutMs value = some ms) (now : Nat) (reserve : Bool) :
    (conn.onHeader id nGrpcTimeout value now reserve).2.findStream id =
      some { stream with deadlineMs := some ((now + ms) % 2 ^ 64) } := by
  have other : nGrpcTimeout ≠ nPath := by decide
  simp only [Conn.onHeader, found, other, if_false, if_true, parsed, Option.map_some]
  refine (conn.findStream_modify_self id ?_).trans ?_
  · exact fun _ => rfl
  · rw [found]
    rfl

/-- The parser accepts exactly the grammar and yields the time asked for in milliseconds,
rounded up and at least one, without leaving the `u64` range.  The deadline it is stored
as does not overflow for a clock below 2⁶³ and is not earlier than the time asked for. -/
theorem timeout_is_exact (value : Bytes) :
    (∀ ms, parseGrpcTimeoutMs value = some ms ↔
      ∃ nanos, Requests value nanos ∧ ms = max 1 ((nanos + 999999) / 1000000)) ∧
    checkedTimeoutMs value = some (parseGrpcTimeoutMs value) ∧
    ∀ (conn : Conn) (id : StreamId) (stream : StreamCtx) (now nanos : Nat) (reserve : Bool),
      Requests value nanos → conn.findStream id = some stream → now < 2 ^ 63 →
      ∃ deadline,
        (conn.onHeader id nGrpcTimeout value now reserve).2.findStream id =
          some { stream with deadlineMs := some deadline } ∧
        deadline = now + max 1 ((nanos + 999999) / 1000000) ∧ deadline < 2 ^ 64 ∧
        now * 1000000 + nanos ≤ deadline * 1000000 := by
  refine ⟨fun ms => parse_eq_some_iff, checkedTimeoutMs_eq value, ?_⟩
  intro conn id stream now nanos reserve requests found early
  have bounded := requests.roundedMs_lt
  have fits : now + roundedMs nanos < 2 ^ 64 := by omega
  have stored :=
    Conn.onHeader_timeout found (parse_eq_some_iff.mpr ⟨nanos, requests, rfl⟩) now reserve
  rw [Nat.mod_eq_of_lt fits] at stored
  refine ⟨now + roundedMs nanos, stored, rfl, fits, ?_⟩
  unfold roundedMs
  omega

/-- A timeout of 1500 microseconds is stored as two milliseconds. -/
theorem timeout_is_exact_for_microseconds :
    ∃ deadline,
      ((((Conn.newServer [] 64 3).pushStream 1).onHeader 1 nGrpcTimeout (ascii "1500u") 10
          true).2.findStream 1).map StreamCtx.deadlineMs = some (some deadline) ∧
        deadline = 12 := by
  have request : Requests (ascii "1500u") (decimalValue (ascii "1500") * 10 ^ 3) :=
    @Requests.digits (ascii "1500") 117 (10 ^ 3) (by decide) (by decide)
      (List.all_eq_true.mp (by decide)) rfl
  have value : decimalValue (ascii "1500") * 10 ^ 3 = 1500000 := by decide
  rw [value] at request
  obtain ⟨deadline, stored, exact, _⟩ := (timeout_is_exact (ascii "1500u")).2.2
    ((Conn.newServer [] 64 3).pushStream 1) 1 (StreamCtx.new 1) 10 1500000 true request rfl
    (by decide)
  refine ⟨deadline, ?_, exact⟩
  rw [stored]
  rfl

end GrpcUds.Server
