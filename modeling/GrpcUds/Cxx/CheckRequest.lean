import GrpcUds.Ffi.CheckRequest

/-!
# The C++ codec of health check requests

The C++ header carries its own codec.  Its varint loop runs over the bytes that
continue and reads the last one behind the loop, where the C ABI checks before every
byte; the two stop at the same places all the same.
-/

namespace GrpcUds.Cxx

open Cursor Ffi

/-- A `std::string`; its size is a `size_t` of 64 bits. -/
structure CxxString where
  bytes : Bytes
  size_lt : bytes.length < 2 ^ 64

/-- The length loop of `EncodeCheckRequest`. -/
def encodeLength (len : Nat) : Bytes :=
  if 0x80 ≤ len then (UInt8.ofNat len ||| 0x80) :: encodeLength (len >>> 7)
  else [UInt8.ofNat len]
termination_by len
decreasing_by
  rw [Nat.shiftRight_eq_div_pow]
  omega

def encodeCheckRequest (service : CxxString) : Bytes :=
  if service.bytes = [] then []
  else 0x0a :: (encodeLength service.bytes.length ++ service.bytes)

/-- The loop over the bytes of a length that continue: the length so far, the shift and
the index of the byte that does not. -/
def continuedAt (d : Bytes) : Nat → Nat → Nat → Nat → Except Fault (Option (Nat × Nat × Nat))
  | 0, _, _, _ => .error .outOfTurns
  | turns + 1, index, len, shift =>
      if index < d.length then do
        let byte ← get d index
        if byte &&& 0x80 ≠ 0 then
          if 64 ≤ shift then .ok none
          else
            continuedAt d turns (index + 1) (len ||| ((byte &&& 0x7f).toNat <<< shift) % 2 ^ 64)
              (shift + 7)
        else .ok (some (len, shift, index))
      else .ok (some (len, shift, index))

/-- The byte behind the loop. -/
def lastByteAt (d : Bytes) : Option (Nat × Nat × Nat) → Except Fault (Option (Nat × Nat))
  | none => .ok none
  | some (len, shift, index) =>
      if d.length ≤ index ∨ 64 ≤ shift then .ok none
      else do
        let byte ← get d index
        .ok (some (len ||| (byte.toNat <<< shift) % 2 ^ 64, index + 1))

/-- The field loop of `DecodeCheckRequest`: its result, and what it has assigned to
`service`. -/
def fieldsAt (d : Bytes) : Nat → Nat → Bytes → Except Fault (Bool × Bytes)
  | 0, _, _ => .error .outOfTurns
  | turns + 1, index, service =>
      if index < d.length then do
        let tag ← get d index
        if tag ≠ 0x0a then .ok (false, service)
        else
          match ← (continuedAt d varintTurns (index + 1) 0 0 >>= lastByteAt d) with
          | none => .ok (false, service)
          | some (len, index) =>
              if d.length - index < len then .ok (false, service)
              else do
                let service ← slice d index len
                fieldsAt d turns (index + len) service
      else .ok (true, service)

def decodeCheckRequest (d : Bytes) : Except Fault (Bool × Bytes) := fieldsAt d (d.length + 1) 0 []

/-- The service of a request that was accepted. -/
def accepted : Bool × Bytes → Option Bytes
  | (true, service) => some service
  | (false, _) => none

/-! ### The two decoders -/

/-- The loop and the byte behind it read what the loop of the C ABI reads. -/
theorem continuedAt_bind_lastByteAt (d : Bytes) (turns index len shift : Nat) :
    (continuedAt d turns index len shift >>= lastByteAt d) = varintAt d turns index len shift := by
  induction turns generalizing index len shift with
  | zero => rfl
  | succ turns ih =>
      rw [continuedAt, varintAt]
      by_cases inside : index < d.length
      · obtain ⟨byte, read⟩ : ∃ byte, get d index = .ok byte := by
          rw [Cursor.get, List.getElem?_eq_getElem inside]
          exact ⟨_, rfl⟩
        have outside : ¬ d.length ≤ index := Nat.not_le.mpr inside
        by_cases full : 64 ≤ shift <;> by_cases last : byte &&& 0x80 = 0
        · simp [inside, read, last, full, bind, Except.bind, lastByteAt]
        · simp [inside, read, last, full, bind, Except.bind, lastByteAt]
        · have low : (byte &&& 0x7f).toNat = byte.toNat := by
            rw [and_low_toNat, Nat.mod_eq_of_lt ((and_high_eq_zero_iff byte).mp last)]
          simp [inside, outside, read, last, full, low, bind, Except.bind, lastByteAt]
        · have continued := ih (index + 1)
            (len ||| ((byte &&& 0x7f).toNat <<< shift) % 2 ^ 64) (shift + 7)
          simp only [bind, Except.bind] at continued
          simp only [inside, outside, read, last, full, bind, Except.bind, if_true, if_false,
            ne_eq, not_false_eq_true, or_self]
          exact continued
      · rw [if_neg inside, if_pos (.inl (Nat.not_lt.mp inside))]
        simp only [bind, Except.bind, lastByteAt]
        rw [if_pos (.inl (Nat.not_lt.mp inside))]

theorem fieldsAt_accepted (d : Bytes) (turns index : Nat) (service : Bytes) :
    (fieldsAt d turns index service).map accepted = Ffi.fieldsAt d turns index service := by
  induction turns generalizing index service with
  | zero => rfl
  | succ turns ih =>
      rw [fieldsAt, Ffi.fieldsAt, continuedAt_bind_lastByteAt]
      split
      · cases get d index with
        | error fault => rfl
        | ok tag =>
            simp only [bind, Except.bind]
            split
            · rfl
            · cases varintAt d varintTurns (index + 1) 0 0 with
              | error fault => rfl
              | ok read =>
                  cases read with
                  | none => rfl
                  | some read =>
                      dsimp only
                      split
                      · rfl
                      · cases slice d read.2 read.1 with
                        | error fault => rfl
                        | ok content => exact ih _ content
      · rfl

/-- Both decoders accept the same requests, for the same service. -/
theorem decodeCheckRequest_accepted (d : Bytes) :
    (decodeCheckRequest d).map accepted = decodeCheckRequestAt d :=
  fieldsAt_accepted d _ 0 []

/-! ### The encoder -/

theorem or_high_toNat (byte : Byte) : (byte ||| 0x80).toNat = byte.toNat % 128 + 128 := by
  have table : ∀ low : Fin 256, low.val ||| 128 = low.val % 128 + 128 := by decide +kernel
  rw [UInt8.toNat_or]
  exact table ⟨byte.toNat, byte.toNat_lt⟩

/-- Seven bits take one byte. -/
theorem encodeLength_last {len : Nat} (small : len < 128) (groups : Nat) :
    Varint.isVarint (encodeLength len) = true ∧ Varint.value (encodeLength len) = len ∧
      (encodeLength len).length ≤ groups + 1 := by
  have byte : (UInt8.ofNat len).toNat = len := by
    rw [UInt8.toNat_ofNat']
    omega
  rw [encodeLength, if_neg (by omega)]
  simp only [Varint.isVarint, Varint.value, byte, decide_eq_true_eq, List.length_singleton]
  omega

/-- The encoded length is a varint of it, and no longer than its groups. -/
theorem encodeLength_spec {groups len : Nat} (small : len < 128 ^ (groups + 1)) :
    Varint.isVarint (encodeLength len) = true ∧ Varint.value (encodeLength len) = len ∧
      (encodeLength len).length ≤ groups + 1 := by
  induction groups generalizing len with
  | zero => exact encodeLength_last (by omega) 0
  | succ groups ih =>
      by_cases more : 0x80 ≤ len
      · have smaller : len >>> 7 < 128 ^ (groups + 1) := by
          rw [Nat.shiftRight_eq_div_pow, Nat.div_lt_iff_lt_mul (by decide)]
          exact small
        obtain ⟨isVarint, value, short⟩ := ih smaller
        have byte : (UInt8.ofNat len ||| 0x80).toNat = len % 128 + 128 := by
          rw [or_high_toNat, UInt8.toNat_ofNat']
          omega
        rw [encodeLength, if_pos more]
        refine ⟨?_, ?_, ?_⟩
        · apply (Varint.isVarint_cons (Varint.ne_nil_of_isVarint isVarint)).mpr
          exact ⟨by omega, isVarint⟩
        · rw [Varint.value, byte, value, Nat.shiftRight_eq_div_pow]
          omega
        · rw [List.length_cons]
          omega
      · exact encodeLength_last (by omega) (groups + 1)

theorem encodeCheckRequest_decodes (service : CxxString) :
    decodeCheckRequestAt (encodeCheckRequest service) = .ok (some service.bytes) := by
  rw [decodeCheckRequestAt_eq_some_iff, encodeCheckRequest]
  split
  next empty => exact ⟨[], by simp, rfl, empty⟩
  next =>
    have bounded : service.bytes.length < 128 ^ (9 + 1) :=
      Nat.lt_of_lt_of_le service.size_lt (by decide)
    obtain ⟨isVarint, value, short⟩ := encodeLength_spec bounded
    refine ⟨[⟨encodeLength service.bytes.length, service.bytes⟩], ?_, ?_, rfl⟩
    · intro field listed
      rw [List.mem_singleton.mp listed]
      refine ⟨isVarint, short, ?_⟩
      rw [value, Nat.mod_eq_of_lt service.size_lt]
    · simp [wire, Field.wire]

/-- The C++ decoder and the one of the C ABI accept the same bytes and take the same
service from them, and both take back the service that the C++ encoder was given. -/
theorem check_request_codecs_agree :
    (∀ d : Bytes, (decodeCheckRequest d).map accepted = decodeCheckRequestAt d) ∧
      ∀ service : CxxString,
        decodeCheckRequest (encodeCheckRequest service) = .ok (true, service.bytes) ∧
          decodeCheckRequestAt (encodeCheckRequest service) = .ok (some service.bytes) := by
  refine ⟨decodeCheckRequest_accepted, ?_⟩
  intro service
  have decodes := encodeCheckRequest_decodes service
  refine ⟨?_, decodes⟩
  rw [← decodeCheckRequest_accepted] at decodes
  cases outcome : decodeCheckRequest (encodeCheckRequest service) with
  | error fault => simp [outcome, Except.map] at decodes
  | ok result =>
      obtain ⟨flag, assigned⟩ := result
      cases flag with
      | false => simp [outcome, Except.map, accepted] at decodes
      | true => simpa [outcome, Except.map, accepted] using decodes

end GrpcUds.Cxx
