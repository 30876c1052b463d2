import Mathlib.Algebra.Group.Nat.Defs
import Mathlib.Data.List.Basic

/-!
# gRPC message framing

Every message travels as a compressed flag, a four-byte big-endian length and
the payload.
-/

namespace GrpcUds

abbrev Byte := UInt8

abbrev Bytes := List UInt8

namespace Framing

def frameHeaderLen : Nat := 5

/-- `u32::MAX`. -/
def u32Max : Nat := 2 ^ 32 - 1

structure FrameHeader where
  compressed : Bool
  payloadLen : UInt32
  deriving DecidableEq, Repr

inductive FrameError where
  | needMore
  | tooLarge
  | compressed
  deriving DecidableEq, Repr

/-- `u32::to_be_bytes`. -/
def toBeBytes (value : UInt32) : Bytes :=
  [UInt8.ofNat (value.toNat / 2 ^ 24), UInt8.ofNat (value.toNat / 2 ^ 16),
    UInt8.ofNat (value.toNat / 2 ^ 8), UInt8.ofNat value.toNat]

/-- `u32::from_be_bytes`. -/
def fromBeBytes (first second third fourth : Byte) : UInt32 :=
  UInt32.ofNat (first.toNat * 2 ^ 24 + second.toNat * 2 ^ 16 +
    third.toNat * 2 ^ 8 + fourth.toNat)

def encodeHeader (compressed : Bool) (payloadLen : UInt32) : Bytes :=
  (if compressed then 1 else 0) :: toBeBytes payloadLen

def decodeHeader (buf : Bytes) (maxLen : UInt32) : Except FrameError FrameHeader :=
  match buf with
  | flag :: first :: second :: third :: fourth :: _ =>
      -- 1 means compressed and every other value is reserved; both are refused.
      if flag ≠ 0 then .error .compressed
      else
        let payloadLen := fromBeBytes first second third fourth
        if maxLen < payloadLen then .error .tooLarge
        else .ok ⟨false, payloadLen⟩
  | _ => .error .needMore

/-- One message on the wire.  The length is cast to `u32` as the writers do. -/
def frame (payload : Bytes) : Bytes :=
  encodeHeader false (UInt32.ofNat payload.length) ++ payload

/-- The buffer starts with a whole uncompressed frame of the payload, within the
cap. -/
def Carries (maxLen : UInt32) (buf payload : Bytes) : Prop :=
  ∃ payloadLen rest, buf = encodeHeader false payloadLen ++ payload ++ rest ∧
    payload.length = payloadLen.toNat ∧ payloadLen ≤ maxLen

@[simp]
theorem length_encodeHeader (compressed : Bool) (payloadLen : UInt32) :
    (encodeHeader compressed payloadLen).length = frameHeaderLen := rfl

@[simp]
theorem length_frame (payload : Bytes) :
    (frame payload).length = frameHeaderLen + payload.length := by
  simp [frame]

/-- The big-endian length field is read back as it was written. -/
theorem fromBeBytes_toBeBytes (value : UInt32) :
    fromBeBytes (UInt8.ofNat (value.toNat / 2 ^ 24)) (UInt8.ofNat (value.toNat / 2 ^ 16))
      (UInt8.ofNat (value.toNat / 2 ^ 8)) (UInt8.ofNat value.toNat) = value := by
  apply UInt32.toNat_inj.mp
  have bounded := value.toNat_lt
  simp only [fromBeBytes, UInt8.toNat_ofNat', UInt32.toNat_ofNat']
  omega

theorem encodeHeader_injective {first second : UInt32}
    (same : encodeHeader false first = encodeHeader false second) : first = second := by
  simp only [encodeHeader, toBeBytes, List.cons.injEq, and_true, true_and] at same
  rw [← fromBeBytes_toBeBytes first, ← fromBeBytes_toBeBytes second, same.1, same.2.1, same.2.2.1,
    same.2.2.2]

theorem decodeHeader_encodeHeader (payloadLen maxLen : UInt32) (rest : Bytes)
    (fits : payloadLen ≤ maxLen) :
    decodeHeader (encodeHeader false payloadLen ++ rest) maxLen = .ok ⟨false, payloadLen⟩ := by
  have notLarge : ¬ maxLen < payloadLen := UInt32.not_lt.mpr fits
  simp only [decodeHeader, encodeHeader, toBeBytes, List.cons_append, List.nil_append,
    Bool.false_eq_true, if_false, ne_eq, not_true_eq_false, fromBeBytes_toBeBytes, notLarge]

theorem toBeBytes_fromBeBytes (first second third fourth : Byte) :
    toBeBytes (fromBeBytes first second third fourth) = [first, second, third, fourth] := by
  have firstLt := first.toNat_lt
  have secondLt := second.toNat_lt
  have thirdLt := third.toNat_lt
  have fourthLt := fourth.toNat_lt
  simp only [toBeBytes, fromBeBytes, UInt32.toNat_ofNat', List.cons.injEq, and_true]
  refine ⟨?_, ?_, ?_, ?_⟩ <;> apply UInt8.toNat_inj.mp <;> rw [UInt8.toNat_ofNat'] <;> omega

/-- A header is accepted only from the bytes that encode it, within the cap. -/
theorem decodeHeader_eq_ok {buf : Bytes} {maxLen : UInt32} {header : FrameHeader}
    (decoded : decodeHeader buf maxLen = .ok header) :
    header.payloadLen ≤ maxLen ∧
      buf = encodeHeader false header.payloadLen ++ buf.drop frameHeaderLen := by
  unfold decodeHeader at decoded
  split at decoded
  next flag first second third fourth rest =>
    split at decoded
    · simp at decoded
    next uncompressed =>
      dsimp only at decoded
      split at decoded
      · simp at decoded
      next fits =>
        obtain rfl := Except.ok.inj decoded
        have zero : flag = 0 := by simpa using uncompressed
        refine ⟨UInt32.not_lt.mp fits, ?_⟩
        simp [encodeHeader, toBeBytes_fromBeBytes, zero, frameHeaderLen]
  next => simp at decoded

/-- What a reader takes from a buffer that carries a payload. -/
theorem carries_iff {maxLen : UInt32} {buf payload : Bytes} :
    Carries maxLen buf payload ↔
      ∃ header, decodeHeader buf maxLen = .ok header ∧
        frameHeaderLen + header.payloadLen.toNat ≤ buf.length ∧
        payload = (buf.drop frameHeaderLen).take header.payloadLen.toNat := by
  constructor
  · rintro ⟨payloadLen, rest, rfl, size, fits⟩
    refine ⟨⟨false, payloadLen⟩, ?_, ?_, ?_⟩
    · rw [List.append_assoc]
      exact decodeHeader_encodeHeader payloadLen maxLen _ fits
    · simp [size]
    · rw [List.append_assoc, List.drop_left' (length_encodeHeader false payloadLen),
        List.take_left' size]
  · rintro ⟨header, decoded, long, rfl⟩
    obtain ⟨fits, split⟩ := decodeHeader_eq_ok decoded
    refine ⟨header.payloadLen, (buf.drop frameHeaderLen).drop header.payloadLen.toNat, ?_, ?_, fits⟩
    · rw [List.append_assoc, List.take_append_drop]
      exact split
    · rw [List.length_take, List.length_drop]
      omega

theorem Carries.unique {maxLen : UInt32} {buf first second : Bytes}
    (carries : Carries maxLen buf first) (carriesToo : Carries maxLen buf second) :
    first = second := by
  obtain ⟨header, decoded, _, rfl⟩ := carries_iff.mp carries
  obtain ⟨other, decodedToo, _, rfl⟩ := carries_iff.mp carriesToo
  rw [Except.ok.inj (decoded.symm.trans decodedToo)]

theorem carries_iff_frame {maxLen : UInt32} {buf payload : Bytes} :
    Carries maxLen buf payload ↔
      payload.length ≤ maxLen.toNat ∧ ∃ rest, buf = frame payload ++ rest := by
  constructor
  · rintro ⟨payloadLen, rest, rfl, size, fits⟩
    refine ⟨size ▸ UInt32.le_iff_toNat_le.mp fits, rest, ?_⟩
    rw [frame, size, UInt32.ofNat_toNat]
  · rintro ⟨fits, rest, rfl⟩
    have bounded := maxLen.toNat_lt
    have size : (UInt32.ofNat payload.length).toNat = payload.length := by
      rw [UInt32.toNat_ofNat']
      omega
    exact ⟨UInt32.ofNat payload.length, rest, rfl, size.symm,
      UInt32.le_iff_toNat_le.mpr (size.symm ▸ fits)⟩

end Framing

end GrpcUds
