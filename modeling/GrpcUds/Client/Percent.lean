import GrpcUds.Lib.Cursor
import GrpcUds.Client.CallState

/-!
# Percent encoding of status messages

The server encodes the bytes of a message and the clients decode them.  The decoder
walks an index over the value, in strides of one byte or of the three of an escape,
and looks two bytes ahead only if they are there.
-/

namespace GrpcUds.Client

open Headers Cursor

/-- The loop of `percent_decode` with its index; both clients carry a copy. -/
def percentDecodeLoop (value : Bytes) : Nat → Nat → Bytes → Except Fault Bytes
  | 0, _, _ => .error .outOfTurns
  | turns + 1, index, out =>
      if index < value.length then do
        let byte ← get value index
        if byte = 37 ∧ index + 2 < value.length then
          let high ← get value (index + 1)
          let low ← get value (index + 2)
          match toDigit high, toDigit low with
          | some h, some l =>
              percentDecodeLoop value turns (index + 3) (out ++ [UInt8.ofNat (h * 16 + l)])
          | _, _ => percentDecodeLoop value turns (index + 1) (out ++ [byte])
        else percentDecodeLoop value turns (index + 1) (out ++ [byte])
      else .ok out

/-- A piece of a value: an escape, or a byte that is not part of one. -/
inductive Piece where
  | escape (high low : Byte)
  | plain (byte : Byte)
  deriving DecidableEq

def Piece.decoded : Piece → Byte
  | escape high low => UInt8.ofNat ((toDigit high).getD 0 * 16 + (toDigit low).getD 0)
  | plain byte => byte

/-- The text starts with a valid escape. -/
def startsEscape : Bytes → Bool
  | 37 :: high :: low :: _ => (toDigit high).isSome && (toDigit low).isSome
  | _ => false

/-- The value from left to right, an escape wherever one starts. -/
inductive ReadAs : Bytes → List Piece → Prop where
  | nil : ReadAs [] []
  | escape {high low : Byte} {rest : Bytes} {pieces : List Piece} :
      (toDigit high).isSome = true → (toDigit low).isSome = true → ReadAs rest pieces →
      ReadAs (37 :: high :: low :: rest) (.escape high low :: pieces)
  | plain {byte : Byte} {rest : Bytes} {pieces : List Piece} :
      startsEscape (byte :: rest) = false → ReadAs rest pieces →
      ReadAs (byte :: rest) (.plain byte :: pieces)

/-! ### The decoder -/

theorem startsEscape_eq_true {value : Bytes} (starts : startsEscape value = true) :
    ∃ high low rest, value = 37 :: high :: low :: rest ∧ (toDigit high).isSome = true ∧
      (toDigit low).isSome = true := by
  unfold startsEscape at starts
  split at starts
  next high low rest => exact ⟨high, low, rest, rfl, (Bool.and_eq_true_iff.mp starts)⟩
  next => simp at starts

/-- Every value reads as pieces. -/
theorem exists_readAs (value : Bytes) : ∃ pieces, ReadAs value pieces := by
  induction size : value.length using Nat.strongRecOn generalizing value with
  | ind length ih =>
      cases value with
      | nil => exact ⟨[], .nil⟩
      | cons byte rest =>
          cases starts : startsEscape (byte :: rest) with
          | false =>
              obtain ⟨pieces, read⟩ := ih rest.length (by simp_all; omega) rest rfl
              exact ⟨_, .plain starts read⟩
          | true =>
              obtain ⟨high, low, left, same, highDigit, lowDigit⟩ := startsEscape_eq_true starts
              have shorter : left.length < length := by
                rw [← size, same]
                simp only [List.length_cons]
                omega
              obtain ⟨pieces, read⟩ := ih left.length shorter left rfl
              rw [same]
              exact ⟨_, .escape highDigit lowDigit read⟩

theorem percentDecodeBytes_plain {byte : Byte} {rest : Bytes}
    (noEscape : startsEscape (byte :: rest) = false) :
    percentDecodeBytes (byte :: rest) = byte :: percentDecodeBytes rest := by
  conv_lhs => unfold percentDecodeBytes
  split
  next high low left same =>
    obtain ⟨rfl, rfl⟩ := List.cons.inj same
    cases highDigit : toDigit high with
    | none => rfl
    | some h =>
        cases lowDigit : toDigit low with
        | none => rfl
        | some l => simp [startsEscape, highDigit, lowDigit] at noEscape
  next same =>
    obtain ⟨rfl, rfl⟩ := List.cons.inj same
    rfl
  next empty => simp at empty

namespace ReadAs

variable {value : Bytes} {pieces : List Piece}

theorem percentDecodeBytes_eq (read : ReadAs value pieces) :
    percentDecodeBytes value = pieces.map Piece.decoded := by
  induction read with
  | nil => rfl
  | escape highDigit lowDigit _ ih =>
      obtain ⟨h, high⟩ := Option.isSome_iff_exists.mp highDigit
      obtain ⟨l, low⟩ := Option.isSome_iff_exists.mp lowDigit
      rw [percentDecodeBytes, high, low, List.map_cons, Piece.decoded, high, low,
        ← ih]
      rfl
  | plain noEscape _ ih =>
      rw [percentDecodeBytes_plain noEscape, ih]
      rfl

theorem length_le (read : ReadAs value pieces) : pieces.length ≤ value.length := by
  induction read with
  | nil => exact Nat.le_refl _
  | escape _ _ _ ih =>
      simp only [List.length_cons]
      omega
  | plain _ _ ih =>
      simp only [List.length_cons]
      omega

/-- From any index the loop reads the pieces that are left, one a turn. -/
theorem percentDecodeLoop_eq {index turns : Nat} (read : ReadAs (value.drop index) pieces)
    (enough : pieces.length < turns) (out : Bytes) :
    percentDecodeLoop value turns index out = .ok (out ++ pieces.map Piece.decoded) := by
  generalize same : value.drop index = left at read
  induction read generalizing index turns out with
  | nil =>
      obtain ⟨turns, rfl⟩ := Nat.exists_eq_add_of_lt enough
      have done : ¬ index < value.length := Nat.not_lt.mpr (List.drop_eq_nil_iff.mp same)
      simp [percentDecodeLoop, done]
  | @escape high low rest pieces highDigit lowDigit _ ih =>
      obtain ⟨turns, rfl⟩ := Nat.exists_eq_add_one_of_ne_zero (Nat.ne_zero_of_lt enough)
      obtain ⟨inside, first, behind⟩ := get_of_drop same
      obtain ⟨_, second, behind⟩ := get_of_drop behind
      obtain ⟨ahead, third, behind⟩ := get_of_drop behind
      obtain ⟨h, highValue⟩ := Option.isSome_iff_exists.mp highDigit
      obtain ⟨l, lowValue⟩ := Option.isSome_iff_exists.mp lowDigit
      have continued := ih (Nat.lt_of_succ_lt_succ enough)
        (out ++ [UInt8.ofNat (h * 16 + l)]) behind
      simp only [percentDecodeLoop, inside, first, second, third, ahead, highValue, lowValue,
        if_true, and_self, bind, Except.bind]
      rw [continued, List.append_assoc, List.map_cons, Piece.decoded, highValue, lowValue]
      rfl
  | @plain byte rest pieces noEscape _ ih =>
      obtain ⟨turns, rfl⟩ := Nat.exists_eq_add_one_of_ne_zero (Nat.ne_zero_of_lt enough)
      obtain ⟨inside, first, behind⟩ := get_of_drop same
      have continued := ih (Nat.lt_of_succ_lt_succ enough) (out ++ [byte]) behind
      rw [List.append_assoc] at continued
      simp only [percentDecodeLoop, inside, first, if_true, bind, Except.bind]
      split
      next percent =>
        -- Two bytes follow the percent sign, and one of them is no digit.
        obtain ⟨rfl, ahead⟩ := percent
        obtain ⟨high, low, left, rfl⟩ : ∃ high low left, rest = high :: low :: left := by
          have size := congrArg List.length same
          rw [List.length_drop, List.length_cons] at size
          match rest, size with
          | [], size => exact absurd size (by simp; omega)
          | [_], size => exact absurd size (by simp; omega)
          | high :: low :: left, _ => exact ⟨high, low, left, rfl⟩
        obtain ⟨_, second, behind⟩ := get_of_drop behind
        obtain ⟨_, third, _⟩ := get_of_drop behind
        rw [second, third]
        dsimp only
        cases highValue : toDigit high with
        | none => exact continued
        | some h =>
            cases lowValue : toDigit low with
            | none => exact continued
            | some l => simp [startsEscape, highValue, lowValue] at noEscape
      next => exact continued

end ReadAs

/-! ### The encoder -/

/-- A digit of `0123456789ABCDEF`. -/
def isUpperHex (byte : Byte) : Bool := (48 ≤ byte && byte ≤ 57) || (65 ≤ byte && byte ≤ 70)

theorem hexDigit_isUpperHex : ∀ value < 16, isUpperHex (hexDigit value) = true := by decide

theorem toDigit_hexDigit : ∀ value < 16, toDigit (hexDigit value) = some value := by decide

theorem printable_of_isUpperHex {byte : Byte} (upper : isUpperHex byte = true) :
    0x20 ≤ byte ∧ byte ≤ 0x7E ∧ byte ≠ 37 := by
  simp only [isUpperHex, Bool.or_eq_true, Bool.and_eq_true, decide_eq_true_eq,
    UInt8.le_iff_toNat_le, ne_eq, ← UInt8.toNat_inj, UInt8.reduceToNat] at upper ⊢
  omega

theorem nibbles_lt (byte : Byte) : byte.toNat / 16 < 16 ∧ byte.toNat % 16 < 16 := by
  have bounded := byte.toNat_lt
  omega

/-- The piece that a byte of a message becomes. -/
def pieceOf (byte : Byte) : Piece :=
  if byte < 0x20 ∨ 0x7E < byte ∨ byte = 0x25 then
    .escape (hexDigit (byte.toNat / 16)) (hexDigit (byte.toNat % 16))
  else .plain byte

theorem decoded_pieceOf (byte : Byte) : (pieceOf byte).decoded = byte := by
  unfold pieceOf
  split
  next =>
    obtain ⟨high, low⟩ := nibbles_lt byte
    rw [Piece.decoded, toDigit_hexDigit _ high, toDigit_hexDigit _ low, Option.getD_some,
      Option.getD_some, Nat.div_add_mod', UInt8.ofNat_toNat]
  next => rfl

/-- The encoded text is read back piece by piece. -/
theorem percentEncodeMessage_readAs (message : Bytes) :
    ReadAs (percentEncodeMessage message) (message.map pieceOf) := by
  induction message with
  | nil => exact .nil
  | cons byte rest ih =>
      obtain ⟨high, low⟩ := nibbles_lt byte
      rw [percentEncodeMessage, List.map_cons, pieceOf]
      split
      next =>
        apply ReadAs.escape
        · rw [toDigit_hexDigit _ high]
          rfl
        · rw [toDigit_hexDigit _ low]
          rfl
        · exact ih
      next verbatim =>
        apply ReadAs.plain
        · have notPercent : byte ≠ 37 := fun percent => verbatim (.inr (.inr percent))
          unfold startsEscape
          split
          next same => exact absurd (List.cons.inj same).1 notPercent
          next => rfl
        · exact ih

theorem percentEncodeMessage_printable {message : Bytes} {byte : Byte}
    (listed : byte ∈ percentEncodeMessage message) : 0x20 ≤ byte ∧ byte ≤ 0x7E := by
  induction message with
  | nil => simp [percentEncodeMessage] at listed
  | cons first rest ih =>
      obtain ⟨high, low⟩ := nibbles_lt first
      rw [percentEncodeMessage] at listed
      split at listed
      next =>
        simp only [List.mem_cons] at listed
        rcases listed with rfl | rfl | rfl | later
        · decide
        · have digit := printable_of_isUpperHex (hexDigit_isUpperHex _ high)
          exact ⟨digit.1, digit.2.1⟩
        · have digit := printable_of_isUpperHex (hexDigit_isUpperHex _ low)
          exact ⟨digit.1, digit.2.1⟩
        · exact ih later
      next verbatim =>
        rcases List.mem_cons.mp listed with rfl | later
        · simp only [not_or, UInt8.not_lt] at verbatim
          exact ⟨verbatim.1, verbatim.2.1⟩
        · exact ih later

/-- A percent sign stands only at the head of an escape. -/
theorem percentEncodeMessage_percent {message before rest : Bytes}
    (split : percentEncodeMessage message = before ++ 37 :: rest) :
    ∃ high low after, rest = high :: low :: after ∧ isUpperHex high = true ∧
      isUpperHex low = true := by
  induction message generalizing before with
  | nil => simp [percentEncodeMessage] at split
  | cons first tail ih =>
      obtain ⟨highLt, lowLt⟩ := nibbles_lt first
      have high := hexDigit_isUpperHex _ highLt
      have low := hexDigit_isUpperHex _ lowLt
      rw [percentEncodeMessage] at split
      split at split
      next =>
        -- at the escape itself, at one of its digits, or behind it
        rcases before with _ | ⟨_, _ | ⟨_, _ | ⟨_, before⟩⟩⟩
        · obtain ⟨_, rfl⟩ := List.cons.inj split
          exact ⟨_, _, _, rfl, high, low⟩
        · obtain ⟨_, same⟩ := List.cons.inj split
          exact absurd (List.cons.inj same).1 (printable_of_isUpperHex high).2.2
        · obtain ⟨_, same⟩ := List.cons.inj split
          obtain ⟨_, same⟩ := List.cons.inj same
          exact absurd (List.cons.inj same).1 (printable_of_isUpperHex low).2.2
        · obtain ⟨_, same⟩ := List.cons.inj split
          obtain ⟨_, same⟩ := List.cons.inj same
          exact ih (List.cons.inj same).2
      next verbatim =>
        cases before with
        | nil => exact absurd (.inr (.inr (List.cons.inj split).1)) verbatim
        | cons _ before => exact ih (List.cons.inj split).2

/-- The decoded bytes, if they are UTF-8. -/
theorem percentDecode_eq {value : Bytes} {pieces : List Piece} (read : ReadAs value pieces) :
    percentDecode value =
      if (ByteArray.mk (pieces.map Piece.decoded).toArray).IsValidUTF8 then
        some (pieces.map Piece.decoded)
      else none := by
  unfold percentDecode
  simp only [read.percentDecodeBytes_eq, ByteArray.validateUTF8_eq_true_iff]

/-- An encoded message is printable, its percent signs head escapes in uppercase, and
either client decodes it to the message if that is UTF-8 and to nothing otherwise.  The
decoder stays inside every value and ends; it reads the escapes and passes every other
byte on. -/
theorem percent_round_trip :
    (∀ message : Bytes,
      (∀ byte ∈ percentEncodeMessage message, 0x20 ≤ byte ∧ byte ≤ 0x7E) ∧
      (∀ before rest, percentEncodeMessage message = before ++ 37 :: rest →
        ∃ high low after, rest = high :: low :: after ∧ isUpperHex high = true ∧
          isUpperHex low = true) ∧
      percentDecode (percentEncodeMessage message) =
        if (ByteArray.mk message.toArray).IsValidUTF8 then some message else none) ∧
    ∀ value : Bytes, ∃ pieces, ReadAs value pieces ∧
      percentDecodeLoop value (value.length + 1) 0 [] = .ok (pieces.map Piece.decoded) ∧
      percentDecode value =
        if (ByteArray.mk (pieces.map Piece.decoded).toArray).IsValidUTF8 then
          some (pieces.map Piece.decoded)
        else none := by
  constructor
  · intro message
    refine ⟨fun byte => percentEncodeMessage_printable,
      fun before rest => percentEncodeMessage_percent, ?_⟩
    have decoded : (message.map pieceOf).map Piece.decoded = message := by
      rw [List.map_map]
      exact (List.map_congr_left fun byte _ => decoded_pieceOf byte).trans (List.map_id message)
    rw [percentDecode_eq (percentEncodeMessage_readAs message), decoded]
  · intro value
    obtain ⟨pieces, read⟩ := exists_readAs value
    refine ⟨pieces, read, ?_, percentDecode_eq read⟩
    have start : ReadAs (value.drop 0) pieces := read
    exact start.percentDecodeLoop_eq (Nat.lt_succ_of_le read.length_le) []

/-- Two bytes of UTF-8 make two escapes. -/
theorem percent_round_trip_accent :
    percentDecode (ascii "%C3%A9") = some [0xC3, 0xA9] ∧
      ∃ high low after, ascii "A9" = high :: low :: after ∧ isUpperHex high = true ∧
        isUpperHex low = true := by
  obtain ⟨_, escapes, decodes⟩ := percent_round_trip.1 [0xC3, 0xA9]
  refine ⟨?_, escapes (ascii "%C3") (ascii "A9") (by decide)⟩
  rw [if_pos ⟨['é'], by decide +kernel⟩] at decodes
  exact decodes

/-- An invalid escape and a cut one pass through; a valid one is decoded. -/
example : percentDecodeBytes (ascii "%zz%41%4") = ascii "%zzA%4" := by decide

end GrpcUds.Client
