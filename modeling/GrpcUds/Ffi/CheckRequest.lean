import GrpcUds.Lib.Cursor
import GrpcUds.Lib.Varint
import GrpcUds.Ffi.Health

/-!
# The decoder of health check requests

A request is a sequence of fields, each a tag, a length and that many bytes, and the
last field wins.  The decoder walks an index over bytes that the peer chose and adds
the length up in 64 bits, so it drops what a ten-byte length holds above them.
-/

namespace GrpcUds.Ffi

open Cursor

/-! ### The loops with their indices -/

/-- The varint loop: the length and the index behind it, or a refusal. -/
def varintAt (d : Bytes) : Nat → Nat → Nat → Nat → Except Fault (Option (Nat × Nat))
  | 0, _, _, _ => .error .outOfTurns
  | turns + 1, index, len, shift =>
      if d.length ≤ index ∨ 64 ≤ shift then .ok none
      else do
        let byte ← get d index
        let len := len ||| ((byte &&& 0x7f).toNat <<< shift) % 2 ^ 64
        if byte &&& 0x80 = 0 then .ok (some (len, index + 1))
        else varintAt d turns (index + 1) len (shift + 7)

/-- The shift grows by seven and stops at 64. -/
def varintTurns : Nat := 11

/-- The field loop of `decode_check_request`. -/
def fieldsAt (d : Bytes) : Nat → Nat → Bytes → Except Fault (Option Bytes)
  | 0, _, _ => .error .outOfTurns
  | turns + 1, index, service =>
      if index < d.length then do
        let tag ← get d index
        if tag ≠ 0x0a then .ok none
        else
          match ← varintAt d varintTurns (index + 1) 0 0 with
          | none => .ok none
          | some (len, index) =>
              if d.length - index < len then .ok none
              else do
                let service ← slice d index len
                fieldsAt d turns (index + len) service
      else .ok (some service)

def decodeCheckRequestAt (d : Bytes) : Except Fault (Option Bytes) :=
  fieldsAt d (d.length + 1) 0 []

/-- From any index the loop reads the varint that stands there. -/
theorem varintAt_eq {d : Bytes} {turns index shift : Nat} (len : Nat) (within : shift ≤ 70)
    (enough : 71 ≤ shift + 7 * turns) :
    varintAt d turns index len shift =
      .ok ((decodeVarint (d.drop index) shift len).map fun (len, rest) =>
        (len, d.length - rest.length)) := by
  induction turns generalizing index len shift with
  | zero => omega
  | succ turns ih =>
      rw [varintAt]
      cases rest : d.drop index with
      | nil =>
          rw [if_pos (.inl (List.drop_eq_nil_iff.mp rest))]
          rfl
      | cons byte left =>
          obtain ⟨inside, read, behind⟩ := get_of_drop rest
          rw [decodeVarint]
          by_cases high : 64 ≤ shift
          · rw [if_pos (.inr high), if_pos high]
            rfl
          · have goesOn : ¬ (d.length ≤ index ∨ 64 ≤ shift) := by omega
            rw [if_neg goesOn, if_neg high, read]
            simp only [bind, Except.bind]
            split
            next =>
              have size : d.length - left.length = index + 1 := by
                rw [← behind, List.length_drop]
                omega
              simp only [Option.map_some, size]
            next =>
              rw [ih _ (by omega) (by omega), behind]

/-- What a varint leaves is what stands behind it. -/
theorem decodeVarint_drop {bytes rest : Bytes} {shift len value : Nat}
    (decoded : decodeVarint bytes shift len = some (value, rest)) :
    rest.length < bytes.length ∧ rest = bytes.drop (bytes.length - rest.length) := by
  induction bytes generalizing shift len with
  | nil => simp [decodeVarint] at decoded
  | cons byte left ih =>
      rw [decodeVarint] at decoded
      split at decoded
      · simp at decoded
      · dsimp only at decoded
        split at decoded
        · obtain ⟨_, rfl⟩ := Prod.mk.inj (Option.some.inj decoded)
          simp
        · obtain ⟨shorter, same⟩ := ih decoded
          refine ⟨by simp only [List.length_cons]; omega, ?_⟩
          have count : (byte :: left).length - rest.length = (left.length - rest.length) + 1 := by
            simp only [List.length_cons]
            omega
          rw [count, List.drop_succ_cons]
          exact same

/-- The loops stay inside the bytes and end, with the fields' last content. -/
theorem fieldsAt_eq {d : Bytes} {turns index : Nat} {service : Bytes}
    (enough : d.length - index < turns) :
    ∀ fuel, d.length - index ≤ fuel →
      fieldsAt d turns index service = .ok (decodeFields fuel (d.drop index) service) := by
  induction turns generalizing index service with
  | zero => omega
  | succ turns ih =>
      intro fuel covers
      rw [fieldsAt]
      cases rest : d.drop index with
      | nil =>
          have done : ¬ index < d.length := Nat.not_lt.mpr (List.drop_eq_nil_iff.mp rest)
          rw [if_neg done]
          cases fuel <;> rfl
      | cons tag left =>
          obtain ⟨inside, read, behind⟩ := get_of_drop rest
          obtain ⟨fuel, rfl⟩ := Nat.exists_eq_add_one_of_ne_zero (show fuel ≠ 0 by omega)
          rw [if_pos inside, read]
          simp only [bind, Except.bind, decodeFields]
          split
          · rfl
          · rw [varintAt_eq 0 (by decide) (by decide), behind]
            cases decoded : decodeVarint left 0 0 with
            | none => rfl
            | some read =>
                obtain ⟨len, after⟩ := read
                obtain ⟨shorter, same⟩ := decodeVarint_drop decoded
                have size : left.length = d.length - (index + 1) := by
                  rw [← behind, List.length_drop]
                have start : d.length - after.length =
                    index + 1 + (left.length - after.length) := by
                  omega
                have position : d.drop (d.length - after.length) = after := by
                  rw [start, ← List.drop_drop, behind]
                  exact same.symm
                have room : d.length - (d.length - after.length) = after.length := by omega
                simp only [Option.map_some, room]
                split
                · rfl
                next long =>
                  obtain ⟨content, rest⟩ :=
                    slice_of_drop position (Nat.not_lt.mp long) (Nat.sub_le _ _)
                  rw [content]
                  dsimp only
                  rw [ih (by omega) fuel (by omega), rest]

theorem decodeCheckRequestAt_eq (d : Bytes) :
    decodeCheckRequestAt d = .ok (decodeCheckRequest d) := by
  have whole : fieldsAt d (d.length + 1) 0 [] = .ok (decodeFields d.length (d.drop 0) []) :=
    fieldsAt_eq (by omega) d.length (Nat.sub_le _ _)
  exact whole

/-! ### The grammar -/

/-- A field as it is sent: the bytes of its length, and its content. -/
structure Field where
  varint : Bytes
  content : Bytes
  deriving DecidableEq

def Field.wire (field : Field) : Bytes := 0x0a :: (field.varint ++ field.content)

/-- A field of the grammar: its length is a varint of at most ten bytes below 2⁶⁴, and
that many bytes follow. -/
structure Field.Exact (field : Field) : Prop where
  isVarint : Varint.isVarint field.varint = true
  short : field.varint.length ≤ 10
  fits : Varint.value field.varint < 2 ^ 64
  size : field.content.length = Varint.value field.varint

/-- A field whose length counts modulo 2⁶⁴ only. -/
structure Field.Wraps (field : Field) : Prop where
  isVarint : Varint.isVarint field.varint = true
  short : field.varint.length ≤ 10
  size : field.content.length = Varint.value field.varint % 2 ^ 64

def wire (fields : List Field) : Bytes := fields.flatMap Field.wire

/-- The content of the last field. -/
def lastContent (absent : Bytes) (fields : List Field) : Bytes :=
  (fields.getLast?.map Field.content).getD absent

/-- However the bytes read as fields with lengths modulo 2⁶⁴, no length exceeds 64 bits. -/
def LengthsFit (d : Bytes) : Prop :=
  ∀ fields, (∀ field ∈ fields, field.Wraps) → d = wire fields →
    ∀ field ∈ fields, Varint.value field.varint < 2 ^ 64

theorem Field.Exact.wraps {field : Field} (exact_ : field.Exact) : field.Wraps where
  isVarint := exact_.isVarint
  short := exact_.short
  size := by rw [exact_.size, Nat.mod_eq_of_lt exact_.fits]

theorem Field.Wraps.exact {field : Field} (wraps : field.Wraps)
    (fits : Varint.value field.varint < 2 ^ 64) : field.Exact where
  isVarint := wraps.isVarint
  short := wraps.short
  fits := fits
  size := by rw [wraps.size, Nat.mod_eq_of_lt fits]

theorem lastContent_cons (absent : Bytes) (field : Field) (fields : List Field) :
    lastContent absent (field :: fields) = lastContent field.content fields := by
  cases fields with
  | nil => rfl
  | cons next fields =>
      rw [lastContent, List.getLast?_cons_cons]
      cases found : (next :: fields).getLast? with
      | none => simp at found
      | some last => simp [lastContent, found]

theorem and_low_toNat (byte : Byte) : (byte &&& 0x7f).toNat = byte.toNat % 128 := by
  rw [UInt8.toNat_and]
  exact Nat.and_two_pow_sub_one_eq_mod byte.toNat 7

theorem and_high_eq_zero_iff (byte : Byte) : byte &&& 0x80 = 0 ↔ byte.toNat < 128 := by
  have table : ∀ low : Fin 256, low.val &&& 128 = low.val / 128 * 128 := by decide +kernel
  have high : byte.toNat &&& 128 = byte.toNat / 128 * 128 := table ⟨byte.toNat, byte.toNat_lt⟩
  rw [← UInt8.toNat_inj, UInt8.toNat_and]
  simp only [UInt8.reduceToNat, high]
  omega

/-- The loop adds the groups up modulo 2⁶⁴ and takes ten bytes at most. -/
theorem decodeVarint_eq {bytes : Bytes} {count len : Nat} (below : len < 2 ^ (7 * count))
    (few : count ≤ 10) :
    decodeVarint bytes (7 * count) len =
      (Varint.split bytes).bind fun (varint, rest) =>
        if varint.length + count ≤ 10 then
          some ((len + 2 ^ (7 * count) * Varint.value varint) % 2 ^ 64, rest)
        else none := by
  induction bytes generalizing count len with
  | nil => rfl
  | cons byte rest ih =>
      by_cases full : 64 ≤ 7 * count
      · rw [decodeVarint, if_pos full]
        cases found : Varint.split (byte :: rest) with
        | none => rfl
        | some read =>
            obtain ⟨varint, tail⟩ := read
            have some_ := Varint.length_pos (Varint.split_eq_some_iff.mp found).1
            have long : ¬ varint.length + count ≤ 10 := by omega
            simp only [Option.bind_some, long, if_false]
      · rw [decodeVarint, Varint.split, if_neg full, Varint.or_shiftLeft_mod _ below (by omega)]
        simp only [and_high_eq_zero_iff, and_low_toNat]
        split
        next last =>
          have room : 1 + count ≤ 10 := by omega
          simp [Varint.value, room]
        next high =>
          have power : 2 ^ (7 * (count + 1)) = 2 ^ (7 * count) * 128 := by
            rw [Nat.mul_add, Nat.pow_add]
          have group : 2 ^ (7 * count) * (byte.toNat % 128) ≤ 2 ^ (7 * count) * 127 :=
            Nat.mul_le_mul_left _ (by omega)
          have next : (len + 2 ^ (7 * count) * (byte.toNat % 128)) % 2 ^ 64 <
              2 ^ (7 * (count + 1)) := by
            apply Nat.lt_of_le_of_lt (Nat.mod_le _ _)
            omega
          have continued := ih next (by omega)
          rw [show 7 * count + 7 = 7 * (count + 1) by omega, continued]
          cases Varint.split rest with
          | none => rfl
          | some read =>
              obtain ⟨varint, tail⟩ := read
              have sum : len + 2 ^ (7 * count) * (byte.toNat % 128) +
                    2 ^ (7 * (count + 1)) * Varint.value varint =
                  len + 2 ^ (7 * count) * Varint.value (byte :: varint) := by
                rw [Varint.value, power, Nat.mul_add, Nat.mul_assoc, Nat.add_assoc]
              have size : (byte :: varint).length + count = varint.length + (count + 1) := by
                rw [List.length_cons]
                omega
              simp only [Option.bind_some, Option.map_some, size, Nat.mod_add_mod, sum]

/-- The lengths that are read: varints of at most ten bytes, modulo 2⁶⁴. -/
theorem decodeVarint_eq_some_iff {bytes rest : Bytes} {len : Nat} :
    decodeVarint bytes 0 0 = some (len, rest) ↔
      ∃ varint, Varint.isVarint varint = true ∧ varint.length ≤ 10 ∧ bytes = varint ++ rest ∧
        len = Varint.value varint % 2 ^ 64 := by
  have split : decodeVarint bytes (7 * 0) 0 = _ := decodeVarint_eq (by decide) (by decide)
  simp only [Nat.mul_zero, Nat.pow_zero, Nat.one_mul, Nat.zero_add, Nat.add_zero] at split
  rw [split, Option.bind_eq_some_iff]
  constructor
  · rintro ⟨⟨varint, tail⟩, found, taken⟩
    obtain ⟨isVarint, rfl⟩ := Varint.split_eq_some_iff.mp found
    dsimp only at taken
    obtain ⟨short, taken⟩ := Option.ite_none_right_eq_some.mp taken
    obtain ⟨rfl, rfl⟩ := Prod.mk.inj (Option.some.inj taken)
    exact ⟨varint, isVarint, short, rfl, rfl⟩
  · rintro ⟨varint, isVarint, short, rfl, rfl⟩
    exact ⟨(varint, rest), Varint.split_eq_some_iff.mpr ⟨isVarint, rfl⟩, if_pos short⟩

theorem wire_cons (field : Field) (fields : List Field) :
    wire (field :: fields) = 0x0a :: (field.varint ++ (field.content ++ wire fields)) := by
  simp [wire, Field.wire]

theorem wire_eq_nil_iff {fields : List Field} : wire fields = [] ↔ fields = [] := by
  cases fields with
  | nil => simp [wire]
  | cons field fields => simp [wire_cons]

/-- The decoder takes one field off the bytes and goes on behind it. -/
theorem decodeFields_cons_eq_some_iff {fuel : Nat} {tag : Byte} {rest absent service : Bytes} :
    decodeFields (fuel + 1) (tag :: rest) absent = some service ↔
      ∃ (field : Field) (left : Bytes), field.Wraps ∧ tag :: rest = field.wire ++ left ∧
        decodeFields fuel left field.content = some service := by
  constructor
  · intro decoded
    rw [decodeFields] at decoded
    split at decoded
    · simp at decoded
    next isField =>
      split at decoded
      · simp at decoded
      next len left read =>
        obtain ⟨varint, isVarint, short, rfl, rfl⟩ := decodeVarint_eq_some_iff.mp read
        split at decoded
        · simp at decoded
        next long =>
          have size : (left.take (Varint.value varint % 2 ^ 64)).length =
              Varint.value varint % 2 ^ 64 := by
            rw [List.length_take]
            omega
          refine ⟨⟨varint, left.take (Varint.value varint % 2 ^ 64)⟩, _, ⟨isVarint, short, size⟩,
            ?_, decoded⟩
          simp [Field.wire, not_not.mp isField]
  · rintro ⟨field, left, wraps, same, decoded⟩
    rw [Field.wire, List.cons_append, List.append_assoc] at same
    obtain ⟨rfl, rfl⟩ := List.cons.inj same
    have read : decodeVarint (field.varint ++ (field.content ++ left)) 0 0 =
        some (field.content.length, field.content ++ left) :=
      decodeVarint_eq_some_iff.mpr ⟨field.varint, wraps.isVarint, wraps.short, rfl, wraps.size⟩
    simp only [decodeFields, ne_eq, not_true_eq_false, if_false, read]
    rw [if_neg (by rw [List.length_append]; omega), List.drop_left, List.take_left]
    exact decoded

/-- The decoder accepts the fields whose lengths are right modulo 2⁶⁴. -/
theorem decodeFields_eq_some_iff {fuel : Nat} {bytes absent service : Bytes}
    (enough : bytes.length ≤ fuel) :
    decodeFields fuel bytes absent = some service ↔
      ∃ fields, (∀ field ∈ fields, field.Wraps) ∧ bytes = wire fields ∧
        service = lastContent absent fields := by
  have empty (absent : Bytes) : some absent = some service ↔
      ∃ fields, (∀ field ∈ fields, field.Wraps) ∧ [] = wire fields ∧
        service = lastContent absent fields := by
    constructor
    · intro same
      exact ⟨[], by simp, rfl, (Option.some.inj same).symm⟩
    · rintro ⟨fields, _, nothing, rfl⟩
      rw [wire_eq_nil_iff.mp nothing.symm]
      rfl
  induction fuel generalizing bytes absent with
  | zero =>
      obtain rfl := List.eq_nil_of_length_eq_zero (Nat.le_zero.mp enough)
      exact empty absent
  | succ fuel ih =>
      cases bytes with
      | nil => exact empty absent
      | cons tag rest =>
          -- every field is at least its tag, so the fuel covers what is left
          have covers {field : Field} {left : Bytes} (same : tag :: rest = field.wire ++ left) :
              left.length ≤ fuel := by
            have total := congrArg List.length same
            simp only [Field.wire, List.length_cons, List.length_append] at total enough
            omega
          rw [decodeFields_cons_eq_some_iff]
          constructor
          · rintro ⟨field, left, wraps, same, decoded⟩
            obtain ⟨fields, others, rfl, last⟩ := (ih (covers same)).mp decoded
            refine ⟨field :: fields, List.forall_mem_cons.mpr ⟨wraps, others⟩, same, ?_⟩
            rw [lastContent_cons, last]
          · rintro ⟨fields, wraps, same, rfl⟩
            cases fields with
            | nil => simp [wire] at same
            | cons field fields =>
                obtain ⟨first, others⟩ := List.forall_mem_cons.mp wraps
                refine ⟨field, wire fields, first, same, ?_⟩
                apply (ih (covers same)).mpr
                exact ⟨fields, others, rfl, lastContent_cons absent field fields⟩

/-- Bytes read as fields in one way only. -/
theorem wire_injective {first second : List Field} (wraps : ∀ field ∈ first, field.Wraps)
    (wrapsToo : ∀ field ∈ second, field.Wraps) (same : wire first = wire second) :
    first = second := by
  induction first generalizing second with
  | nil => exact (wire_eq_nil_iff.mp same.symm).symm
  | cons field fields ih =>
      cases second with
      | nil => exact absurd (wire_eq_nil_iff.mp same) (List.cons_ne_nil _ _)
      | cons other others =>
          obtain ⟨head, tail⟩ := List.forall_mem_cons.mp wraps
          obtain ⟨headToo, tailToo⟩ := List.forall_mem_cons.mp wrapsToo
          rw [wire_cons, wire_cons] at same
          obtain ⟨varint, behind⟩ :=
            Varint.append_inj head.isVarint headToo.isVarint (List.cons.inj same).2
          have size : field.content.length = other.content.length := by
            rw [head.size, headToo.size, varint]
          obtain ⟨content, rest⟩ := List.append_inj behind size
          rw [ih tail tailToo rest]
          cases field
          cases other
          simp_all

theorem decodeCheckRequestAt_eq_some_iff {d service : Bytes} :
    decodeCheckRequestAt d = .ok (some service) ↔
      ∃ fields, (∀ field ∈ fields, field.Wraps) ∧ d = wire fields ∧
        service = lastContent [] fields := by
  rw [decodeCheckRequestAt_eq, Except.ok.injEq]
  exact decodeFields_eq_some_iff (Nat.le_refl _)

/-- The decoder never leaves its input.  It accepts the grammar, with the content of the
last field, if and only if the input holds no length that is lost above 64 bits. -/
theorem check_request_iff (d : Bytes) :
    (∃ outcome, decodeCheckRequestAt d = .ok outcome) ∧
      ((∀ service, decodeCheckRequestAt d = .ok (some service) ↔
        ∃ fields, (∀ field ∈ fields, field.Exact) ∧ d = wire fields ∧
          service = lastContent [] fields) ↔ LengthsFit d) := by
  refine ⟨⟨_, decodeCheckRequestAt_eq d⟩, ?_⟩
  constructor
  · intro accepts fields wraps same field listed
    have decoded : decodeCheckRequestAt d = .ok (some (lastContent [] fields)) :=
      decodeCheckRequestAt_eq_some_iff.mpr ⟨fields, wraps, same, rfl⟩
    obtain ⟨others, exact_, sameToo, _⟩ := (accepts _).mp decoded
    have one : fields = others := wire_injective wraps
      (fun other listed => (exact_ other listed).wraps) (same.symm.trans sameToo)
    rw [one] at listed
    exact (exact_ field listed).fits
  · intro fit service
    rw [decodeCheckRequestAt_eq_some_iff]
    constructor
    · rintro ⟨fields, wraps, same, last⟩
      have exact_ : ∀ field ∈ fields, field.Exact := fun field listed =>
        (wraps field listed).exact (fit fields wraps same field listed)
      exact ⟨fields, exact_, same, last⟩
    · rintro ⟨fields, exact_, same, last⟩
      exact ⟨fields, fun field listed => (exact_ field listed).wraps, same, last⟩

/-- Of two fields the last one names the service. -/
theorem check_request_last_field :
    decodeCheckRequestAt [0x0a, 1, 97, 0x0a, 2, 98, 99] = .ok (some [98, 99]) := by
  have wraps : ∀ field ∈ [Field.mk [1] [97], ⟨[2], [98, 99]⟩], field.Wraps := by
    intro field listed
    rcases List.mem_pair.mp listed with rfl | rfl
    · exact ⟨by decide, by decide, by decide⟩
    · exact ⟨by decide, by decide, by decide⟩
  have fit : LengthsFit [0x0a, 1, 97, 0x0a, 2, 98, 99] := by
    intro fields wrapsToo same
    rw [wire_injective wrapsToo wraps (by rw [← same]; decide)]
    decide
  apply ((check_request_iff _).2.mpr fit [98, 99]).mpr
  refine ⟨[⟨[1], [97]⟩, ⟨[2], [98, 99]⟩], ?_, by decide, by decide⟩
  intro field listed
  apply (wraps field listed).exact
  rcases List.mem_pair.mp listed with rfl | rfl <;> decide

/-- A length of 2⁶⁴ in ten bytes is taken for zero, though the request ends behind it. -/
theorem check_request_length_wraps :
    decodeCheckRequestAt
        [0x0a, 0x80, 0x80, 0x80, 0x80, 0x80, 0x80, 0x80, 0x80, 0x80, 0x02] = .ok (some []) ∧
      ¬ ∃ fields, (∀ field ∈ fields, field.Exact) ∧
        [0x0a, 0x80, 0x80, 0x80, 0x80, 0x80, 0x80, 0x80, 0x80, 0x80, 0x02] = wire fields := by
  refine ⟨by decide, ?_⟩
  rintro ⟨fields, exact_, same⟩
  have wraps : ∀ field ∈
      [Field.mk [0x80, 0x80, 0x80, 0x80, 0x80, 0x80, 0x80, 0x80, 0x80, 0x02] []], field.Wraps := by
    intro field listed
    rw [List.mem_singleton.mp listed]
    exact ⟨by decide, by decide, by decide⟩
  have one := wire_injective (fun field listed => (exact_ field listed).wraps) wraps
    (by rw [← same]; decide)
  have fits := (exact_ ⟨[0x80, 0x80, 0x80, 0x80, 0x80, 0x80, 0x80, 0x80, 0x80, 0x02], []⟩
    (by rw [one]; exact List.mem_singleton_self _)).fits
  exact absurd fits (by decide)

end GrpcUds.Ffi
