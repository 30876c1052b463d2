import Mathlib.Algebra.Group.Nat.Defs
import Mathlib.Data.List.Basic

/-!
# Base-128 varints

A number in groups of seven bits, the lowest first; every byte but the last has its
high bit set.  A varint is never the beginning of another one, so what it announces
can be read off the front of a byte string in one way only.
-/

namespace Varint

/-- The number that the groups stand for, without a bound. -/
def value : List UInt8 → Nat
  | [] => 0
  | byte :: rest => byte.toNat % 128 + 128 * value rest

/-- The high bit is set on every byte but the last. -/
def isVarint : List UInt8 → Bool
  | [] => false
  | [byte] => decide (byte.toNat < 128)
  | byte :: rest => decide (128 ≤ byte.toNat) && isVarint rest

/-- The varint at the front of some bytes, and what follows it. -/
def split : List UInt8 → Option (List UInt8 × List UInt8)
  | [] => none
  | byte :: rest =>
      if byte.toNat < 128 then some ([byte], rest)
      else (split rest).map fun (varint, tail) => (byte :: varint, tail)

theorem ne_nil_of_isVarint {varint : List UInt8} (isVarint_ : isVarint varint = true) :
    varint ≠ [] := by
  rintro rfl
  simp [isVarint] at isVarint_

theorem isVarint_cons {byte : UInt8} {rest : List UInt8} (some_ : rest ≠ []) :
    isVarint (byte :: rest) = true ↔ 128 ≤ byte.toNat ∧ isVarint rest = true := by
  cases rest with
  | nil => exact absurd rfl some_
  | cons next rest => simp [isVarint]

/-- The front of some bytes splits off exactly as a varint. -/
theorem split_eq_some_iff {bytes varint tail : List UInt8} :
    split bytes = some (varint, tail) ↔ isVarint varint = true ∧ bytes = varint ++ tail := by
  induction bytes generalizing varint with
  | nil =>
      constructor
      · intro impossible
        simp [split] at impossible
      · rintro ⟨isVarint_, empty⟩
        exact absurd (List.append_eq_nil_iff.mp empty.symm).1 (ne_nil_of_isVarint isVarint_)
  | cons byte rest ih =>
      rw [split]
      split
      next last =>
        constructor
        · intro same
          obtain ⟨rfl, rfl⟩ := Prod.mk.inj (Option.some.inj same)
          exact ⟨by simpa [isVarint] using last, rfl⟩
        · rintro ⟨isVarint_, same⟩
          match varint, isVarint_, same with
          | [_], _, same =>
              obtain ⟨rfl, rfl⟩ := List.cons.inj same
              rfl
          | first :: next :: more, isVarint_, same =>
              have high := ((isVarint_cons (List.cons_ne_nil _ _)).mp isVarint_).1
              rw [← (List.cons.inj same).1] at high
              omega
      next high =>
        rw [Option.map_eq_some_iff]
        constructor
        · rintro ⟨⟨inner, after⟩, found, same⟩
          obtain ⟨rfl, rfl⟩ := Prod.mk.inj same
          obtain ⟨isVarint_, rfl⟩ := ih.mp found
          refine ⟨(isVarint_cons (ne_nil_of_isVarint isVarint_)).mpr ⟨by omega, isVarint_⟩, rfl⟩
        · rintro ⟨isVarint_, same⟩
          match varint, isVarint_, same with
          | [_], isVarint_, same =>
              obtain ⟨rfl, rfl⟩ := List.cons.inj same
              exact absurd (by simpa [isVarint] using isVarint_) high
          | first :: next :: more, isVarint_, same =>
              obtain ⟨rfl, behind⟩ := List.cons.inj same
              have inner := ((isVarint_cons (List.cons_ne_nil _ _)).mp isVarint_).2
              exact ⟨_, ih.mpr ⟨inner, behind⟩, rfl⟩

/-- A varint is not the beginning of another one. -/
theorem append_inj {first second left right : List UInt8} (isFirst : isVarint first = true)
    (isSecond : isVarint second = true) (same : first ++ left = second ++ right) :
    first = second ∧ left = right := by
  have found : split (first ++ left) = some (first, left) :=
    split_eq_some_iff.mpr ⟨isFirst, rfl⟩
  have foundToo : split (first ++ left) = some (second, right) :=
    split_eq_some_iff.mpr ⟨isSecond, same⟩
  exact Prod.mk.inj (Option.some.inj (found.symm.trans foundToo))

theorem length_pos {varint : List UInt8} (isVarint_ : isVarint varint = true) :
    0 < varint.length :=
  List.length_pos_iff.mpr (ne_nil_of_isVarint isVarint_)

/-! ### Fixed width -/

/-- One more group, shifted into a `w`-bit word above what it already holds. -/
theorem or_shiftLeft_mod {low shift width : Nat} (group : Nat) (below : low < 2 ^ shift)
    (fits : shift ≤ width) :
    low ||| (group <<< shift) % 2 ^ width = (low + 2 ^ shift * group) % 2 ^ width := by
  obtain ⟨above, rfl⟩ := Nat.exists_eq_add_of_le fits
  have shifted : (group <<< shift) % 2 ^ (shift + above) = 2 ^ shift * (group % 2 ^ above) := by
    rw [Nat.shiftLeft_eq, Nat.mul_comm, Nat.pow_add, Nat.mul_mod_mul_left]
  have sum : (low + 2 ^ shift * group) % 2 ^ (shift + above) =
      low + 2 ^ shift * (group % 2 ^ above) := by
    rw [Nat.pow_add, Nat.mod_mul, Nat.add_mul_mod_self_left, Nat.mod_eq_of_lt below,
      Nat.add_mul_div_left _ _ (Nat.two_pow_pos shift), Nat.div_eq_of_lt below, Nat.zero_add]
  rw [shifted, sum, Nat.or_comm, ← Nat.two_pow_add_eq_or_of_lt below, Nat.add_comm]

end Varint
