import Mathlib.Algebra.Group.Nat.Defs
import Mathlib.Data.List.Basic

/-!
# Numbers in fixed numbers of bytes

Little-endian and big-endian digits to the base 256, and cutting a byte string at fixed
lengths.
-/

namespace Endian

/-- The lowest bytes of a number, the lowest one first. -/
def littleEndian : Nat → Nat → List UInt8
  | 0, _ => []
  | width + 1, value => UInt8.ofNat value :: littleEndian width (value / 256)

def ofLittleEndian : List UInt8 → Nat
  | [] => 0
  | byte :: rest => byte.toNat + 256 * ofLittleEndian rest

def bigEndian (width value : Nat) : List UInt8 := (littleEndian width value).reverse

def ofBigEndian (bytes : List UInt8) : Nat := ofLittleEndian bytes.reverse

@[simp]
theorem length_littleEndian (width value : Nat) : (littleEndian width value).length = width := by
  induction width generalizing value with
  | zero => rfl
  | succ width ih => simp [littleEndian, ih]

/-- What does not fit is cut off. -/
@[simp]
theorem ofLittleEndian_littleEndian (width value : Nat) :
    ofLittleEndian (littleEndian width value) = value % 256 ^ width := by
  induction width generalizing value with
  | zero => simp [littleEndian, ofLittleEndian, Nat.mod_one]
  | succ width ih =>
      have lowest : (UInt8.ofNat value).toNat = value % 256 := rfl
      rw [littleEndian, ofLittleEndian, ih, lowest, Nat.pow_succ', Nat.mod_mul]

@[simp]
theorem ofBigEndian_bigEndian (width value : Nat) :
    ofBigEndian (bigEndian width value) = value % 256 ^ width := by
  simp [ofBigEndian, bigEndian]

/-- The big-endian words of two bytes. -/
def words : List UInt8 → List Nat
  | high :: low :: rest => (high.toNat * 256 + low.toNat) :: words rest
  | _ => []

/-- The first `count` elements and the others, if there are so many. -/
def splitOff {α : Type*} (count : Nat) (list : List α) : Option (List α × List α) :=
  if count ≤ list.length then some (list.take count, list.drop count) else none

theorem splitOff_append {α : Type*} {count : Nat} {first : List α} (size : first.length = count)
    (rest : List α) : splitOff count (first ++ rest) = some (first, rest) := by
  subst size
  simp [splitOff]

end Endian
