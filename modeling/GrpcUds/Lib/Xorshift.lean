import Mathlib.Logic.Basic

/-!
# Xorshift steps

A word mixed with a shifted copy of itself is zero only if the word was: the bit that
the shift leaves alone decides the first bit, and that one the next.
-/

namespace Xorshift

variable {w : Nat} {x : BitVec w} {k : Nat}

theorem eq_zero_of_left (positive : 0 < k) (zero : x ^^^ x <<< k = 0#w) : x = 0#w := by
  have same : x = x <<< k := BitVec.xor_eq_zero_iff.mp zero
  have clear : ∀ index, x.getLsbD index = false := by
    intro index
    induction index using Nat.strongRecOn with
    | ind index ih =>
        rw [same, BitVec.getLsbD_shiftLeft]
        by_cases low : index < k
        · simp [low]
        · rw [ih (index - k) (by omega), Bool.and_false]
  exact BitVec.eq_of_getLsbD_eq fun index _ => by rw [clear, BitVec.getLsbD_zero]

theorem eq_zero_of_right (positive : 0 < k) (zero : x ^^^ x >>> k = 0#w) : x = 0#w := by
  have same : x = x >>> k := BitVec.xor_eq_zero_iff.mp zero
  -- From the top bit down.
  have clear : ∀ distance index, w ≤ index + distance → x.getLsbD index = false := by
    intro distance
    induction distance with
    | zero => exact fun index beyond => BitVec.getLsbD_of_ge x index beyond
    | succ distance ih =>
        intro index reach
        rw [same, BitVec.getLsbD_ushiftRight]
        exact ih (k + index) (by omega)
  exact BitVec.eq_of_getLsbD_eq fun index inside => by
    rw [clear w index (Nat.le_add_left _ _), BitVec.getLsbD_zero]

end Xorshift
