import Mathlib.Algebra.GroupWithZero.Nat
import Mathlib.Data.List.Basic

/-!
# Sums with an end-around carry

In the ones' complement arithmetic of words up to `top` a carry out of a word is added at its
low end.  A sum can also be made without carries and then folded until it is a word.  Both
give the representative of the sum modulo `top` that is zero only for the sum zero.
-/

namespace OnesComplement

variable {top : Nat}

/-- Addition with the carry put back in. -/
def add (top first second : Nat) : Nat :=
  if first + second > top then first + second - top else first + second

def sum (top : Nat) (words : List Nat) : Nat := words.foldl (add top) 0

/-- Put the carries of a sum back in, as often as there are any. -/
def fold (top : Nat) : Nat → Nat → Nat
  | 0, total => total
  | turns + 1, total =>
      if total > top then fold top turns (total % (top + 1) + total / (top + 1)) else total

end OnesComplement
