import Mathlib.Data.List.Basic

/-!
# Reading by index

Loops that walk an index over a list.  An access out of range is a fault, and so is a
loop that has not ended when its turns are used up.  What is left at an index is the
list dropped to it.
-/

namespace Cursor

/-- How a loop over an index can go wrong. -/
inductive Fault where
  | outOfRange
  | outOfTurns
  deriving DecidableEq, Repr

variable {α : Type}

/-- `list[index]`. -/
def get (list : List α) (index : Nat) : Except Fault α :=
  match list[index]? with
  | some element => .ok element
  | none => .error .outOfRange

/-- `&list[index..index + count]`. -/
def slice (list : List α) (index count : Nat) : Except Fault (List α) :=
  if index + count ≤ list.length then .ok ((list.drop index).take count)
  else .error .outOfRange

/-- The next element is there to read, and the rest is left behind it. -/
theorem get_of_drop {list rest : List α} {index : Nat} {element : α}
    (left : list.drop index = element :: rest) :
    index < list.length ∧ get list index = .ok element ∧ list.drop (index + 1) = rest := by
  have inside : index < list.length := by
    apply Nat.lt_of_not_le
    intro beyond
    simp [List.drop_eq_nil_of_le beyond] at left
  have found : list[index]? = some element := by
    rw [← Nat.add_zero index, ← List.getElem?_drop, left]
    rfl
  refine ⟨inside, by rw [get, found], ?_⟩
  rw [← List.drop_drop, left]
  rfl

theorem slice_of_drop {list rest : List α} {index count : Nat} (left : list.drop index = rest)
    (enough : count ≤ rest.length) (inside : index ≤ list.length) :
    slice list index count = .ok (rest.take count) ∧
      list.drop (index + count) = rest.drop count := by
  have size : rest.length = list.length - index := by rw [← left, List.length_drop]
  refine ⟨?_, ?_⟩
  · rw [slice, if_pos (by omega), left]
  · rw [← List.drop_drop, left]

end Cursor
