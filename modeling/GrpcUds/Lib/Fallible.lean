import Mathlib.Logic.Basic

/-!
# Computations that may fail

Inversion of a successful sequence and of a failed map in `Except`.
-/

namespace Fallible

universe u v

theorem bind_eq_ok_iff {Error : Type u} {Value Result : Type v} {first : Except Error Value}
    {second : Value → Except Error Result} {result : Result} :
    first >>= second = .ok result ↔ ∃ value, first = .ok value ∧ second value = .ok result := by
  cases first with
  | error error => simp [bind, Except.bind]
  | ok value => simp [bind, Except.bind]

theorem map_eq_error_iff {Error : Type u} {Value Result : Type v} {first : Except Error Value}
    {transform : Value → Result} {error : Error} :
    first.map transform = .error error ↔ first = .error error := by
  cases first with
  | error cause => simp [Except.map]
  | ok value => simp [Except.map]

/-- A loop all of whose turns succeed, with the value that each turn gives. -/
theorem mapM_eq_ok {Error Item Value : Type*} {turn : Item → Except Error Value}
    {value : Item → Value} (given : ∀ item result, turn item = .ok result → result = value item)
    {items : List Item} {results : List Value} (all : items.mapM turn = .ok results) :
    results = items.map value := by
  induction items generalizing results with
  | nil => exact (Except.ok.inj all).symm
  | cons item rest ih =>
      rw [List.mapM_cons] at all
      obtain ⟨first, turned, all⟩ := bind_eq_ok_iff.mp all
      obtain ⟨others, looped, all⟩ := bind_eq_ok_iff.mp all
      rw [← Except.ok.inj all, given item first turned, ih looped]
      rfl

end Fallible
