import Mathlib.Data.List.Basic

/-!
# A bounded shelf of logs

Items are appended to the newest log.  When that one is full a new log is begun, and only so
many logs are kept.  What is left to read is a suffix of all the items.
-/

namespace Shelf

variable {Item : Type*}

/-- Append an item.  The newest log stands first. -/
def push (keep : Nat) (full : Bool) (shelf : List (List Item)) (item : Item) :
    List (List Item) :=
  match shelf with
  | [] => [[item]]
  | newest :: older =>
      if full then [item] :: (newest :: older).take (keep - 1) else (newest ++ [item]) :: older

/-- The items from the oldest log to the newest. -/
def read (shelf : List (List Item)) : List Item := shelf.reverse.flatten

theorem read_cons (newest : List Item) (older : List (List Item)) :
    read (newest :: older) = read older ++ newest := by
  simp [read]

theorem read_take_suffix (shelf : List (List Item)) (keep : Nat) :
    read (shelf.take keep) <:+ read shelf := by
  refine ⟨read (shelf.drop keep), ?_⟩
  rw [read, read, read, ← List.flatten_append, ← List.reverse_append, List.take_append_drop]

/-- What can be read after an item was appended ends with this item and goes back less far
than before. -/
theorem read_push (keep : Nat) (full : Bool) (shelf : List (List Item)) (item : Item) :
    ∃ kept, kept <:+ read shelf ∧ read (push keep full shelf item) = kept ++ [item] := by
  cases shelf with
  | nil => exact ⟨[], List.nil_suffix, rfl⟩
  | cons newest older =>
      cases full with
      | true => exact ⟨_, read_take_suffix _ _, read_cons _ _⟩
      | false =>
          refine ⟨read (newest :: older), List.suffix_rfl, ?_⟩
          simp [push, read_cons]

theorem read_push_suffix {keep : Nat} {full : Bool} {shelf : List (List Item)} {item : Item}
    {history : List Item} (suffix : read shelf <:+ history) :
    read (push keep full shelf item) <:+ history ++ [item] := by
  obtain ⟨kept, older, equal⟩ := read_push keep full shelf item
  obtain ⟨dropped, rfl⟩ := older.trans suffix
  exact ⟨dropped, by rw [equal, List.append_assoc]⟩

end Shelf
