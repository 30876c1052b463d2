import Mathlib.Data.List.Nodup

/-!
# Names joined with a separator

Names are lists of symbols.  Joining loses the parts when they may contain the separator;
what can still be said is that a last part without it can be split off again.
-/

namespace Joined

variable {Symbol : Type*}

/-- Replacing the separator of parts that do not contain it. -/
theorem map_intercalate [DecidableEq Symbol] {old new : Symbol} {parts : List (List Symbol)}
    (free : ∀ part ∈ parts, old ∉ part) :
    ([old].intercalate parts).map (fun c => if c = old then new else c) =
      [new].intercalate parts := by
  have kept : ∀ part ∈ parts, part.map (fun c => if c = old then new else c) = part := by
    intro part membership
    refine (List.map_congr_left fun c present => ?_).trans (List.map_id _)
    have other : c ≠ old := fun same => free part membership (same ▸ present)
    exact if_neg other
  induction parts with
  | nil => rfl
  | cons part rest ih =>
      have head := kept part List.mem_cons_self
      cases rest with
      | nil => simpa using head
      | cons next rest =>
          rw [List.intercalate_cons_cons, List.intercalate_cons_cons, List.map_append,
            List.map_append, head, ih
              (fun part membership => free part (List.mem_cons_of_mem _ membership))
              (fun part membership => kept part (List.mem_cons_of_mem _ membership))]
          simp

theorem intercalate_append {separator : List Symbol} {first second : List (List Symbol)}
    (some_ : first ≠ []) (more : second ≠ []) :
    separator.intercalate (first ++ second) =
      separator.intercalate first ++ separator ++ separator.intercalate second := by
  induction first with
  | nil => exact absurd rfl some_
  | cons part rest ih =>
      cases rest with
      | nil =>
          obtain ⟨next, later, rfl⟩ := List.exists_cons_of_ne_nil more
          simp [List.intercalate_cons_cons]
      | cons next rest =>
          rw [List.cons_append, List.cons_append, List.intercalate_cons_cons,
            List.intercalate_cons_cons, ← List.cons_append, ih (by simp)]
          simp

/-- The last separator splits a name. -/
theorem append_separator_inj {separator : Symbol} {first second word other : List Symbol}
    (free : separator ∉ word) (freeOther : separator ∉ other)
    (same : first ++ separator :: word = second ++ separator :: other) :
    first = second ∧ word = other := by
  rcases List.append_eq_append_iff.mp same with ⟨between, longer, tail⟩ | ⟨between, longer, tail⟩
  · cases between with
    | nil => exact ⟨by simpa using longer.symm, by simpa using tail⟩
    | cons symbol between =>
        have inside : separator ∈ word := by
          rw [(List.cons.inj tail).2]
          simp
        exact absurd inside free
  · cases between with
    | nil => exact ⟨by simpa using longer, by simpa using tail.symm⟩
    | cons symbol between =>
        have inside : separator ∈ other := by
          rw [(List.cons.inj tail).2]
          simp
        exact absurd inside freeOther

/-- Keys with tags are all different if and only if the keys are, when some tag is given to
each of them. -/
theorem nodup_tagged_iff {Entry Key Tag : Type*} {entries : List Entry} {key : Entry → Key}
    {tags : Entry → List Tag} (each : ∀ entry ∈ entries, (tags entry).Nodup) {common : Tag}
    (shared : ∀ entry ∈ entries, common ∈ tags entry) :
    (entries.flatMap fun entry => (tags entry).map (Prod.mk (key entry))).Nodup ↔
      (entries.map key).Nodup := by
  have injective : ∀ key : Key, Function.Injective (Prod.mk key : Tag → Key × Tag) :=
    fun key _ _ same => congrArg Prod.snd same
  have keys : (entries.map key).Nodup ↔
      entries.Pairwise fun first second => key first ≠ key second := List.pairwise_map
  rw [List.nodup_flatMap, keys]
  constructor
  · rintro ⟨_, apart⟩
    refine apart.imp_of_mem fun {first second} here there disjoint same => ?_
    apply disjoint (a := (key first, common))
    · exact List.mem_map_of_mem (shared first here)
    · rw [same]
      exact List.mem_map_of_mem (shared second there)
  · intro apart
    refine ⟨fun entry membership => (each entry membership).map (injective _), ?_⟩
    refine apart.imp fun {first second} different pair inFirst inSecond => different ?_
    obtain ⟨_, _, rfl⟩ := List.mem_map.mp inFirst
    obtain ⟨_, _, same⟩ := List.mem_map.mp inSecond
    exact (congrArg Prod.fst same).symm

end Joined
