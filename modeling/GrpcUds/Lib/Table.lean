import Mathlib.Data.List.Perm.Basic
import Mathlib.Data.List.Nodup

/-!
# Vectors used as keyed tables

A table is a vector that is searched from the front for the first entry whose
key matches.  Mutation goes through that entry, and removal moves the last
entry into the hole, so it may reorder what it keeps.
-/

namespace Table

universe u v

variable {Entry : Type u} {Key : Type v} [DecidableEq Key]

/-- The first entry that carries the key. -/
def lookup (key : Entry → Key) (wanted : Key) (entries : List Entry) : Option Entry :=
  entries.find? fun entry => key entry = wanted

/-- Change the first entry that carries the key. -/
def update (key : Entry → Key) (wanted : Key) (change : Entry → Entry) :
    List Entry → List Entry
  | [] => []
  | entry :: rest =>
      if key entry = wanted then change entry :: rest
      else entry :: update key wanted change rest

/-- Remove one position and move the last entry into it. -/
def swapRemove (entries : List Entry) (position : Nat) : List Entry :=
  match entries.getLast? with
  | none => []
  | some last => (entries.set position last).dropLast

/-- Remove the first entry that carries the key. -/
def remove (key : Entry → Key) (wanted : Key) (entries : List Entry) : List Entry :=
  match entries.findIdx? fun entry => key entry = wanted with
  | none => entries
  | some position => swapRemove entries position

section Lookup

variable {key : Entry → Key} {wanted : Key} {entries : List Entry} {entry : Entry}

theorem lookup_mem (found : lookup key wanted entries = some entry) : entry ∈ entries :=
  List.mem_of_find?_eq_some found

theorem lookup_key (found : lookup key wanted entries = some entry) : key entry = wanted := by
  simpa using List.find?_some found

/-- With distinct keys a lookup finds every entry, not only a first one. -/
theorem lookup_eq_some_iff (distinct : (entries.map key).Nodup) :
    lookup key wanted entries = some entry ↔ entry ∈ entries ∧ key entry = wanted := by
  refine ⟨fun found => ⟨lookup_mem found, lookup_key found⟩, ?_⟩
  rintro ⟨membership, rfl⟩
  induction entries with
  | nil => simp at membership
  | cons head tail ih =>
      rw [List.map_cons, List.nodup_cons] at distinct
      rcases List.mem_cons.mp membership with rfl | inTail
      · simp [lookup]
      · have different : key head ≠ key entry := fun same =>
          distinct.1 (same ▸ List.mem_map_of_mem inTail)
        simpa [lookup, different] using ih distinct.2 inTail

theorem lookup_eq_none_iff :
    lookup key wanted entries = none ↔ ∀ entry ∈ entries, key entry ≠ wanted := by
  simp [lookup, List.find?_eq_none]

theorem isSome_lookup {entries : List Entry} :
    (lookup key wanted entries).isSome ↔ wanted ∈ entries.map key := by
  simp [lookup, List.find?_isSome]

theorem mem_concat {last : Entry} : entry ∈ entries ++ [last] ↔ entry ∈ entries ∨ entry = last := by
  simp

theorem lookup_append_of_ne (different : key entry ≠ wanted) :
    lookup key wanted (entries ++ [entry]) = lookup key wanted entries := by
  simp [lookup, List.find?_append, different]

theorem lookup_append_new (missing : lookup key (key entry) entries = none) :
    lookup key (key entry) (entries ++ [entry]) = some entry := by
  unfold lookup at missing ⊢
  simp [List.find?_append, missing]

end Lookup

section Update

variable {key : Entry → Key} {wanted : Key} {change : Entry → Entry} {entries : List Entry}
  {entry : Entry}

/-- A projection that the change keeps is the same in every position. -/
theorem map_update {Value : Type*} (project : Entry → Value)
    (kept : ∀ entry, project (change entry) = project entry) (entries : List Entry) :
    (update key wanted change entries).map project = entries.map project := by
  induction entries with
  | nil => rfl
  | cons head tail ih =>
      by_cases same : key head = wanted
      · simp [update, same, kept]
      · simp [update, same, ih]

theorem lookup_update_self (kept : ∀ entry, key (change entry) = key entry) (entries : List Entry) :
    lookup key wanted (update key wanted change entries) =
      (lookup key wanted entries).map change := by
  induction entries with
  | nil => rfl
  | cons head tail ih =>
      by_cases same : key head = wanted
      · simp [update, lookup, same, kept]
      · simpa [update, lookup, same] using ih

theorem lookup_update_other (kept : ∀ entry, key (change entry) = key entry)
    {other : Key} (different : other ≠ wanted) (entries : List Entry) :
    lookup key other (update key wanted change entries) = lookup key other entries := by
  induction entries with
  | nil => rfl
  | cons head tail ih =>
      by_cases same : key head = wanted
      · simp [update, lookup, same, kept, Ne.symm different]
      · by_cases found : key head = other
        · simp [update, lookup, different, found]
        · simpa [update, lookup, same, found] using ih

/-- An update leaves each position as it was or changes its entry. -/
theorem getElem?_update {position : Nat} (found : entries[position]? = some entry) :
    (update key wanted change entries)[position]? = some entry ∨
      (update key wanted change entries)[position]? = some (change entry) := by
  induction entries generalizing position with
  | nil => simp at found
  | cons head tail ih =>
      by_cases same : key head = wanted
      · cases position with
        | zero =>
            obtain rfl : head = entry := by simpa using found
            exact .inr (by simp [update, same])
        | succ position => exact .inl (by simpa [update, same] using found)
      · cases position with
        | zero => exact .inl (by simpa [update, same] using found)
        | succ position =>
            have inTail : tail[position]? = some entry := by simpa using found
            simpa [update, same] using ih inTail

/-- An update keeps what every entry satisfies if the change does. -/
theorem forall_update {Holds : Entry → Prop} (all : ∀ entry ∈ entries, Holds entry)
    (changed : ∀ entry, lookup key wanted entries = some entry → Holds (change entry)) :
    ∀ entry ∈ update key wanted change entries, Holds entry := by
  induction entries with
  | nil => simp [update]
  | cons head tail ih =>
      obtain ⟨first, rest⟩ := List.forall_mem_cons.mp all
      by_cases same : key head = wanted
      · rw [update, if_pos same]
        refine List.forall_mem_cons.mpr ⟨changed head (by simp [lookup, same]), rest⟩
      · rw [update, if_neg same]
        refine List.forall_mem_cons.mpr ⟨first, ih rest fun entry found => ?_⟩
        exact changed entry (by simpa [lookup, same] using found)

theorem update_update {again : Entry → Entry} (kept : ∀ entry, key (change entry) = key entry)
    (entries : List Entry) :
    update key wanted again (update key wanted change entries) =
      update key wanted (fun entry => again (change entry)) entries := by
  induction entries with
  | nil => rfl
  | cons head tail ih =>
      by_cases same : key head = wanted
      · simp [update, same, kept]
      · simp [update, same, ih]

/-- With distinct keys a change is a map. -/
theorem update_eq_map (distinct : (entries.map key).Nodup) :
    update key wanted change entries =
      entries.map fun entry => if key entry = wanted then change entry else entry := by
  induction entries with
  | nil => rfl
  | cons head tail ih =>
      rw [List.map_cons, List.nodup_cons] at distinct
      obtain ⟨fresh, distinct⟩ := distinct
      by_cases here : key head = wanted
      · have others : tail.map (fun entry => if key entry = wanted then change entry else entry) =
            tail := by
          refine (List.map_congr_left fun entry membership => ?_).trans (List.map_id tail)
          have different : key entry ≠ wanted := by
            rintro same
            exact fresh (List.mem_map.mpr ⟨entry, membership, same.trans here.symm⟩)
          simp [different]
        simp [update, here, others]
      · simp [update, here, ih distinct]

/-- Only what a change does to the entry it finds matters. -/
theorem update_congr {other : Entry → Entry}
    (found : lookup key wanted entries = some entry) (same : change entry = other entry) :
    update key wanted change entries = update key wanted other entries := by
  induction entries with
  | nil => rfl
  | cons head tail ih =>
      by_cases here : key head = wanted
      · obtain rfl : head = entry := by simpa [lookup, here] using found
        simp [update, here, same]
      · have later : lookup key wanted tail = some entry := by simpa [lookup, here] using found
        simp [update, here, ih later]

theorem update_id (entries : List Entry) : update key wanted id entries = entries := by
  induction entries with
  | nil => rfl
  | cons head tail ih => simp [update, ih]

theorem update_of_lookup_none (missing : lookup key wanted entries = none) :
    update key wanted change entries = entries := by
  induction entries with
  | nil => rfl
  | cons head tail ih =>
      obtain ⟨different, rest⟩ := List.forall_mem_cons.mp (lookup_eq_none_iff.mp missing)
      simp [update, different, ih (lookup_eq_none_iff.mpr rest)]

theorem update_append_new (missing : lookup key (key entry) entries = none) :
    update key (key entry) change (entries ++ [entry]) = entries ++ [change entry] := by
  induction entries with
  | nil => simp [update]
  | cons head tail ih =>
      obtain ⟨different, rest⟩ := List.forall_mem_cons.mp (lookup_eq_none_iff.mp missing)
      simp [update, different, ih (lookup_eq_none_iff.mpr rest)]

/-- With distinct keys, changing a position is changing the entry of its key. -/
theorem modify_eq_update (distinct : (entries.map key).Nodup)
    {position : Nat} (found : entries[position]? = some entry) :
    entries.modify position change = update key (key entry) change entries := by
  induction entries generalizing position with
  | nil => simp at found
  | cons head tail ih =>
      rw [List.map_cons, List.nodup_cons] at distinct
      cases position with
      | zero =>
          obtain rfl : head = entry := by simpa using found
          simp [update]
      | succ position =>
          have inTail : tail[position]? = some entry := by simpa using found
          have different : key head ≠ key entry := fun same =>
            distinct.1 (same ▸ List.mem_map_of_mem (List.mem_of_getElem? inTail))
          simp [update, different, ih distinct.2 inTail]

theorem lookup_of_getElem? (distinct : (entries.map key).Nodup)
    {position : Nat} (found : entries[position]? = some entry) :
    lookup key (key entry) entries = some entry :=
  (lookup_eq_some_iff distinct).mpr ⟨List.mem_of_getElem? found, rfl⟩

end Update

section Removal

theorem swapRemove_perm (entries : List Entry) (position : Nat)
    (inside : position < entries.length) :
    (swapRemove entries position).Perm (entries.eraseIdx position) := by
  obtain ⟨start, last, rfl⟩ : ∃ start last, entries = start ++ [last] :=
    ⟨entries.dropLast, entries.getLast (by rintro rfl; simp at inside),
      (List.dropLast_concat_getLast _).symm⟩
  have placed := List.set_perm_cons_eraseIdx inside last
  simp only [swapRemove, List.getLast?_concat]
  rcases Nat.lt_or_ge position start.length with before | after
  · rw [List.set_append_left _ _ before] at placed ⊢
    rw [List.dropLast_concat]
    exact ((List.perm_append_singleton last _).symm.trans placed).cons_inv
  · have atEnd : position = start.length := by
      simp only [List.length_append, List.length_singleton] at inside
      omega
    subst atEnd
    simp [List.eraseIdx_append_of_length_le]

variable {key : Entry → Key} {wanted : Key} {entries : List Entry}

theorem remove_perm_of_found {position : Nat}
    (found : entries.findIdx? (fun entry => key entry = wanted) = some position) :
    ∃ removed, key removed = wanted ∧
      (removed :: remove key wanted entries).Perm entries := by
  obtain ⟨inside, matched, _⟩ := List.findIdx?_eq_some_iff_getElem.mp found
  refine ⟨entries[position], by simpa using matched, ?_⟩
  have erased := (swapRemove_perm entries position inside).cons entries[position]
  simpa [remove, found] using erased.trans (List.getElem_cons_eraseIdx_perm inside)

/-- Removal keeps what every entry satisfies, whatever order it leaves. -/
theorem forall_remove {Holds : Entry → Prop} (all : ∀ entry ∈ entries, Holds entry) :
    ∀ entry ∈ remove key wanted entries, Holds entry := by
  intro entry membership
  cases found : entries.findIdx? fun entry => key entry = wanted with
  | none =>
      simp only [remove, found] at membership
      exact all entry membership
  | some position =>
      obtain ⟨removed, _, permuted⟩ := remove_perm_of_found found
      exact all entry (permuted.subset (List.mem_cons_of_mem _ membership))

theorem nodup_remove (distinct : (entries.map key).Nodup) :
    ((remove key wanted entries).map key).Nodup := by
  cases found : entries.findIdx? fun entry => key entry = wanted with
  | none => simpa [remove, found] using distinct
  | some position =>
      obtain ⟨removed, _, permuted⟩ := remove_perm_of_found found
      have mapped := (permuted.map key).nodup_iff.mpr distinct
      rw [List.map_cons, List.nodup_cons] at mapped
      exact mapped.2

theorem mem_remove (distinct : (entries.map key).Nodup) {entry : Entry} :
    entry ∈ remove key wanted entries ↔ entry ∈ entries ∧ key entry ≠ wanted := by
  cases found : entries.findIdx? fun entry => key entry = wanted with
  | none =>
      have absent := List.findIdx?_eq_none_iff.mp found
      simp only [remove, found]
      refine ⟨fun membership => ⟨membership, by simpa using absent entry membership⟩, And.left⟩
  | some position =>
      obtain ⟨removed, matched, permuted⟩ := remove_perm_of_found found
      have mapped := (permuted.map key).nodup_iff.mpr distinct
      rw [List.map_cons, List.nodup_cons] at mapped
      constructor
      · intro membership
        refine ⟨permuted.subset (List.mem_cons_of_mem _ membership), fun same => ?_⟩
        exact mapped.1 (by simpa [matched, same] using List.mem_map_of_mem (f := key) membership)
      · rintro ⟨membership, different⟩
        rcases List.mem_cons.mp (permuted.symm.subset membership) with rfl | kept
        · exact absurd matched different
        · exact kept

theorem lookup_remove_other (distinct : (entries.map key).Nodup) {other : Key}
    (different : other ≠ wanted) :
    lookup key other (remove key wanted entries) = lookup key other entries := by
  apply Option.ext
  intro entry
  rw [lookup_eq_some_iff (nodup_remove distinct), lookup_eq_some_iff distinct,
    mem_remove distinct]
  constructor
  · rintro ⟨⟨membership, _⟩, same⟩
    exact ⟨membership, same⟩
  · rintro ⟨membership, rfl⟩
    exact ⟨⟨membership, different⟩, rfl⟩

theorem lookup_remove_self (distinct : (entries.map key).Nodup) :
    lookup key wanted (remove key wanted entries) = none :=
  lookup_eq_none_iff.mpr fun _ membership => ((mem_remove distinct).mp membership).2

end Removal

/-- Changing one position keeps what the change keeps. -/
theorem map_modify_of_kept {Entry Key : Type*} {key : Entry → Key} {change : Entry → Entry}
    (kept : ∀ entry, key (change entry) = key entry) (entries : List Entry) (position : Nat) :
    (entries.modify position change).map key = entries.map key := by
  apply List.ext_getElem?
  intro index
  simp only [List.getElem?_map, List.getElem?_modify]
  cases entries[index]? with
  | none => rfl
  | some entry => by_cases same : position = index <;> simp [same, kept]

section Selection

variable {Entry : Type*} {selected : Entry → Bool} {entries : List Entry} {entry : Entry}
  {position : Nat}

/-- Entries outside a selection may be replaced. -/
theorem filter_set_of_skipped
    (found : entries[position]? = some entry) (skipped : selected entry = false)
    {replacement : Entry} (skippedToo : selected replacement = false) :
    (entries.set position replacement).filter selected = entries.filter selected := by
  induction entries generalizing position with
  | nil => simp at found
  | cons head tail ih =>
      cases position with
      | zero =>
          obtain rfl : head = entry := by simpa using found
          simp [skipped, skippedToo]
      | succ position =>
          have inTail : tail[position]? = some entry := by simpa using found
          simp [List.filter_cons, ih inTail]

theorem filter_eraseIdx_of_skipped
    (found : entries[position]? = some entry) (skipped : selected entry = false) :
    (entries.eraseIdx position).filter selected = entries.filter selected := by
  induction entries generalizing position with
  | nil => simp at found
  | cons head tail ih =>
      cases position with
      | zero =>
          obtain rfl : head = entry := by simpa using found
          simp [skipped]
      | succ position =>
          have inTail : tail[position]? = some entry := by simpa using found
          simp [List.filter_cons, ih inTail]

/-- The only selected entry is erased, or replaced by another selected one. -/
theorem filter_of_alone {only : Entry} (found : entries[position]? = some entry)
    (chosen : selected entry = true) (alone : entries.filter selected = [only]) :
    entry = only ∧ (entries.eraseIdx position).filter selected = [] ∧
      ∀ replacement, selected replacement = true →
        (entries.set position replacement).filter selected = [replacement] := by
  obtain ⟨inside, rfl⟩ := List.getElem?_eq_some_iff.mp found
  have erased := (List.getElem_cons_eraseIdx_perm inside).filter selected
  rw [alone, List.filter_cons_of_pos chosen, List.perm_singleton] at erased
  obtain ⟨same, others⟩ := List.cons.inj erased
  refine ⟨same, others, fun replacement kept => ?_⟩
  have placed := (List.set_perm_cons_eraseIdx inside replacement).filter selected
  rwa [List.filter_cons_of_pos kept, others, List.perm_singleton] at placed

end Selection

end Table
