import GrpcUds.Lib.Joined

/-!
# The C name of a message type

nanopb names the struct of a message by its package and its nesting, joined with `_`.  The
plugin builds this name in two ways: method signatures trim and replace the dots of a type
reference, and the field setters split the package and join it with the nested path.
-/

namespace GrpcUds.Codegen

/-- `replace('.', "_")`. -/
def replaceDots (text : String) : String :=
  .ofList (text.toList.map fun c => if c = '.' then '_' else c)

/-- `trim_start_matches('.')`. -/
def trimStartDots (text : String) : String :=
  .ofList (text.toList.dropWhile fun c => c = '.')

/-- `split('.')`. -/
def splitDots (text : String) : List String :=
  (text.toList.splitOn '.').map .ofList

def cType (protoRef : String) : String := replaceDots (trimStartDots protoRef)

def qualifiedType (protoRef _pkg : String) : String := "::" ++ replaceDots (trimStartDots protoRef)

def messageCType (pkg : String) (path : List String) : String :=
  let parts := if pkg.isEmpty then [] else splitDots pkg
  "::" ++ "_".intercalate (parts ++ path)

/-! ### Qualified names -/

/-- One part of a qualified name. -/
structure Ident where
  text : String
  nonempty : text.toList ≠ []
  dotless : '.' ∉ text.toList

/-- Parts separated by dots. -/
def dotted (idents : List Ident) : String := ".".intercalate (idents.map Ident.text)

/-- The reference to a type by its package and its nested path. -/
def typeReference (pkg : String) (path : List Ident) : String :=
  if pkg.isEmpty then "." ++ dotted path else "." ++ pkg ++ "." ++ dotted path

/-- The characters of the parts. -/
def letters (idents : List Ident) : List (List Char) := idents.map fun ident => ident.text.toList

theorem letters_append (first second : List Ident) :
    letters (first ++ second) = letters first ++ letters second := List.map_append

theorem toList_dotted (idents : List Ident) :
    (dotted idents).toList = ['.'].intercalate (letters idents) := by
  simp [dotted, letters, String.toList_intercalate, Function.comp_def]

theorem letters_dotless {idents : List Ident} : ∀ part ∈ letters idents, '.' ∉ part := by
  intro part membership
  obtain ⟨ident, _, rfl⟩ := List.mem_map.mp membership
  exact ident.dotless

theorem dotted_isEmpty_iff (idents : List Ident) :
    (dotted idents).isEmpty = true ↔ idents = [] := by
  rw [String.isEmpty_iff, ← String.toList_eq_nil_iff, toList_dotted]
  cases idents with
  | nil => simp [letters]
  | cons ident rest =>
      have named := ident.nonempty
      cases rest <;> simp [letters, List.intercalate_cons_cons, named]

theorem splitDots_dotted {idents : List Ident} (some_ : idents ≠ []) :
    splitDots (dotted idents) = idents.map Ident.text := by
  have parts : letters idents ≠ [] := by simpa [letters] using some_
  rw [splitDots, toList_dotted, List.splitOn_intercalate '.' letters_dotless parts]
  simp [letters, Function.comp_def]

theorem toList_typeReference (pkg path : List Ident) (nested : path ≠ []) :
    (typeReference (dotted pkg) path).toList =
      '.' :: ['.'].intercalate (letters (pkg ++ path)) := by
  unfold typeReference
  by_cases empty : pkg = []
  · subst empty
    rw [if_pos ((dotted_isEmpty_iff []).mpr rfl)]
    simp [toList_dotted]
  · have parts : letters pkg ≠ [] := by simpa [letters] using empty
    have more : letters path ≠ [] := by simpa [letters] using nested
    rw [if_neg (fun isEmpty => empty ((dotted_isEmpty_iff pkg).mp isEmpty))]
    simp only [String.toList_append, toList_dotted]
    rw [letters_append, Joined.intercalate_append parts more]
    simp

/-- The trimmed reference is the qualified name, flattened. -/
theorem toList_cType (pkg path : List Ident) (nested : path ≠ []) :
    (cType (typeReference (dotted pkg) path)).toList =
      ['_'].intercalate (letters (pkg ++ path)) := by
  have start : (['.'].intercalate (letters (pkg ++ path))).dropWhile (fun c => c = '.') =
      ['.'].intercalate (letters (pkg ++ path)) := by
    obtain ⟨first, rest, shape⟩ := List.exists_cons_of_ne_nil
      (show pkg ++ path ≠ [] by simp [nested])
    obtain ⟨c, word, spelled⟩ := List.exists_cons_of_ne_nil first.nonempty
    have notDot : c ≠ '.' := by
      intro same
      apply first.dotless
      rw [spelled, same]
      exact List.mem_cons_self
    rw [shape]
    cases rest <;> simp [letters, List.intercalate_cons_cons, spelled, notDot]
  rw [cType, replaceDots, trimStartDots, String.toList_ofList, String.toList_ofList,
    toList_typeReference pkg path nested, List.dropWhile_cons_of_pos (by simp), start,
    Joined.map_intercalate letters_dotless]

/-- The name that the setters use, the one that method signatures use and the C name are
the same for every package and every nested message. -/
theorem type_names_agree (pkg path : List Ident) (nested : path ≠ []) :
    messageCType (dotted pkg) (path.map Ident.text) =
        qualifiedType (typeReference (dotted pkg) path) (dotted pkg) ∧
      qualifiedType (typeReference (dotted pkg) path) (dotted pkg) =
        "::" ++ cType (typeReference (dotted pkg) path) := by
  refine ⟨?_, rfl⟩
  have parts : (if (dotted pkg).isEmpty then [] else splitDots (dotted pkg)) =
      pkg.map Ident.text := by
    by_cases empty : pkg = []
    · rw [if_pos ((dotted_isEmpty_iff pkg).mpr empty), empty]
      rfl
    · rw [if_neg (fun isEmpty => empty ((dotted_isEmpty_iff pkg).mp isEmpty)),
        splitDots_dotted empty]
  have joined : ("_".intercalate (pkg.map Ident.text ++ path.map Ident.text)) =
      cType (typeReference (dotted pkg) path) := by
    apply String.toList_inj.mp
    rw [toList_cType pkg path nested, String.toList_intercalate]
    simp [letters, Function.comp_def]
  rw [messageCType, parts, joined]
  rfl

/-- `ble.v1.Container.Request` is `ble_v1_Container_Request` in all three. -/
theorem type_names_agree_for_nested :
    ∃ pkg path : List Ident, dotted pkg = "ble.v1" ∧ dotted path = "Container.Request" ∧
      messageCType (dotted pkg) (path.map Ident.text) = "::ble_v1_Container_Request" ∧
      qualifiedType ".ble.v1.Container.Request" (dotted pkg) = "::ble_v1_Container_Request" := by
  let pkg : List Ident := [⟨"ble", by decide, by decide⟩, ⟨"v1", by decide, by decide⟩]
  let path : List Ident := [⟨"Container", by decide, by decide⟩, ⟨"Request", by decide, by decide⟩]
  have agree := (type_names_agree pkg path (by simp [path])).1
  have spelled : typeReference (dotted pkg) path = ".ble.v1.Container.Request" := by decide
  have flat : qualifiedType ".ble.v1.Container.Request" (dotted pkg) =
      "::ble_v1_Container_Request" := by decide
  rw [spelled, flat] at agree
  exact ⟨pkg, path, by decide, by decide, agree, flat⟩

end GrpcUds.Codegen
