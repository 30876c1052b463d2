import Mathlib.Data.List.Perm.Basic
import GrpcUds.Codegen.Paths
import GrpcUds.Codegen.TypeNames
import GrpcUds.Lib.Fallible

/-!
# The identifiers of the generated C

In C mode the plugin glues package, service and method names with `_` and adds a word for
each helper.  A name may contain `_` itself, so different names can be glued to the same
identifier.  Which services lead to a redefinition is decided by the names alone.
-/

namespace GrpcUds.Codegen

structure FileDescriptor where
  name : String
  package : String
  services : List ServiceDescriptor
  deriving DecidableEq

/-- The `prefix` of a service. -/
def cPrefix (pkg : String) (service : ServiceDescriptor) : String :=
  replaceDots (fullName pkg service)

/-- The helpers on the server side. -/
def serverHelpers (stem : String) (method : MethodDescriptor) : List String :=
  if method.serverStreaming then [stem ++ "_" ++ "send", stem ++ "_" ++ "finish"]
  else [stem ++ "_" ++ "respond"]

def clientWrappers (stem : String) (method : MethodDescriptor) : List String :=
  if method.serverStreaming then [stem ++ "_" ++ "start", stem ++ "_" ++ "next"] else [stem]

/-- The file-scope identifiers that `write_c_service` defines: the service table and its
registration, the server helpers, the client wrappers and the trampolines. -/
def cIdentifiers (pkg : String) (service : ServiceDescriptor) : List String :=
  let stem := fun method : MethodDescriptor => cPrefix pkg service ++ "_" ++ method.name
  [cPrefix pkg service ++ "_" ++ "service", cPrefix pkg service ++ "_" ++ "register"] ++
    service.methods.flatMap (fun method => serverHelpers (stem method) method) ++
    service.methods.flatMap (fun method => clientWrappers (stem method) method) ++
    service.methods.map (fun method => stem method ++ "_" ++ "tr")

/-- The two files of a proto, by name, and the identifiers that they define. -/
structure CStubs where
  headerName : String
  sourceName : String
  identifiers : List String
  deriving DecidableEq

/-- `strip_suffix(".proto")`. -/
def stripProto (name : String) : Option String :=
  if ".proto".toList.isSuffixOf name.toList then
    some (.ofList (name.toList.take (name.toList.length - ".proto".toList.length)))
  else none

/-- One service of the loop of `generate_file_c`. -/
def serviceIdentifiers (pkg : String) (service : ServiceDescriptor) :
    Except String (List String) :=
  match refused checkC service with
  | some error => .error error
  | none => .ok (cIdentifiers pkg service)

def generateFileC (file : FileDescriptor) : Except String CStubs :=
  match stripProto file.name with
  | none => .error ("file name does not end in .proto: " ++ file.name)
  | some base => do
      let services ← file.services.mapM (serviceIdentifiers file.package)
      return ⟨base ++ ".grpcuds.h", base ++ ".grpcuds.c", services.flatten⟩

/-! ### Names that are glued apart -/

/-- The methods of a file, each with its service. -/
def rpcs (services : List ServiceDescriptor) : List (ServiceDescriptor × MethodDescriptor) :=
  services.flatMap fun service => service.methods.map (Prod.mk service)

/-- What stands for a method in the generated C, after the package. -/
def glued (rpc : ServiceDescriptor × MethodDescriptor) : String :=
  replaceDots rpc.1.name ++ "_" ++ rpc.2.name

/-- The words that follow a method's name in its helpers. -/
def helperWords (method : MethodDescriptor) : List String :=
  if method.serverStreaming then ["send", "finish", "start", "next", "tr"] else ["respond", "tr"]

/-- The words that follow a service's name. -/
def serviceWords : List String := ["service", "register"]

/-- No two names of services are the same, nor two of methods, and no unary method is named
as a helper of a method or of a service. -/
structure Unambiguous (services : List ServiceDescriptor) : Prop where
  serviceNames : (services.map fun service => replaceDots service.name).Nodup
  methodNames : ((rpcs services).map glued).Nodup
  helperNames : ∀ rpc ∈ rpcs services, rpc.2.serverStreaming = false → ∀ other ∈ rpcs services,
    ∀ word ∈ helperWords other.2, glued rpc ≠ glued other ++ "_" ++ word
  tableNames : ∀ rpc ∈ rpcs services, rpc.2.serverStreaming = false → ∀ service ∈ services,
    ∀ word ∈ serviceWords, glued rpc ≠ replaceDots service.name ++ "_" ++ word

/-! ### The identifiers, sorted by their last word -/

section Sorted

variable (pkg : String)

def stem (rpc : ServiceDescriptor × MethodDescriptor) : String :=
  cPrefix pkg rpc.1 ++ "_" ++ rpc.2.name

/-- The identifiers that end in a word of the generator, split before it. -/
def worded (services : List ServiceDescriptor) : List (String × String) :=
  services.flatMap (fun service => serviceWords.map (Prod.mk (cPrefix pkg service))) ++
    (rpcs services).flatMap fun rpc => (helperWords rpc.2).map (Prod.mk (stem pkg rpc))

/-- The client wrappers of unary methods, which end in the method's name. -/
def bare (services : List ServiceDescriptor) : List String :=
  ((rpcs services).filter fun rpc => !rpc.2.serverStreaming).map (stem pkg)

def withWord (site : String × String) : String := site.1 ++ "_" ++ site.2

/-- The identifiers of one method. -/
theorem method_perm (name : String) (method : MethodDescriptor) :
    (serverHelpers name method ++ clientWrappers name method ++ [name ++ "_" ++ "tr"]).Perm
      ((helperWords method).map (fun word => name ++ "_" ++ word) ++
        if method.serverStreaming then [] else [name]) := by
  unfold serverHelpers clientWrappers helperWords
  cases method.serverStreaming with
  | true => simp
  | false => exact .cons _ (.swap _ _ _)

theorem cIdentifiers_perm (service : ServiceDescriptor) :
    (cIdentifiers pkg service).Perm
      (serviceWords.map (fun word => cPrefix pkg service ++ "_" ++ word) ++
        service.methods.flatMap fun method =>
          (helperWords method).map (fun word => stem pkg (service, method) ++ "_" ++ word) ++
            if method.serverStreaming then [] else [stem pkg (service, method)]) := by
  have listed : ∀ tr : MethodDescriptor → String,
      service.methods.map tr = service.methods.flatMap fun method => [tr method] := by
    intro tr
    induction service.methods with
    | nil => rfl
    | cons method rest ih => simp [ih]
  unfold cIdentifiers
  rw [List.append_assoc, List.append_assoc, listed]
  apply List.Perm.append_left
  refine (List.Perm.append_left _ (List.flatMap_append_perm _ _ _)).trans
    ((List.flatMap_append_perm _ _ _).trans (List.Perm.flatMap_left _ fun method _ => ?_))
  rw [← List.append_assoc]
  exact method_perm _ method

variable (services : List ServiceDescriptor)

theorem bare_eq :
    bare pkg services = (rpcs services).flatMap fun rpc =>
      if rpc.2.serverStreaming then [] else [stem pkg rpc] := by
  unfold bare
  induction rpcs services with
  | nil => rfl
  | cons rpc rest ih =>
      cases kind : rpc.2.serverStreaming with
      | true => simpa [kind] using ih
      | false => simpa [kind] using ih

theorem flatMap_rpcs {Value : Type*} (each : ServiceDescriptor × MethodDescriptor → List Value) :
    (rpcs services).flatMap each =
      services.flatMap fun service =>
        service.methods.flatMap fun method => each (service, method) := by
  simp [rpcs, List.flatMap_assoc, List.flatMap_map]

theorem identifiers_perm :
    (services.flatMap (cIdentifiers pkg)).Perm
      ((worded pkg services).map withWord ++ bare pkg services) := by
  have split : (worded pkg services).map withWord ++ bare pkg services =
      services.flatMap (fun service =>
        serviceWords.map (fun word => cPrefix pkg service ++ "_" ++ word)) ++
      (services.flatMap (fun service => service.methods.flatMap fun method =>
        (helperWords method).map (fun word => stem pkg (service, method) ++ "_" ++ word)) ++
      services.flatMap fun service => service.methods.flatMap fun method =>
        if method.serverStreaming then [] else [stem pkg (service, method)]) := by
    rw [bare_eq, worded, List.map_append, flatMap_rpcs, flatMap_rpcs, List.append_assoc]
    simp [List.map_flatMap, withWord, Function.comp_def]
  rw [split]
  refine (List.Perm.flatMap_left services fun service _ => cIdentifiers_perm pkg service).trans ?_
  refine (List.flatMap_append_perm services _ _).symm.trans (List.Perm.append_left _ ?_)
  refine List.Perm.trans ?_ (List.flatMap_append_perm services _ _).symm
  exact List.Perm.flatMap_left services fun service _ => (List.flatMap_append_perm _ _ _).symm

end Sorted

theorem serviceWords_free : ∀ word ∈ serviceWords, '_' ∉ word.toList := by decide

theorem helperWords_free (method : MethodDescriptor) :
    ∀ word ∈ helperWords method, '_' ∉ word.toList := by
  unfold helperWords
  cases method.serverStreaming with
  | true => decide
  | false => decide

theorem withWord_inj {site other : String × String} (free : '_' ∉ site.2.toList)
    (freeOther : '_' ∉ other.2.toList) (same : withWord site = withWord other) : site = other := by
  have letters := congrArg String.toList same
  simp only [withWord, String.toList_append, List.append_assoc] at letters
  obtain ⟨first, second⟩ := Joined.append_separator_inj free freeOther letters
  exact Prod.ext (String.toList_inj.mp first) (String.toList_inj.mp second)

variable (pkg : String)

theorem worded_free {services : List ServiceDescriptor} :
    ∀ site ∈ worded pkg services, '_' ∉ site.2.toList := by
  intro site membership
  rcases List.mem_append.mp membership with table | helper
  · obtain ⟨service, _, listed⟩ := List.mem_flatMap.mp table
    obtain ⟨word, chosen, rfl⟩ := List.mem_map.mp listed
    exact serviceWords_free word chosen
  · obtain ⟨rpc, _, listed⟩ := List.mem_flatMap.mp helper
    obtain ⟨word, chosen, rfl⟩ := List.mem_map.mp listed
    exact helperWords_free rpc.2 word chosen

/-- No word is used both for services and for methods. -/
theorem helperWords_other (method : MethodDescriptor) :
    ∀ word ∈ helperWords method, word ∉ serviceWords := by
  unfold helperWords
  cases method.serverStreaming with
  | true => decide
  | false => decide

theorem helperWords_nodup (method : MethodDescriptor) :
    (helperWords method).Nodup ∧ "tr" ∈ helperWords method := by
  unfold helperWords
  cases method.serverStreaming with
  | true => decide
  | false => decide

/-- The identifiers that end in a word differ if the names before the words do. -/
theorem nodup_worded_iff (services : List ServiceDescriptor) :
    ((worded pkg services).map withWord).Nodup ↔
      (services.map (cPrefix pkg)).Nodup ∧ ((rpcs services).map (stem pkg)).Nodup := by
  have tables : (services.flatMap fun service =>
      serviceWords.map (Prod.mk (cPrefix pkg service))).Nodup ↔
        (services.map (cPrefix pkg)).Nodup :=
    Joined.nodup_tagged_iff (fun _ _ => by decide)
      (fun _ _ => show "service" ∈ serviceWords by decide)
  have helpers : ((rpcs services).flatMap fun rpc =>
      (helperWords rpc.2).map (Prod.mk (stem pkg rpc))).Nodup ↔
        ((rpcs services).map (stem pkg)).Nodup :=
    Joined.nodup_tagged_iff (fun rpc _ => (helperWords_nodup rpc.2).1)
      fun rpc _ => (helperWords_nodup rpc.2).2
  have injective : ∀ site ∈ worded pkg services, ∀ other ∈ worded pkg services,
      withWord site = withWord other → site = other := fun site here other there same =>
    withWord_inj (worded_free pkg site here) (worded_free pkg other there) same
  have sites : ((worded pkg services).map withWord).Nodup ↔ (worded pkg services).Nodup :=
    ⟨List.Nodup.of_map withWord, fun apart => (List.nodup_map_iff_inj_on apart).mpr injective⟩
  rw [sites, worded, List.nodup_append, tables, helpers]
  refine ⟨fun all => ⟨all.1, all.2.1⟩, fun both => ⟨both.1, both.2, ?_⟩⟩
  intro table inTables helper inHelpers same
  obtain ⟨service, _, listed⟩ := List.mem_flatMap.mp inTables
  obtain ⟨word, chosen, rfl⟩ := List.mem_map.mp listed
  obtain ⟨rpc, _, listed⟩ := List.mem_flatMap.mp inHelpers
  obtain ⟨other, picked, rfl⟩ := List.mem_map.mp listed
  have equal : word = other := congrArg Prod.snd same
  exact helperWords_other rpc.2 other picked (equal ▸ chosen)

/-! ### The package does not matter -/

/-- What the package contributes to every identifier of a file. -/
def packagePart (pkg : String) : String := if pkg.isEmpty then "" else replaceDots pkg ++ "_"

theorem replaceDots_append (first second : String) :
    replaceDots (first ++ second) = replaceDots first ++ replaceDots second := by
  apply String.toList_inj.mp
  simp [replaceDots]

theorem cPrefix_eq (service : ServiceDescriptor) :
    cPrefix pkg service = packagePart pkg ++ replaceDots service.name := by
  unfold cPrefix fullName packagePart
  split
  · simp
  · have dot : replaceDots "." = "_" := by decide
    rw [replaceDots_append, replaceDots_append, dot]

theorem stem_eq (rpc : ServiceDescriptor × MethodDescriptor) :
    stem pkg rpc = packagePart pkg ++ glued rpc := by
  simp only [stem, glued, cPrefix_eq, String.append_assoc]

theorem append_left_injective (start : String) :
    Function.Injective fun text : String => start ++ text := by
  intro first second same
  have letters := congrArg String.toList same
  simp only [String.toList_append, List.append_cancel_left_eq] at letters
  exact String.toList_inj.mp letters

theorem nodup_of_part {Entry : Type*} {entries : List Entry} {whole part : Entry → String}
    {start : String} (split : ∀ entry, whole entry = start ++ part entry) :
    (entries.map whole).Nodup ↔ (entries.map part).Nodup := by
  have composed : entries.map whole = (entries.map part).map fun text => start ++ text := by
    rw [List.map_map]
    exact List.map_congr_left fun entry _ => split entry
  rw [composed, List.nodup_map_iff (append_left_injective start)]

/-- The identifiers of a file's services are all different if and only if the names are
unambiguous. -/
theorem nodup_identifiers_iff (services : List ServiceDescriptor) :
    (services.flatMap (cIdentifiers pkg)).Nodup ↔ Unambiguous services := by
  rw [(identifiers_perm pkg services).nodup_iff, List.nodup_append, nodup_worded_iff,
    nodup_of_part (cPrefix_eq pkg), nodup_of_part (stem_eq pkg)]
  constructor
  · rintro ⟨⟨serviceNames, methodNames⟩, _, apart⟩
    have unary : ∀ rpc ∈ rpcs services, rpc.2.serverStreaming = false →
        stem pkg rpc ∈ bare pkg services := fun rpc listed isUnary =>
      List.mem_map_of_mem (List.mem_filter.mpr ⟨listed, by simp [isUnary]⟩)
    refine ⟨serviceNames, methodNames, ?_, ?_⟩
    · intro rpc listed isUnary other there word chosen same
      have site : (stem pkg other, word) ∈ worded pkg services :=
        List.mem_append_right _ (List.mem_flatMap.mpr ⟨other, there, List.mem_map_of_mem chosen⟩)
      apply apart _ (List.mem_map_of_mem site) _ (unary rpc listed isUnary)
      rw [withWord, stem_eq, stem_eq, same, String.append_assoc, String.append_assoc,
        String.append_assoc]
    · intro rpc listed isUnary service there word chosen same
      have site : (cPrefix pkg service, word) ∈ worded pkg services :=
        List.mem_append_left _ (List.mem_flatMap.mpr ⟨service, there, List.mem_map_of_mem chosen⟩)
      apply apart _ (List.mem_map_of_mem site) _ (unary rpc listed isUnary)
      rw [withWord, cPrefix_eq, stem_eq, same, String.append_assoc, String.append_assoc,
        String.append_assoc]
  · intro unambiguous
    refine ⟨⟨unambiguous.serviceNames, unambiguous.methodNames⟩, ?_, ?_⟩
    · have stems := (nodup_of_part (stem_eq pkg)).mpr unambiguous.methodNames
      exact stems.sublist (List.Sublist.map _ List.filter_sublist)
    · intro name inWorded other inBare same
      obtain ⟨site, listed, rfl⟩ := List.mem_map.mp inWorded
      obtain ⟨rpc, chosen, rfl⟩ := List.mem_map.mp inBare
      obtain ⟨there, kind⟩ := List.mem_filter.mp chosen
      have isUnary : rpc.2.serverStreaming = false := by simpa using kind
      rcases List.mem_append.mp listed with table | helper
      · obtain ⟨service, here, listed⟩ := List.mem_flatMap.mp table
        obtain ⟨word, chosen, rfl⟩ := List.mem_map.mp listed
        apply unambiguous.tableNames rpc there isUnary service here word chosen
        apply append_left_injective (packagePart pkg)
        simp only [withWord, cPrefix_eq, stem_eq] at same
        simp only [← same, String.append_assoc]
      · obtain ⟨method, here, listed⟩ := List.mem_flatMap.mp helper
        obtain ⟨word, chosen, rfl⟩ := List.mem_map.mp listed
        apply unambiguous.helperNames rpc there isUnary method here word chosen
        apply append_left_injective (packagePart pkg)
        simp only [withWord, stem_eq] at same
        simp only [← same, String.append_assoc]

theorem generateFileC_identifiers {file : FileDescriptor} {stubs : CStubs}
    (generated : generateFileC file = .ok stubs) :
    stubs.identifiers = file.services.flatMap (cIdentifiers file.package) := by
  unfold generateFileC at generated
  split at generated
  · simp at generated
  · obtain ⟨services, looped, done⟩ := Fallible.bind_eq_ok_iff.mp generated
    have each : services = file.services.map (cIdentifiers file.package) := by
      refine Fallible.mapM_eq_ok (fun service identifiers emitted => ?_) looped
      unfold serviceIdentifiers at emitted
      split at emitted
      · simp at emitted
      · exact (Except.ok.inj emitted).symm
    rw [← Except.ok.inj done, each, List.flatMap_def]

/-- The identifiers that the C mode defines for a file are pairwise distinct if and only if
its names are unambiguous. -/
theorem c_identifiers_distinct_iff {file : FileDescriptor} {stubs : CStubs}
    (generated : generateFileC file = .ok stubs) :
    stubs.identifiers.Nodup ↔ Unambiguous file.services := by
  rw [generateFileC_identifiers generated]
  exact nodup_identifiers_iff file.package file.services

/-- Two services whose methods have the same name. -/
def edgeFile : FileDescriptor where
  name := "edge.proto"
  package := "ble.v1"
  services := [⟨"First", [⟨"Echo", false, false⟩]⟩,
    ⟨"Second", [⟨"Echo", false, false⟩, ⟨"Scan", false, true⟩]⟩]

theorem c_identifiers_distinct_for_two_services :
    ∃ stubs, generateFileC edgeFile = .ok stubs ∧
      "ble_v1_Second_Scan_next" ∈ stubs.identifiers ∧ stubs.identifiers.Nodup := by
  have names : Unambiguous edgeFile.services := ⟨by decide, by decide, by decide, by decide⟩
  exact ⟨_, rfl, by decide, (@c_identifiers_distinct_iff edgeFile _ rfl).mpr names⟩

/-- A unary method that is named like the helper of another one, and a method whose name
continues the name of another service. -/
theorem c_identifiers_clash :
    (∃ stubs, generateFileC ⟨"echo.proto", "", [⟨"Echo",
        [⟨"Say", false, false⟩, ⟨"Say_respond", false, false⟩]⟩]⟩ = .ok stubs ∧
      1 < stubs.identifiers.count "Echo_Say_respond") ∧
    ∃ stubs, generateFileC ⟨"echo.proto", "", [⟨"A", [⟨"B_C", false, false⟩]⟩,
        ⟨"A_B", [⟨"C", false, false⟩]⟩]⟩ = .ok stubs ∧
      1 < stubs.identifiers.count "A_B_C" :=
  ⟨⟨_, rfl, by decide⟩, ⟨_, rfl, by decide⟩⟩

end GrpcUds.Codegen
