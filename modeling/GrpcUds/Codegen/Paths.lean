import Mathlib.Data.List.Basic

/-!
# Method paths in generated code

Three generators turn a service descriptor into server code that registers methods and
client code that calls them: `protoc-gen-grpcudspp` in its C++ and its C mode, and
`grpcuds-build`.  Each emission site builds the path string by itself.  What is kept of
the generated text is the paths, with the kind of method they are used for.
-/

namespace GrpcUds.Codegen

structure MethodDescriptor where
  name : String
  clientStreaming : Bool
  serverStreaming : Bool
  deriving DecidableEq

structure ServiceDescriptor where
  name : String
  methods : List MethodDescriptor
  deriving DecidableEq

/-- A path in the generated text, and whether it stands in a streaming call. -/
structure PathUse where
  path : String
  serverStreaming : Bool
  deriving DecidableEq

/-- What one generator emits for a service. -/
structure Emitted where
  server : List PathUse
  client : List PathUse
  deriving DecidableEq

/-- The path that gRPC gives a method. -/
def methodPath (pkg : String) (service : ServiceDescriptor) (method : MethodDescriptor) :
    String :=
  if pkg = "" then "/" ++ service.name ++ "/" ++ method.name
  else "/" ++ pkg ++ "." ++ service.name ++ "/" ++ method.name

/-- Server and client code with the path of each method. -/
def expectedPaths (pkg : String) (service : ServiceDescriptor) : Emitted :=
  let uses := service.methods.map fun method =>
    ⟨methodPath pkg service method, method.serverStreaming⟩
  ⟨uses, uses⟩

/-! ### protoc-gen-grpcudspp -/

/-- The `full` of every emission site of the plugin. -/
def fullName (pkg : String) (service : ServiceDescriptor) : String :=
  if pkg.isEmpty then service.name else pkg ++ "." ++ service.name

def unsupported (method : MethodDescriptor) : String :=
  "method " ++ method.name ++ ": client-streaming RPCs are not supported"

/-- One site: a loop over the methods that writes `/{full}/{name}`. -/
def pluginPaths (full : String) (methods : List MethodDescriptor) : List PathUse :=
  methods.map fun method => ⟨"/" ++ full ++ "/" ++ method.name, method.serverStreaming⟩

/-- The first method of a service that a check refuses. -/
def refused (check : MethodDescriptor → Option String) (service : ServiceDescriptor) :
    Option String :=
  service.methods.findSome? check

/-- `write_method_decl` refuses client streaming. -/
def checkCpp (method : MethodDescriptor) : Option String :=
  if method.clientStreaming then some (unsupported method) else none

/-- `write_stub_header`. -/
def writeStubHeader (pkg : String) (service : ServiceDescriptor) : List PathUse :=
  pluginPaths (fullName pkg service) service.methods

/-- `write_service_source`. -/
def writeServiceSource (pkg : String) (service : ServiceDescriptor) : List PathUse :=
  pluginPaths (fullName pkg service) service.methods

/-- The C++ mode. -/
def generateFile (pkg : String) (service : ServiceDescriptor) : Except String Emitted :=
  match refused checkCpp service with
  | some error => .error error
  | none => .ok ⟨writeServiceSource pkg service, writeStubHeader pkg service⟩

/-- The method names that the generated C cannot have. -/
def cReserved : List String :=
  ["auto", "break", "case", "char", "const", "continue", "default", "do", "double", "else",
    "enum", "extern", "float", "for", "goto", "if", "inline", "int", "long", "register",
    "restrict", "return", "short", "signed", "sizeof", "static", "struct", "switch", "typedef",
    "union", "unsigned", "void", "volatile", "while", "_Bool", "_Atomic", "_Complex",
    "_Imaginary", "_Generic", "_Noreturn", "_Static_assert", "_Thread_local", "_Alignas",
    "_Alignof", "bool", "true", "false", "NULL", "user_data", "service"]

def checkC (method : MethodDescriptor) : Option String :=
  if method.clientStreaming then some (unsupported method)
  else if method.name ∈ cReserved ∨ method.name.toList.head? = some '_' then
    some ("method " ++ method.name ++ ": the name is reserved in the generated C surface " ++
      "(C keyword, standard macro, leading underscore, or generator-occupied identifier)")
  else none

/-- `write_c_service`: the client wrappers and the registration. -/
def writeCService (pkg : String) (service : ServiceDescriptor) : Except String Emitted :=
  match refused checkC service with
  | some error => .error error
  | none =>
      let full := fullName pkg service
      .ok ⟨pluginPaths full service.methods, pluginPaths full service.methods⟩

/-! ### grpcuds-build -/

/-- One site of the Rust generator: a loop that writes `/{package}.{service}/{method}`. -/
def buildPaths (pkg : String) (service : ServiceDescriptor) : List PathUse :=
  service.methods.map fun method =>
    ⟨"/" ++ pkg ++ "." ++ service.name ++ "/" ++ method.name, method.serverStreaming⟩

def checkBuild (pkg : String) (service : ServiceDescriptor) (method : MethodDescriptor) :
    Option String :=
  if method.clientStreaming then
    some ("grpcuds supports unary and server-streaming RPCs only; " ++ pkg ++ "." ++
      service.name ++ "/" ++ method.name ++ " is client-streaming or bidirectional")
  else none

/-- `generate_client`. -/
def generateClient (pkg : String) (service : ServiceDescriptor) : List PathUse :=
  buildPaths pkg service

/-- `GrpcUdsGenerator::generate` with both halves on; its panic is an error here. -/
def generate (pkg : String) (service : ServiceDescriptor) : Except String Emitted :=
  match refused (checkBuild pkg service) service with
  | some error => .error error
  | none => .ok ⟨buildPaths pkg service, generateClient pkg service⟩

/-! ### The paths agree -/

/-- Every method is unary or server-streaming. -/
def ServiceDescriptor.supported (service : ServiceDescriptor) : Bool :=
  service.methods.all fun method => !method.clientStreaming

variable {service : ServiceDescriptor}

theorem refused_of_supported {check : MethodDescriptor → Option String}
    (supported : service.supported = true)
    (lenient : ∀ method, method.clientStreaming = false → check method = none) :
    refused check service = none := by
  apply List.findSome?_eq_none_iff.mpr
  intro method membership
  have unary := List.all_eq_true.mp supported method membership
  exact lenient method (by simpa using unary)

/-- The plugin's sites write the expected paths. -/
theorem pluginPaths_eq (pkg : String) (service : ServiceDescriptor) :
    pluginPaths (fullName pkg service) service.methods =
      service.methods.map fun method =>
        ⟨methodPath pkg service method, method.serverStreaming⟩ := by
  apply List.map_congr_left
  intro method _
  unfold fullName methodPath
  by_cases empty : pkg = ""
  · simp [empty]
  · simp [empty, String.append_assoc]

theorem generateFile_eq {pkg : String} (supported : service.supported = true) :
    generateFile pkg service = .ok (expectedPaths pkg service) := by
  have accepted : refused checkCpp service = none :=
    refused_of_supported supported fun method unary => by simp [checkCpp, unary]
  unfold generateFile
  rw [accepted]
  simp only [writeServiceSource, writeStubHeader, pluginPaths_eq, expectedPaths]

theorem writeCService_eq {pkg : String} {emitted : Emitted}
    (generated : writeCService pkg service = .ok emitted) :
    emitted = expectedPaths pkg service := by
  unfold writeCService at generated
  split at generated
  · simp at generated
  · simp only [pluginPaths_eq, Except.ok.injEq] at generated
    exact generated.symm

/-- Without a package the Rust generator writes one byte more. -/
theorem buildPaths_eq_iff (pkg : String) (service : ServiceDescriptor) :
    buildPaths pkg service = (expectedPaths pkg service).server ↔
      pkg ≠ "" ∨ service.methods = [] := by
  constructor
  · intro same
    by_contra neither
    obtain ⟨empty, some_⟩ := not_or.mp neither
    obtain rfl := not_not.mp empty
    obtain ⟨method, rest, shape⟩ := List.exists_cons_of_ne_nil some_
    simp only [buildPaths, expectedPaths, shape, List.map_cons, List.cons.injEq,
      PathUse.mk.injEq, methodPath] at same
    have lengths := congrArg String.length same.1.1
    have dot : ".".length = 1 := by decide
    simp only [if_true, String.length_append, dot] at lengths
    omega
  · rintro (named | none)
    · apply List.map_congr_left
      intro method _
      simp [methodPath, named]
    · simp [buildPaths, expectedPaths, none]

theorem generate_eq_iff {pkg : String} (supported : service.supported = true) :
    generate pkg service = .ok (expectedPaths pkg service) ↔
      pkg ≠ "" ∨ service.methods = [] := by
  have accepted : refused (checkBuild pkg service) service = none :=
    refused_of_supported supported fun method unary => by simp [checkBuild, unary]
  rw [← buildPaths_eq_iff]
  unfold generate
  rw [accepted]
  simp only [generateClient, Except.ok.injEq]
  constructor
  · intro same
    exact congrArg Emitted.server same
  · intro same
    have both : (expectedPaths pkg service).client = (expectedPaths pkg service).server := rfl
    simp only [same]
    exact congrArg (Emitted.mk _) both.symm

/-- For every service of unary and server-streaming methods, the three generators emit
exactly the expected paths in server and client code if and only if the service has a
package (or no method).  The C mode emits nothing for method names it reserves. -/
theorem generated_paths_agree_iff {pkg : String} {service : ServiceDescriptor}
    (supported : service.supported = true) :
    (generateFile pkg service = .ok (expectedPaths pkg service) ∧
      (∀ emitted, writeCService pkg service = .ok emitted →
        emitted = expectedPaths pkg service) ∧
      generate pkg service = .ok (expectedPaths pkg service)) ↔
    pkg ≠ "" ∨ service.methods = [] := by
  rw [← generate_eq_iff supported]
  constructor
  · rintro ⟨_, _, built⟩
    exact built
  · intro built
    exact ⟨generateFile_eq supported, fun emitted generated => writeCService_eq generated, built⟩

/-- All six sites write `/ble.BleService/Init`. -/
theorem generated_paths_agree_with_package :
    let service : ServiceDescriptor := ⟨"BleService", [⟨"Init", false, false⟩]⟩
    (expectedPaths "ble" service).server = [⟨"/ble.BleService/Init", false⟩] ∧
      generateFile "ble" service = .ok (expectedPaths "ble" service) ∧
      writeCService "ble" service = .ok (expectedPaths "ble" service) ∧
      generate "ble" service = .ok (expectedPaths "ble" service) := by
  intro service
  have agree := (@generated_paths_agree_iff "ble" service (by decide)).mpr (.inl (by decide))
  exact ⟨by decide, agree.1, by decide, agree.2.2⟩

/-- Without a package the plugin registers `/First/Echo` and the Rust client calls
`/.First/Echo`. -/
theorem generated_paths_differ_without_package :
    let service : ServiceDescriptor := ⟨"First", [⟨"Echo", false, false⟩]⟩
    (∃ emitted, generateFile "" service = .ok emitted ∧
      emitted.server = [⟨"/First/Echo", false⟩]) ∧
    ∃ emitted, generate "" service = .ok emitted ∧
      emitted.client = [⟨"/.First/Echo", false⟩] := by
  intro service
  exact ⟨⟨_, rfl, by decide⟩, ⟨_, rfl, by decide⟩⟩

end GrpcUds.Codegen
