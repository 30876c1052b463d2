import GrpcUds.Codegen.CNames

/-!
# Explicit specializations in the generated C++

A `.grpc.pb.cc` file defines `ServerWriter<T>::Write` for each response type of a streaming
method and `UnaryResponder<T>::Respond` for each of a unary one.  The types are collected
file by file, and the definitions are global: the plugin run as a whole has to define each of
them once.
-/

namespace GrpcUds.Codegen

structure TypedMethod extends MethodDescriptor where
  outputType : String
  deriving DecidableEq

structure TypedService where
  name : String
  methods : List TypedMethod
  deriving DecidableEq

structure ProtoFile where
  name : String
  package : String
  services : List TypedService
  deriving DecidableEq

/-- The service without the types of its methods. -/
def TypedService.untyped (service : TypedService) : ServiceDescriptor :=
  ⟨service.name, service.methods.map TypedMethod.toMethodDescriptor⟩

def ProtoFile.untyped (proto : ProtoFile) : FileDescriptor :=
  ⟨proto.name, proto.package, proto.services.map TypedService.untyped⟩

inductive Template where
  | serverWriter
  | unaryResponder
  deriving DecidableEq

/-- `ServerWriter<T>::Write` or `UnaryResponder<T>::Respond`. -/
structure Specialization where
  template : Template
  response : String
  deriving DecidableEq

/-- What is kept of a generated file: the specializations that it defines and those that its
code calls. -/
structure ResponseFile where
  name : String
  defines : List Specialization
  needs : List Specialization
  deriving DecidableEq

def pushNew (out : List String) (resp : String) : List String :=
  if out.contains resp then out else out ++ [resp]

def collectRespTypes (services : List TypedService) (pkg : String) (serverStreaming : Bool) :
    List String :=
  services.foldl (fun out service =>
    service.methods.foldl (fun out method =>
      if method.serverStreaming == serverStreaming then
        pushNew out (qualifiedType method.outputType pkg)
      else out) out) []

/-- `write_method_decl`: the default of the deferred unary variant calls `Respond`. -/
def declNeeds (pkg : String) (method : TypedMethod) : List Specialization :=
  if method.serverStreaming then []
  else [⟨.unaryResponder, qualifiedType method.outputType pkg⟩]

/-- `write_method_trampoline`: the object that is passed to the handler. -/
def trampolineNeeds (pkg : String) (method : TypedMethod) : List Specialization :=
  if method.serverStreaming then [⟨.serverWriter, qualifiedType method.outputType pkg⟩]
  else [⟨.unaryResponder, qualifiedType method.outputType pkg⟩]

def ProtoFile.header (proto : ProtoFile) (base : String) : ResponseFile where
  name := base ++ ".grpc.pb.h"
  defines := []
  needs := proto.services.flatMap fun service => service.methods.flatMap (declNeeds proto.package)

def ProtoFile.source (proto : ProtoFile) (base : String) : ResponseFile where
  name := base ++ ".grpc.pb.cc"
  defines :=
    (collectRespTypes proto.services proto.package true).map (Specialization.mk .serverWriter) ++
    (collectRespTypes proto.services proto.package false).map (Specialization.mk .unaryResponder)
  needs :=
    proto.services.flatMap fun service => service.methods.flatMap (trampolineNeeds proto.package)

/-- `generate_file`. -/
def ProtoFile.generateFile (proto : ProtoFile) : Except String (ResponseFile × ResponseFile) :=
  match stripProto proto.name with
  | none => .error ("file name does not end in .proto: " ++ proto.name)
  | some base =>
      match proto.services.findSome? (fun service => refused checkCpp service.untyped) with
      | some error => .error error
      | none => .ok (proto.header base, proto.source base)

/-- `generate_file_c`; the generated C has no specializations. -/
def ProtoFile.generateFileC (proto : ProtoFile) : Except String (ResponseFile × ResponseFile) :=
  (Codegen.generateFileC proto.untyped).map fun stubs =>
    (⟨stubs.headerName, [], []⟩, ⟨stubs.sourceName, [], []⟩)

structure CodeGeneratorRequest where
  fileToGenerate : List String
  parameter : String
  protoFile : List ProtoFile

structure CodeGeneratorResponse where
  files : List ResponseFile
  error : Option String
  deriving DecidableEq

/-- White space for `trim`. -/
def isRustWhitespace (c : Char) : Bool :=
  (9 ≤ c.toNat && c.toNat ≤ 13) || (0x2000 ≤ c.toNat && c.toNat ≤ 0x200A) ||
    [0x20, 0x85, 0xA0, 0x1680, 0x2028, 0x2029, 0x202F, 0x205F, 0x3000].contains c.toNat

def trim (chars : List Char) : List Char :=
  ((chars.dropWhile isRustWhitespace).reverse.dropWhile isRustWhitespace).reverse

def CodeGeneratorRequest.cMode (request : CodeGeneratorRequest) : Bool :=
  (request.parameter.toList.splitOn ',').any fun opt => trim opt == ['c']

/-- The loop over the files of the request; it ends at the first error. -/
def generateEach (want : List String)
    (generate : ProtoFile → Except String (ResponseFile × ResponseFile)) :
    List ProtoFile → CodeGeneratorResponse → CodeGeneratorResponse
  | [], response => response
  | proto :: rest, response =>
      if ¬ want.contains proto.name then generateEach want generate rest response
      else if proto.services.isEmpty then generateEach want generate rest response
      else
        match generate proto with
        | .ok (header, source) =>
            generateEach want generate rest
              { response with files := response.files ++ [header, source] }
        | .error error => { response with error := some (proto.name ++ ": " ++ error) }

/-- `main`, between parsing the request and writing the response. -/
def CodeGeneratorRequest.respond (request : CodeGeneratorRequest) : CodeGeneratorResponse :=
  generateEach request.fileToGenerate
    (if request.cMode then ProtoFile.generateFileC else ProtoFile.generateFile)
    request.protoFile ⟨[], none⟩

/-- Nothing is defined twice and nothing that is called is undefined. -/
structure DefinedOnce (files : List ResponseFile) : Prop where
  atMostOnce : (files.flatMap ResponseFile.defines).Nodup
  everyNeed : ∀ need ∈ files.flatMap ResponseFile.needs, need ∈ files.flatMap ResponseFile.defines

/-! ### The files of a response -/

/-- The files for which code is emitted. -/
def emittedFiles (want : List String) (protos : List ProtoFile) : List ProtoFile :=
  protos.filter fun proto => want.contains proto.name && !proto.services.isEmpty

/-- A loop without an error emits a pair for each wanted file that has services. -/
theorem generateEach_files {want : List String}
    {generate : ProtoFile → Except String (ResponseFile × ResponseFile)}
    {protos : List ProtoFile} {response : CodeGeneratorResponse}
    (accepted : (generateEach want generate protos response).error = none) :
    ∃ pairs, (emittedFiles want protos).mapM generate = .ok pairs ∧
      (generateEach want generate protos response).files =
        response.files ++ pairs.flatMap fun pair => [pair.1, pair.2] := by
  induction protos generalizing response with
  | nil => exact ⟨[], rfl, by simp [generateEach]⟩
  | cons proto rest ih =>
      unfold generateEach at accepted ⊢
      split at accepted
      case isTrue unwanted =>
        have skipped : emittedFiles want (proto :: rest) = emittedFiles want rest :=
          List.filter_cons_of_neg fun chosen => unwanted (Bool.and_eq_true_iff.mp chosen).1
        rw [if_pos unwanted, skipped]
        exact ih accepted
      case isFalse wanted =>
        rw [if_neg wanted]
        split at accepted
        case isTrue empty =>
          have skipped : emittedFiles want (proto :: rest) = emittedFiles want rest :=
            List.filter_cons_of_neg (by simp [empty])
          rw [if_pos empty, skipped]
          exact ih accepted
        case isFalse services =>
          have emitted : emittedFiles want (proto :: rest) = proto :: emittedFiles want rest := by
            apply List.filter_cons_of_pos
            simpa [services] using wanted
          rw [if_neg services, emitted, List.mapM_cons]
          cases generated : generate proto with
          | error error => simp [generated] at accepted
          | ok pair =>
              rw [generated] at accepted
              obtain ⟨pairs, looped, files⟩ := ih accepted
              refine ⟨pair :: pairs, by simp [looped, pure, Except.pure, bind, Except.bind], ?_⟩
              rw [files]
              simp

theorem generateFile_eq_ok {proto : ProtoFile} {pair : ResponseFile × ResponseFile}
    (generated : proto.generateFile = .ok pair) :
    pair = (proto.header ((stripProto proto.name).getD proto.name),
      proto.source ((stripProto proto.name).getD proto.name)) := by
  unfold ProtoFile.generateFile at generated
  cases stripped : stripProto proto.name with
  | none => simp [stripped] at generated
  | some base =>
      simp only [stripped] at generated
      split at generated
      · simp at generated
      · exact (Except.ok.inj generated).symm

/-! ### The types of one file -/

/-- The list of the items, each of them once. -/
structure Collected (out items : List String) : Prop where
  nodup : out.Nodup
  same : ∀ item, item ∈ out ↔ item ∈ items

theorem Collected.pushNew {out items : List String} (collected : Collected out items)
    (resp : String) : Collected (pushNew out resp) (items ++ [resp]) := by
  unfold Codegen.pushNew
  split
  case isTrue present =>
    refine ⟨collected.nodup, fun item => ?_⟩
    have listed : resp ∈ items := (collected.same resp).mp (by simpa using present)
    rw [collected.same, List.mem_append, List.mem_singleton]
    exact ⟨.inl, fun either => either.elim id fun same => same ▸ listed⟩
  case isFalse absent =>
    refine ⟨?_, fun item => ?_⟩
    · rw [List.nodup_append]
      refine ⟨collected.nodup, by simp, ?_⟩
      intro item listed other isResp same
      rw [List.mem_singleton.mp isResp] at same
      exact absent (by simpa using same ▸ listed)
    · rw [List.mem_append, List.mem_append, collected.same]

/-- The response types of the methods of one flavor, with repetitions. -/
def respTypes (pkg : String) (serverStreaming : Bool) (methods : List TypedMethod) : List String :=
  (methods.filter fun method => method.serverStreaming == serverStreaming).map
    fun method => qualifiedType method.outputType pkg

theorem collected_methods {out items : List String} (collected : Collected out items)
    (pkg : String) (serverStreaming : Bool) (methods : List TypedMethod) :
    Collected (methods.foldl (fun out method =>
      if method.serverStreaming == serverStreaming then
        pushNew out (qualifiedType method.outputType pkg)
      else out) out) (items ++ respTypes pkg serverStreaming methods) := by
  induction methods generalizing out items with
  | nil => simpa [respTypes] using collected
  | cons method rest ih =>
      rw [List.foldl_cons]
      split
      case isTrue chosen =>
        have later := ih (collected.pushNew (qualifiedType method.outputType pkg))
        have kept : respTypes pkg serverStreaming (method :: rest) =
            [qualifiedType method.outputType pkg] ++ respTypes pkg serverStreaming rest := by
          rw [respTypes, List.filter_cons, if_pos chosen]
          rfl
        rwa [kept, ← List.append_assoc]
      case isFalse other =>
        have dropped : respTypes pkg serverStreaming (method :: rest) =
            respTypes pkg serverStreaming rest := by
          rw [respTypes, List.filter_cons, if_neg other]
          rfl
        rw [dropped]
        exact ih collected

theorem collected_services {out items : List String} (collected : Collected out items)
    (pkg : String) (serverStreaming : Bool) (services : List TypedService) :
    Collected (services.foldl (fun out service =>
      service.methods.foldl (fun out method =>
        if method.serverStreaming == serverStreaming then
          pushNew out (qualifiedType method.outputType pkg)
        else out) out) out)
      (items ++ services.flatMap fun service => respTypes pkg serverStreaming service.methods) := by
  induction services generalizing out items with
  | nil => simpa using collected
  | cons service rest ih =>
      have later := ih
        (collected_methods collected pkg serverStreaming service.methods)
      rw [List.append_assoc] at later
      exact later

/-- All methods of a file. -/
def ProtoFile.methods (proto : ProtoFile) : List TypedMethod :=
  proto.services.flatMap TypedService.methods

theorem mem_collectRespTypes_iff {proto : ProtoFile} {serverStreaming : Bool} {resp : String} :
    resp ∈ collectRespTypes proto.services proto.package serverStreaming ↔
      ∃ method ∈ proto.methods, method.serverStreaming = serverStreaming ∧
        qualifiedType method.outputType proto.package = resp := by
  rw [collectRespTypes, (collected_services ⟨List.nodup_nil, fun _ => .rfl⟩ _ _ _).same]
  simp only [List.nil_append, List.mem_flatMap, respTypes, List.mem_map, List.mem_filter,
    ProtoFile.methods, beq_iff_eq]
  constructor
  · rintro ⟨service, listed, method, ⟨here, kind⟩, named⟩
    exact ⟨method, ⟨service, listed, here⟩, kind, named⟩
  · rintro ⟨method, ⟨service, listed, here⟩, kind, named⟩
    exact ⟨service, listed, method, ⟨here, kind⟩, named⟩

theorem nodup_collectRespTypes (services : List TypedService) (pkg : String)
    (serverStreaming : Bool) : (collectRespTypes services pkg serverStreaming).Nodup :=
  (collected_services ⟨List.nodup_nil, fun _ => .rfl⟩ pkg serverStreaming services).nodup

/-- The specialization that a method calls. -/
def TypedMethod.needs (pkg : String) (method : TypedMethod) : Specialization :=
  ⟨if method.serverStreaming then .serverWriter else .unaryResponder,
    qualifiedType method.outputType pkg⟩

theorem source_nodup (proto : ProtoFile) (base : String) : (proto.source base).defines.Nodup := by
  have injective : ∀ template, Function.Injective (Specialization.mk template) :=
    fun _ _ _ same => congrArg Specialization.response same
  refine List.nodup_append.mpr ⟨(nodup_collectRespTypes _ _ _).map (injective _),
    (nodup_collectRespTypes _ _ _).map (injective _), ?_⟩
  intro writer isWriter responder isResponder same
  obtain ⟨_, _, rfl⟩ := List.mem_map.mp isWriter
  obtain ⟨_, _, rfl⟩ := List.mem_map.mp isResponder
  exact absurd (congrArg Specialization.template same) (by simp)

theorem mem_source_iff {proto : ProtoFile} {base : String} {spec : Specialization} :
    spec ∈ (proto.source base).defines ↔
      ∃ method ∈ proto.methods, method.needs proto.package = spec := by
  simp only [ProtoFile.source, List.mem_append, List.mem_map, mem_collectRespTypes_iff]
  constructor
  · rintro (⟨_, ⟨method, listed, kind, rfl⟩, rfl⟩ | ⟨_, ⟨method, listed, kind, rfl⟩, rfl⟩)
    · exact ⟨method, listed, by simp [TypedMethod.needs, kind]⟩
    · exact ⟨method, listed, by simp [TypedMethod.needs, kind]⟩
  · rintro ⟨method, listed, rfl⟩
    cases kind : method.serverStreaming with
    | true => exact .inl ⟨_, ⟨method, listed, kind, rfl⟩, by simp [TypedMethod.needs, kind]⟩
    | false => exact .inr ⟨_, ⟨method, listed, kind, rfl⟩, by simp [TypedMethod.needs, kind]⟩

/-- What the code of a file calls is what one of its methods calls. -/
theorem needs_of_methods {proto : ProtoFile} {base : String} {need : Specialization}
    (needed : need ∈ (proto.header base).needs ∨ need ∈ (proto.source base).needs) :
    ∃ method ∈ proto.methods, method.needs proto.package = need := by
  simp only [ProtoFile.header, ProtoFile.source, List.mem_flatMap] at needed
  rcases needed with ⟨service, listed, method, here, called⟩ |
    ⟨service, listed, method, here, called⟩
  · refine ⟨method, List.mem_flatMap.mpr ⟨service, listed, here⟩, ?_⟩
    cases kind : method.serverStreaming with
    | true => simp [declNeeds, kind] at called
    | false => simpa [TypedMethod.needs, declNeeds, kind, eq_comm] using called
  · refine ⟨method, List.mem_flatMap.mpr ⟨service, listed, here⟩, ?_⟩
    cases kind : method.serverStreaming with
    | true => simpa [TypedMethod.needs, trampolineNeeds, kind, eq_comm] using called
    | false => simpa [TypedMethod.needs, trampolineNeeds, kind, eq_comm] using called

/-! ### The types of a request -/

/-- No two files have methods of one flavor with the same response type. -/
def Separate (protos : List ProtoFile) : Prop :=
  protos.Pairwise fun first second => ∀ method ∈ first.methods, ∀ other ∈ second.methods,
    method.serverStreaming = other.serverStreaming →
      qualifiedType method.outputType first.package ≠ qualifiedType other.outputType second.package

theorem needs_eq_iff {pkg otherPkg : String} {method other : TypedMethod} :
    method.needs pkg = other.needs otherPkg ↔ method.serverStreaming = other.serverStreaming ∧
      qualifiedType method.outputType pkg = qualifiedType other.outputType otherPkg := by
  rw [TypedMethod.needs, TypedMethod.needs, Specialization.mk.injEq]
  cases method.serverStreaming <;> cases other.serverStreaming <;> simp

/-- The definitions of all files, where every file has its own name. -/
theorem nodup_sources_iff (protos : List ProtoFile) (base : ProtoFile → String) :
    (protos.flatMap fun proto => (proto.source (base proto)).defines).Nodup ↔ Separate protos := by
  rw [List.nodup_flatMap]
  constructor
  · rintro ⟨_, apart⟩
    refine apart.imp fun {first second} disjoint method listed other there kind same => ?_
    apply disjoint (mem_source_iff.mpr ⟨method, listed, rfl⟩)
    exact mem_source_iff.mpr ⟨other, there, needs_eq_iff.mpr ⟨kind.symm, same.symm⟩⟩
  · intro separate
    refine ⟨fun proto _ => source_nodup proto _, ?_⟩
    refine separate.imp fun {first second} apart spec inFirst inSecond => ?_
    obtain ⟨method, listed, rfl⟩ := mem_source_iff.mp inFirst
    obtain ⟨other, there, same⟩ := mem_source_iff.mp inSecond
    obtain ⟨kind, types⟩ := needs_eq_iff.mp same
    exact apart method listed other there kind.symm types.symm

/-- An accepted request in C++ mode leads to one definition of each specialization if and only
if the files share no response type of one flavor. -/
theorem specializations_defined_once_iff {request : CodeGeneratorRequest}
    (cpp : request.cMode = false) (accepted : request.respond.error = none) :
    DefinedOnce request.respond.files ↔
      Separate (emittedFiles request.fileToGenerate request.protoFile) := by
  let base := fun proto : ProtoFile => (stripProto proto.name).getD proto.name
  obtain ⟨pairs, generated, files⟩ := generateEach_files accepted
  simp only [cpp, Bool.false_eq_true, if_false] at generated
  have pairs_eq := Fallible.mapM_eq_ok (fun _ _ => generateFile_eq_ok) generated
  have emitted : request.respond.files =
      (emittedFiles request.fileToGenerate request.protoFile).flatMap
        fun proto => [proto.header (base proto), proto.source (base proto)] := by
    rw [CodeGeneratorRequest.respond, files, pairs_eq, List.flatMap_map]
    rfl
  have defines : request.respond.files.flatMap ResponseFile.defines =
      (emittedFiles request.fileToGenerate request.protoFile).flatMap
        fun proto => (proto.source (base proto)).defines := by
    rw [emitted, List.flatMap_assoc]
    simp [ProtoFile.header]
  rw [← nodup_sources_iff _ base, ← defines]
  refine ⟨DefinedOnce.atMostOnce, fun once => ⟨once, ?_⟩⟩
  intro need needed
  rw [emitted, List.flatMap_assoc] at needed
  obtain ⟨proto, listed, called⟩ := List.mem_flatMap.mp needed
  have either : need ∈ (proto.header (base proto)).needs ∨
      need ∈ (proto.source (base proto)).needs := by simpa using called
  rw [defines]
  exact List.mem_flatMap.mpr ⟨proto, listed, mem_source_iff.mpr (needs_of_methods either)⟩

/-- Two files with a service each; their methods answer with the two given types. -/
def twoFiles (firstResponse secondResponse : String) : CodeGeneratorRequest where
  fileToGenerate := ["a.proto", "b.proto"]
  parameter := ""
  protoFile :=
    [⟨"a.proto", "pkg", [⟨"A", [⟨⟨"Stop", false, false⟩, firstResponse⟩,
        ⟨⟨"Watch", false, true⟩, firstResponse⟩]⟩]⟩,
      ⟨"b.proto", "pkg", [⟨"B", [⟨⟨"Stop", false, false⟩, secondResponse⟩]⟩]⟩]

theorem specializations_defined_once_for_own_types :
    DefinedOnce (twoFiles ".pkg.AReply" ".pkg.BReply").respond.files := by
  have separate : Separate (emittedFiles (twoFiles ".pkg.AReply" ".pkg.BReply").fileToGenerate
      (twoFiles ".pkg.AReply" ".pkg.BReply").protoFile) := by
    unfold Separate
    decide
  exact (specializations_defined_once_iff (by decide) (by decide)).mpr separate

/-- Two files whose unary methods answer with the same imported type. -/
theorem specialization_defined_twice :
    ∃ request : CodeGeneratorRequest, request.cMode = false ∧ request.respond.error = none ∧
      ¬ DefinedOnce request.respond.files := by
  refine ⟨twoFiles ".common.Empty" ".common.Empty", by decide, by decide, fun once => ?_⟩
  exact absurd once.atMostOnce (by decide)

end GrpcUds.Codegen
