import Mathlib.Data.List.Nodup
import Mathlib.Data.List.Perm.Basic
import GrpcUds.Lib.Fallible

/-!
# The items of the generated Rust

For each service of a package `grpcuds-build` emits a trait, a client struct and a function
that registers the service, all in the package's module.  Their names are built from the
service's CamelCase name.  They and the functions of a client can meet although the names
in the proto are all different.
-/

namespace GrpcUds.Codegen

structure ProstMethod where
  name : String
  protoName : String
  clientStreaming : Bool
  serverStreaming : Bool
  deriving DecidableEq

structure ProstService where
  /-- The CamelCase name. -/
  name : String
  protoName : String
  package : String
  methods : List ProstMethod
  deriving DecidableEq

structure GrpcUdsGenerator where
  server : Bool
  client : Bool
  deriving DecidableEq

/-- What `to_snake` writes for the character at a position. -/
def snakeAt (entry : Char × Nat) : List Char :=
  if entry.1.isUpper then (if 0 < entry.2 then ['_'] else []) ++ [entry.1.toLower] else [entry.1]

def toSnake (text : String) : String := .ofList (text.toList.zipIdx.flatMap snakeAt)

/-- `ends_with("_service")`. -/
def endsInService (snake : String) : Bool := "_service".toList.isSuffixOf snake.toList

/-- The registration function. -/
def addFn (service : ProstService) : String :=
  if endsInService (toSnake service.name) then "add_" ++ toSnake service.name
  else "add_" ++ toSnake service.name ++ "_service"

/-- The functions that every client has. -/
def clientOwned : List String := ["connect", "from_client", "into_inner", "set_timeout"]

/-- The names that are emitted for a service: types and functions of the module, and the
functions of the client. -/
structure RustItems where
  types : List String
  functions : List String
  clientFns : List String
  deriving DecidableEq

/-- `generate_client`. -/
def clientItems (service : ProstService) : RustItems where
  types := [service.name ++ "Client"]
  functions := []
  clientFns := clientOwned ++ service.methods.map ProstMethod.name

/-- The trait and its registration. -/
def serverItems (service : ProstService) : RustItems where
  types := [service.name]
  functions := [addFn service]
  clientFns := []

def RustItems.append (first second : RustItems) : RustItems where
  types := first.types ++ second.types
  functions := first.functions ++ second.functions
  clientFns := first.clientFns ++ second.clientFns

def RustItems.none : RustItems := ⟨[], [], []⟩

def emittedItems (generator : GrpcUdsGenerator) (service : ProstService) : RustItems :=
  (if generator.client then clientItems service else .none).append
    (if generator.server then serverItems service else .none)

/-- `generate`; its panic is an error here. -/
def GrpcUdsGenerator.generate (generator : GrpcUdsGenerator) (service : ProstService) :
    Except String RustItems :=
  match service.methods.find? ProstMethod.clientStreaming with
  | some method =>
      .error ("grpcuds supports unary and server-streaming RPCs only; " ++ service.package ++ "." ++
        service.protoName ++ "/" ++ method.protoName ++ " is client-streaming or bidirectional")
  | none => .ok (emittedItems generator service)

/-- The module of a package. -/
def generatePackage (generator : GrpcUdsGenerator) (services : List ProstService) :
    Except String (List RustItems) :=
  services.mapM generator.generate

/-- No name is there twice in its namespace. -/
structure NamesDistinct (items : List RustItems) : Prop where
  types : (items.flatMap RustItems.types).Nodup
  functions : (items.flatMap RustItems.functions).Nodup
  clientFns : ∀ item ∈ items, item.clientFns.Nodup

/-! ### CamelCase and snake_case -/

/-- No word after an underscore starts with a lower-case letter. -/
def wordsUpper : List Char → Bool
  | c :: d :: rest => !(c == '_' && d.isLower) && wordsUpper (d :: rest)
  | _ => true

/-- No word starts with a lower-case letter. -/
def CamelCase (name : String) : Prop :=
  ∃ c rest, name.toList = c :: rest ∧ c.isLower = false ∧ wordsUpper (c :: rest) = true

/-- What `to_snake` writes for a character that is not the first. -/
def snakeLater (c : Char) : List Char := if c.isUpper then ['_', c.toLower] else [c]

theorem flatMap_snakeAt (chars : List Char) (start : Nat) :
    (chars.zipIdx (start + 1)).flatMap snakeAt = chars.flatMap snakeLater := by
  induction chars generalizing start with
  | nil => rfl
  | cons c rest ih =>
      rw [List.zipIdx_cons, List.flatMap_cons, List.flatMap_cons, ih]
      simp [snakeAt, snakeLater]

theorem toLower_of_not_upper {c : Char} (other : c.isUpper = false) : c.toLower = c :=
  dif_neg (of_decide_eq_false other)

theorem toList_toSnake {name : String} {c : Char} {rest : List Char}
    (spelled : name.toList = c :: rest) :
    (toSnake name).toList = c.toLower :: rest.flatMap snakeLater := by
  rw [toSnake, String.toList_ofList, spelled, List.zipIdx_cons, List.flatMap_cons,
    flatMap_snakeAt]
  cases upper : c.isUpper with
  | true => simp [snakeAt, upper]
  | false => simp [snakeAt, upper, toLower_of_not_upper upper]

/-- The case of a letter is a shift of its code point. -/
theorem upper_code {c : Char} (upper : c.isUpper = true) :
    65 ≤ c.toNat ∧ c.toNat ≤ 90 ∧ c.toLower.toNat = c.toNat + 32 := by
  have range : c.val ≥ 'A'.val ∧ c.val ≤ 'Z'.val := of_decide_eq_true upper
  have low : 65 ≤ c.toNat := UInt32.le_iff_toNat_le.mp range.1
  have high : c.toNat ≤ 90 := UInt32.le_iff_toNat_le.mp range.2
  refine ⟨low, high, ?_⟩
  have shifted : c.toLower.val = c.val + 32 := congrArg Char.val (dif_pos range)
  change c.toLower.val.toNat = c.val.toNat + 32
  rw [shifted, UInt32.toNat_add]
  change c.val.toNat ≤ 90 at high
  apply Nat.mod_eq_of_lt
  change c.val.toNat + 32 < 4294967296
  omega

theorem isLower_toLower {c : Char} (upper : c.isUpper = true) : c.toLower.isLower = true := by
  obtain ⟨low, high, shifted⟩ := upper_code upper
  have least : 97 ≤ c.toLower.toNat := by omega
  have most : c.toLower.toNat ≤ 122 := by omega
  apply Bool.and_eq_true_iff.mpr
  exact ⟨decide_eq_true (UInt32.le_iff_toNat_le.mpr least),
    decide_eq_true (UInt32.le_iff_toNat_le.mpr most)⟩

theorem toLower_inj {c d : Char} (upper : c.isUpper = true) (other : d.isUpper = true)
    (same : c.toLower = d.toLower) : c = d := by
  have codes := congrArg Char.toNat same
  rw [(upper_code upper).2.2, (upper_code other).2.2] at codes
  exact Char.toNat_inj.mp (by omega)

/-- A character that stands for itself, before characters that do not continue it to a word,
is not taken for the start of a word. -/
theorem snake_self_ne_upper {c d : Char} {rest tail : List Char} (self : c.isUpper = false)
    (upper : d.isUpper = true) (words : wordsUpper (c :: rest) = true) :
    c :: rest.flatMap snakeLater ≠ '_' :: d.toLower :: tail := by
  intro same
  obtain ⟨rfl, tails⟩ := List.cons.inj same
  have letter := isLower_toLower upper
  cases rest with
  | nil => simp at tails
  | cons e rest =>
      cases kind : e.isUpper with
      | true =>
          simp only [List.flatMap_cons, snakeLater, kind, if_true, List.cons_append,
            List.cons.injEq] at tails
          rw [← tails.1] at letter
          exact absurd letter (by decide)
      | false =>
          simp only [List.flatMap_cons, snakeLater, kind, Bool.false_eq_true, if_false,
            List.cons_append, List.cons.injEq] at tails
          rw [← tails.1] at letter
          simp [wordsUpper, letter] at words

theorem wordsUpper_tail {c : Char} {rest : List Char} (words : wordsUpper (c :: rest) = true) :
    wordsUpper rest = true := by
  cases rest with
  | nil => rfl
  | cons d rest => exact (Bool.and_eq_true_iff.mp words).2

theorem snakeLater_injective {first second : List Char} (words : wordsUpper first = true)
    (others : wordsUpper second = true)
    (same : first.flatMap snakeLater = second.flatMap snakeLater) : first = second := by
  have nonempty : ∀ c, snakeLater c ≠ [] := by
    intro c
    unfold snakeLater
    split <;> simp
  induction first generalizing second with
  | nil =>
      cases second with
      | nil => rfl
      | cons d rest => exact absurd (List.append_eq_nil_iff.mp same.symm).1 (nonempty d)
  | cons c rest ih =>
      cases second with
      | nil => exact absurd (List.append_eq_nil_iff.mp same).1 (nonempty c)
      | cons d later =>
          have tails : rest.flatMap snakeLater = later.flatMap snakeLater → rest = later :=
            ih (wordsUpper_tail words) (wordsUpper_tail others)
          rw [List.flatMap_cons, List.flatMap_cons] at same
          cases kind : c.isUpper with
          | true =>
              cases other : d.isUpper with
              | true =>
                  simp only [snakeLater, kind, other, if_true, List.cons_append, List.nil_append,
                    List.cons.injEq, true_and] at same
                  rw [toLower_inj kind other same.1, tails same.2]
              | false =>
                  simp only [snakeLater, kind, other, if_true, Bool.false_eq_true, if_false,
                    List.cons_append, List.nil_append] at same
                  exact absurd same.symm (snake_self_ne_upper other kind others)
          | false =>
              cases other : d.isUpper with
              | true =>
                  simp only [snakeLater, kind, other, if_true, Bool.false_eq_true, if_false,
                    List.cons_append, List.nil_append] at same
                  exact absurd same (snake_self_ne_upper kind other words)
              | false =>
                  simp only [snakeLater, kind, other, Bool.false_eq_true, if_false,
                    List.cons_append, List.nil_append, List.cons.injEq] at same
                  rw [same.1, tails same.2]

/-- `to_snake` tells CamelCase names apart. -/
theorem toSnake_injective {first second : String} (camel : CamelCase first)
    (other : CamelCase second) (same : toSnake first = toSnake second) : first = second := by
  obtain ⟨c, rest, spelled, notLower, words⟩ := camel
  obtain ⟨d, later, spelledOther, notLowerOther, others⟩ := other
  have letters := congrArg String.toList same
  rw [toList_toSnake spelled, toList_toSnake spelledOther, List.cons.injEq] at letters
  have heads : c = d := by
    cases kind : c.isUpper with
    | true =>
        cases kindOther : d.isUpper with
        | true => exact toLower_inj kind kindOther letters.1
        | false =>
            have letter := isLower_toLower kind
            rw [letters.1, toLower_of_not_upper kindOther, notLowerOther] at letter
            exact absurd letter (by decide)
    | false =>
        cases kindOther : d.isUpper with
        | true =>
            have letter := isLower_toLower kindOther
            rw [← letters.1, toLower_of_not_upper kind, notLower] at letter
            exact absurd letter (by decide)
        | false =>
            rw [toLower_of_not_upper kind, toLower_of_not_upper kindOther] at letters
            exact letters.1
  have tails := snakeLater_injective (wordsUpper_tail words) (wordsUpper_tail others) letters.2
  apply String.toList_inj.mp
  rw [spelled, spelledOther, heads, tails]

/-! ### Registration functions -/

theorem wordsUpper_append {first second : List Char} (words : wordsUpper first = true)
    (more : wordsUpper second = true) (start : ∀ d ∈ second.head?, d.isLower = false) :
    wordsUpper (first ++ second) = true := by
  induction first with
  | nil => exact more
  | cons c rest ih =>
      have later := ih (wordsUpper_tail words)
      cases rest with
      | nil =>
          cases second with
          | nil => rfl
          | cons d second => simpa [wordsUpper, start d rfl] using more
      | cons d rest =>
          have here := (Bool.and_eq_true_iff.mp words).1
          exact Bool.and_eq_true_iff.mpr ⟨here, later⟩

theorem camelCase_service {name : String} (camel : CamelCase name) :
    CamelCase (name ++ "Service") := by
  obtain ⟨c, rest, spelled, notLower, words⟩ := camel
  refine ⟨c, rest ++ "Service".toList, by rw [String.toList_append, spelled]; rfl, notLower, ?_⟩
  have start : ∀ d ∈ "Service".toList.head?, d.isLower = false := by
    intro d head
    obtain rfl : 'S' = d := Option.some.inj head
    decide
  exact wordsUpper_append words (by decide) start

theorem toSnake_service {name : String} (camel : CamelCase name) :
    toSnake (name ++ "Service") = toSnake name ++ "_service" := by
  obtain ⟨c, rest, spelled, _⟩ := camel
  have longer : (name ++ "Service").toList = c :: (rest ++ "Service".toList) := by
    rw [String.toList_append, spelled]
    rfl
  have word : "Service".toList.flatMap snakeLater = "_service".toList := by decide
  apply String.toList_inj.mp
  rw [toList_toSnake longer, String.toList_append, toList_toSnake spelled, List.flatMap_append,
    word]
  rfl

theorem endsInService_append (snake : String) : endsInService (snake ++ "_service") = true := by
  rw [endsInService, List.isSuffixOf_iff_suffix, String.toList_append]
  exact List.suffix_append _ _

section Registration

variable {service other : ProstService}

/-- A name that ends in the word is registered as one that does not exactly if it is the other
with the word after it. -/
theorem addFn_eq_iff_of_ends (camel : CamelCase service.name) (camelOther : CamelCase other.name)
    (ends : endsInService (toSnake service.name) = true)
    (unended : endsInService (toSnake other.name) = false) :
    addFn service = addFn other ↔ service.name = other.name ++ "Service" := by
  rw [addFn, addFn, if_pos ends, if_neg (by simp [unended]), String.append_assoc,
    String.append_right_inj, ← toSnake_service camelOther]
  exact ⟨toSnake_injective camel (camelCase_service camelOther), congrArg toSnake⟩

theorem endsInService_of_name (camel : CamelCase other.name)
    (named : service.name = other.name ++ "Service") :
    endsInService (toSnake service.name) = true := by
  rw [named, toSnake_service camel]
  exact endsInService_append _

/-- Two services have the same registration function if and only if they have the same name,
or one is named as the other with `Service` after it and the other has no such word yet. -/
theorem addFn_eq_iff (camel : CamelCase service.name) (camelOther : CamelCase other.name) :
    addFn service = addFn other ↔ service.name = other.name ∨
      (endsInService (toSnake other.name) = false ∧ service.name = other.name ++ "Service") ∨
      (endsInService (toSnake service.name) = false ∧ other.name = service.name ++ "Service") := by
  cases ends : endsInService (toSnake service.name) with
  | true =>
      cases endsOther : endsInService (toSnake other.name) with
      | true =>
          rw [addFn, addFn, if_pos ends, if_pos endsOther, String.append_right_inj]
          simp only [Bool.true_eq_false, false_and, or_false]
          exact ⟨toSnake_injective camel camelOther, congrArg toSnake⟩
      | false =>
          rw [addFn_eq_iff_of_ends camel camelOther ends endsOther]
          constructor
          · exact fun named => .inr (.inl ⟨rfl, named⟩)
          · rintro (same | ⟨_, named⟩ | ⟨absurd, _⟩)
            · rw [same, endsOther] at ends
              simp at ends
            · exact named
            · simp at absurd
  | false =>
      cases endsOther : endsInService (toSnake other.name) with
      | true =>
          rw [eq_comm, addFn_eq_iff_of_ends camelOther camel endsOther ends]
          constructor
          · exact fun named => .inr (.inr ⟨rfl, named⟩)
          · rintro (same | ⟨absurd, _⟩ | ⟨_, named⟩)
            · rw [same, endsOther] at ends
              simp at ends
            · simp at absurd
            · exact named
      | false =>
          rw [addFn, addFn, if_neg (by simp [ends]), if_neg (by simp [endsOther]),
            String.append_left_inj, String.append_right_inj]
          constructor
          · exact fun same => .inl (toSnake_injective camel camelOther same)
          · rintro (same | ⟨_, named⟩ | ⟨_, named⟩)
            · exact congrArg toSnake same
            · exact absurd (endsInService_of_name camelOther named) (by simp [ends])
            · exact absurd (endsInService_of_name camel named) (by simp [endsOther])

end Registration

/-! ### The names of a package -/

/-- No service is named as another one's client, nor as another one with `Service` after it
unless that one ends in this word, and no method as a function that every client has. -/
structure Unreserved (generator : GrpcUdsGenerator) (services : List ProstService) : Prop where
  clients : generator.client = true → generator.server = true → ∀ service ∈ services,
    ∀ other ∈ services, service.name ≠ other.name ++ "Client"
  registrations : generator.server = true → ∀ service ∈ services, ∀ other ∈ services,
    endsInService (toSnake other.name) = false → service.name ≠ other.name ++ "Service"
  functions : generator.client = true → ∀ service ∈ services, ∀ method ∈ service.methods,
    method.name ∉ clientOwned

section Package

variable {services : List ProstService}

theorem eq_of_name_eq (distinct : (services.map ProstService.name).Nodup) {service other}
    (here : service ∈ services) (there : other ∈ services) (same : service.name = other.name) :
    service = other :=
  List.inj_on_of_nodup_map distinct here there same

theorem ne_append_word {name word : String} (nonempty : word.toList ≠ []) :
    name ≠ name ++ word := by
  intro same
  have letters := congrArg String.toList same
  exact nonempty (List.self_eq_append_right.mp (letters.trans String.toList_append))

theorem nodup_clients (distinct : (services.map ProstService.name).Nodup) :
    (services.map fun service => service.name ++ "Client").Nodup := by
  have appended := distinct.map (f := fun name => name ++ "Client")
    fun _ _ same => (String.append_left_inj "Client").mp same
  rwa [List.map_map] at appended

theorem nodup_addFn_iff (camel : ∀ service ∈ services, CamelCase service.name)
    (distinct : (services.map ProstService.name).Nodup) :
    (services.map addFn).Nodup ↔ ∀ service ∈ services, ∀ other ∈ services,
      endsInService (toSnake other.name) = false → service.name ≠ other.name ++ "Service" := by
  rw [List.nodup_map_iff_inj_on distinct.of_map]
  constructor
  · intro injective service here other there unended named
    have same : addFn service = addFn other :=
      (addFn_eq_iff (camel service here) (camel other there)).mpr (.inr (.inl ⟨unended, named⟩))
    rw [injective service here other there same] at named
    exact ne_append_word (by decide) named
  · intro clear service here other there same
    rcases (addFn_eq_iff (camel service here) (camel other there)).mp same with
      equal | ⟨unended, named⟩ | ⟨unended, named⟩
    · exact eq_of_name_eq distinct here there equal
    · exact absurd named (clear service here other there unended)
    · exact absurd named (clear other there service here unended)

/-- The traits' names differ from each other and so do the clients'; only a trait and a client
can have the same name. -/
theorem nodup_types_iff (distinct : (services.map ProstService.name).Nodup) :
    (services.flatMap fun service => [service.name ++ "Client"] ++ [service.name]).Nodup ↔
      ∀ service ∈ services, ∀ other ∈ services, service.name ≠ other.name ++ "Client" := by
  have apart : (services.flatMap fun service => [service.name ++ "Client"] ++ [service.name]).Perm
      (services.map (fun service => service.name ++ "Client") ++
        services.map ProstService.name) := by
    refine (List.flatMap_append_perm services _ _).symm.trans (.of_eq ?_)
    rw [List.map_eq_flatMap, List.map_eq_flatMap]
  rw [apart.nodup_iff, List.nodup_append]
  constructor
  · rintro ⟨_, _, apart⟩ service here other there same
    exact apart _ (List.mem_map_of_mem there) _ (List.mem_map_of_mem here) same.symm
  · intro clear
    refine ⟨nodup_clients distinct, distinct, ?_⟩
    intro client isClient name isName same
    obtain ⟨other, there, rfl⟩ := List.mem_map.mp isClient
    obtain ⟨service, here, rfl⟩ := List.mem_map.mp isName
    exact clear service here other there same.symm

variable (generator : GrpcUdsGenerator)

theorem emittedItems_eq (service : ProstService) :
    emittedItems generator service =
      ⟨(if generator.client then [service.name ++ "Client"] else []) ++
          (if generator.server then [service.name] else []),
        if generator.server then [addFn service] else [],
        if generator.client then clientOwned ++ service.methods.map ProstMethod.name else []⟩ := by
  cases client : generator.client <;> cases server : generator.server <;>
    simp [emittedItems, client, server, RustItems.append, RustItems.none, clientItems, serverItems]

theorem emitted_types_nodup_iff (distinct : (services.map ProstService.name).Nodup) :
    (services.flatMap fun service => (emittedItems generator service).types).Nodup ↔
      (generator.client = true → generator.server = true → ∀ service ∈ services,
        ∀ other ∈ services, service.name ≠ other.name ++ "Client") := by
  simp only [emittedItems_eq]
  cases client : generator.client with
  | true =>
      cases server : generator.server with
      | true => simpa using nodup_types_iff distinct
      | false => simpa [← List.map_eq_flatMap] using nodup_clients distinct
  | false =>
      cases server : generator.server with
      | true => simpa [← List.map_eq_flatMap] using distinct
      | false => simp [List.flatMap_eq_nil_iff.mpr]

theorem emitted_functions_nodup_iff (camel : ∀ service ∈ services, CamelCase service.name)
    (distinct : (services.map ProstService.name).Nodup) :
    (services.flatMap fun service => (emittedItems generator service).functions).Nodup ↔
      (generator.server = true → ∀ service ∈ services, ∀ other ∈ services,
        endsInService (toSnake other.name) = false → service.name ≠ other.name ++ "Service") := by
  simp only [emittedItems_eq]
  cases server : generator.server with
  | true => simpa [← List.map_eq_flatMap] using nodup_addFn_iff camel distinct
  | false => simp [List.flatMap_eq_nil_iff.mpr]

theorem emitted_clientFns_nodup_iff {service : ProstService}
    (methods : (service.methods.map ProstMethod.name).Nodup) :
    (emittedItems generator service).clientFns.Nodup ↔
      (generator.client = true → ∀ method ∈ service.methods, method.name ∉ clientOwned) := by
  rw [emittedItems_eq]
  cases client : generator.client with
  | true =>
      simp only [if_true, List.nodup_append, forall_const]
      constructor
      · rintro ⟨_, _, apart⟩ method listed owned
        exact apart _ owned _ (List.mem_map_of_mem listed) rfl
      · intro clear
        refine ⟨by decide, methods, ?_⟩
        rintro owned isOwned name isName rfl
        obtain ⟨method, listed, named⟩ := List.mem_map.mp isName
        exact clear method listed (named ▸ isOwned)
  | false => simp

theorem generatePackage_eq {generator : GrpcUdsGenerator} {items : List RustItems}
    (accepted : generatePackage generator services = .ok items) :
    items = services.map (emittedItems generator) := by
  refine Fallible.mapM_eq_ok ?_ accepted
  intro service item generated
  unfold GrpcUdsGenerator.generate at generated
  split at generated
  · simp at generated
  · exact (Except.ok.inj generated).symm

/-- The names of a package's items are distinct exactly when no name in it is one that the
generator makes from another. -/
theorem rust_names_distinct_iff {generator : GrpcUdsGenerator} {items : List RustItems}
    (camel : ∀ service ∈ services, CamelCase service.name)
    (distinct : (services.map ProstService.name).Nodup)
    (methods : ∀ service ∈ services, (service.methods.map ProstMethod.name).Nodup)
    (accepted : generatePackage generator services = .ok items) :
    NamesDistinct items ↔ Unreserved generator services := by
  have fns : (∀ item ∈ items, item.clientFns.Nodup) ↔ (generator.client = true →
      ∀ service ∈ services, ∀ method ∈ service.methods, method.name ∉ clientOwned) := by
    rw [generatePackage_eq accepted]
    constructor
    · intro each isClient service listed
      exact (emitted_clientFns_nodup_iff generator (methods service listed)).mp
        (each _ (List.mem_map_of_mem listed)) isClient
    · intro clear item isItem
      obtain ⟨service, listed, rfl⟩ := List.mem_map.mp isItem
      apply (emitted_clientFns_nodup_iff generator (methods service listed)).mpr
      exact fun isClient => clear isClient service listed
  have types := emitted_types_nodup_iff generator distinct
  have functions := emitted_functions_nodup_iff generator camel distinct
  rw [← List.flatMap_map, ← generatePackage_eq accepted] at types functions
  constructor
  · intro names
    exact ⟨types.mp names.types, functions.mp names.functions, fns.mp names.clientFns⟩
  · intro clear
    exact ⟨types.mpr clear.clients, functions.mpr clear.registrations, fns.mpr clear.functions⟩

end Package

/-- Two services of which neither name is made from the other. -/
def plainPackage : List ProstService :=
  [⟨"Echo", "Echo", "echo", [⟨"hi", "Hi", false, false⟩, ⟨"watch", "Watch", false, true⟩]⟩,
    ⟨"HealthService", "HealthService", "echo", [⟨"hi", "Hi", false, false⟩]⟩]

theorem rust_names_distinct_for_two_services :
    NamesDistinct (plainPackage.map (emittedItems ⟨true, true⟩)) := by
  have echo : CamelCase "Echo" := ⟨'E', "cho".toList, by decide, by decide, by decide⟩
  have health : CamelCase "HealthService" :=
    ⟨'H', "ealthService".toList, by decide, by decide, by decide⟩
  have camel : ∀ service ∈ plainPackage, CamelCase service.name := by
    simpa [plainPackage] using And.intro echo health
  apply (rust_names_distinct_iff camel (by decide) (by decide) rfl).mpr
  exact ⟨fun _ _ => by decide, fun _ => by decide, fun _ => by decide⟩

/-- The registration functions of `Echo` and `EchoService` have one name. -/
theorem rust_names_clash :
    ∃ services items, (∀ service ∈ services, CamelCase service.name) ∧
      (services.map ProstService.name).Nodup ∧
      (∀ service ∈ services, (service.methods.map ProstMethod.name).Nodup) ∧
      generatePackage ⟨true, true⟩ services = .ok items ∧ ¬ NamesDistinct items := by
  refine ⟨[⟨"Echo", "Echo", "echo", []⟩, ⟨"EchoService", "EchoService", "echo", []⟩], _, ?_,
    by decide, by decide, rfl, ?_⟩
  · have echo : CamelCase "Echo" := ⟨'E', "cho".toList, by decide, by decide, by decide⟩
    simpa using And.intro echo (camelCase_service echo)
  · intro names
    exact absurd names.functions (by decide)

end GrpcUds.Codegen
