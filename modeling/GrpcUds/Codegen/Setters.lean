import Mathlib.Algebra.Group.Nat.Defs
import Mathlib.Data.List.Nodup
import Mathlib.Data.List.TakeWhile
import GrpcUds.Codegen.TypeNames

/-!
# The field setters of the generated C++

For each message the plugin emits a wrapper `<Msg>Mut` around nanopb's struct, with a method
`set_<field>` for the fields that it can set inline.  The setters are kept as statements: they
have the text that is emitted and a meaning on the struct.  nanopb's encoder is outside the
repository: it is a parameter, and `Nanopb` says what the setters rely on.
-/

namespace GrpcUds.Codegen

inductive Label where
  | optional
  | required
  | repeated
  deriving DecidableEq

inductive ProtoType where
  | double
  | float
  | int64
  | uint64
  | int32
  | fixed64
  | fixed32
  | bool
  | string
  | group
  | message
  | bytes
  | uint32
  | enum
  | sfixed32
  | sfixed64
  | sint32
  | sint64
  deriving DecidableEq

structure FieldDescriptor where
  name : String
  number : Nat
  label : Label
  type : ProtoType
  typeName : String
  oneofIndex : Option Nat
  proto3Optional : Bool
  deriving DecidableEq

def scalarCType : ProtoType → Option String
  | .bool => some "bool"
  | .int32 | .sint32 | .sfixed32 => some "int32_t"
  | .uint32 | .fixed32 => some "uint32_t"
  | .int64 | .sint64 | .sfixed64 => some "int64_t"
  | .uint64 | .fixed64 => some "uint64_t"
  | .float => some "float"
  | .double => some "double"
  | _ => none

/-- The statements of the setters, apart from the `return`. -/
inductive Stmt where
  | strncpy
  | terminate
  | capacity
  | clamp
  | memcpy
  | storeSize
  | assign
  deriving DecidableEq

def Stmt.text (fname : String) : Stmt → String
  | .strncpy => "std::strncpy(m_." ++ fname ++ ", v, sizeof(m_." ++ fname ++ ") - 1);"
  | .terminate => "m_." ++ fname ++ "[sizeof(m_." ++ fname ++ ") - 1] = '\\0';"
  | .capacity => "std::size_t cap = sizeof(m_." ++ fname ++ ".bytes);"
  | .clamp => "if (n > cap) n = cap;"
  | .memcpy => "std::memcpy(m_." ++ fname ++ ".bytes, p, n);"
  | .storeSize => "m_." ++ fname ++ ".size = (pb_size_t)n;"
  | .assign => "m_." ++ fname ++ " = v;"

structure Setter where
  wrapper : String
  field : FieldDescriptor
  parameters : String
  body : List Stmt
  oneLine : Bool
  deriving DecidableEq

/-- The method as it is written to the header. -/
def Setter.text (setter : Setter) : String :=
  let head := "    " ++ setter.wrapper ++ "& set_" ++ setter.field.name ++ "(" ++
    setter.parameters ++ ") \x7b"
  let statements := setter.body.map (Stmt.text setter.field.name) ++ ["return *this;"]
  if setter.oneLine then head ++ " " ++ " ".intercalate statements ++ " \x7d\n"
  else head ++ "\n" ++ String.join (statements.map fun line => "        " ++ line ++ "\n") ++
    "    \x7d\n"

def fieldSetter (pkg wrapper : String) (field : FieldDescriptor) : Option Setter :=
  if field.label = .repeated then none
  else
    match field.type with
    | .string => some ⟨wrapper, field, "const char* v", [.strncpy, .terminate], false⟩
    | .bytes => some ⟨wrapper, field, "const void* p, std::size_t n",
        [.capacity, .clamp, .memcpy, .storeSize], false⟩
    | .message | .group => none
    | .enum => some ⟨wrapper, field, qualifiedType field.typeName pkg ++ " v", [.assign], true⟩
    | other => (scalarCType other).map fun ctype =>
        ⟨wrapper, field, ctype ++ " v", [.assign], true⟩

example : (fieldSetter "ble" "ScanResultMut"
    ⟨"rssi", 2, .optional, .int32, "", none, false⟩).map Setter.text =
      some "    ScanResultMut& set_rssi(int32_t v) \x7b m_.rssi = v; return *this; \x7d\n" := by
  decide

/-- The fields of a message; their numbers are different. -/
structure FieldList where
  fields : List FieldDescriptor
  distinct : (fields.map FieldDescriptor.number).Nodup

inductive DescriptorProto where
  | mk (name : String) (message : FieldList) (nested : List DescriptorProto) (mapEntry : Bool)

/-- One wrapper class. -/
structure Mutator where
  wrapper : String
  cType : String
  message : FieldList
  setters : List Setter

def Mutator.text (mutator : Mutator) : String :=
  "class " ++ mutator.wrapper ++ " \x7b\n public:\n    explicit " ++ mutator.wrapper ++ "(" ++
    mutator.cType ++ "& m) : m_(m) \x7b\x7d\n" ++
    String.join (mutator.setters.map Setter.text) ++
    " private:\n    " ++ mutator.cType ++ "& m_;\n\x7d;\n\n"

mutual

/-- The wrappers of a message and of the messages in it, in the order of the header. -/
def writeOneMutator (pkg : String) (parents : List String) : DescriptorProto → List Mutator
  | .mk name message nested mapEntry =>
      if mapEntry then []
      else
        let path := parents ++ [name]
        let wrapper := "_".intercalate path ++ "Mut"
        let setters := message.fields.filterMap (fieldSetter pkg wrapper)
        (if setters.isEmpty then [] else [⟨wrapper, messageCType pkg path, message, setters⟩]) ++
          writeNested pkg path nested

/-- The loop over `nested_type`. -/
def writeNested (pkg : String) (path : List String) : List DescriptorProto → List Mutator
  | [] => []
  | desc :: rest => writeOneMutator pkg path desc ++ writeNested pkg path rest

end

/-! ### The struct -/

/-- The storage of a field: an array with its length for `string` and `bytes`, and a number.
`width` is the number of bits of `pb_size_t`, which counts every array that nanopb declares. -/
structure Cell (width : Nat) where
  buffer : List UInt8
  size : Nat
  bits : Nat
  counted : buffer.length < 2 ^ width

/-- The members of a oneof have their storage in common. -/
inductive Slot where
  | field (name : String)
  | union (index : Nat)
  deriving DecidableEq

structure Struct (width : Nat) where
  cells : Slot → Cell width
  has : String → Bool
  which : Nat → Nat

inductive Value where
  | text (bytes : List UInt8)
  | blob (bytes : List UInt8)
  | scalar (bits : Nat)
  deriving DecidableEq

/-- What the pointer argument of a setter points to. -/
def Value.bytes : Value → List UInt8
  | .text bytes | .blob bytes => bytes
  | .scalar _ => []

def Value.bits : Value → Nat
  | .scalar bits => bits
  | _ => 0

/-- The oneof that a field is in.  A proto3 `optional` field is in a synthetic one, which has
no union. -/
def FieldDescriptor.memberOf (field : FieldDescriptor) : Option Nat :=
  if field.proto3Optional then none else field.oneofIndex

def FieldDescriptor.slot (field : FieldDescriptor) : Slot :=
  match field.memberOf with
  | some index => .union index
  | none => .field field.name

/-- Writing over the start of an array.  What is past its end is cut: no setter writes there. -/
def overwrite (bytes buffer : List UInt8) : List UInt8 :=
  bytes.take buffer.length ++ buffer.drop bytes.length

theorem length_overwrite (bytes buffer : List UInt8) :
    (overwrite bytes buffer).length = buffer.length := by
  simp only [overwrite, List.length_append, List.length_take, List.length_drop]
  omega

variable {width : Nat}

def Cell.write (cell : Cell width) (bytes : List UInt8) : Cell width where
  buffer := overwrite bytes cell.buffer
  size := cell.size
  bits := cell.bits
  counted := by simpa [length_overwrite] using cell.counted

def Cell.setLast (cell : Cell width) : Cell width where
  buffer := cell.buffer.set (cell.buffer.length - 1) 0
  size := cell.size
  bits := cell.bits
  counted := by simpa using cell.counted

/-- The field in the course of a setter, with the setter's local variables. -/
structure Frame (width : Nat) where
  n : Nat
  cap : Nat
  cell : Cell width

def Stmt.exec (value : Value) (frame : Frame width) : Stmt → Frame width
  | .strncpy =>
      let limit := frame.cell.buffer.length - 1
      let chars := value.bytes.takeWhile (· ≠ 0)
      { frame with cell := frame.cell.write ((chars ++ List.replicate limit 0).take limit) }
  | .terminate => { frame with cell := frame.cell.setLast }
  | .capacity => { frame with cap := frame.cell.buffer.length }
  | .clamp => if frame.n > frame.cap then { frame with n := frame.cap } else frame
  | .memcpy => { frame with cell := frame.cell.write (value.bytes.take frame.n) }
  | .storeSize => { frame with cell := { frame.cell with size := frame.n % 2 ^ width } }
  | .assign => { frame with cell := { frame.cell with bits := value.bits } }

/-- The field after the statements of a setter. -/
def runBody (body : List Stmt) (value : Value) (cell : Cell width) : Cell width :=
  (body.foldl (Stmt.exec value) ⟨value.bytes.length, 0, cell⟩).cell

def Setter.call (setter : Setter) (struct : Struct width) (value : Value) : Struct width where
  cells := fun slot =>
    if slot = setter.field.slot then runBody setter.body value (struct.cells slot)
    else struct.cells slot
  has := struct.has
  which := struct.which

/-! ### The encoder's rule -/

inductive Presence where
  | implicit
  | required
  | explicit
  | oneof (index : Nat)
  deriving DecidableEq

def FieldDescriptor.presence (proto3 : Bool) (field : FieldDescriptor) : Presence :=
  if field.label = .required then .required
  else
    match field.memberOf with
    | some index => .oneof index
    | none => if proto3 && !field.proto3Optional then .implicit else .explicit

/-- The fields that are encoded as one value. -/
def FieldDescriptor.single (field : FieldDescriptor) : Bool :=
  field.label != .repeated && field.type != .message && field.type != .group

/-- How nanopb stores a field of a type. -/
inductive Storage where
  | chars
  | blob
  | number
  | nested
  deriving DecidableEq

def ProtoType.storage : ProtoType → Storage
  | .string => .chars
  | .bytes => .blob
  | .message | .group => .nested
  | _ => .number

/-- The value that the encoder finds in a field. -/
def Storage.read (cell : Cell width) : Storage → Value
  | .chars => .text (cell.buffer.takeWhile (· ≠ 0))
  | .blob => .blob (cell.buffer.take cell.size)
  | .number | .nested => .scalar cell.bits

def FieldDescriptor.read (field : FieldDescriptor) (struct : Struct width) : Value :=
  field.type.storage.read (struct.cells field.slot)

/-- The value of an absent field without presence. -/
def FieldDescriptor.zero (field : FieldDescriptor) : Value :=
  match field.type.storage with
  | .chars => .text []
  | .blob => .blob []
  | .number | .nested => .scalar 0

/-- Whether a field with explicit presence is marked as present. -/
def FieldDescriptor.marked (proto3 : Bool) (field : FieldDescriptor) (struct : Struct width) :
    Bool :=
  match field.presence proto3 with
  | .implicit | .required => true
  | .explicit => struct.has field.name
  | .oneof index => struct.which index == field.number

/-- What an encoder of a message puts on the wire for the fields that are encoded as one value,
by number. -/
structure Nanopb (proto3 : Bool) (message : FieldList)
    (encode : Struct width → List (Nat × Value)) : Prop where
  unmarked : ∀ struct, ∀ field ∈ message.fields, field.single = true →
    field.marked proto3 struct = false →
      (encode struct).filter (fun entry => entry.1 = field.number) = []
  /-- A marked field has the value that is stored; a zero without presence is left out. -/
  stored : ∀ struct, ∀ field ∈ message.fields, field.single = true →
    field.marked proto3 struct = true →
      (encode struct).filter (fun entry => entry.1 = field.number) =
        if field.presence proto3 = .implicit ∧ field.read struct = field.zero then []
        else [(field.number, field.read struct)]

/-- The value that a receiver has for a field: the last one, and if there is none then the zero
of a field without presence. -/
def decodeField (proto3 : Bool) (field : FieldDescriptor) (entries : List (Nat × Value)) :
    Option Value :=
  match (entries.filter fun entry => entry.1 = field.number).getLast? with
  | some entry => some entry.2
  | none => if field.presence proto3 = .implicit then some field.zero else none

/-! ### What a setter stores -/

def scalarBits : ProtoType → Nat
  | .bool => 1
  | .int32 | .sint32 | .sfixed32 | .uint32 | .fixed32 | .float | .enum => 32
  | .int64 | .sint64 | .sfixed64 | .uint64 | .fixed64 | .double => 64
  | _ => 0

/-- The value is of the type and there is room for it; a string needs its terminator. -/
def ProtoType.Fits (type : ProtoType) (cell : Cell width) (value : Value) : Prop :=
  match type.storage, value with
  | .chars, .text content => 0 ∉ content ∧ content.length < cell.buffer.length
  | .blob, .blob content => content.length ≤ cell.buffer.length
  | .number, .scalar bits => bits < 2 ^ scalarBits type
  | _, _ => False

/-- The statements for a way of storing. -/
def Storage.setterBody : Storage → List Stmt
  | .chars => [.strncpy, .terminate]
  | .blob => [.capacity, .clamp, .memcpy, .storeSize]
  | .number | .nested => [.assign]

theorem single_iff (field : FieldDescriptor) :
    field.single = true ↔ field.label ≠ .repeated ∧ field.type.storage ≠ .nested := by
  cases type : field.type <;> simp [FieldDescriptor.single, ProtoType.storage, type]

theorem storage_of_scalar {type : ProtoType} {ctype : String}
    (scalar : scalarCType type = some ctype) : type.storage = .number := by
  cases type with
  | string | bytes | message | group => simp [scalarCType] at scalar
  | _ => rfl

/-- A setter is emitted for its own field only, if that is encoded as one value. -/
theorem fieldSetter_spec {pkg wrapper : String} {field : FieldDescriptor} {setter : Setter}
    (emitted : fieldSetter pkg wrapper field = some setter) :
    setter.field = field ∧ field.single = true ∧ setter.body = field.type.storage.setterBody := by
  unfold fieldSetter at emitted
  rw [single_iff]
  split at emitted
  · simp at emitted
  · rename_i singular
    split at emitted
    · rename_i type
      rw [type, ← Option.some.inj emitted]
      exact ⟨rfl, ⟨singular, by decide⟩, rfl⟩
    · rename_i type
      rw [type, ← Option.some.inj emitted]
      exact ⟨rfl, ⟨singular, by decide⟩, rfl⟩
    · simp at emitted
    · simp at emitted
    · rename_i type
      rw [type, ← Option.some.inj emitted]
      exact ⟨rfl, ⟨singular, by decide⟩, rfl⟩
    · obtain ⟨ctype, scalar, rfl⟩ := Option.map_eq_some_iff.mp emitted
      rw [storage_of_scalar scalar]
      exact ⟨rfl, ⟨singular, by decide⟩, rfl⟩

theorem plain_ne {bytes : List UInt8} (plain : 0 ∉ bytes) {byte : UInt8} (listed : byte ∈ bytes) :
    decide (byte ≠ 0) = true :=
  decide_eq_true fun zero => plain (zero ▸ listed)

/-- `strncpy` fills up with zeros, and the terminator is one more. -/
theorem strncpy_stored {bytes buffer : List UInt8} (plain : 0 ∉ bytes)
    (room : bytes.length < buffer.length) :
    (overwrite ((bytes.takeWhile (· ≠ 0) ++ List.replicate (buffer.length - 1) 0).take
      (buffer.length - 1)) buffer).set (buffer.length - 1) 0 =
        bytes ++ List.replicate (buffer.length - bytes.length) 0 := by
  have chars : bytes.takeWhile (· ≠ 0) = bytes := by
    rw [List.takeWhile_eq_self_iff]
    exact fun byte listed => plain_ne plain listed
  have copied : (bytes ++ List.replicate (buffer.length - 1) 0).take (buffer.length - 1) =
      bytes ++ List.replicate (buffer.length - 1 - bytes.length) 0 := by
    rw [List.take_append, List.take_of_length_le (by omega), List.take_replicate,
      Nat.min_eq_left (by omega)]
  have filled : (bytes ++ List.replicate (buffer.length - 1 - bytes.length) (0 : UInt8)).length =
      buffer.length - 1 := by
    simp only [List.length_append, List.length_replicate]
    omega
  obtain ⟨last, lastByte⟩ : ∃ last, buffer.drop (buffer.length - 1) = [last] := by
    apply List.length_eq_one_iff.mp
    rw [List.length_drop]
    omega
  have count : buffer.length - bytes.length = buffer.length - 1 - bytes.length + 1 := by omega
  rw [chars, copied, overwrite, List.take_of_length_le (by omega), filled, lastByte,
    List.set_append_right _ _ (by omega), filled, Nat.sub_self, count, List.replicate_succ',
    List.append_assoc]
  rfl

theorem text_stored {bytes : List UInt8} {capacity : Nat} (plain : 0 ∉ bytes)
    (room : bytes.length < capacity) :
    (bytes ++ List.replicate (capacity - bytes.length) 0).takeWhile (· ≠ 0) = bytes := by
  have count : capacity - bytes.length = capacity - bytes.length - 1 + 1 := by omega
  rw [List.takeWhile_append_of_pos, count, List.replicate_succ]
  · simp
  · exact fun byte listed => plain_ne plain listed

theorem blob_stored {bytes buffer : List UInt8} (room : bytes.length ≤ buffer.length) :
    (overwrite bytes buffer).take bytes.length = bytes := by
  rw [overwrite, List.take_of_length_le room, List.take_left]

/-- After the statements for its type a field holds the value. -/
theorem read_runBody {type : ProtoType} {cell : Cell width} {value : Value}
    (fits : type.Fits cell value) :
    type.storage.read (runBody type.storage.setterBody value cell) = value := by
  unfold ProtoType.Fits at fits
  cases kind : type.storage with
  | chars =>
      cases value with
      | text bytes =>
          rw [kind] at fits
          obtain ⟨plain, room⟩ := fits
          simp only [Storage.read, Storage.setterBody, runBody, List.foldl, Stmt.exec, Cell.write,
            Cell.setLast, Value.bytes, length_overwrite]
          rw [strncpy_stored plain room, text_stored plain room]
      | blob bytes => simp [kind] at fits
      | scalar bits => simp [kind] at fits
  | blob =>
      cases value with
      | text bytes => simp [kind] at fits
      | blob bytes =>
          rw [kind] at fits
          have room : bytes.length ≤ cell.buffer.length := fits
          have unclamped : ¬ bytes.length > cell.buffer.length := Nat.not_lt.mpr room
          have counted : bytes.length % 2 ^ width = bytes.length :=
            Nat.mod_eq_of_lt (Nat.lt_of_le_of_lt room cell.counted)
          simp only [Storage.read, Storage.setterBody, runBody, List.foldl, Stmt.exec, Cell.write,
            Value.bytes, unclamped, if_false, counted, List.take_length]
          rw [blob_stored room]
      | scalar bits => simp [kind] at fits
  | number =>
      cases value with
      | text bytes => simp [kind] at fits
      | blob bytes => simp [kind] at fits
      | scalar bits => rfl
  | nested => simp [kind] at fits

/-! ### What is encoded after a call -/

/-- The setters of a wrapper are those of the fields of its message. -/
def Mutator.Own (pkg : String) (mutator : Mutator) : Prop :=
  ∀ setter ∈ mutator.setters,
    ∃ field ∈ mutator.message.fields, fieldSetter pkg mutator.wrapper field = some setter

mutual

theorem own_writeOneMutator (pkg : String) (parents : List String) (desc : DescriptorProto) :
    ∀ mutator ∈ writeOneMutator pkg parents desc, mutator.Own pkg := by
  cases desc with
  | mk name message nested mapEntry =>
      intro mutator emitted
      unfold writeOneMutator at emitted
      split at emitted
      · simp at emitted
      · rcases List.mem_append.mp emitted with here | inner
        · split at here
          · simp at here
          · rw [List.mem_singleton.mp here]
            exact fun setter made => List.mem_filterMap.mp made
        · exact own_writeNested pkg _ nested mutator inner

theorem own_writeNested (pkg : String) (path : List String) (descs : List DescriptorProto) :
    ∀ mutator ∈ writeNested pkg path descs, mutator.Own pkg := by
  cases descs with
  | nil => simp [writeNested]
  | cons desc rest =>
      intro mutator emitted
      unfold writeNested at emitted
      rcases List.mem_append.mp emitted with first | later
      · exact own_writeOneMutator pkg path desc mutator first
      · exact own_writeNested pkg path rest mutator later

end

/-- What a receiver has for a field that is encoded as one value. -/
theorem decodeField_encode {proto3 : Bool} {message : FieldList} {field : FieldDescriptor}
    {encode : Struct width → List (Nat × Value)} (nanopb : Nanopb proto3 message encode)
    (listed : field ∈ message.fields) (single : field.single = true) (struct : Struct width) :
    decodeField proto3 field (encode struct) =
      if field.marked proto3 struct then some (field.read struct) else none := by
  cases marked : field.marked proto3 struct with
  | true =>
      rw [decodeField, nanopb.stored struct field listed single marked, if_pos rfl]
      by_cases zero : field.presence proto3 = .implicit ∧ field.read struct = field.zero
      · simp [zero.1, zero.2]
      · simp [if_neg zero]
  | false =>
      have explicit : field.presence proto3 ≠ .implicit := by
        intro implicit
        simp [FieldDescriptor.marked, implicit] at marked
      rw [decodeField, nanopb.unmarked struct field listed single marked]
      simp [explicit]

/-- After a call of a setter a receiver has the value if and only if the field was marked as
present before the call, where its presence needs a mark. -/
theorem setter_value_encoded_iff {pkg : String} {parents : List String} {desc : DescriptorProto}
    {mutator : Mutator} (emitted : mutator ∈ writeOneMutator pkg parents desc) {setter : Setter}
    (made : setter ∈ mutator.setters) {proto3 : Bool}
    {encode : Struct width → List (Nat × Value)} (nanopb : Nanopb proto3 mutator.message encode)
    {struct : Struct width} {value : Value}
    (fits : setter.field.type.Fits (struct.cells setter.field.slot) value) :
    decodeField proto3 setter.field (encode (setter.call struct value)) = some value ↔
      setter.field.marked proto3 struct = true := by
  obtain ⟨field, listed, spec⟩ := own_writeOneMutator pkg parents desc mutator emitted setter made
  obtain ⟨rfl, single, body⟩ := fieldSetter_spec spec
  have stored : setter.field.read (setter.call struct value) = value := by
    simp only [FieldDescriptor.read, Setter.call, if_true, body]
    exact read_runBody fits
  have unmarked : setter.field.marked proto3 (setter.call struct value) =
      setter.field.marked proto3 struct := rfl
  rw [decodeField_encode nanopb listed single, unmarked, stored]
  split
  case isTrue marked => simp [marked]
  case isFalse absent => simp [absent]

/-- A message of a proto2 file with an optional number, and what is emitted for it. -/
def rssiField : FieldDescriptor := ⟨"rssi", 1, .optional, .int32, "", none, false⟩

def rssiMessage : FieldList := ⟨[rssiField], by decide⟩

def rssiSetter : Setter := ⟨"ScanResultMut", rssiField, "int32_t v", [.assign], true⟩

def rssiMutator : Mutator := ⟨"ScanResultMut", "::ble_ScanResult", rssiMessage, [rssiSetter]⟩

theorem rssi_emitted :
    writeOneMutator "ble" [] (.mk "ScanResult" rssiMessage [] false) = [rssiMutator] := by
  have wrapper : "_".intercalate ([] ++ ["ScanResult"]) ++ "Mut" = "ScanResultMut" := by decide
  have cType : messageCType "ble" ([] ++ ["ScanResult"]) = "::ble_ScanResult" := by decide
  have setters :
      rssiMessage.fields.filterMap (fieldSetter "ble" "ScanResultMut") = [rssiSetter] := by decide
  simp only [writeOneMutator, writeNested, wrapper, cType, setters]
  rfl

/-- The struct after nanopb's `init_zero`, with `has_` flags of the given value. -/
def zeroStruct (has : Bool) : Struct 16 where
  cells := fun _ => ⟨[], 0, 0, by decide⟩
  has := fun _ => has
  which := fun _ => 0

/-- nanopb's encoder for the message. -/
def encodeRssi (struct : Struct 16) : List (Nat × Value) :=
  if struct.has "rssi" then [(1, rssiField.read struct)] else []

theorem nanopb_encodeRssi : Nanopb false rssiMessage encodeRssi := by
  constructor <;> intro struct field listed _ marked <;>
    obtain rfl := List.mem_singleton.mp listed <;>
    have has : struct.has "rssi" = _ := marked <;>
    simp [encodeRssi, has, rssiField, FieldDescriptor.presence, FieldDescriptor.memberOf]

theorem setter_value_encoded_when_marked :
    decodeField false rssiField (encodeRssi (rssiSetter.call (zeroStruct true) (.scalar 7))) =
      some (.scalar 7) := by
  have emitted :
      rssiMutator ∈ writeOneMutator "ble" [] (.mk "ScanResult" rssiMessage [] false) := by
    rw [rssi_emitted]
    exact List.mem_singleton_self _
  have fits : rssiField.type.Fits ((zeroStruct true).cells rssiField.slot) (.scalar 7) := by
    change 7 < 2 ^ 32
    decide
  exact (setter_value_encoded_iff emitted (List.mem_singleton_self rssiSetter) nanopb_encodeRssi
    fits).mpr rfl

/-- `set_rssi(7)` on a fresh struct sets nothing that is encoded. -/
theorem setter_value_lost :
    rssiMutator ∈ writeOneMutator "ble" [] (.mk "ScanResult" rssiMessage [] false) ∧
      rssiSetter ∈ rssiMutator.setters ∧ Nanopb false rssiMutator.message encodeRssi ∧
      rssiField.type.Fits ((zeroStruct false).cells rssiField.slot) (.scalar 7) ∧
      decodeField false rssiField
        (encodeRssi (rssiSetter.call (zeroStruct false) (.scalar 7))) = none := by
  refine ⟨by rw [rssi_emitted]; exact List.mem_singleton_self _, List.mem_singleton_self _,
    nanopb_encodeRssi, ?_, rfl⟩
  change 7 < 2 ^ 32
  decide

end GrpcUds.Codegen
