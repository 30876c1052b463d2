import GrpcUds.Framing
import GrpcUds.Lib.Endian
import GrpcUds.Lib.Shelf

/-!
# Rotation of the capture files

The wire log appends records to a live file.  When a record would exceed the cap, the live
file becomes `.1`, the others move up by one and the oldest is dropped.  Each call is kept as
the list of operations that it performs on the file system, so that what holds after a call
can be told from what holds at every operation.
-/

namespace GrpcUds.Wirelog

open Endian

abbrev Path := Bytes

/-- The contents of the files. -/
abbrev Disk := Path → Option Bytes

def Disk.set (disk : Disk) (path : Path) (content : Option Bytes) : Disk :=
  fun other => if other = path then content else disk other

inductive FsOp where
  | unlink (path : Path)
  | rename (source target : Path)
  /-- `open` with `O_CREAT`. -/
  | create (path : Path)
  /-- `write` with `O_APPEND`. -/
  | append (path : Path) (data : Bytes)
  deriving DecidableEq

/-- An operation on a file that does not exist has no effect. -/
def FsOp.perform (disk : Disk) : FsOp → Disk
  | .unlink path => disk.set path none
  | .rename source target =>
      match disk source with
      | none => disk
      | some content => (disk.set source none).set target (some content)
  | .create path =>
      match disk path with
      | none => disk.set path (some [])
      | some _ => disk
  | .append path data =>
      match disk path with
      | none => disk
      | some content => disk.set path (some (content ++ data))

def performAll (disk : Disk) (ops : List FsOp) : Disk := ops.foldl FsOp.perform disk

structure Globals where
  /-- `fd >= 0`. -/
  opened : Bool
  written : Nat
  maxFile : Nat
  keepFiles : Nat
  path : Path
  disk : Disk

def minFileKb : Nat := 4

def maxFileKb : Nat := 1024 * 1024

def maxFiles : Nat := 10

/-- The value of `GRPCUDS_WIRELOG_FILE_KB` to the cap. -/
def fileBytes : Option Nat → Nat
  | some kb => min (max kb minFileKb) maxFileKb * 1024
  | none => 1024 * 1024

/-- The value of `GRPCUDS_WIRELOG_FILES` to the number of files. -/
def fileCount : Option Nat → Nat
  | some n => max (min n maxFiles) 1
  | none => 3

def pcapHeaderLen : Nat := 24

/-- `pcap_global_header`. -/
def pcapGlobalHeader : Bytes :=
  littleEndian 4 0xa1b2c3d4 ++ littleEndian 2 2 ++ littleEndian 2 4 ++ List.replicate 8 0 ++
    littleEndian 4 65535 ++ littleEndian 4 101

def suffixed (path : Path) (n : Nat) : Path := path ++ [46, UInt8.ofNat (48 + n)]

/-- The operations of `open_live`. -/
def openOps (path : Path) (disk : Disk) : List FsOp :=
  if ((FsOp.create path).perform disk path).elim 0 List.length = 0 then
    [.create path, .append path pcapGlobalHeader]
  else [.create path]

def openLive (g : Globals) : Globals :=
  let size := ((FsOp.create g.path).perform g.disk g.path).elim 0 List.length
  { g with
    opened := true
    written := if size = 0 then pcapHeaderLen else size
    disk := performAll g.disk (openOps g.path g.disk) }

/-- The loop of `rotate`, from the given index down to 2. -/
def renameLoop (path : Path) : Nat → List FsOp
  | i + 2 => .rename (suffixed path (i + 1)) (suffixed path (i + 2)) :: renameLoop path (i + 1)
  | _ => []

def rotateOps (path : Path) (keepFiles : Nat) : List FsOp :=
  let rotated := keepFiles - 1
  if rotated = 0 then [.unlink path]
  else
    .unlink (suffixed path rotated) ::
      (renameLoop path rotated ++ [.rename path (suffixed path 1)])

def rotate (g : Globals) : Globals :=
  openLive { g with
    opened := false
    disk := performAll g.disk (rotateOps g.path g.keepFiles) }

/-- `write_fully` to the live file, counted. -/
def Globals.write (g : Globals) (record : Bytes) : Globals :=
  { g with
    disk := (FsOp.append g.path record).perform g.disk
    written := g.written + record.length }

def appendRecord (g : Globals) (record : Bytes) : Globals :=
  if ¬ g.opened then g
  else
    let g := if g.written + record.length > g.maxFile then rotate g else g
    if ¬ g.opened then g else g.write record

/-- The sink as `ensure_init` makes it. -/
def ensureInit (kb files : Option Nat) (path : Path) (disk : Disk) : Globals :=
  openLive ⟨false, 0, fileBytes kb, fileCount files, path, disk⟩

/-! ### The operations of a session -/

/-- The operations of `append_record`. -/
def appendOps (g : Globals) (record : Bytes) : List FsOp :=
  (if g.written + record.length > g.maxFile then
      rotateOps g.path g.keepFiles ++
        openOps g.path (performAll g.disk (rotateOps g.path g.keepFiles))
    else []) ++ [.append g.path record]

/-- The operations for a sequence of records. -/
def sessionOps (g : Globals) : List Bytes → List FsOp
  | [] => []
  | record :: rest => appendOps g record ++ sessionOps (appendRecord g record) rest

/-- A property of the disk at every point of a sequence of operations. -/
def Throughout (Holds : Disk → Prop) : List FsOp → Disk → Prop
  | [], disk => Holds disk
  | op :: ops, disk => Holds disk ∧ Throughout Holds ops (op.perform disk)

/-- The live file and the rotated ones. -/
def capturePath (path : Path) : Nat → Path
  | 0 => path
  | n + 1 => suffixed path (n + 1)

/-- The capture files that exist, from the oldest to the newest. -/
def captureFiles (path : Path) (disk : Disk) : List Bytes :=
  (List.range maxFiles).reverse.filterMap fun n => disk (capturePath path n)

/-- There are not too many capture files and none of them is too long. -/
structure Limited (path : Path) (keepFiles maxFile : Nat) (disk : Disk) : Prop where
  count : (captureFiles path disk).length ≤ keepFiles
  sizes : ∀ file ∈ captureFiles path disk, file.length ≤ maxFile

/-- The capture files hold, in order, a suffix of the records that includes the newest one. -/
def HoldsSuffix (path : Path) (disk : Disk) (records : List Bytes) : Prop :=
  ∃ parts : List (List Bytes),
    captureFiles path disk = parts.map (fun part => pcapGlobalHeader ++ part.flatten) ∧
      parts.flatten <:+ records ∧ (records ≠ [] → parts.flatten ≠ [])

/-! ### Single operations -/

@[simp]
theorem Disk.set_same (disk : Disk) (path : Path) (content : Option Bytes) :
    disk.set path content path = content := if_pos rfl

variable {disk : Disk} {path : Path}

theorem Disk.set_other {other : Path} {content : Option Bytes} (different : other ≠ path) :
    disk.set path content other = disk other := if_neg different

theorem perform_create (missing : disk path = none) :
    (FsOp.create path).perform disk = disk.set path (some []) := by
  simp only [FsOp.perform, missing]

theorem perform_append {content : Bytes} (present : disk path = some content) (data : Bytes) :
    (FsOp.append path data).perform disk = disk.set path (some (content ++ data)) := by
  simp only [FsOp.perform, present]

theorem performAll_append (disk : Disk) (first second : List FsOp) :
    performAll disk (first ++ second) = performAll (performAll disk first) second :=
  List.foldl_append

theorem throughout_append {Holds : Disk → Prop} {first second : List FsOp} :
    Throughout Holds (first ++ second) disk ↔
      Throughout Holds first disk ∧ Throughout Holds second (performAll disk first) := by
  induction first generalizing disk with
  | nil =>
      cases second with
      | nil => exact ⟨fun holds => ⟨holds, holds⟩, And.left⟩
      | cons op ops => exact ⟨fun all => ⟨all.1, all⟩, And.right⟩
  | cons op ops ih =>
      rw [List.cons_append, Throughout, Throughout, ih, and_assoc]
      rfl

theorem suffixed_inj {n m : Nat} (small : n < maxFiles) (smaller : m < maxFiles)
    (same : suffixed path n = suffixed path m) : n = m := by
  have digits : UInt8.ofNat (48 + n) = UInt8.ofNat (48 + m) := by
    simpa [suffixed] using List.append_cancel_left same
  have values : (48 + n) % 256 = (48 + m) % 256 := congrArg UInt8.toNat digits
  unfold maxFiles at small smaller
  omega

theorem capturePath_inj {n m : Nat} (small : n < maxFiles) (smaller : m < maxFiles)
    (same : capturePath path n = capturePath path m) : n = m := by
  cases n with
  | zero =>
      cases m with
      | zero => rfl
      | succ m =>
          have lengths := congrArg List.length same
          simp [capturePath, suffixed] at lengths
  | succ n =>
      cases m with
      | zero =>
          have lengths := congrArg List.length same
          simp [capturePath, suffixed] at lengths
      | succ m => exact suffixed_inj small smaller same

theorem capturePath_ne {n m : Nat} (small : n < maxFiles) (smaller : m < maxFiles)
    (different : n ≠ m) : capturePath path n ≠ capturePath path m :=
  fun same => different (capturePath_inj small smaller same)

/-- A write to the live file leaves the rotated ones alone. -/
theorem Disk.set_rotated {content : Option Bytes} {n : Nat} (low : n + 1 < maxFiles) :
    disk.set path content (capturePath path (n + 1)) = disk (capturePath path (n + 1)) :=
  Disk.set_other (capturePath_ne low (show 0 < maxFiles by decide) (Nat.succ_ne_zero n))

/-- The renames of `rotate`, the last one included. -/
def renames (path : Path) : Nat → List FsOp
  | 0 => []
  | n + 1 => .rename (capturePath path n) (capturePath path (n + 1)) :: renames path n

theorem renameLoop_append (path : Path) (n : Nat) :
    renameLoop path (n + 1) ++ [.rename path (suffixed path 1)] = renames path (n + 1) := by
  induction n with
  | zero => rfl
  | succ n ih =>
      rw [renameLoop, List.cons_append, ih]
      rfl

theorem rotateOps_eq (path : Path) (rotated : Nat) :
    rotateOps path (rotated + 1) =
      .unlink (capturePath path rotated) :: renames path rotated := by
  cases rotated with
  | zero => rfl
  | succ rotated =>
      have chain := renameLoop_append path rotated
      simp only [rotateOps, Nat.add_sub_cancel, Nat.succ_ne_zero, if_false, chain]
      rfl

/-- Every capture file below an index has moved up by one. -/
structure Shifted (path : Path) (count : Nat) (before after : Disk) : Prop where
  live : after path = none
  moved : ∀ n < count, after (capturePath path (n + 1)) = before (capturePath path n)
  above : ∀ n, count < n → n < maxFiles →
    after (capturePath path n) = before (capturePath path n)
  others : ∀ other, (∀ n < maxFiles, other ≠ capturePath path n) → after other = before other

/-- A file that is moved to a free name is there and no longer at its old name, whether it
exists or not. -/
theorem perform_rename (source : Path) {target : Path} (free : disk target = none) (other : Path) :
    (FsOp.rename source target).perform disk other =
      if other = target then disk source else if other = source then none else disk other := by
  cases found : disk source with
  | none =>
      simp only [FsOp.perform, found]
      split
      case isTrue same => rw [same, free]
      case isFalse notTarget =>
        split
        case isTrue same => rw [same, found]
        case isFalse notSource => rfl
  | some content =>
      simp only [FsOp.perform, found]
      rfl

theorem renames_shifted {count : Nat} (small : count < maxFiles)
    (free : disk (capturePath path count) = none) :
    Shifted path count disk (performAll disk (renames path count)) := by
  induction count generalizing disk with
  | zero => exact ⟨free, by simp, fun _ _ _ => rfl, fun _ _ => rfl⟩
  | succ count ih =>
      have source : capturePath path count ≠ capturePath path (count + 1) :=
        capturePath_ne (by omega) small (by omega)
      have renamed := perform_rename (capturePath path count) free
      have later := ih (by omega)
        ((renamed _).trans (by rw [if_neg source, if_pos rfl]))
      refine ⟨later.live, ?_, ?_, ?_⟩
      · intro n below
        rcases Nat.lt_succ_iff_lt_or_eq.mp below with lower | rfl
        · refine (later.moved n lower).trans ((renamed _).trans ?_)
          rw [if_neg (capturePath_ne (by omega) small (by omega)),
            if_neg (capturePath_ne (by omega) (by omega) (by omega))]
        · exact (later.above _ (by omega) small).trans ((renamed _).trans (if_pos rfl))
      · intro n above low
        refine (later.above n (by omega) low).trans ((renamed _).trans ?_)
        rw [if_neg (capturePath_ne low small (by omega)),
          if_neg (capturePath_ne low (by omega) (by omega))]
      · intro other foreign
        refine (later.others other foreign).trans ((renamed _).trans ?_)
        rw [if_neg (foreign _ small), if_neg (foreign _ (by omega))]

/-- What `rotate` does before it opens a new live file. -/
theorem rotateOps_shifted (path : Path) {keepFiles : Nat} (disk : Disk) (positive : 0 < keepFiles)
    (small : keepFiles ≤ maxFiles) :
    Shifted path (keepFiles - 1) disk (performAll disk (rotateOps path keepFiles)) := by
  obtain ⟨rotated, rfl⟩ : ∃ rotated, keepFiles = rotated + 1 := ⟨keepFiles - 1, by omega⟩
  have unlinked : Shifted path rotated (disk.set (capturePath path rotated) none) _ :=
    renames_shifted (by omega) (Disk.set_same _ _ _)
  rw [rotateOps_eq, Nat.add_sub_cancel]
  refine ⟨unlinked.live, ?_, ?_, ?_⟩
  · intro n below
    exact (unlinked.moved n below).trans
      (Disk.set_other (capturePath_ne (by omega) (by omega) (by omega)))
  · intro n above low
    exact (unlinked.above n above low).trans
      (Disk.set_other (capturePath_ne low (by omega) (by omega)))
  · intro other foreign
    exact (unlinked.others other foreign).trans (Disk.set_other (foreign _ (by omega)))

/-! ### The shelf of files -/

/-- A capture file with the given records. -/
def fileOf (records : List Bytes) : Bytes := pcapGlobalHeader ++ records.flatten

theorem length_fileOf_nil : (fileOf []).length = pcapHeaderLen := rfl

theorem length_fileOf_append (records : List Bytes) (record : Bytes) :
    (fileOf (records ++ [record])).length = (fileOf records).length + record.length := by
  simp [fileOf, Nat.add_assoc]

/-- The capture files are those of a shelf whose newest log is the live file. -/
structure Shelved (start : Disk) (g : Globals) (newest : List Bytes) (older : List (List Bytes)) :
    Prop where
  opened : g.opened = true
  written : g.written = (fileOf newest).length
  files : ∀ n < maxFiles,
    g.disk (capturePath g.path n) = ((newest :: older)[n]?).map fileOf
  others : ∀ other, (∀ n < maxFiles, other ≠ capturePath g.path n) → g.disk other = start other
  count : (newest :: older).length ≤ g.keepFiles
  sizes : ∀ part ∈ newest :: older, (fileOf part).length ≤ g.maxFile
  keep : g.keepFiles ≤ maxFiles
  room : pcapHeaderLen + 1456 ≤ g.maxFile

section Shelved

variable {start : Disk} {g : Globals} {newest : List Bytes} {older : List (List Bytes)}

theorem Shelved.live (shelved : Shelved start g newest older) :
    g.disk g.path = some (fileOf newest) :=
  shelved.files 0 (by decide)

variable {record : Bytes}

/-- Appending to the live file. -/
theorem Shelved.write (shelved : Shelved start g newest older)
    (fits : g.written + record.length ≤ g.maxFile) :
    Shelved start (g.write record) (newest ++ [record]) older := by
  have grown : fileOf newest ++ record = fileOf (newest ++ [record]) := by simp [fileOf]
  have disk_eq : (g.write record).disk =
      g.disk.set g.path (some (fileOf (newest ++ [record]))) := by
    rw [← grown]
    exact perform_append shelved.live record
  refine ⟨shelved.opened, ?_, ?_, ?_, shelved.count, ?_, shelved.keep, shelved.room⟩
  · exact (length_fileOf_append _ _ ▸ congrArg (· + record.length) shelved.written)
  · intro n low
    rw [disk_eq]
    cases n with
    | zero => exact Disk.set_same _ _ _
    | succ n => exact (Disk.set_rotated low).trans (shelved.files (n + 1) low)
  · intro other foreign
    rw [disk_eq]
    exact (Disk.set_other (foreign 0 (by decide))).trans (shelved.others other foreign)
  · intro part listed
    rcases List.mem_cons.mp listed with rfl | later
    · rw [length_fileOf_append, ← shelved.written]
      exact fits
    · exact shelved.sizes part (List.mem_cons_of_mem _ later)

/-- Opening the live file where there is none. -/
theorem openLive_new (missing : g.disk g.path = none) :
    openLive g = { g with
      opened := true
      written := pcapHeaderLen
      disk := g.disk.set g.path (some pcapGlobalHeader) } := by
  have created := perform_create missing
  have size : ((FsOp.create g.path).perform g.disk g.path).elim 0 List.length = 0 := by
    rw [created, Disk.set_same]
    rfl
  have disk_eq : performAll g.disk (openOps g.path g.disk) =
      g.disk.set g.path (some pcapGlobalHeader) := by
    rw [openOps, if_pos size, performAll, List.foldl_cons, List.foldl_cons, List.foldl_nil, created,
      perform_append (Disk.set_same _ _ _), List.nil_append]
    funext other
    simp only [Disk.set]
    split <;> rfl
  simp only [openLive, size, if_true, disk_eq]

variable (shelved : Shelved start g newest older)
include shelved

theorem Shelved.rotate :
    Shelved start (rotate g) [] ((newest :: older).take (g.keepFiles - 1)) := by
  have positive : 0 < g.keepFiles := Nat.lt_of_lt_of_le (Nat.succ_pos _) shelved.count
  have shifted := rotateOps_shifted g.path g.disk positive shelved.keep
  have opened : Wirelog.rotate g = _ := openLive_new (g := { g with
    opened := false
    disk := performAll g.disk (rotateOps g.path g.keepFiles) }) shifted.live
  rw [opened]
  refine ⟨rfl, rfl, ?_, ?_, ?_, ?_, shelved.keep, shelved.room⟩
  · intro n low
    cases n with
    | zero => exact (Disk.set_same _ _ _).trans (by simp [fileOf])
    | succ n =>
        refine (Disk.set_rotated low).trans ?_
        rw [List.getElem?_cons_succ, List.getElem?_take]
        split
        case isTrue below => exact (shifted.moved n below).trans (shelved.files n (by omega))
        case isFalse beyond =>
          refine (shifted.above (n + 1) (by omega) low).trans ((shelved.files (n + 1) low).trans ?_)
          have count := shelved.count
          rw [List.getElem?_eq_none (by omega)]
  · intro other foreign
    refine (Disk.set_other (foreign 0 (by decide))).trans ?_
    exact (shifted.others other foreign).trans (shelved.others other foreign)
  · have count := shelved.count
    simp only [List.length_cons, List.length_take] at count ⊢
    omega
  · intro part listed
    rcases List.mem_cons.mp listed with rfl | later
    · rw [length_fileOf_nil]
      exact Nat.le_trans (Nat.le_add_right _ _) shelved.room
    · exact shelved.sizes part (List.mem_of_mem_take later)

theorem Shelved.appendRecord_full (full : g.written + record.length > g.maxFile) :
    Wirelog.appendRecord g record = (Wirelog.rotate g).write record := by
  rw [Wirelog.appendRecord, if_neg (by simp [shelved.opened]), if_pos full,
    if_neg (by simp [shelved.rotate.opened])]

theorem Shelved.appendRecord_room (room : ¬ g.written + record.length > g.maxFile) :
    Wirelog.appendRecord g record = g.write record := by
  rw [Wirelog.appendRecord, if_neg (by simp [shelved.opened]), if_neg room,
    if_neg (by simp [shelved.opened])]

theorem Shelved.rotate_fits (small : record.length ≤ 1456) :
    
    (Wirelog.rotate g).written + record.length ≤ (Wirelog.rotate g).maxFile := by
  rw [shelved.rotate.written, length_fileOf_nil]
  exact Nat.le_trans (Nat.add_le_add_left small _) shelved.rotate.room

omit shelved

def Globals.settings (g : Globals) : Path × Nat × Nat := (g.path, g.keepFiles, g.maxFile)

include shelved

theorem Shelved.appendRecord_settings (record : Bytes) :
    (Wirelog.appendRecord g record).settings = g.settings := by
  by_cases full : g.written + record.length > g.maxFile
  · rw [shelved.appendRecord_full full]
    rfl
  · rw [shelved.appendRecord_room full]
    rfl

/-- One record: the files follow the shelf. -/
theorem Shelved.appendRecord (small : record.length ≤ 1456) :
    
    ∃ newest' older', Shelved start (appendRecord g record) newest' older' ∧
      newest' :: older' = Shelf.push g.keepFiles (decide (g.written + record.length > g.maxFile))
        (newest :: older) record := by
  by_cases full : g.written + record.length > g.maxFile
  · rw [shelved.appendRecord_full full]
    exact ⟨_, _, shelved.rotate.write (shelved.rotate_fits small), by simp [Shelf.push, full]⟩
  · rw [shelved.appendRecord_room full]
    exact ⟨_, _, shelved.write (by omega), by simp [Shelf.push, full]⟩

omit shelved

/-! ### At every operation -/

/-- Only the names that are kept are in use, each for a file within the cap. -/
def Confined (path : Path) (keepFiles maxFile : Nat) (disk : Disk) : Prop :=
  ∀ n < maxFiles, ∀ content, disk (capturePath path n) = some content →
    n < keepFiles ∧ content.length ≤ maxFile

variable {path : Path} {keepFiles maxFile : Nat} {disk : Disk}

section Confined

variable (confined : Confined path keepFiles maxFile disk)
include confined

theorem Confined.limited (small : keepFiles ≤ maxFiles) : Limited path keepFiles maxFile disk := by
  constructor
  · have split : List.range maxFiles = List.range keepFiles ++
        (List.range (maxFiles - keepFiles)).map (keepFiles + ·) := by
      rw [← List.range_add, Nat.add_sub_of_le small]
    have unused : ((List.range (maxFiles - keepFiles)).map (keepFiles + ·)).filterMap
        (fun n => disk (capturePath path n)) = [] := by
      rw [List.filterMap_eq_nil_iff]
      intro n listed
      obtain ⟨m, below, rfl⟩ := List.mem_map.mp listed
      have low := List.mem_range.mp below
      cases found : disk (capturePath path (keepFiles + m)) with
      | none => rfl
      | some content =>
          have kept := (confined (keepFiles + m) (by omega) content found).1
          omega
    rw [captureFiles, List.filterMap_reverse, List.length_reverse, split, List.filterMap_append,
      unused, List.append_nil]
    exact Nat.le_trans (List.length_filterMap_le _ _) (Nat.le_of_eq List.length_range)
  · intro file listed
    obtain ⟨n, inRange, found⟩ := List.mem_filterMap.mp listed
    exact (confined n (List.mem_range.mp (List.mem_reverse.mp inRange)) file found).2

theorem Confined.unlink (other : Path) :
    Confined path keepFiles maxFile ((FsOp.unlink other).perform disk) := by
  intro n low content found
  by_cases same : capturePath path n = other
  · simp [FsOp.perform, same] at found
  · exact confined n low content ((Disk.set_other same).symm.trans found)

theorem Confined.rename {count : Nat} (kept : count + 1 < keepFiles) (small : keepFiles ≤ maxFiles)
    :
    
    Confined path keepFiles maxFile
      ((FsOp.rename (capturePath path count) (capturePath path (count + 1))).perform disk) := by
  unfold FsOp.perform
  cases present : disk (capturePath path count) with
  | none => simpa [present] using confined
  | some moved =>
      intro n low content found
      simp only [present] at found
      by_cases target : capturePath path n = capturePath path (count + 1)
      · rw [target, Disk.set_same] at found
        obtain rfl := Option.some.inj found
        have index := capturePath_inj low (by omega) target
        exact ⟨by omega, (confined count (by omega) moved present).2⟩
      · rw [Disk.set_other target] at found
        by_cases source : capturePath path n = capturePath path count
        · simp [source] at found
        · exact confined n low content ((Disk.set_other source).symm.trans found)

theorem Confined.setLive {content : Bytes} (positive : 0 < keepFiles)
    (fits : content.length ≤ maxFile) :
    Confined path keepFiles maxFile (disk.set path (some content)) := by
  intro n low other found
  cases n with
  | zero =>
      obtain rfl := Option.some.inj ((Disk.set_same disk path (some content)).symm.trans found)
      exact ⟨positive, fits⟩
  | succ n => exact confined (n + 1) low other ((Disk.set_rotated low).symm.trans found)

theorem renames_throughout {count : Nat} (kept : count < keepFiles) (small : keepFiles ≤ maxFiles) :
    Throughout (Confined path keepFiles maxFile) (renames path count) disk := by
  induction count generalizing disk with
  | zero => exact confined
  | succ count ih =>
      exact ⟨confined, ih (confined.rename kept small) (by omega)⟩

theorem rotateOps_throughout (positive : 0 < keepFiles) (small : keepFiles ≤ maxFiles) :
    Throughout (Confined path keepFiles maxFile) (rotateOps path keepFiles) disk := by
  obtain ⟨rotated, rfl⟩ : ∃ rotated, keepFiles = rotated + 1 := ⟨keepFiles - 1, by omega⟩
  rw [rotateOps_eq]
  exact ⟨confined, renames_throughout (confined.unlink _) (Nat.lt_succ_self _) small⟩

/-- A new live file is empty at first and then has the header. -/
theorem openOps_throughout (positive : 0 < keepFiles) (room : pcapHeaderLen ≤ maxFile)
    (missing : disk path = none) :
    Throughout (Confined path keepFiles maxFile) (openOps path disk) disk := by
  have created := perform_create missing
  have empty : Confined path keepFiles maxFile (disk.set path (some [])) :=
    confined.setLive positive (Nat.zero_le _)
  rw [openOps, created, Disk.set_same, if_pos (by rfl)]
  refine ⟨confined, ?_, ?_⟩
  · rw [created]
    exact empty
  · rw [created]
    change Confined path keepFiles maxFile (FsOp.perform _ _)
    rw [perform_append (Disk.set_same _ _ _), List.nil_append]
    exact empty.setLive positive room

end Confined

theorem Shelved.confined (shelved : Shelved start g newest older) :
    Confined g.path g.keepFiles g.maxFile g.disk := by
  intro n low content found
  rw [shelved.files n low] at found
  obtain ⟨part, listed, rfl⟩ := Option.map_eq_some_iff.mp found
  have inside : n < (newest :: older).length := (List.getElem?_eq_some_iff.mp listed).1
  exact ⟨Nat.lt_of_lt_of_le inside shelved.count,
    shelved.sizes part (List.mem_of_getElem? listed)⟩

theorem Throughout.last {Holds : Disk → Prop} {ops : List FsOp}
    (throughout : Throughout Holds ops disk) : Holds (performAll disk ops) := by
  induction ops generalizing disk with
  | nil => exact throughout
  | cons op ops ih => exact ih throughout.2

include shelved

theorem Shelved.appendOps_disk (record : Bytes) :
    performAll g.disk (appendOps g record) = (Wirelog.appendRecord g record).disk := by
  by_cases full : g.written + record.length > g.maxFile
  · rw [shelved.appendRecord_full full, appendOps, if_pos full, performAll_append,
      performAll_append]
    rfl
  · rw [shelved.appendRecord_room full, appendOps, if_neg full]
    rfl

theorem Shelved.appendOps_throughout (small : record.length ≤ 1456) :
    Throughout (Confined g.path g.keepFiles g.maxFile) (appendOps g record) g.disk := by
  by_cases full : g.written + record.length > g.maxFile
  · have positive : 0 < g.keepFiles := Nat.lt_of_lt_of_le (Nat.succ_pos _) shelved.count
    have shifted := rotateOps_shifted g.path g.disk positive shelved.keep
    have rotated := rotateOps_throughout shelved.confined positive shelved.keep
    have opened := openOps_throughout rotated.last positive
      (Nat.le_trans (Nat.le_add_right _ _) shelved.room) shifted.live
    rw [appendOps, if_pos full, throughout_append, throughout_append, performAll_append]
    refine ⟨⟨rotated, opened⟩, opened.last, ?_⟩
    exact (shelved.rotate.write (shelved.rotate_fits small)).confined
  · rw [appendOps, if_neg full]
    exact ⟨shelved.confined, (shelved.write (by omega)).confined⟩

omit shelved

/-! ### Whole sessions -/

theorem filterMap_range_getElem? {α : Type*} (list : List α) (count : Nat) :
    (List.range count).filterMap (fun n => list[n]?) = list.take count := by
  induction count with
  | zero => rfl
  | succ count ih =>
      rw [List.range_succ, List.filterMap_append, ih, List.take_add_one]
      cases found : list[count]? with
      | none => rw [List.filterMap_cons_none found, List.filterMap_nil, Option.toList_none]
      | some element => rw [List.filterMap_cons_some found, List.filterMap_nil, Option.toList_some]

theorem Shelved.captureFiles_eq (shelved : Shelved start g newest older) :
    captureFiles g.path g.disk = (newest :: older).reverse.map fileOf := by
  have listed : (List.range maxFiles).filterMap (fun n => g.disk (capturePath g.path n)) =
      (List.range maxFiles).filterMap fun n => ((newest :: older).map fileOf)[n]? := by
    apply List.filterMap_congr
    intro n low
    rw [shelved.files n (List.mem_range.mp low), List.getElem?_map]
  rw [captureFiles, List.filterMap_reverse, listed, filterMap_range_getElem?,
    List.take_of_length_le, List.map_reverse]
  rw [List.length_map]
  exact Nat.le_trans shelved.count shelved.keep

/-- The shelf holds a suffix of the records so far, with the newest one. -/
def Recent (shelf : List (List Bytes)) (records : List Bytes) : Prop :=
  Shelf.read shelf <:+ records ∧ (records ≠ [] → Shelf.read shelf ≠ [])

/-- A session that starts with the files of a shelf: what holds at each of its operations, and
the shelf that it leaves. -/
theorem Shelved.session (shelved : Shelved start g newest older) {before : List Bytes}
    (recent : Recent (newest :: older) before) {records : List Bytes}
    (small : ∀ record ∈ records, record.length ≤ 1456) :
    Throughout (Confined g.path g.keepFiles g.maxFile) (sessionOps g records) g.disk ∧
      ∃ newest' older', Shelved start (records.foldl Wirelog.appendRecord g) newest' older' ∧
        (records.foldl Wirelog.appendRecord g).settings = g.settings ∧
        Recent (newest' :: older') (before ++ records) := by
  induction records generalizing g newest older before with
  | nil => exact ⟨shelved.confined, newest, older, shelved, rfl, by simpa using recent⟩
  | cons record rest ih =>
      have here := small record List.mem_cons_self
      have same := shelved.appendRecord_settings record
      obtain ⟨samePath, sameRest⟩ := Prod.mk.inj same
      obtain ⟨sameKeep, sameCap⟩ := Prod.mk.inj sameRest
      obtain ⟨next, others, appended, pushed⟩ := shelved.appendRecord here
      have recent' : Recent (next :: others) (before ++ [record]) := by
        rw [pushed]
        refine ⟨Shelf.read_push_suffix recent.1, fun _ empty => ?_⟩
        obtain ⟨kept, _, equal⟩ := Shelf.read_push g.keepFiles
          (decide (g.written + record.length > g.maxFile)) (newest :: older) record
        rw [equal] at empty
        simp at empty
      obtain ⟨throughout, last⟩ := ih appended recent'
        fun later listed => small later (List.mem_cons_of_mem _ listed)
      rw [List.append_assoc, same] at last
      rw [samePath, sameKeep, sameCap] at throughout
      refine ⟨?_, last⟩
      rw [sessionOps, throughout_append, shelved.appendOps_disk]
      exact ⟨shelved.appendOps_throughout here, throughout⟩

end Shelved

theorem fileCount_bounds (files : Option Nat) :
    0 < fileCount files ∧ fileCount files ≤ maxFiles := by
  cases files with
  | none => exact ⟨by decide, by decide⟩
  | some n =>
      simp only [fileCount, maxFiles]
      omega

/-- The smallest cap has room for the header and the largest record. -/
theorem fileBytes_room (kb : Option Nat) : pcapHeaderLen + 1456 ≤ fileBytes kb := by
  cases kb with
  | none => decide
  | some kb =>
      simp only [fileBytes, minFileKb, maxFileKb, pcapHeaderLen]
      omega

theorem Throughout.imp {Holds Weaker : Disk → Prop} (weaker : ∀ disk, Holds disk → Weaker disk)
    {ops : List FsOp} (throughout : Throughout Holds ops disk) :
    Throughout Weaker ops disk := by
  induction ops generalizing disk with
  | nil => exact weaker disk throughout
  | cons op ops ih =>
      exact ⟨weaker disk throughout.1, ih throughout.2⟩

section Session

variable (kb files : Option Nat) {path : Path} {start : Disk}

theorem ensureInit_shelved (fresh : ∀ n < maxFiles, start (capturePath path n) = none) :
    Shelved start (ensureInit kb files path start) [] [] := by
  have missing : start path = none := fresh 0 (by decide)
  obtain ⟨positive, small⟩ := fileCount_bounds files
  have room := fileBytes_room kb
  have opened : ensureInit kb files path start = _ :=
    openLive_new (g := ⟨false, 0, fileBytes kb, fileCount files, path, start⟩) missing
  rw [opened]
  refine ⟨rfl, rfl, ?_, ?_, positive, ?_, small, room⟩
  · intro n low
    cases n with
    | zero => exact (Disk.set_same _ _ _).trans (by simp [fileOf])
    | succ n => exact (Disk.set_rotated low).trans (fresh (n + 1) low)
  · exact fun other foreign => Disk.set_other (foreign 0 (by decide))
  · intro part listed
    rw [List.mem_singleton.mp listed, length_fileOf_nil]
    exact Nat.le_trans (Nat.le_add_right _ _) room

/-- From a disk without capture files: at every operation there are at most so many files as
are kept and each is within the cap.  After every record the files hold, from the oldest to
the newest, a suffix of the records that includes the last one, and no other file has
changed. -/
theorem capture_files_hold_suffix (fresh : ∀ n < maxFiles, start (capturePath path n) = none)
    {records : List Bytes} (small : ∀ record ∈ records, record.length ≤ 1456) :
    let sink := ensureInit kb files path start
    let final := records.foldl appendRecord sink
    Throughout (Limited path (fileCount files) (fileBytes kb))
        (openOps path start ++ sessionOps sink records) start ∧
      Limited path (fileCount files) (fileBytes kb) final.disk ∧
      HoldsSuffix path final.disk records ∧
      ∀ other, (∀ n < maxFiles, other ≠ capturePath path n) → final.disk other = start other := by
  intro sink final
  have missing : start path = none := fresh 0 (by decide)
  have shelved : Shelved start sink [] [] := ensureInit_shelved kb files fresh
  obtain ⟨positive, keep⟩ := fileCount_bounds files
  have empty : Confined path (fileCount files) (fileBytes kb) start := by
    intro n low content found
    rw [fresh n low] at found
    simp at found
  have opened := openOps_throughout empty positive
    (Nat.le_trans (Nat.le_add_right _ _) (fileBytes_room kb)) missing
  have recent : Recent [[]] [] := ⟨List.nil_suffix, fun nonempty => absurd rfl nonempty⟩
  obtain ⟨throughout, newest, older, ended, same, suffix, nonempty⟩ := shelved.session recent small
  obtain ⟨samePath, sameRest⟩ := Prod.mk.inj same
  obtain ⟨sameKeep, sameCap⟩ := Prod.mk.inj sameRest
  have pathEq : final.path = path := samePath
  have keepEq : final.keepFiles = fileCount files := sameKeep
  have capEq : final.maxFile = fileBytes kb := sameCap
  have whole : Throughout (Confined path (fileCount files) (fileBytes kb))
      (openOps path start ++ sessionOps sink records) start :=
    throughout_append.mpr ⟨opened, throughout⟩
  refine ⟨whole.imp fun _ confined => confined.limited keep, ?_, ?_, ?_⟩
  · have confined := ended.confined
    rw [pathEq, keepEq, capEq] at confined
    exact confined.limited keep
  · have listed := ended.captureFiles_eq
    rw [pathEq] at listed
    exact ⟨(newest :: older).reverse, listed, suffix, nonempty⟩
  · intro other foreign
    apply ended.others
    rw [pathEq]
    exact foreign

/-- Three records of 1456 bytes in files of 4 KiB, of which two are kept. -/
theorem capture_files_hold_suffix_after_rotation :
    HoldsSuffix [97] (([1, 2, 3].map (List.replicate 1456)).foldl appendRecord
      (ensureInit (some 0) (some 2) [97] fun _ => none)).disk
        ([1, 2, 3].map (List.replicate 1456)) := by
  have small : ∀ record ∈ [(1 : UInt8), 2, 3].map (List.replicate 1456), record.length ≤ 1456 := by
    intro record listed
    obtain ⟨byte, _, rfl⟩ := List.mem_map.mp listed
    exact Nat.le_of_eq List.length_replicate
  exact (capture_files_hold_suffix (some 0) (some 2) (fun _ _ => rfl) small).2.2.1

end Session

end GrpcUds.Wirelog
