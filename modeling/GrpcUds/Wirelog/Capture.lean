import GrpcUds.Lib.Transition
import GrpcUds.Wirelog.Record
import GrpcUds.Wirelog.Rotation

/-!
# Captures of interleaved connections

Connections are opened and logged to from several threads.  Each record is built by the thread
of its connection and appended under the lock, so the calls interleave record by record.  A
capture that was not rotated can be taken apart again: the records of a connection and a
direction give the bytes that were logged for it.
-/

namespace GrpcUds.Wirelog

open Transition Endian

structure WirelogConn where
  clientPort : Nat
  ipOctet : Nat
  seqC : Nat
  seqS : Nat
  deriving DecidableEq

def fSyn : UInt8 := 0x02

def fSynAck : UInt8 := 0x12

def fAck : UInt8 := 0x10

def fPshAck : UInt8 := 0x18

/-- A record of the handshake. -/
structure Greeting where
  dir : Dir
  seq : Nat
  ack : Nat
  flags : UInt8
  deriving DecidableEq

def greetings : List Greeting :=
  [⟨.clientToServer, 0, 0, fSyn⟩, ⟨.serverToClient, 0, 1, fSynAck⟩, ⟨.clientToServer, 1, 1, fAck⟩]

/-- The call that is in progress on a connection, with what it has still to emit. -/
inductive Task where
  | handshake (left : List Greeting)
  | idle
  | logging (dir : Dir) (left : Bytes)
  deriving DecidableEq

/-- A call of `log` that has these bytes left. -/
def logTask (dir : Dir) (bytes : Bytes) : Task :=
  if bytes.isEmpty then .idle else .logging dir bytes

structure Stream where
  conn : WirelogConn
  task : Task
  deriving DecidableEq

def portOf (seq : Nat) : Nat := 40000 + seq % 20000

def octetOf (seq : Nat) : Nat := 1 + seq / 20000 % 200

/-- `conn_open`, from its `fetch_add` on. -/
def connOpen (seq : Nat) : Stream := ⟨⟨portOf seq, octetOf seq, 1, 1⟩, .handshake greetings⟩

def WirelogConn.seq (conn : WirelogConn) : Dir → Nat
  | .clientToServer => conn.seqC
  | .serverToClient => conn.seqS

def WirelogConn.advance (conn : WirelogConn) (count : Nat) : Dir → WirelogConn
  | .clientToServer => { conn with seqC := (conn.seqC + count) % 2 ^ 32 }
  | .serverToClient => { conn with seqS := (conn.seqS + count) % 2 ^ 32 }

/-- The next `emit` of the call in progress. -/
def Stream.next (stream : Stream) (sec usec : Nat) : Option (Segment × Stream) :=
  let conn := stream.conn
  match stream.task with
  | .idle | .handshake [] => none
  | .handshake (greeting :: rest) =>
      some (⟨conn.clientPort, conn.ipOctet, greeting.dir, greeting.seq, greeting.ack,
        greeting.flags, [], sec, usec⟩, ⟨conn, if rest.isEmpty then .idle else .handshake rest⟩)
  | .logging dir bytes =>
      let chunk := bytes.take maxSegment
      some (⟨conn.clientPort, conn.ipOctet, dir, conn.seq dir, conn.seq dir.other, fPshAck, chunk,
        sec, usec⟩, ⟨conn.advance chunk.length dir, logTask dir (bytes.drop maxSegment)⟩)

structure System where
  nextPort : Nat
  /-- The connections by the value of the counter at which they were opened. -/
  streams : List Stream
  sink : Globals

inductive Event where
  | connOpen
  /-- A call of `log`, on a connection without a call in progress. -/
  | log (stream : Nat) (dir : Dir) (bytes : Bytes)
  /-- The next record of the call in progress, at the time given. -/
  | emit (stream : Nat) (sec usec : Nat)
  deriving DecidableEq

def step (state : System) : Event → Option System
  | .connOpen => some {
      state with
      nextPort := (state.nextPort + 1) % 2 ^ 32
      streams := state.streams ++ [connOpen state.nextPort] }
  | .log index dir bytes =>
      match state.streams[index]? with
      | some ⟨conn, .idle⟩ =>
          some { state with streams := state.streams.set index ⟨conn, logTask dir bytes⟩ }
      | _ => none
  | .emit index sec usec => do
      let stream ← state.streams[index]?
      let (segment, stream) ← stream.next sec usec
      return {
        state with
        streams := state.streams.set index stream
        sink := appendRecord state.sink (buildRecord segment) }

/-- The record of the event, if it has one, does not make the sink rotate. -/
def NoRotation (state : System) : Event → Prop
  | .emit index sec usec =>
      ∀ stream ∈ state.streams[index]?, ∀ emitted ∈ stream.next sec usec,
        state.sink.written + (buildRecord emitted.1).length ≤ state.sink.maxFile
  | _ => True

instance (state : System) : (event : Event) → Decidable (NoRotation state event)
  | .emit index sec usec =>
      inferInstanceAs (Decidable (∀ stream ∈ state.streams[index]?,
        ∀ emitted ∈ stream.next sec usec,
          state.sink.written + (buildRecord emitted.1).length ≤ state.sink.maxFile))
  | .connOpen => .isTrue trivial
  | .log _ _ _ => .isTrue trivial

def initial (kb files : Option Nat) (path : Path) (disk : Disk) : System :=
  ⟨0, [], ensureInit kb files path disk⟩

/-! ### What a capture should hold -/

/-- What an event passes to `log` for a connection and a direction. -/
def Event.logged (index : Nat) (dir : Dir) : Event → Bytes
  | .log stream towards bytes => if stream = index ∧ towards = dir then bytes else []
  | _ => []

def loggedBytes (events : List Event) (index : Nat) (dir : Dir) : Bytes :=
  events.flatMap (Event.logged index dir)

/-- A call of `log` for the connection. -/
def Event.isLog (index : Nat) : Event → Bool
  | .log stream _ _ => stream = index
  | _ => false

/-- The records of a connection that the events emit. -/
def emissions (index : Nat) (events : List Event) : Nat :=
  events.countP fun
    | .emit stream _ _ => stream = index
    | _ => false

/-- The part of the bytes that the call in progress has still to emit. -/
def Stream.left (stream : Stream) (dir : Dir) : Bytes :=
  match stream.task with
  | .logging towards bytes => if towards = dir then bytes else []
  | _ => []

def WirelogConn.tuple (conn : WirelogConn) (dir : Dir) : FourTuple :=
  fourTuple conn.clientPort conn.ipOctet dir

/-- The other direction. -/
def FourTuple.flip (tuple : FourTuple) : FourTuple :=
  ⟨tuple.dstIp, tuple.srcIp, tuple.dport, tuple.sport⟩

/-- The payloads of one direction of a connection, in file order. -/
def payloads (packets : List Packet) (tuple : FourTuple) : Bytes :=
  (packets.filter fun packet => packet.tuple = tuple).flatMap Packet.payload

/-- Only records of the handshake are left of a handshake. -/
def Stream.Greets (stream : Stream) : Prop :=
  ∀ left, stream.task = .handshake left → left ≠ [] ∧ ∀ greeting ∈ left, greeting ∈ greetings

/-- What `emit` takes from a call in progress. -/
structure Emission (before : Stream) (segment : Segment) (after : Stream) : Prop where
  port : segment.clientPort = before.conn.clientPort ∧
    after.conn.clientPort = before.conn.clientPort
  octet : segment.ipOctet = before.conn.ipOctet ∧ after.conn.ipOctet = before.conn.ipOctet
  size : segment.payload.length ≤ maxSegment
  fields : (∀ dir, before.conn.seq dir < 256 ^ 4) → segment.seq < 256 ^ 4 ∧ segment.ack < 256 ^ 4
  left : ∀ dir, before.left dir =
    (if segment.dir = dir then segment.payload else []) ++ after.left dir
  advanced : ∀ dir count, before.conn.seq dir = (1 + count) % 2 ^ 32 →
    after.conn.seq dir =
      (1 + (count + (if segment.dir = dir then segment.payload else []).length)) % 2 ^ 32
  numbered : segment.flags = fPshAck → segment.seq = before.conn.seq segment.dir ∧
    segment.ack = before.conn.seq segment.dir.other
  greets : after.Greets
  goesOn : ∀ dir bytes, before.task = logTask dir bytes →
    bytes ≠ [] ∧ after.task = logTask dir (bytes.drop maxSegment)

theorem greeting_facts : ∀ greeting ∈ greetings,
    greeting.flags ≠ fPshAck ∧ greeting.seq < 256 ^ 4 ∧ greeting.ack < 256 ^ 4 := by
  decide

theorem WirelogConn.seq_advance (conn : WirelogConn) (count : Nat) (towards dir : Dir) :
    (conn.advance count towards).seq dir =
      if towards = dir then (conn.seq dir + count) % 2 ^ 32 else conn.seq dir := by
  cases towards <;> cases dir <;> rfl

/-- A call that has bytes left, or none. -/
theorem left_logging (conn : WirelogConn) (towards dir : Dir) (bytes : Bytes) :
    Stream.left ⟨conn, logTask towards bytes⟩ dir = if towards = dir then bytes else [] := by
  cases bytes <;> simp [Stream.left, logTask]

theorem greets_logging (conn : WirelogConn) (towards : Dir) (bytes : Bytes) :
    Stream.Greets ⟨conn, logTask towards bytes⟩ := by
  intro left task
  cases bytes <;> simp [logTask] at task

theorem Stream.next_emission {before after : Stream} {segment : Segment} {sec usec : Nat}
    (greets : before.Greets) (emitted : before.next sec usec = some (segment, after)) :
    Emission before segment after := by
  obtain ⟨conn, task⟩ := before
  cases task with
  | idle => simp [Stream.next] at emitted
  | handshake left =>
      cases left with
      | nil => simp [Stream.next] at emitted
      | cons greeting rest =>
          obtain ⟨rfl, rfl⟩ := Prod.mk.inj (Option.some.inj emitted)
          have known := (greets _ rfl).2
          have fact := greeting_facts greeting (known greeting List.mem_cons_self)
          refine ⟨⟨rfl, rfl⟩, ⟨rfl, rfl⟩, Nat.zero_le _, fun _ => fact.2, ?_, ?_,
            fun data => absurd data fact.1, ?_, ?_⟩
          · intro dir
            cases rest <;> simp [Stream.left]
          · intro dir count seq
            simpa using seq
          · intro others task
            cases rest with
            | nil => simp at task
            | cons second rest =>
                obtain rfl := Task.handshake.inj task
                exact ⟨List.cons_ne_nil _ _, fun other listed =>
                  known other (List.mem_cons_of_mem _ listed)⟩
          · intro dir bytes task
            cases bytes <;> simp [logTask] at task
  | logging towards bytes =>
      obtain ⟨rfl, rfl⟩ := Prod.mk.inj (Option.some.inj emitted)
      refine ⟨⟨rfl, ?_⟩, ⟨rfl, ?_⟩, List.length_take_le _ _,
        fun small => ⟨small towards, small towards.other⟩, ?_, ?_, fun _ => ⟨rfl, rfl⟩,
        greets_logging _ _ _, ?_⟩
      · cases towards <;> rfl
      · cases towards <;> rfl
      · intro dir
        rw [left_logging]
        by_cases same : towards = dir
        · simp [Stream.left, same]
        · simp [Stream.left, same]
      · intro dir count seq
        rw [WirelogConn.seq_advance]
        by_cases same : towards = dir
        · rw [if_pos same, if_pos same, seq, Nat.mod_add_mod, Nat.add_assoc]
        · rw [if_neg same, if_neg same, seq]
          rfl
      · intro dir other task
        cases other with
        | nil => simp [logTask] at task
        | cons byte rest =>
            obtain ⟨rfl, rfl⟩ := Task.logging.inj task
            exact ⟨List.cons_ne_nil _ _, rfl⟩

/-! ### The records of a run -/

/-- The bytes of one direction of a connection among the records that were emitted. -/
def sent (outputs : List (Nat × Segment)) (index : Nat) (dir : Dir) : Bytes :=
  (outputs.filter fun output => output.1 = index ∧ output.2.dir = dir).flatMap
    fun output => output.2.payload

theorem sent_snoc (outputs : List (Nat × Segment)) (stream index : Nat) (segment : Segment)
    (dir : Dir) :
    sent (outputs ++ [(stream, segment)]) index dir = sent outputs index dir ++
      if stream = index ∧ segment.dir = dir then segment.payload else [] := by
  rw [sent, List.filter_append, List.flatMap_append]
  congr 1
  split
  case isTrue chosen => simp [chosen]
  case isFalse other => simp [other]

theorem loggedBytes_append (first second : List Event) (index : Nat) (dir : Dir) :
    loggedBytes (first ++ second) index dir =
      loggedBytes first index dir ++ loggedBytes second index dir :=
  List.flatMap_append

theorem emissions_snoc (index : Nat) (events : List Event) (event : Event) :
    emissions index (events ++ [event]) = emissions index events + emissions index [event] :=
  List.countP_append

/-- A call of `log` after some of its records. -/
def Task.After (task : Task) (dir : Dir) (bytes : Bytes) (records : Nat) : Prop :=
  task = logTask dir (bytes.drop (maxSegment * records)) ∧
    maxSegment * records < bytes.length + maxSegment

/-- The latest call of `log` for a connection has made its records. -/
def Latest (past : List Event) (index : Nat) (task : Task) : Prop :=
  ∀ before dir bytes after, past = before ++ .log index dir bytes :: after →
    (∀ event ∈ after, event.isLog index = false) → task.After dir bytes (emissions index after)

variable {index : Nat} {outputs : List (Nat × Segment)}

theorem Latest.of_quiet {past : List Event} (quiet : ∀ event ∈ past, event.isLog index = false)
    (task : Task) :
    Latest past index task := by
  rintro before dir bytes after rfl
  have listed := quiet (.log index dir bytes) (by simp)
  simp [Event.isLog] at listed

theorem Latest.log (past : List Event) (index : Nat) (dir : Dir) (bytes : Bytes) :
    Latest (past ++ [.log index dir bytes]) index (logTask dir bytes) := by
  intro before towards other after split quiet
  rcases List.eq_nil_or_concat after with rfl | ⟨front, last, rfl⟩
  · obtain ⟨_, same⟩ := List.append_inj' split rfl
    obtain ⟨_, rfl, rfl⟩ := Event.log.inj (List.cons.inj same).1
    exact ⟨rfl, Nat.lt_add_left _ (show 0 < maxSegment by decide)⟩
  · rw [List.concat_eq_append, ← List.cons_append, ← List.append_assoc] at split
    obtain ⟨_, same⟩ := List.append_inj' split rfl
    have listed := quiet last (by simp)
    simp [← (List.cons.inj same).1, Event.isLog] at listed

theorem Latest.snoc {past : List Event} {task next : Task} {event : Event}
    (latest : Latest past index task) (silent : event.isLog index = false)
    (follows : ∀ dir bytes records, task.After dir bytes records →
      next.After dir bytes (records + emissions index [event])) :
    Latest (past ++ [event]) index next := by
  intro before dir bytes after split quiet
  rcases List.eq_nil_or_concat after with rfl | ⟨front, last, rfl⟩
  · obtain ⟨_, same⟩ := List.append_inj' split rfl
    rw [(List.cons.inj same).1] at silent
    simp [Event.isLog] at silent
  · rw [List.concat_eq_append, ← List.cons_append, ← List.append_assoc] at split
    obtain ⟨rfl, same⟩ := List.append_inj' split rfl
    rw [List.concat_eq_append, emissions_snoc, ← (List.cons.inj same).1]
    exact follows dir bytes _ (latest before dir bytes front rfl fun other listed =>
      quiet other (by simp [listed]))

/-- The state of one connection against the records and the calls so far. -/
structure Recorded (past : List Event) (outputs : List (Nat × Segment)) (index : Nat)
    (stream : Stream) : Prop where
  port : stream.conn.clientPort = portOf (index % 2 ^ 32)
  octet : stream.conn.ipOctet = octetOf (index % 2 ^ 32)
  seqs : ∀ dir, stream.conn.seq dir = (1 + (sent outputs index dir).length) % 2 ^ 32
  bytes : ∀ dir, sent outputs index dir ++ stream.left dir = loggedBytes past index dir
  greets : stream.Greets
  latest : Latest past index stream.task

/-- Every data record has the numbers that belong to the records before it. -/
def Numbered (outputs : List (Nat × Segment)) : Prop :=
  ∀ (k : Nat) (output : Nat × Segment), outputs[k]? = some output → output.2.flags = fPshAck →
    output.2.seq = (1 + (sent (outputs.take k) output.1 output.2.dir).length) % 2 ^ 32 ∧
    output.2.ack = (1 + (sent (outputs.take k) output.1 output.2.dir.other).length) % 2 ^ 32

theorem Numbered.snoc (numbered : Numbered outputs) {output : Nat × Segment}
    (next : output.2.flags = fPshAck →
      output.2.seq = (1 + (sent outputs output.1 output.2.dir).length) % 2 ^ 32 ∧
      output.2.ack = (1 + (sent outputs output.1 output.2.dir.other).length) % 2 ^ 32) :
    Numbered (outputs ++ [output]) := by
  intro k other found data
  rcases Nat.lt_or_ge k outputs.length with before | after
  · rw [List.getElem?_append_left before] at found
    rw [List.take_append_of_le_length (Nat.le_of_lt before)]
    exact numbered k other found data
  · rw [List.getElem?_append_right after, List.getElem?_singleton] at found
    split at found
    case isTrue last =>
      obtain rfl := Option.some.inj found
      obtain rfl : k = outputs.length := by omega
      rw [List.take_left]
      exact next data
    case isFalse beyond => simp at found

/-- The live file holds the records. -/
structure Live (path : Path) (sink : Globals) (records : List Bytes) : Prop where
  opened : sink.opened = true
  written : sink.written = (fileOf records).length
  place : sink.path = path
  file : sink.disk path = some (fileOf records)

theorem Live.append {path : Path} {sink : Globals} {records : List Bytes} {record : Bytes}
    (live : Live path sink records) (room : sink.written + record.length ≤ sink.maxFile) :
    Live path (appendRecord sink record) (records ++ [record]) := by
  obtain ⟨opened, written, rfl, file⟩ := live
  have same : appendRecord sink record = sink.write record := by
    simp [appendRecord, opened, Nat.not_lt.mpr room]
  rw [same]
  refine ⟨opened, ?_, rfl, ?_⟩
  · rw [length_fileOf_append, ← written]
    rfl
  · refine (congrFun (perform_append file record) sink.path).trans ?_
    rw [Disk.set_same]
    simp [fileOf]

/-- The records that have been emitted, against the state. -/
structure Captured (path : Path) (past : List Event) (state : System)
    (outputs : List (Nat × Segment)) : Prop where
  file : Live path state.sink (outputs.map fun output => buildRecord output.2)
  next : state.nextPort = state.streams.length % 2 ^ 32
  streams : ∀ (i : Nat) (stream : Stream), state.streams[i]? = some stream →
    Recorded past outputs i stream
  unopened : ∀ i, state.streams.length ≤ i →
    (∀ dir, sent outputs i dir = []) ∧ ∀ event ∈ past, event.isLog i = false
  emitted : ∀ output ∈ outputs, output.1 < state.streams.length ∧
    output.2.clientPort = portOf (output.1 % 2 ^ 32) ∧
    output.2.ipOctet = octetOf (output.1 % 2 ^ 32) ∧ output.2.Valid
  numbered : Numbered outputs

section Steps

variable {path : Path} {past : List Event} {state next : System}
  {outputs : List (Nat × Segment)}

theorem loggedBytes_quiet (quiet : ∀ event ∈ past, event.isLog index = false) (dir : Dir) :
    loggedBytes past index dir = [] := by
  refine List.flatMap_eq_nil_iff.mpr fun event listed => ?_
  have silent := quiet event listed
  cases event <;> simp_all [Event.isLog, Event.logged]

theorem Recorded.of_silent {stream : Stream} {event : Event}
    (recorded : Recorded past outputs index stream) (silent : event.isLog index = false)
    (unmoved : emissions index [event] = 0) :
    Recorded (past ++ [event]) outputs index stream := by
  refine ⟨recorded.port, recorded.octet, recorded.seqs, fun dir => ?_, recorded.greets, ?_⟩
  · have nothing : loggedBytes [event] index dir = [] :=
      loggedBytes_quiet (by simpa using silent) dir
    rw [recorded.bytes, loggedBytes_append, nothing, List.append_nil]
  · refine recorded.latest.snoc silent fun dir bytes records after => ?_
    rwa [unmoved]

variable (captured : Captured path past state outputs)
include captured

theorem Captured.connOpen (performed : step state .connOpen = some next) :
    Captured path (past ++ [.connOpen]) next outputs := by
  obtain rfl := Option.some.inj performed
  refine ⟨captured.file, ?_, ?_, ?_, ?_, captured.numbered⟩
  · dsimp only
    rw [captured.next, Nat.mod_add_mod, List.length_append]
    rfl
  · intro i stream found
    rcases Nat.lt_or_ge i state.streams.length with old | new
    · rw [List.getElem?_append_left old] at found
      exact (captured.streams i stream found).of_silent rfl rfl
    · rw [List.getElem?_append_right new, List.getElem?_singleton] at found
      split at found
      case isTrue last =>
        obtain rfl := Option.some.inj found
        obtain rfl : i = state.streams.length := by omega
        obtain ⟨unsent, quiet⟩ := captured.unopened _ new
        have still : ∀ event ∈ past ++ [.connOpen], event.isLog state.streams.length = false :=
          List.forall_mem_append.mpr ⟨quiet, by simp [Event.isLog]⟩
        refine ⟨by rw [← captured.next]; rfl, by rw [← captured.next]; rfl, ?_, ?_, ?_,
          .of_quiet still _⟩
        · intro dir
          rw [unsent]
          cases dir <;> rfl
        · intro dir
          rw [loggedBytes_quiet still, unsent]
          rfl
        · intro left task
          obtain rfl := Task.handshake.inj task
          exact ⟨by decide, fun _ listed => listed⟩
      case isFalse beyond => simp at found
  · intro i beyond
    rw [List.length_append] at beyond
    obtain ⟨unsent, quiet⟩ := captured.unopened i (by omega)
    exact ⟨unsent, List.forall_mem_append.mpr ⟨quiet, by simp [Event.isLog]⟩⟩
  · intro output listed
    obtain ⟨opened, rest⟩ := captured.emitted output listed
    exact ⟨by rw [List.length_append]; omega, rest⟩

theorem Captured.log {dir : Dir} {bytes : Bytes}
    (performed : step state (.log index dir bytes) = some next) :
    Captured path (past ++ [.log index dir bytes]) next outputs := by
  simp only [step] at performed
  split at performed
  case h_1 conn idle =>
    obtain rfl := Option.some.inj performed
    have inside : index < state.streams.length := (List.getElem?_eq_some_iff.mp idle).1
    refine ⟨captured.file, ?_, ?_, ?_, ?_, captured.numbered⟩
    · rw [List.length_set]
      exact captured.next
    · intro i stream found
      by_cases same : index = i
      · subst same
        rw [List.getElem?_set_self inside] at found
        obtain rfl := Option.some.inj found
        have recorded := captured.streams index _ idle
        refine ⟨recorded.port, recorded.octet, recorded.seqs, fun towards => ?_,
          greets_logging _ _ _, .log past index dir bytes⟩
        have before := recorded.bytes towards
        rw [loggedBytes_append, ← before, left_logging]
        simp [Stream.left, loggedBytes, Event.logged]
      · rw [List.getElem?_set_ne same] at found
        exact (captured.streams i stream found).of_silent (by simp [Event.isLog, same]) rfl
    · intro i beyond
      rw [List.length_set] at beyond
      have other : index ≠ i := by omega
      obtain ⟨unsent, quiet⟩ := captured.unopened i beyond
      exact ⟨unsent, List.forall_mem_append.mpr ⟨quiet, by simp [Event.isLog, other]⟩⟩
    · intro output listed
      rw [List.length_set]
      exact captured.emitted output listed
  case h_2 => simp at performed

omit captured

theorem Segment.Valid.of_emission {before after : Stream} {segment : Segment}
    (recorded : Recorded past outputs index before) (emission : Emission before segment after) :
    segment.Valid := by
  have small : ∀ dir, before.conn.seq dir < 256 ^ 4 := by
    intro dir
    rw [recorded.seqs dir]
    exact Nat.mod_lt _ (by decide)
  obtain ⟨seq, ack⟩ := emission.fields small
  refine ⟨?_, seq, ack, emission.size⟩
  rw [emission.port.1, recorded.port, portOf]
  omega

/-- The connection of the record that is emitted. -/
theorem Recorded.emit {before after : Stream} {segment : Segment} {sec usec : Nat}
    (recorded : Recorded past outputs index before) (emission : Emission before segment after) :
    Recorded (past ++ [.emit index sec usec]) (outputs ++ [(index, segment)]) index after := by
  have more : ∀ dir, sent (outputs ++ [(index, segment)]) index dir =
      sent outputs index dir ++ if segment.dir = dir then segment.payload else [] := by
    intro dir
    simp only [sent_snoc, true_and]
  refine ⟨emission.port.2.trans recorded.port, emission.octet.2.trans recorded.octet, ?_, ?_,
    emission.greets, ?_⟩
  · intro dir
    rw [more, List.length_append]
    exact emission.advanced dir _ (recorded.seqs dir)
  · intro dir
    rw [more, List.append_assoc, ← emission.left, recorded.bytes, loggedBytes_append]
    exact (List.append_nil _).symm
  · refine recorded.latest.snoc rfl fun dir bytes records before => ?_
    have one : emissions index [.emit index sec usec] = 1 := by simp [emissions]
    obtain ⟨some_, task⟩ := emission.goesOn dir _ before.1
    have short : maxSegment * records < bytes.length := by simpa using some_
    rw [one, Task.After, Nat.mul_succ, ← List.drop_drop]
    exact ⟨task, Nat.add_lt_add_right short _⟩

/-- The other connections. -/
theorem Recorded.emit_other {stream sec usec : Nat} {other : Stream} {segment : Segment}
    (recorded : Recorded past outputs index other) (different : stream ≠ index) :
    Recorded (past ++ [.emit stream sec usec]) (outputs ++ [(stream, segment)]) index other := by
  have same : ∀ dir, sent (outputs ++ [(stream, segment)]) index dir = sent outputs index dir := by
    intro dir
    simp [sent_snoc, different]
  have still := @Recorded.of_silent index past outputs other (.emit stream sec usec) recorded rfl
    (by simp [emissions, different])
  refine ⟨still.port, still.octet, fun dir => ?_, fun dir => ?_, still.greets, still.latest⟩
  · rw [same]
    exact still.seqs dir
  · rw [same]
    exact still.bytes dir

include captured

theorem Captured.emit {sec usec : Nat} (fits : NoRotation state (.emit index sec usec))
    (performed : step state (.emit index sec usec) = some next) :
    ∃ segment, Captured path (past ++ [.emit index sec usec]) next
      (outputs ++ [(index, segment)]) := by
  obtain ⟨before, found, performed⟩ := Option.bind_eq_some_iff.mp performed
  obtain ⟨⟨segment, after⟩, emitted, performed⟩ := Option.bind_eq_some_iff.mp performed
  obtain rfl := Option.some.inj performed
  have inside : index < state.streams.length := (List.getElem?_eq_some_iff.mp found).1
  have recorded := captured.streams index before found
  have emission := Stream.next_emission recorded.greets emitted
  have room := fits before found (segment, after) emitted
  refine ⟨segment, ?_, ?_, ?_, ?_, ?_, ?_⟩
  · rw [List.map_append]
    exact captured.file.append room
  · rw [List.length_set]
    exact captured.next
  · intro i stream there
    by_cases same : index = i
    · subst same
      rw [List.getElem?_set_self inside] at there
      obtain rfl := Option.some.inj there
      exact recorded.emit emission
    · rw [List.getElem?_set_ne same] at there
      exact (captured.streams i stream there).emit_other same
  · intro i beyond
    rw [List.length_set] at beyond
    have other : index ≠ i := by omega
    obtain ⟨unsent, quiet⟩ := captured.unopened i beyond
    refine ⟨fun dir => ?_, List.forall_mem_append.mpr ⟨quiet, by simp [Event.isLog]⟩⟩
    rw [sent_snoc, unsent]
    simp [other]
  · intro output listed
    rw [List.length_set]
    rcases List.mem_append.mp listed with old | new
    · exact captured.emitted output old
    · rw [List.mem_singleton.mp new]
      exact ⟨inside, emission.port.1.trans recorded.port, emission.octet.1.trans recorded.octet,
        Segment.Valid.of_emission recorded emission⟩
  · apply captured.numbered.snoc
    intro data
    obtain ⟨seq, ack⟩ := emission.numbered data
    exact ⟨seq.trans (recorded.seqs _), ack.trans (recorded.seqs _)⟩

/-- One event. -/
theorem Captured.step {event : Event} (fits : NoRotation state event)
    (performed : Wirelog.step state event = some next) :
    ∃ outputs, Captured path (past ++ [event]) next outputs := by
  cases event with
  | connOpen => exact ⟨outputs, captured.connOpen performed⟩
  | log index dir bytes => exact ⟨outputs, captured.log performed⟩
  | emit index sec usec =>
      obtain ⟨segment, captured⟩ := captured.emit fits performed
      exact ⟨_, captured⟩

end Steps

theorem portOf_octetOf_inj {i j : Nat} (low : i < 4000000) (lower : j < 4000000)
    (port : portOf i = portOf j) (octet : octetOf i = octetOf j) : i = j := by
  unfold portOf at port
  unfold octetOf at octet
  omega

/-- The addresses and ports tell the connection and the direction. -/
theorem fourTuple_inj {i j : Nat} (low : i < 4000000) (lower : j < 4000000) {dir towards : Dir}
    (same : fourTuple (portOf i) (octetOf i) dir = fourTuple (portOf j) (octetOf j) towards) :
    i = j ∧ dir = towards := by
  have octets : clientIp (octetOf i) = clientIp (octetOf j) → octetOf i = octetOf j := by
    intro ips
    have last : UInt8.ofNat (octetOf i) = UInt8.ofNat (octetOf j) := by simpa [clientIp] using ips
    have values : octetOf i % 256 = octetOf j % 256 := congrArg UInt8.toNat last
    unfold octetOf at values ⊢
    omega
  have notServer : ∀ k, portOf k ≠ serverPort := by
    intro k
    unfold portOf serverPort
    omega
  cases dir with
  | clientToServer =>
      cases towards with
      | clientToServer =>
          obtain ⟨ip, _, port, _⟩ := FourTuple.mk.inj same
          exact ⟨portOf_octetOf_inj low lower port (octets ip), rfl⟩
      | serverToClient => exact absurd (FourTuple.mk.inj same).2.2.1 (notServer i)
  | serverToClient =>
      cases towards with
      | clientToServer => exact absurd (FourTuple.mk.inj same).2.2.1.symm (notServer j)
      | serverToClient =>
          obtain ⟨_, ip, _, port⟩ := FourTuple.mk.inj same
          exact ⟨portOf_octetOf_inj low lower port (octets ip), rfl⟩

/-- The records are those of the first four million connections. -/
def Identified (outputs : List (Nat × Segment)) : Prop :=
  ∀ output ∈ outputs, output.1 < 4000000 ∧ output.2.clientPort = portOf output.1 ∧
    output.2.ipOctet = octetOf output.1

theorem Identified.tuple (identified : Identified outputs) {output : Nat × Segment}
    (listed : output ∈ outputs) :
    output.2.tuple = fourTuple (portOf output.1) (octetOf output.1) output.2.dir := by
  obtain ⟨_, port, octet⟩ := identified output listed
  rw [Segment.tuple, port, octet]

/-- Selecting packets by addresses and ports selects the records of a connection. -/
theorem payloads_eq_sent (identified : Identified outputs) {i : Nat} (low : i < 4000000) (dir : Dir)
    :
    
    payloads (outputs.map fun output => output.2.packet) (fourTuple (portOf i) (octetOf i) dir) =
      sent outputs i dir := by
  have chosen : outputs.filter ((fun packet => decide (packet.tuple =
      fourTuple (portOf i) (octetOf i) dir)) ∘ fun output => output.2.packet) =
        outputs.filter fun output => decide (output.1 = i ∧ output.2.dir = dir) := by
    apply List.filter_congr
    intro output listed
    apply decide_eq_decide.mpr
    have tuple := identified.tuple listed
    constructor
    · intro same
      exact fourTuple_inj (identified output listed).1 low (tuple.symm.trans same)
    · rintro ⟨rfl, rfl⟩
      exact tuple
  rw [payloads, List.filter_map, List.flatMap_map, chosen]
  rfl

theorem flip_fourTuple (clientPort ipOctet : Nat) (dir : Dir) :
    (fourTuple clientPort ipOctet dir).flip = fourTuple clientPort ipOctet dir.other := by
  cases dir <;> rfl

theorem parseCapture_built {segments : List Segment} (valid : ∀ segment ∈ segments, segment.Valid) :
    parseCapture (pcapGlobalHeader ++ segments.flatMap buildRecord) =
      some (segments.map Segment.packet) := by
  have enough : segments.length ≤ (segments.flatMap buildRecord).length := by
    induction segments with
    | nil => exact Nat.le_refl _
    | cons segment rest ih =>
        have later := ih fun other listed =>
          valid other (List.mem_cons_of_mem _ listed)
        rw [List.flatMap_cons, List.length_append, length_buildRecord, List.length_cons]
        omega
  have parts : pcapGlobalHeader ++ segments.flatMap buildRecord =
      littleEndian 4 0xa1b2c3d4 ++ ((littleEndian 2 2 ++ littleEndian 2 4) ++
        (List.replicate 8 0 ++ (littleEndian 4 65535 ++ (littleEndian 4 101 ++
          segments.flatMap buildRecord)))) := by
    simp only [pcapGlobalHeader, List.append_assoc]
  have version : (littleEndian 2 2 ++ littleEndian 2 4).length = 4 := rfl
  have zone : (List.replicate 8 (0 : UInt8)).length = 8 := rfl
  rw [parts]
  simp only [parseCapture, splitOff_append (length_littleEndian 4 _), splitOff_append version,
    splitOff_append zone, Option.bind_eq_bind, Option.bind_some]
  rw [if_pos (by decide)]
  exact parseRecords_built valid enough

/-- The packets of the records that were emitted. -/
def packetsOf (outputs : List (Nat × Segment)) : List Packet :=
  outputs.map fun output => output.2.packet

theorem Numbered.packets (identified : Identified outputs) (numbered : Numbered outputs) {k : Nat}
    {packet : Packet} (found : (packetsOf outputs)[k]? = some packet)
    (data : packet.flags = fPshAck) :
    packet.seq = (1 + (payloads ((packetsOf outputs).take k) packet.tuple).length) % 2 ^ 32 ∧
    packet.ack =
      (1 + (payloads ((packetsOf outputs).take k) packet.tuple.flip).length) % 2 ^ 32 := by
  rw [packetsOf, List.getElem?_map] at found
  obtain ⟨output, there, rfl⟩ := Option.map_eq_some_iff.mp found
  have listed := List.mem_of_getElem? there
  have before : Identified (outputs.take k) := fun other earlier =>
    identified other (List.mem_of_mem_take earlier)
  have tuple : output.2.packet.tuple = _ := identified.tuple listed
  have low := (identified output listed).1
  rw [tuple, flip_fourTuple, packetsOf, ← List.map_take, payloads_eq_sent before low,
    payloads_eq_sent before low]
  exact numbered k output there data

section Reading

variable {path : Path} {events : List Event} {final : System}
  {outputs : List (Nat × Segment)}

theorem Captured.index_eq (few : final.streams.length ≤ 4000000) {i : Nat}
    (opened : i < final.streams.length) : i < 4000000 ∧ i % 2 ^ 32 = i := by
  have low : i < 4000000 := Nat.lt_of_lt_of_le opened few
  exact ⟨low, Nat.mod_eq_of_lt (Nat.lt_trans low (by decide))⟩

variable (captured : Captured path events final outputs)
include captured

theorem Captured.identified (few : final.streams.length ≤ 4000000) : Identified outputs := by
  intro output listed
  obtain ⟨opened, port, octet, _⟩ := captured.emitted output listed
  obtain ⟨low, same⟩ := Captured.index_eq few opened
  exact ⟨low, by rw [port, same], by rw [octet, same]⟩

theorem Captured.parsed :
    parseCapture (fileOf (outputs.map fun output => buildRecord output.2)) =
      some (packetsOf outputs) := by
  have valid : ∀ segment ∈ outputs.map Prod.snd, segment.Valid := by
    intro segment isSegment
    obtain ⟨output, listed, rfl⟩ := List.mem_map.mp isSegment
    exact (captured.emitted output listed).2.2.2
  have read := parseCapture_built valid
  rw [List.map_map, List.flatMap_map] at read
  exact read

end Reading

end GrpcUds.Wirelog
