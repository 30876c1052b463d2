import GrpcUds.Framing
import GrpcUds.Lib.Endian
import GrpcUds.Lib.OnesComplement

/-!
# Synthetic packets

A record of the capture file is a pcap record header, an IPv4 header, a TCP header and a
chunk of what went over the socket.  Beside the builder stands a parser that is written from
the formats and knows nothing of the builder.
-/

namespace GrpcUds.Wirelog

open Endian

inductive Dir where
  | clientToServer
  | serverToClient
  deriving DecidableEq

def Dir.other : Dir → Dir
  | .clientToServer => .serverToClient
  | .serverToClient => .clientToServer

def serverIp : Bytes := [10, 117, 117, 2]

/-- `CLIENT_IP` with its last octet. -/
def clientIp (ipOctet : Nat) : Bytes := [10, 117, 117, UInt8.ofNat ipOctet]

def serverPort : Nat := 80

def maxSegment : Nat := 1400

/-- The arguments of `build_record`, with the time that it reads. -/
structure Segment where
  clientPort : Nat
  ipOctet : Nat
  dir : Dir
  seq : Nat
  ack : Nat
  flags : UInt8
  payload : Bytes
  sec : Nat
  usec : Nat
  deriving DecidableEq

/-- Addresses and ports of the two ends. -/
structure FourTuple where
  srcIp : Bytes
  dstIp : Bytes
  sport : Nat
  dport : Nat
  deriving DecidableEq

def fourTuple (clientPort ipOctet : Nat) : Dir → FourTuple
  | .clientToServer => ⟨clientIp ipOctet, serverIp, clientPort, serverPort⟩
  | .serverToClient => ⟨serverIp, clientIp ipOctet, serverPort, clientPort⟩

def Segment.tuple (segment : Segment) : FourTuple :=
  fourTuple segment.clientPort segment.ipOctet segment.dir

/-- `ipv4_checksum`. -/
def ipv4Checksum (header : Bytes) : Nat :=
  let sum := (words header).sum
  0xFFFF - OnesComplement.fold 0xFFFF sum sum

/-- The IPv4 header before the checksum is filled in, in the two parts around it. -/
def ipBefore (segment : Segment) : Bytes :=
  [0x45, 0] ++ bigEndian 2 (40 + segment.payload.length) ++ bigEndian 2 0 ++
    bigEndian 2 0x4000 ++ [64, 6]

def ipAfter (segment : Segment) : Bytes := segment.tuple.srcIp ++ segment.tuple.dstIp

def ipHeader (segment : Segment) : Bytes :=
  let csum := ipv4Checksum (ipBefore segment ++ [0, 0] ++ ipAfter segment)
  ipBefore segment ++ bigEndian 2 csum ++ ipAfter segment

def tcpHeader (segment : Segment) : Bytes :=
  bigEndian 2 segment.tuple.sport ++ bigEndian 2 segment.tuple.dport ++
    bigEndian 4 segment.seq ++ bigEndian 4 segment.ack ++ [0x50, segment.flags] ++
    bigEndian 2 0xFFFF ++ [0, 0] ++ [0, 0]

def buildRecord (segment : Segment) : Bytes :=
  littleEndian 4 segment.sec ++ littleEndian 4 segment.usec ++
    littleEndian 4 (40 + segment.payload.length) ++ littleEndian 4 (40 + segment.payload.length) ++
    ipHeader segment ++ tcpHeader segment ++ segment.payload

/-! ### The formats -/

/-- A packet as it is read from a capture. -/
structure Packet where
  inclLen : Nat
  origLen : Nat
  /-- The IPv4 header. -/
  header : Bytes
  totalLength : Nat
  tuple : FourTuple
  seq : Nat
  ack : Nat
  flags : UInt8
  payload : Bytes
  deriving DecidableEq

/-- The bytes at an offset. -/
def field (bytes : Bytes) (offset width : Nat) : Bytes := (bytes.drop offset).take width

/-- An IPv4 header and a TCP header, both without options. -/
def parseHeaders (inclLen origLen : Nat) (header tcp payload : Bytes) : Option Packet :=
  if field header 0 1 = [0x45] ∧ field header 9 1 = [6] ∧ field tcp 12 1 = [0x50] then
    some {
      inclLen := inclLen
      origLen := origLen
      header := header
      totalLength := ofBigEndian (field header 2 2)
      tuple := ⟨field header 12 4, field header 16 4, ofBigEndian (field tcp 0 2),
        ofBigEndian (field tcp 2 2)⟩
      seq := ofBigEndian (field tcp 4 4)
      ack := ofBigEndian (field tcp 8 4)
      flags := UInt8.ofNat (ofBigEndian (field tcp 13 1))
      payload := payload }
  else none

def parsePacket (inclLen origLen : Nat) (data : Bytes) : Option Packet := do
  let (header, data) ← splitOff 20 data
  let (tcp, payload) ← splitOff 20 data
  parseHeaders inclLen origLen header tcp payload

/-- A record: the times, the two lengths, and so many bytes as the first of them says. -/
def parseRecord (bytes : Bytes) : Option (Packet × Bytes) := do
  let (_, bytes) ← splitOff 8 bytes
  let (incl, bytes) ← splitOff 4 bytes
  let (orig, bytes) ← splitOff 4 bytes
  let (data, rest) ← splitOff (ofLittleEndian incl) bytes
  let packet ← parsePacket (ofLittleEndian incl) (ofLittleEndian orig) data
  return (packet, rest)

/-- Records to the end of the file. -/
def parseRecords : Nat → Bytes → Option (List Packet)
  | _, [] => some []
  | 0, _ :: _ => none
  | turns + 1, byte :: bytes => do
      let (packet, rest) ← parseRecord (byte :: bytes)
      let packets ← parseRecords turns rest
      return packet :: packets

/-- A little-endian capture of raw IP packets. -/
def parseCapture (file : Bytes) : Option (List Packet) := do
  let (magic, file) ← splitOff 4 file
  let (version, file) ← splitOff 4 file
  let (_, file) ← splitOff 8 file
  let (_, file) ← splitOff 4 file
  let (linkType, records) ← splitOff 4 file
  if ofLittleEndian magic = 0xa1b2c3d4 ∧ version = littleEndian 2 2 ++ littleEndian 2 4 ∧
      ofLittleEndian linkType = 101 then
    parseRecords records.length records
  else none

/-! ### Reading what was built -/

/-- The fields fit their places in the headers. -/
structure Segment.Valid (segment : Segment) : Prop where
  port : segment.clientPort < 256 ^ 2
  seq : segment.seq < 256 ^ 4
  ack : segment.ack < 256 ^ 4
  size : segment.payload.length ≤ maxSegment

/-- The packet that is read for a segment. -/
def Segment.packet (segment : Segment) : Packet where
  inclLen := 40 + segment.payload.length
  origLen := 40 + segment.payload.length
  header := ipHeader segment
  totalLength := 40 + segment.payload.length
  tuple := segment.tuple
  seq := segment.seq
  ack := segment.ack
  flags := segment.flags
  payload := segment.payload

variable (segment : Segment)

theorem length_ipHeader : (ipHeader segment).length = 20 := by
  cases segment with
  | mk clientPort ipOctet dir => cases dir <;> rfl

theorem length_tcpHeader : (tcpHeader segment).length = 20 := rfl

theorem length_buildRecord :
    (buildRecord segment).length = 56 + segment.payload.length := by
  simp only [buildRecord, List.length_append, length_littleEndian, length_ipHeader,
    length_tcpHeader]

theorem ofBigEndian_of_lt {width value : Nat} (fits : value < 256 ^ width) :
    ofBigEndian (bigEndian width value) = value := by
  rw [ofBigEndian_bigEndian, Nat.mod_eq_of_lt fits]

theorem Segment.Valid.ports {segment : Segment} (valid : segment.Valid) :
    segment.tuple.sport < 256 ^ 2 ∧ segment.tuple.dport < 256 ^ 2 := by
  have port := valid.port
  have server : serverPort < 256 ^ 2 := by decide
  cases segment with
  | mk clientPort ipOctet dir =>
      cases dir with
      | clientToServer => exact ⟨port, server⟩
      | serverToClient => exact ⟨server, port⟩

theorem field_ipHeader :
    field (ipHeader segment) 2 2 = bigEndian 2 (40 + segment.payload.length) ∧
      field (ipHeader segment) 12 4 = segment.tuple.srcIp ∧
      field (ipHeader segment) 16 4 = segment.tuple.dstIp := by
  cases segment with
  | mk clientPort ipOctet dir => cases dir <;> exact ⟨rfl, rfl, rfl⟩

theorem field_tcpHeader :
    field (tcpHeader segment) 0 2 = bigEndian 2 segment.tuple.sport ∧
      field (tcpHeader segment) 2 2 = bigEndian 2 segment.tuple.dport ∧
      field (tcpHeader segment) 4 4 = bigEndian 4 segment.seq ∧
      field (tcpHeader segment) 8 4 = bigEndian 4 segment.ack ∧
      field (tcpHeader segment) 13 1 = [segment.flags] := ⟨rfl, rfl, rfl, rfl, rfl⟩

theorem parseHeaders_headers {segment : Segment} (valid : segment.Valid) (inclLen origLen : Nat) :
    parseHeaders inclLen origLen (ipHeader segment) (tcpHeader segment) segment.payload =
      some { segment.packet with inclLen := inclLen, origLen := origLen } := by
  have fixed : field (ipHeader segment) 0 1 = [0x45] ∧ field (ipHeader segment) 9 1 = [6] ∧
      field (tcpHeader segment) 12 1 = [0x50] := ⟨rfl, rfl, rfl⟩
  have size : segment.payload.length ≤ 1400 := valid.size
  have total : 40 + segment.payload.length < 256 ^ 2 := by omega
  have flags : UInt8.ofNat (ofBigEndian [segment.flags]) = segment.flags := by
    simp [ofBigEndian, ofLittleEndian]
  obtain ⟨length, source, target⟩ := field_ipHeader segment
  obtain ⟨sport, dport, seq, ack, flag⟩ := field_tcpHeader segment
  rw [parseHeaders, if_pos fixed, length, source, target, sport, dport, seq, ack, flag, flags,
    ofBigEndian_of_lt total, ofBigEndian_of_lt valid.ports.1, ofBigEndian_of_lt valid.ports.2,
    ofBigEndian_of_lt valid.seq, ofBigEndian_of_lt valid.ack]
  rfl

theorem parsePacket_headers {segment : Segment} (valid : segment.Valid) (inclLen origLen : Nat) :
    parsePacket inclLen origLen (ipHeader segment ++ (tcpHeader segment ++ segment.payload)) =
      some { segment.packet with inclLen := inclLen, origLen := origLen } := by
  simp only [parsePacket, splitOff_append (length_ipHeader segment),
    splitOff_append (length_tcpHeader segment), Option.bind_eq_bind, Option.bind_some]
  exact parseHeaders_headers valid inclLen origLen

/-- A record is read back, and what comes after it is left. -/
theorem parseRecord_buildRecord {segment : Segment} (valid : segment.Valid) (rest : Bytes) :
    parseRecord (buildRecord segment ++ rest) = some (segment.packet, rest) := by
  have size : segment.payload.length ≤ 1400 := valid.size
  have incl : ofLittleEndian (littleEndian 4 (40 + segment.payload.length)) =
      40 + segment.payload.length := by
    rw [ofLittleEndian_littleEndian]
    exact Nat.mod_eq_of_lt (by omega)
  have times : (littleEndian 4 segment.sec ++ littleEndian 4 segment.usec).length = 8 := by simp
  have data : (ipHeader segment ++ (tcpHeader segment ++ segment.payload)).length =
      40 + segment.payload.length := by
    rw [List.length_append, List.length_append, length_ipHeader, length_tcpHeader]
    omega
  have parts : buildRecord segment ++ rest =
      (littleEndian 4 segment.sec ++ littleEndian 4 segment.usec) ++
        (littleEndian 4 (40 + segment.payload.length) ++
          (littleEndian 4 (40 + segment.payload.length) ++
            ((ipHeader segment ++ (tcpHeader segment ++ segment.payload)) ++ rest))) := by
    simp only [buildRecord, List.append_assoc]
  rw [parts]
  simp only [parseRecord, splitOff_append times, splitOff_append (length_littleEndian 4 _), incl,
    splitOff_append data, parsePacket_headers valid, Option.bind_eq_bind, Option.bind_some]
  rfl

theorem buildRecord_cons :
    ∃ byte bytes, buildRecord segment = byte :: bytes := ⟨_, _, rfl⟩

theorem parseRecords_built {segments : List Segment}
    (valid : ∀ segment ∈ segments, segment.Valid) {turns : Nat} (enough : segments.length ≤ turns) :
    parseRecords turns (segments.flatMap buildRecord) = some (segments.map Segment.packet) := by
  induction segments generalizing turns with
  | nil => cases turns <;> rfl
  | cons segment rest ih =>
      obtain ⟨turns, rfl⟩ : ∃ less, turns = less + 1 :=
        ⟨turns - 1, by rw [List.length_cons] at enough; omega⟩
      obtain ⟨byte, bytes, start⟩ := buildRecord_cons segment
      have here := parseRecord_buildRecord (valid segment List.mem_cons_self)
        (rest.flatMap buildRecord)
      have later := ih
        (fun other listed => valid other (List.mem_cons_of_mem _ listed))
        (Nat.le_of_succ_le_succ enough)
      rw [start, List.cons_append] at here
      rw [List.flatMap_cons, start, List.cons_append]
      simp only [parseRecords, here, later, Option.bind_eq_bind, Option.bind_some]
      rfl

/-! ### The checksum -/

end GrpcUds.Wirelog
