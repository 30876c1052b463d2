import Mathlib.Algebra.GroupWithZero.Nat
import Mathlib.Data.List.TakeDrop
import GrpcUds.Client.Conn

/-!
# Request and response bodies

DATA reaches a call in chunks that nghttp2 cuts as it likes, and the request leaves
in reads of whatever length nghttp2 asks for.  Neither cut shows in what is
delivered.  The length field of a request does not hold more than 32 bits.
-/

namespace GrpcUds.Client

open Framing

namespace CallState

/-! ### Responses -/

/-- DATA that arrives chunk by chunk. -/
def onChunks (state : CallState) (chunks : List Bytes) : CallState := chunks.foldl onData state

theorem onChunks_deframed {state : CallState} {data : Bytes}
    (before : Deframed data state.messages state.inbuf) (chunks : List Bytes) :
    Deframed (data ++ chunks.flatten) (state.onChunks chunks).messages
      (state.onChunks chunks).inbuf := by
  induction chunks generalizing state data with
  | nil =>
      rw [List.flatten_nil, List.append_nil]
      exact before
  | cons chunk chunks ih =>
      rw [List.flatten_cons, ← List.append_assoc]
      apply ih
      exact before.append (deframe_deframed _)

/-- DATA changes the buffer and the messages only. -/
theorem onChunks_eq (state : CallState) (chunks : List Bytes) :
    state.onChunks chunks =
      { state with
        inbuf := (state.onChunks chunks).inbuf
        messages := (state.onChunks chunks).messages } := by
  induction chunks generalizing state with
  | nil => rfl
  | cons chunk chunks ih => exact ih (state.onData chunk)

end CallState

/-- A fresh call state is the same after the same bytes, however they were cut into
chunks; frames within the cap come out as the payloads they were made of, and nothing is
left over. -/
theorem chunks_deframe_alike (req : Bytes) (chunks : List Bytes) :
    (CallState.reset req).onChunks chunks = (CallState.reset req).onData chunks.flatten ∧
      ∀ payloads : List Bytes,
        (∀ payload ∈ payloads, payload.length ≤ 4 * 1024 * 1024) →
        chunks.flatten =
          payloads.flatMap (fun payload =>
            encodeHeader false (UInt32.ofNat payload.length) ++ payload) →
        ((CallState.reset req).onChunks chunks).messages = payloads ∧
          ((CallState.reset req).onChunks chunks).inbuf = [] := by
  have split : Deframed chunks.flatten ((CallState.reset req).onChunks chunks).messages
      ((CallState.reset req).onChunks chunks).inbuf := by
    rw [← List.nil_append chunks.flatten]
    apply CallState.onChunks_deframed
    exact .nil
  refine ⟨?_, ?_⟩
  · obtain ⟨messages, inbuf⟩ := split.unique (deframe_deframed _)
    rw [CallState.onChunks_eq, messages, inbuf]
    rfl
  · intro payloads fits same
    have whole : Deframed chunks.flatten payloads [] := by
      refine ⟨?_, fits, Deframed.nil.stuck⟩
      rw [same, List.append_nil]
      rfl
    exact split.unique whole

/-- Two messages cut inside a header and inside a payload. -/
theorem chunks_deframe_alike_two :
    ((CallState.reset []).onChunks
        [[0, 0, 0], [0, 2, 7], [8, 0, 0, 0, 0, 1], [9]]).messages = [[7, 8], [9]] := by
  obtain ⟨_, delivered⟩ :=
    chunks_deframe_alike [] [[0, 0, 0], [0, 2, 7], [8, 0, 0, 0, 0, 1], [9]]
  exact (delivered [[7, 8], [9]] (by decide) (by decide)).1

/-! ### Requests -/

namespace CallState

/-- `data_read`: the bytes it supplies, and whether it sets the EOF flag. -/
def readOut (state : CallState) (length : Nat) : Bytes × Bool :=
  (state.supply length, decide ((state.dataRead length).reqOff = state.req.length))

/-- What successive reads return. -/
def reads (state : CallState) : List Nat → List (Bytes × Bool)
  | [] => []
  | length :: lengths => state.readOut length :: (state.dataRead length).reads lengths

end CallState

/-- The bytes that some reads supplied. -/
def supplied (reads : List (Bytes × Bool)) : Bytes := (reads.map Prod.fst).flatten

namespace CallState

variable (state : CallState)

variable (lengths : List Nat)

@[simp]
theorem length_reads :
    (state.reads lengths).length = lengths.length := by
  induction lengths generalizing state with
  | nil => rfl
  | cons length lengths ih => simp [reads, ih]

theorem take_reads (count : Nat) :
    (state.reads lengths).take count = state.reads (lengths.take count) := by
  induction lengths generalizing state count with
  | nil => simp [reads]
  | cons length lengths ih =>
      cases count with
      | zero => rfl
      | succ count => simp [reads, ih]

/-- A read sets the flag if the reads up to it reach the end of the request. -/
theorem reads_flag {index : Nat} (inside : index < (state.reads lengths).length) :
    ((state.reads lengths)[index]).2 = true ↔
      state.req.length ≤ state.reqOff + (lengths.take (index + 1)).sum := by
  induction lengths generalizing state index with
  | nil => simp [reads] at inside
  | cons length lengths ih =>
      have within := state.within
      cases index with
      | zero =>
          rw [Nat.zero_add, List.take_succ_cons, List.take_zero, List.sum_singleton]
          simp only [reads, List.getElem_cons_zero, readOut]
          rw [decide_eq_true_iff]
          simp only [dataRead]
          omega
      | succ index =>
          simp only [reads, List.length_cons, Nat.add_lt_add_iff_right] at inside
          simp only [reads, List.getElem_cons_succ]
          rw [ih (state.dataRead length) inside, List.take_succ_cons,
            List.sum_cons]
          simp only [dataRead]
          omega

/-- The reads supply the rest of the request, as far as they go. -/
theorem supplied_reads :
    supplied (state.reads lengths) = (state.req.drop state.reqOff).take lengths.sum := by
  induction lengths generalizing state with
  | nil => simp [supplied, reads]
  | cons length lengths ih =>
      have rest := ih (state.dataRead length)
      have dropped : (state.dataRead length).req.drop (state.dataRead length).reqOff =
          (state.req.drop state.reqOff).drop length := by
        simp only [dataRead, List.drop_drop]
        by_cases short : state.req.length - state.reqOff ≤ length
        · have within := state.within
          rw [Nat.min_eq_left short, List.drop_eq_nil_of_le (by omega),
            List.drop_eq_nil_of_le (by omega)]
        · rw [Nat.min_eq_right (by omega)]
      rw [dropped] at rest
      rw [List.sum_cons, List.take_add, ← rest]
      rfl

/-- The first read that sets the flag is the one that supplies the last byte. -/
theorem findIdx_eof_iff {state : CallState} (start : state.reqOff = 0) (some_ : state.req ≠ [])
    (lengths : List Nat) (index : Nat) :
    (state.reads lengths).findIdx? Prod.snd = some index ↔
      (supplied ((state.reads lengths).take index)).length < state.req.length ∧
        supplied ((state.reads lengths).take (index + 1)) = state.req := by
  have nonempty : 0 < state.req.length := List.length_pos_iff.mpr some_
  have before (count : Nat) : supplied ((state.reads lengths).take count) =
      state.req.take (lengths.take count).sum := by
    rw [take_reads, supplied_reads, start, List.drop_zero]
  rw [before, before, List.length_take, List.take_eq_self_iff,
    List.findIdx?_eq_some_iff_getElem]
  constructor
  · rintro ⟨inside, flagged, earlier⟩
    have reached := (reads_flag state lengths inside).mp flagged
    refine ⟨?_, by omega⟩
    cases index with
    | zero =>
        rw [List.take_zero, List.sum_nil]
        omega
    | succ index =>
        have short := earlier index (Nat.lt_succ_self index)
        rw [reads_flag state lengths (by omega)] at short
        omega
  · rintro ⟨short, reached⟩
    have inside : index < (state.reads lengths).length := by
      rw [length_reads]
      by_contra beyond
      have all : lengths.take (index + 1) = lengths.take index := by
        rw [List.take_of_length_le (by omega), List.take_of_length_le (by omega)]
      rw [all] at reached
      omega
    refine ⟨inside, (reads_flag state lengths inside).mpr (by omega), ?_⟩
    intro other less
    rw [reads_flag state lengths (by omega)]
    have grows : (lengths.take (other + 1)).sum ≤ (lengths.take index).sum := by
      obtain ⟨more, rfl⟩ := Nat.exists_eq_add_of_le (Nat.succ_le_of_lt less)
      have further : lengths.take (other.succ + more) =
          lengths.take (other + 1) ++ (lengths.drop (other + 1)).take more := List.take_add
      rw [further, List.sum_append]
      exact Nat.le_add_right _ _
    omega

end CallState

/-- Every way of reading a request supplies a header that names its length and then the
request, and the EOF flag comes with the last byte. -/
structure Supplies (state : CallState) (request header : Bytes) : Prop where
  size : header.length = 5
  whole : ∀ lengths, supplied (state.reads lengths) = (header ++ request).take lengths.sum
  length : ∃ payloadLen, decodeHeader header 0xFFFFFFFF = .ok ⟨false, payloadLen⟩ ∧
    payloadLen.toNat = request.length
  eof : ∀ lengths index, (state.reads lengths).findIdx? Prod.snd = some index ↔
    (supplied ((state.reads lengths).take index)).length < (header ++ request).length ∧
      supplied ((state.reads lengths).take (index + 1)) = header ++ request

/-- The header of a request, which its first five bytes are. -/
theorem supplied_header (client : ClientConn) (request : Bytes) :
    supplied ((client.arm (frame request)).state.reads [5]) =
      encodeHeader false (UInt32.ofNat request.length) := by
  rw [CallState.supplied_reads]
  exact List.take_left' rfl

theorem decodeHeader_header (length : Nat) :
    decodeHeader (encodeHeader false (UInt32.ofNat length)) 0xFFFFFFFF =
      .ok ⟨false, UInt32.ofNat length⟩ := by
  have largest : UInt32.ofNat length ≤ 0xFFFFFFFF := by
    rw [UInt32.le_iff_toNat_le]
    exact Nat.le_of_lt_succ (UInt32.toNat_lt _)
  simpa using decodeHeader_encodeHeader (UInt32.ofNat length) 0xFFFFFFFF [] largest

/-- The armed request is supplied whole and under its own length exactly if the length
fits the header's 32 bits. -/
theorem supplies_iff (client : ClientConn) (request : Bytes) :
    (∃ header, Supplies (client.arm (frame request)).state request header) ↔
      request.length < 2 ^ 32 := by
  have exact_iff : (UInt32.ofNat request.length).toNat = request.length ↔
      request.length < 2 ^ 32 := by
    rw [UInt32.toNat_ofNat']
    omega
  constructor
  · rintro ⟨header, supplies⟩
    have first : header = encodeHeader false (UInt32.ofNat request.length) := by
      rw [← supplied_header client request, supplies.whole [5], List.sum_singleton,
        List.take_left' supplies.size]
    obtain ⟨payloadLen, decoded, length⟩ := supplies.length
    rw [first, decodeHeader_header] at decoded
    cases decoded
    exact exact_iff.mp length
  · intro fits
    refine ⟨encodeHeader false (UInt32.ofNat request.length), rfl, ?_, ?_, ?_⟩
    · intro lengths
      rw [CallState.supplied_reads]
      rfl
    · exact ⟨_, decodeHeader_header _, exact_iff.mpr fits⟩
    · intro lengths index
      apply CallState.findIdx_eof_iff rfl
      simp [ClientConn.arm, CallState.reset, frame, encodeHeader]

theorem submit_opens {client opened : ClientConn} {request : Bytes} {env : SubmitEnv} {sid : Nat}
    (submitted : client.submit request env = (.ok sid, opened)) :
    opened = (((if client.broken then client.reconnect else client).arm
      (frame request)).openStream env.now).feed env.flush.events := by
  unfold ClientConn.submit ClientConn.flushSend at submitted
  split at submitted
  · simp at submitted
  · dsimp only at submitted
    split at submitted
    · split at submitted
      next sent =>
        obtain ⟨_, rfl⟩ := Prod.mk.inj submitted
        split at sent
        · exact (Prod.mk.inj sent).2.symm
        · simp at sent
      next => simp at submitted
    · simp at submitted

/-- A request that either client accepts is supplied whole, under its own length, if and
only if the length fits the header's 32 bits.  The reads are those of the stream that
`submit` opens, its own flush included. -/
theorem request_supplied_iff (client : ClientConn) (request : Bytes) (env : SubmitEnv) :
    ∃ session : ClientConn,
      (∀ sid opened, client.submit request env = (.ok sid, opened) →
        opened = ((session.arm (frame request)).openStream env.now).feed env.flush.events) ∧
      ((∃ header, Supplies (session.arm (frame request)).state request header) ↔
        request.length < 2 ^ 32) := by
  refine ⟨if client.broken then client.reconnect else client, ?_, supplies_iff _ request⟩
  intro sid opened submitted
  exact submit_opens submitted

/-- A request of three bytes on a fresh connection. -/
theorem request_supplied_three :
    ∃ session : ClientConn, ∃ header,
      ((ClientConn.connect .core).submit [1, 2, 3] ⟨true, true, 0, ⟨[], true⟩⟩).2 =
          (session.arm (frame [1, 2, 3])).openStream 0 ∧
        Supplies (session.arm (frame [1, 2, 3])).state [1, 2, 3] header := by
  obtain ⟨session, opens, supplies⟩ :=
    request_supplied_iff (.connect .core) [1, 2, 3] ⟨true, true, 0, ⟨[], true⟩⟩
  obtain ⟨header, whole⟩ := supplies.mpr (by decide)
  exact ⟨session, header, opens 1 _ rfl, whole⟩

/-- The header of a request of 4 GiB announces an empty message. -/
theorem request_of_four_gib_announced_empty :
    ∃ request : Bytes, request.length = 2 ^ 32 ∧
      ∀ kind : Kind, decodeHeader
        (supplied (((ClientConn.connect kind).arm (frame request)).state.reads [5])) 0xFFFFFFFF =
          .ok ⟨false, 0⟩ := by
  refine ⟨List.replicate (2 ^ 32) 0, List.length_replicate, ?_⟩
  intro kind
  rw [supplied_header, List.length_replicate, decodeHeader_header]
  rfl

end GrpcUds.Client
