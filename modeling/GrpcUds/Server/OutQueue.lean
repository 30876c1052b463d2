import Mathlib.Data.PNat.Basic
import GrpcUds.Headers

/-!
# Per-stream outbound message queue

The queue holds framed messages; `frontOffset` counts the bytes of the head
message that have already been shipped.  Every operation is given by what it
does to the messages and the offset, and `Ships` is the one fact about bytes
that all the ways of shipping share.
-/

namespace GrpcUds.Server

open Framing

/-- What to do when a bounded queue is at capacity. -/
inductive OverflowPolicy where
  | reject
  | dropOldest
  deriving DecidableEq, Repr

/-- A bounded queue has a non-zero capacity and an explicit policy. -/
inductive Backpressure where
  | unbounded
  | bounded (capacity : ℕ+) (policy : OverflowPolicy)
  deriving DecidableEq

inductive ConnError where
  | outOfMemory
  | streamNotFound
  | streamFinished
  | queueFull
  | nghttp2 (code : Int)
  deriving DecidableEq, Repr

/-- One queued message.  Only `enqueueOwned` builds one, and it always writes
the uncompressed header of a body whose length fits the length field. -/
structure OutMsg where
  hdr : Bytes
  body : Bytes
  framed : hdr = encodeHeader false (UInt32.ofNat body.length)
  fits : body.length ≤ u32Max
  deriving DecidableEq

namespace OutMsg

def len (message : OutMsg) : Nat := frameHeaderLen + message.body.length

/-- The logical message is the header followed by the body. -/
def bytes (message : OutMsg) : Bytes := message.hdr ++ message.body

theorem bytes_eq_frame (message : OutMsg) : message.bytes = frame message.body := by
  simp [bytes, frame, message.framed]

@[simp]
theorem length_hdr (message : OutMsg) : message.hdr.length = frameHeaderLen := by
  simp [message.framed]

@[simp]
theorem length_bytes (message : OutMsg) : message.bytes.length = message.len := by
  simp [bytes, len]

end OutMsg

/-- Length of the head message, 0 for an empty queue. -/
def frontLen : List OutMsg → Nat
  | [] => 0
  | front :: _ => front.len

/-- The bytes of a list of messages in order. -/
def wire (messages : List OutMsg) : Bytes := messages.flatMap OutMsg.bytes

@[simp]
theorem wire_nil : wire [] = [] := rfl

@[simp]
theorem wire_cons (front : OutMsg) (rest : List OutMsg) :
    wire (front :: rest) = front.bytes ++ wire rest := rfl

@[simp]
theorem wire_append (first second : List OutMsg) :
    wire (first ++ second) = wire first ++ wire second := by
  simp [wire]

variable {offset : Nat}

theorem wire_take_frontLen (messages : List OutMsg) (bounded : offset ≤ frontLen messages) :
    offset ≤ (wire messages).length := by
  cases messages with
  | nil => simpa [frontLen] using bounded
  | cons front rest =>
      simp only [frontLen] at bounded
      simp only [wire_cons, List.length_append, OutMsg.length_bytes]
      omega

/-- Per-stream outbound queue.  The offset never passes the head message. -/
structure OutQueue where
  messages : List OutMsg
  frontOffset : Nat
  /-- Bytes of the head are promised to a `NO_COPY` frame and not yet consumed. -/
  frontCommitted : Bool
  finished : Bool
  finalStatus : GrpcStatus
  /-- Already percent-encoded. -/
  finalMessage : Option Bytes
  responseStarted : Bool
  backpressure : Backpressure
  offsetLe : frontOffset ≤ frontLen messages
  deriving DecidableEq

namespace OutQueue

def new : OutQueue where
  messages := []
  frontOffset := 0
  frontCommitted := false
  finished := false
  finalStatus := .ok
  finalMessage := none
  responseStarted := false
  backpressure := .unbounded
  offsetLe := Nat.le_refl 0

/-- The head is partially shipped or promised, so it can no longer be dropped. -/
def started (queue : OutQueue) : Bool :=
  decide (0 < queue.frontOffset) || queue.frontCommitted

def unstartedCount (queue : OutQueue) : Nat :=
  if queue.started then queue.messages.length - 1 else queue.messages.length

def frontRemaining (queue : OutQueue) : Nat :=
  match queue.messages with
  | [] => 0
  | front :: _ => front.len - queue.frontOffset

/-- Promise up to `max` bytes of the head as a `NO_COPY` frame. -/
def promiseFront (queue : OutQueue) (max : Nat) : Nat × OutQueue :=
  let n := min queue.frontRemaining max
  (n, if 0 < n then { queue with frontCommitted := true } else queue)

/-- The header part and the payload part of `n` bytes at the offset. -/
def frontRegions (queue : OutQueue) (n : Nat) : Bytes × Bytes :=
  match queue.messages with
  | [] => ([], [])
  | front :: _ =>
      let n := min n (front.len - queue.frontOffset)
      let stop := queue.frontOffset + n
      let hdrPart :=
        if queue.frontOffset < frameHeaderLen then
          (front.hdr.take (min stop frameHeaderLen)).drop queue.frontOffset
        else []
      let bodyStart := max queue.frontOffset frameHeaderLen - frameHeaderLen
      let bodyStop := max stop frameHeaderLen - frameHeaderLen
      (hdrPart, (front.body.take bodyStop).drop bodyStart)

/-- Messages and offset after `n` more bytes of the head are shipped. -/
def consumeMessages (n : Nat) : List OutMsg → Nat → List OutMsg × Nat
  | [], offset => ([], offset)
  | front :: rest, offset =>
      let shipped := offset + min n (front.len - offset)
      if shipped = front.len then (rest, 0) else (front :: rest, shipped)

/-- The copy loop: what is copied into a window of `room` bytes, and the
messages and offset that remain. -/
def drainMessages : Nat → List OutMsg → Nat → Bytes × List OutMsg × Nat
  | _, [], offset => ([], [], offset)
  | room, front :: rest, offset =>
      if room = 0 then ([], front :: rest, offset)
      else
        let hdrPart :=
          if offset < frameHeaderLen then (front.hdr.drop offset).take room else []
        let hdrStop := offset + hdrPart.length
        let hdrRoom := room - hdrPart.length
        -- a window that ends inside or right after the header breaks off here,
        -- before the check that would pop a message with an empty body
        if offset < frameHeaderLen ∧ hdrRoom = 0 then (hdrPart, front :: rest, hdrStop)
        else
          let bodyPart := (front.body.drop (hdrStop - frameHeaderLen)).take hdrRoom
          let bodyStop := hdrStop + bodyPart.length
          if bodyStop = front.len then
            let next := drainMessages (hdrRoom - bodyPart.length) rest 0
            (hdrPart ++ bodyPart ++ next.1, next.2)
          else
            -- the body outlasts the window, so the loop condition fails
            (hdrPart ++ bodyPart, front :: rest, bodyStop)

/-- Index of the oldest message that may still be dropped. -/
def dropIdx (queue : OutQueue) : Nat := if queue.started then 1 else 0

/-- The index `DropOldest` frees before an enqueue, when the queue is full. -/
def evicts (queue : OutQueue) : Option Nat :=
  match queue.backpressure with
  | .bounded capacity .dropOldest =>
      if capacity ≤ queue.unstartedCount ∧ queue.dropIdx < queue.messages.length then
        some queue.dropIdx
      else none
  | _ => none

/-- The queue is full and refuses. -/
def rejects (queue : OutQueue) : Bool :=
  match queue.backpressure with
  | .bounded capacity .reject => decide (capacity ≤ queue.unstartedCount)
  | _ => false

/-- Messages after the eviction that precedes an enqueue. -/
def evictedMessages (queue : OutQueue) : List OutMsg :=
  match queue.evicts with
  | none => queue.messages
  | some index => queue.messages.eraseIdx index

theorem evicts_eq_dropIdx {queue : OutQueue} {index : Nat} (evicted : queue.evicts = some index) :
    index = queue.dropIdx ∧ index < queue.messages.length := by
  unfold evicts at evicted
  split at evicted
  · split at evicted
    next full =>
      cases evicted
      exact ⟨rfl, full.2⟩
    next => simp at evicted
  · simp at evicted

theorem frontOffset_le_evicted (queue : OutQueue) :
    queue.frontOffset ≤ frontLen queue.evictedMessages := by
  have bounded := queue.offsetLe
  unfold evictedMessages
  cases evicted : queue.evicts with
  | none => exact bounded
  | some index =>
      obtain ⟨position, _⟩ := evicts_eq_dropIdx evicted
      cases isStarted : queue.started with
      | true =>
          -- the head survives, so the offset still lies within it
          simp only [position, dropIdx, isStarted, if_true]
          cases shape : queue.messages with
          | nil => simpa [shape] using bounded
          | cons front rest => simpa [shape, frontLen] using bounded
      | false =>
          have unshipped : queue.frontOffset = 0 := by
            simp [started] at isStarted
            exact isStarted.1
          simp [unshipped]

variable (message : OutMsg)

theorem frontOffset_le_append {messages : List OutMsg} (bounded : offset ≤ frontLen messages) :
    offset ≤ frontLen (messages ++ [message]) := by
  cases messages with
  | nil =>
      simp only [frontLen] at bounded
      omega
  | cons front rest => exact bounded

/-- Owned-payload enqueue.  `reserve` is the outcome of growing the queue; the
eviction has already happened when it fails. -/
def enqueueOwned (queue : OutQueue) (body : Bytes) (reserve : Bool) :
    Except ConnError Unit × OutQueue :=
  if fits : u32Max < body.length then (.error .queueFull, queue)
  else if queue.rejects then (.error .queueFull, queue)
  else
    let evicted : OutQueue :=
      { queue with
        messages := queue.evictedMessages
        offsetLe := queue.frontOffset_le_evicted }
    if reserve then
      let message : OutMsg :=
        { hdr := encodeHeader false (UInt32.ofNat body.length)
          body := body
          framed := rfl
          fits := Nat.le_of_not_lt fits }
      (.ok (), { evicted with
        messages := evicted.messages ++ [message]
        offsetLe := frontOffset_le_append message evicted.offsetLe })
    else (.error .outOfMemory, evicted)

/-- Borrowed-payload enqueue.  `copy` is the outcome of reserving the copy. -/
def enqueueFramed (queue : OutQueue) (payload : Bytes) (copy reserve : Bool) :
    Except ConnError Unit × OutQueue :=
  if copy then queue.enqueueOwned payload reserve else (.error .outOfMemory, queue)

theorem consumeMessages_offset_le (n : Nat) (messages : List OutMsg) (offset : Nat)
    (bounded : offset ≤ frontLen messages) :
    (consumeMessages n messages offset).2 ≤ frontLen (consumeMessages n messages offset).1 := by
  cases messages with
  | nil => exact bounded
  | cons front rest =>
      simp only [frontLen] at bounded
      simp only [consumeMessages]
      split
      · exact Nat.zero_le _
      · simp only [frontLen]
        omega

/-- Mark `n` promised bytes as shipped and release the commit. -/
def consumeFront (queue : OutQueue) (n : Nat) : OutQueue :=
  { queue with
    messages := (consumeMessages n queue.messages queue.frontOffset).1
    frontOffset := (consumeMessages n queue.messages queue.frontOffset).2
    frontCommitted := false
    offsetLe := consumeMessages_offset_le n queue.messages queue.frontOffset queue.offsetLe }

/-- The part of a message that a window of `room` bytes at `offset` covers. -/
def window (message : OutMsg) (offset room : Nat) : Bytes :=
  (message.bytes.drop offset).take room

theorem length_window (offset room : Nat) :
    (window message offset room).length = min room (message.len - offset) := by
  simp [window]

theorem window_of_short {room : Nat} (short : offset + room ≤ frameHeaderLen) :
    window message offset room = (message.hdr.drop offset).take room := by
  have inHeader : offset ≤ message.hdr.length := by
    rw [OutMsg.length_hdr]
    omega
  rw [window, OutMsg.bytes, List.drop_append_of_le_length inHeader,
    List.take_append_of_le_length (by
      rw [List.length_drop, OutMsg.length_hdr]
      omega)]

theorem window_of_header {room : Nat} (inHeader : offset ≤ frameHeaderLen)
    (long : frameHeaderLen ≤ offset + room) :
    window message offset room =
      message.hdr.drop offset ++ message.body.take (room - (frameHeaderLen - offset)) := by
  rw [window, OutMsg.bytes, List.drop_append_of_le_length (by simpa using inHeader),
    List.take_append, List.take_of_length_le (by simp; omega)]
  simp

theorem window_of_body {room : Nat} (inBody : frameHeaderLen ≤ offset) :
    window message offset room =
      (message.body.drop (offset - frameHeaderLen)).take room := by
  rw [window, OutMsg.bytes, List.drop_append, List.drop_eq_nil_of_le (by simpa using inBody)]
  simp

/-- One turn of the copy loop either fills the window and stays on the head
message, or finishes the head and goes on with the rest. -/
theorem drainMessages_cons (room : Nat) {front : OutMsg} (rest : List OutMsg)
    (bounded : offset ≤ front.len) :
    (room ≤ front.len - offset ∧
        drainMessages room (front :: rest) offset =
          (window front offset room, front :: rest,
            offset + (window front offset room).length)) ∨
      (offset + (window front offset room).length = front.len ∧
        drainMessages room (front :: rest) offset =
          (window front offset room ++
              (drainMessages (room - (window front offset room).length) rest 0).1,
            (drainMessages (room - (window front offset room).length) rest 0).2)) := by
  have size := length_window front offset room
  by_cases empty : room = 0
  · subst empty
    exact .inl ⟨Nat.zero_le _, by simp [drainMessages, window]⟩
  by_cases inHeader : offset < frameHeaderLen
  · by_cases short : offset + room ≤ frameHeaderLen
    · -- the window ends within the header
      have covered := window_of_short front short
      have noRoom : room - ((front.hdr.drop offset).take room).length = 0 := by
        simp only [List.length_take, List.length_drop, OutMsg.length_hdr]
        omega
      refine .inl ⟨by simp only [OutMsg.len]; omega, ?_⟩
      simp only [drainMessages, empty, if_false, inHeader, if_true, noRoom, and_self, covered]
    · have long : frameHeaderLen ≤ offset + room := by omega
      have covered := window_of_header front inHeader.le long
      have header : (front.hdr.drop offset).take room = front.hdr.drop offset :=
        List.take_of_length_le (by simp; omega)
      have stop : offset + (front.hdr.drop offset).length = frameHeaderLen := by
        simp only [List.length_drop, OutMsg.length_hdr]
        omega
      have left : room - (front.hdr.drop offset).length = room - (frameHeaderLen - offset) := by
        simp
      have someRoom : room - (frameHeaderLen - offset) ≠ 0 := by omega
      rw [covered] at size ⊢
      simp only [drainMessages, empty, if_false, inHeader, if_true, header, stop, left, someRoom,
        and_false, Nat.sub_self, List.drop_zero]
      rw [List.length_append] at size ⊢
      split
      next finished =>
        refine .inr ⟨by omega, ?_⟩
        rw [← Nat.sub_sub, left]
      next unfinished =>
        refine .inl ⟨by simp only [OutMsg.len] at unfinished ⊢; simp at unfinished; omega, ?_⟩
        rw [← Nat.add_assoc, stop]
  · have inBody : frameHeaderLen ≤ offset := by omega
    have covered : window front offset room =
        (front.body.drop (offset - frameHeaderLen)).take room := window_of_body front inBody
    rw [covered] at size ⊢
    simp only [drainMessages, empty, if_false, inHeader, false_and, List.length_nil, Nat.add_zero,
      Nat.sub_zero, List.nil_append]
    split
    next finished => exact .inr ⟨finished, rfl⟩
    next unfinished => exact .inl ⟨by omega, rfl⟩

theorem drainMessages_offset_le (room : Nat) (messages : List OutMsg) (offset : Nat)
    (bounded : offset ≤ frontLen messages) :
    (drainMessages room messages offset).2.2 ≤
      frontLen (drainMessages room messages offset).2.1 := by
  induction messages generalizing room offset with
  | nil => simpa [drainMessages] using bounded
  | cons front rest ih =>
      simp only [frontLen] at bounded
      rcases drainMessages_cons room rest bounded with ⟨_, stays⟩ | ⟨_, goes⟩
      · rw [stays]
        simp only [frontLen, length_window]
        omega
      · rw [goes]
        exact ih _ 0 (Nat.zero_le _)

/-- Copy up to `window` queued bytes. -/
def drainInto (queue : OutQueue) (window : Nat) : Bytes × OutQueue :=
  ((drainMessages window queue.messages queue.frontOffset).1,
    { queue with
      messages := (drainMessages window queue.messages queue.frontOffset).2.1
      frontOffset := (drainMessages window queue.messages queue.frontOffset).2.2
      offsetLe := drainMessages_offset_le window queue.messages queue.frontOffset queue.offsetLe })

end OutQueue

end GrpcUds.Server
