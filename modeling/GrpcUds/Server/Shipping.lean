import GrpcUds.Server.OutQueue

/-!
# What leaves an outbound queue

`Ships` relates a queue before and after some bytes leave it: whole messages
are popped from the head, and the offsets account for the rest.  Draining and
consuming a promise are both shipping; enqueueing never touches a started head.
-/

namespace GrpcUds.Server

open Framing

/-- The bytes `out` leave the messages `before`, whose head had `offset` bytes
shipped, and leave `after` with `offset'` bytes of its head shipped. -/
def Ships (before : List OutMsg) (offset : Nat) (out : Bytes)
    (after : List OutMsg) (offset' : Nat) : Prop :=
  ∃ popped, before = popped ++ after ∧
    (wire before).take offset ++ out = wire popped ++ (wire after).take offset'

/-- Shipped bytes are cut off the front of the unshipped ones. -/
theorem Ships.unshipped {before after : List OutMsg} {offset offset' : Nat} {out : Bytes}
    (ships : Ships before offset out after offset') :
    (wire before).drop offset = out ++ (wire after).drop offset' := by
  obtain ⟨popped, split, moved⟩ := ships
  have whole : (wire before).take offset ++ (wire before).drop offset =
      (wire before).take offset ++ (out ++ (wire after).drop offset') := by
    calc (wire before).take offset ++ (wire before).drop offset
        = wire popped ++ wire after := by rw [List.take_append_drop, split, wire_append]
      _ = wire popped ++ ((wire after).take offset' ++ (wire after).drop offset') := by
          rw [List.take_append_drop]
      _ = (wire before).take offset ++ (out ++ (wire after).drop offset') := by
          rw [← List.append_assoc, ← moved, List.append_assoc]
  exact List.append_cancel_left whole

namespace OutQueue

theorem take_window (front : OutMsg) (offset room : Nat) :
    front.bytes.take offset ++ window front offset room =
      front.bytes.take (offset + (window front offset room).length) := by
  have clipped : window front offset room =
      (front.bytes.drop offset).take (window front offset room).length := by
    simp [window, List.take_eq_take_iff]
  rw [List.take_add, ← clipped]

variable {front : OutMsg} {rest : List OutMsg} {queue : OutQueue}

theorem take_wire_of_le {offset : Nat} (bounded : offset ≤ front.len) :
    (wire (front :: rest)).take offset = front.bytes.take offset := by
  rw [wire_cons, List.take_append_of_le_length (by simpa using bounded)]

/-- Shipping a window of the head while staying on it. -/
theorem ships_stay {offset : Nat} (room : Nat) (bounded : offset ≤ front.len) :
    Ships (front :: rest) offset (window front offset room) (front :: rest)
      (offset + (window front offset room).length) := by
  refine ⟨[], rfl, ?_⟩
  have size := length_window front offset room
  rw [take_wire_of_le bounded, take_window, take_wire_of_le (by omega)]
  rfl

/-- Shipping the end of the head pops it. -/
theorem ships_pop {offset : Nat} (room : Nat) (bounded : offset ≤ front.len)
    (finished : offset + (window front offset room).length = front.len) :
    Ships (front :: rest) offset (window front offset room) rest 0 := by
  refine ⟨[front], rfl, ?_⟩
  rw [take_wire_of_le bounded, take_window, finished, ← OutMsg.length_bytes,
    List.take_length]
  simp [wire]

theorem drainMessages_ships (room : Nat) (messages : List OutMsg) (offset : Nat)
    (bounded : offset ≤ frontLen messages) :
    Ships messages offset (drainMessages room messages offset).1
      (drainMessages room messages offset).2.1 (drainMessages room messages offset).2.2 := by
  induction messages generalizing room offset with
  | nil => exact ⟨[], rfl, by simp [drainMessages]⟩
  | cons front rest ih =>
      simp only [frontLen] at bounded
      rcases drainMessages_cons room rest bounded with ⟨_, stays⟩ | ⟨finished, goes⟩
      · rw [stays]
        exact ships_stay room bounded
      · rw [goes]
        obtain ⟨popped, split, moved⟩ :=
          ih (room - (window front offset room).length) 0 (Nat.zero_le _)
        refine ⟨front :: popped, by rw [List.cons_append, ← split], ?_⟩
        rw [List.take_zero, List.nil_append] at moved
        rw [take_wire_of_le bounded, ← List.append_assoc, take_window, finished,
          ← OutMsg.length_bytes, List.take_length, moved, wire_cons, List.append_assoc]

/-- The loop fills its window from the front of the unshipped bytes. -/
theorem drainMessages_eq_take (room : Nat) (messages : List OutMsg) (offset : Nat)
    (bounded : offset ≤ frontLen messages) :
    (drainMessages room messages offset).1 = ((wire messages).drop offset).take room := by
  induction messages generalizing room offset with
  | nil => simp [drainMessages]
  | cons front rest ih =>
      simp only [frontLen] at bounded
      have size := length_window front offset room
      rw [wire_cons, List.drop_append_of_le_length (by simpa using bounded)]
      rcases drainMessages_cons room rest bounded with ⟨short, stays⟩ | ⟨finished, goes⟩
      · rw [stays, List.take_append_of_le_length (by simpa using short)]
        rfl
      · have whole : window front offset room = front.bytes.drop offset :=
          List.take_of_length_le (by rw [List.length_drop, OutMsg.length_bytes]; omega)
        have short : (front.bytes.drop offset).length ≤ room := by rw [← whole, size]; omega
        rw [goes, List.take_append, List.take_of_length_le short]
        simp only [ih _ 0 (Nat.zero_le _), whole, List.drop_zero]

/-- The abstract content of a queue: the bytes not yet shipped. -/
def unshipped (queue : OutQueue) : Bytes := (wire queue.messages).drop queue.frontOffset

theorem drainInto_ships (queue : OutQueue) (room : Nat) :
    Ships queue.messages queue.frontOffset (queue.drainInto room).1
      (queue.drainInto room).2.messages (queue.drainInto room).2.frontOffset :=
  drainMessages_ships room queue.messages queue.frontOffset queue.offsetLe

theorem drainInto_eq_take (queue : OutQueue) (room : Nat) :
    (queue.drainInto room).1 = queue.unshipped.take room :=
  drainMessages_eq_take room queue.messages queue.frontOffset queue.offsetLe

/-- A non-empty window that receives nothing empties the queue. -/
theorem drainMessages_nil {room : Nat} (positive : 0 < room) (messages : List OutMsg) (offset : Nat)
    (bounded : offset ≤ frontLen messages) (nothing : (drainMessages room messages offset).1 = []) :
    (drainMessages room messages offset).2.1 = [] := by
  induction messages generalizing offset with
  | nil => rfl
  | cons front rest ih =>
      simp only [frontLen] at bounded
      have size := length_window front offset room
      rcases drainMessages_cons room rest bounded with ⟨short, stays⟩ | ⟨_, goes⟩
      · have empty : window front offset room = [] := by simpa only [stays] using nothing
        rw [empty, List.length_nil] at size
        omega
      · rw [goes] at nothing ⊢
        obtain ⟨emptyWindow, emptyRest⟩ := List.append_eq_nil_iff.mp nothing
        rw [emptyWindow] at emptyRest ⊢
        exact ih 0 (Nat.zero_le _) emptyRest

theorem drainInto_nil {room : Nat} (positive : 0 < room) (nothing : (queue.drainInto room).1 = []) :
    (queue.drainInto room).2.messages = [] :=
  drainMessages_nil positive queue.messages queue.frontOffset queue.offsetLe nothing

theorem window_min (front : OutMsg) (offset n : Nat) :
    window front offset (min n (front.len - offset)) = window front offset n := by
  simp [window, List.take_eq_take_iff]

/-- The two regions together are the window at the offset. -/
theorem frontRegions_window (shape : queue.messages = front :: rest) (n : Nat) :
    (queue.frontRegions n).1 ++ (queue.frontRegions n).2 =
      window front queue.frontOffset n := by
  have bounded : queue.frontOffset ≤ front.len := by
    simpa [shape, frontLen] using queue.offsetLe
  rw [← window_min]
  simp only [frontRegions, shape]
  generalize hsize : min n (front.len - queue.frontOffset) = size
  have inside : queue.frontOffset + size ≤ front.len := by omega
  by_cases inHeader : queue.frontOffset < frameHeaderLen
  · by_cases short : queue.frontOffset + size ≤ frameHeaderLen
    · rw [window_of_short front short]
      have stop : min (queue.frontOffset + size) frameHeaderLen = queue.frontOffset + size := by
        omega
      have noBody : max (queue.frontOffset + size) frameHeaderLen - frameHeaderLen = 0 := by omega
      simp [inHeader, stop, noBody, List.drop_take]
    · have long : frameHeaderLen ≤ queue.frontOffset + size := by omega
      rw [window_of_header front inHeader.le long]
      have stop : min (queue.frontOffset + size) frameHeaderLen = frameHeaderLen := by omega
      have start : max queue.frontOffset frameHeaderLen - frameHeaderLen = 0 := by omega
      have count : max (queue.frontOffset + size) frameHeaderLen - frameHeaderLen =
          size - (frameHeaderLen - queue.frontOffset) := by omega
      have header : front.hdr.take frameHeaderLen = front.hdr :=
        List.take_of_length_le (by simp)
      simp only [inHeader, if_true, stop, start, count, header, List.drop_zero]
  · have inBody : frameHeaderLen ≤ queue.frontOffset := by omega
    rw [window_of_body front inBody]
    have start : max queue.frontOffset frameHeaderLen = queue.frontOffset := by omega
    have stop : max (queue.frontOffset + size) frameHeaderLen = queue.frontOffset + size := by
      omega
    simp only [inHeader, if_false, start, stop, List.nil_append, List.drop_take]
    congr 1
    omega

/-- The regions of a length that was promised have exactly that length. -/
theorem length_frontRegions {n : Nat} (available : n ≤ queue.frontRemaining) :
    (queue.frontRegions n).1.length + (queue.frontRegions n).2.length = n := by
  cases shape : queue.messages with
  | nil =>
      simp only [frontRemaining, shape] at available
      simp only [frontRegions, shape, List.length_nil]
      omega
  | cons front rest =>
      simp only [frontRemaining, shape] at available
      rw [← List.length_append, frontRegions_window shape, length_window]
      omega

theorem consumeFront_ships (queue : OutQueue) (n : Nat) :
    Ships queue.messages queue.frontOffset
      ((queue.frontRegions n).1 ++ (queue.frontRegions n).2)
      (queue.consumeFront n).messages (queue.consumeFront n).frontOffset := by
  cases shape : queue.messages with
  | nil =>
      refine ⟨[], ?_, ?_⟩ <;> simp [consumeFront, consumeMessages, frontRegions, shape]
  | cons front rest =>
      have bounded : queue.frontOffset ≤ front.len := by
        simpa [shape, frontLen] using queue.offsetLe
      have size := length_window front queue.frontOffset n
      rw [frontRegions_window shape]
      simp only [consumeFront, consumeMessages, shape]
      split
      next finished => exact ships_pop n bounded (by omega)
      next => simpa only [size] using ships_stay n bounded

/-- What an enqueue can do to a queue.  It refuses, or it evicts and then runs
out of memory, or it evicts and appends the message. -/
inductive Enqueued (queue : OutQueue) (body : Bytes) : Except ConnError Unit → OutQueue → Prop where
  | refused (error : ConnError) : Enqueued queue body (.error error) queue
  | exhausted :
      Enqueued queue body (.error .outOfMemory)
        { queue with
          messages := queue.evictedMessages
          offsetLe := queue.frontOffset_le_evicted }
  | accepted (message : OutMsg) (carried : message.body = body) :
      Enqueued queue body (.ok ())
        { queue with
          messages := queue.evictedMessages ++ [message]
          offsetLe := frontOffset_le_append message queue.frontOffset_le_evicted }

theorem enqueueOwned_spec (queue : OutQueue) (body : Bytes) (reserve : Bool) :
    Enqueued queue body (queue.enqueueOwned body reserve).1
      (queue.enqueueOwned body reserve).2 := by
  unfold enqueueOwned
  split
  · exact .refused _
  · split
    · exact .refused _
    · cases reserve with
      | false => exact .exhausted
      | true => exact .accepted _ rfl

theorem enqueueFramed_spec (queue : OutQueue) (payload : Bytes) (copy reserve : Bool) :
    Enqueued queue payload (queue.enqueueFramed payload copy reserve).1
      (queue.enqueueFramed payload copy reserve).2 := by
  cases copy with
  | false => exact .refused _
  | true => exact enqueueOwned_spec queue payload reserve

/-- An eviction never reaches a started head. -/
theorem evictedMessages_of_started (isStarted : queue.started = true)
    (shape : queue.messages = front :: rest) :
    ∃ kept, queue.evictedMessages = front :: kept := by
  unfold evictedMessages
  cases evicted : queue.evicts with
  | none => exact ⟨rest, shape⟩
  | some index =>
      obtain ⟨position, _⟩ := evicts_eq_dropIdx evicted
      refine ⟨rest.eraseIdx 0, ?_⟩
      simp [position, dropIdx, isStarted, shape]

/-- A started head, its offset and its commit survive every enqueue. -/
theorem Enqueued.keeps_front {after : OutQueue} {body : Bytes} {result : Except ConnError Unit}
    (enqueued : Enqueued queue body result after) (isStarted : queue.started = true)
    (shape : queue.messages = front :: rest) :
    (∃ kept, after.messages = front :: kept) ∧ after.frontOffset = queue.frontOffset ∧
      after.frontCommitted = queue.frontCommitted := by
  obtain ⟨kept, survived⟩ := evictedMessages_of_started isStarted shape
  cases enqueued with
  | refused => exact ⟨⟨rest, shape⟩, rfl, rfl⟩
  | exhausted => exact ⟨⟨kept, survived⟩, rfl, rfl⟩
  | accepted message => exact ⟨⟨kept ++ [message], by simp [survived]⟩, rfl, rfl⟩

end OutQueue

end GrpcUds.Server
