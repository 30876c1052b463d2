import GrpcUds.Framing

/-!
# Splitting response bytes into messages

The deframer takes whole frames from the front of its buffer and stops without
a word at the first bytes that are not one.  What it has taken and what it has
left are determined by all the bytes received so far, however they were cut.
-/

namespace GrpcUds.Client

open Framing

/-- Per-message size cap of both clients, 4 MiB. -/
def maxMessageLen : UInt32 := 4 * 1024 * 1024

/-- The deframing loop: the messages taken and the bytes left.  Every turn takes at
least a header, so the length of the buffer bounds the turns. -/
def deframeLoop : Nat → Bytes → List Bytes × Bytes
  | 0, inbuf => ([], inbuf)
  | fuel + 1, inbuf =>
      match decodeHeader inbuf maxMessageLen with
      | .error _ => ([], inbuf)
      | .ok header =>
          let total := frameHeaderLen + header.payloadLen.toNat
          if inbuf.length < total then ([], inbuf)
          else
            let next := deframeLoop fuel (inbuf.drop total)
            ((inbuf.take total).drop frameHeaderLen :: next.1, next.2)

def deframe (inbuf : Bytes) : List Bytes × Bytes := deframeLoop inbuf.length inbuf

/-- The messages on the wire, one frame after the other. -/
def frames (messages : List Bytes) : Bytes := messages.flatMap frame

@[simp]
theorem frames_cons (message : Bytes) (messages : List Bytes) :
    frames (message :: messages) = frame message ++ frames messages := rfl

theorem frames_append (first second : List Bytes) :
    frames (first ++ second) = frames first ++ frames second := by
  simp [frames]

/-- The bytes split into whole frames within the cap and a rest that starts with
none. -/
structure Deframed (data : Bytes) (messages : List Bytes) (rest : Bytes) : Prop where
  whole : data = frames messages ++ rest
  fits : ∀ message ∈ messages, message.length ≤ maxMessageLen.toNat
  stuck : ∀ payload, ¬ Carries maxMessageLen rest payload

theorem Deframed.nil : Deframed [] [] [] := by
  refine ⟨rfl, by simp, fun payload carries => ?_⟩
  obtain ⟨_, rest, empty⟩ := carries_iff_frame.mp carries
  have size := congrArg List.length empty
  simp only [List.length_nil, List.length_append, length_frame, frameHeaderLen] at size
  omega

variable {messages : List Bytes}

/-- More bytes continue where the buffer stopped. -/
theorem Deframed.append {data rest chunk left : Bytes} {more : List Bytes}
    (before : Deframed data messages rest) (after : Deframed (rest ++ chunk) more left) :
    Deframed (data ++ chunk) (messages ++ more) left where
  whole := by rw [before.whole, List.append_assoc, after.whole, frames_append, List.append_assoc]
  fits := List.forall_mem_append.mpr ⟨before.fits, after.fits⟩
  stuck := after.stuck

theorem deframeLoop_deframed {fuel : Nat} {inbuf : Bytes} (enough : inbuf.length ≤ fuel) :
    Deframed inbuf (deframeLoop fuel inbuf).1 (deframeLoop fuel inbuf).2 := by
  induction fuel generalizing inbuf with
  | zero =>
      obtain rfl := List.eq_nil_of_length_eq_zero (Nat.le_zero.mp enough)
      exact .nil
  | succ fuel ih =>
      have stops : (∀ payload, ¬ Carries maxMessageLen inbuf payload) → Deframed inbuf [] inbuf :=
        fun stuck => ⟨rfl, by simp, stuck⟩
      unfold deframeLoop
      cases decoded : decodeHeader inbuf maxMessageLen with
      | error error =>
          refine stops fun payload carries => ?_
          obtain ⟨header, accepted, _⟩ := carries_iff.mp carries
          simp [decoded] at accepted
      | ok header =>
          dsimp only
          split
          next short =>
            refine stops fun payload carries => ?_
            obtain ⟨other, accepted, long, _⟩ := carries_iff.mp carries
            obtain rfl := Except.ok.inj (decoded.symm.trans accepted)
            omega
          next long =>
            have message : (inbuf.take (frameHeaderLen + header.payloadLen.toNat)).drop
                frameHeaderLen = (inbuf.drop frameHeaderLen).take header.payloadLen.toNat := by
              rw [List.take_drop]
            have carries : Carries maxMessageLen inbuf
                ((inbuf.take (frameHeaderLen + header.payloadLen.toNat)).drop frameHeaderLen) :=
              carries_iff.mpr ⟨header, decoded, Nat.not_lt.mp long, message⟩
            generalize (inbuf.take (frameHeaderLen + header.payloadLen.toNat)).drop
              frameHeaderLen = payload at message carries
            obtain ⟨fits, rest, rfl⟩ := carries_iff_frame.mp carries
            have size : payload.length = header.payloadLen.toNat := by
              rw [message, List.length_take, List.length_drop]
              omega
            have dropped : (frame payload ++ rest).drop
                (frameHeaderLen + header.payloadLen.toNat) = rest := by
              rw [← size, ← length_frame, List.drop_left]
            rw [dropped]
            have shorter : rest.length ≤ fuel := by
              simp only [List.length_append, length_frame, frameHeaderLen] at enough
              omega
            have remaining := ih shorter
            exact
              { whole := by
                  rw [frames_cons, List.append_assoc]
                  exact congrArg (frame payload ++ ·) remaining.whole
                fits := List.forall_mem_cons.mpr ⟨fits, remaining.fits⟩
                stuck := remaining.stuck }

theorem deframe_deframed (inbuf : Bytes) :
    Deframed inbuf (deframe inbuf).1 (deframe inbuf).2 :=
  deframeLoop_deframed (Nat.le_refl _)

/-- The first message is the payload that the bytes carry. -/
theorem Deframed.carries_iff {data rest payload : Bytes} (deframed : Deframed data messages rest) :
    Carries maxMessageLen data payload ↔ messages.head? = some payload := by
  cases messages with
  | nil =>
      have nothing : data = rest := deframed.whole
      simpa [nothing] using deframed.stuck payload
  | cons message messages =>
      have first : Carries maxMessageLen data message := carries_iff_frame.mpr
        ⟨(List.forall_mem_cons.mp deframed.fits).1, frames messages ++ rest, by
          rw [deframed.whole, frames_cons, List.append_assoc]⟩
      simp only [List.head?_cons, Option.some.injEq]
      exact ⟨fun carries => first.unique carries, fun same => same ▸ first⟩

theorem Deframed.tail {data rest message : Bytes}
    (deframed : Deframed data (message :: messages) rest) :
    Deframed (frames messages ++ rest) messages rest :=
  ⟨rfl, (List.forall_mem_cons.mp deframed.fits).2, deframed.stuck⟩

/-- Bytes split in one way only. -/
theorem Deframed.unique {data rest left : Bytes} {others : List Bytes}
    (deframed : Deframed data messages rest) (deframedToo : Deframed data others left) :
    messages = others ∧ rest = left := by
  induction messages generalizing data others with
  | nil =>
      have none : others.head? = none := by
        cases found : others.head? with
        | none => rfl
        | some payload => simpa using deframed.carries_iff.mp (deframedToo.carries_iff.mpr found)
      obtain rfl := List.head?_eq_none_iff.mp none
      exact ⟨rfl, deframed.whole.symm.trans deframedToo.whole⟩
  | cons message messages ih =>
      have head := deframedToo.carries_iff.mp (deframed.carries_iff.mpr rfl)
      obtain ⟨others, rfl⟩ : ∃ more, others = message :: more := List.head?_eq_some_iff.mp head
      have same : frames messages ++ rest = frames others ++ left := by
        have whole := deframed.whole.symm.trans deframedToo.whole
        simp only [frames_cons, List.append_assoc] at whole
        exact List.append_cancel_left whole
      obtain ⟨rfl, rfl⟩ := ih deframed.tail (same ▸ deframedToo.tail)
      exact ⟨rfl, rfl⟩

/-- The bytes are complete uncompressed frames within the cap, one after the other. -/
def WholeFrames (data : Bytes) : Prop :=
  ∃ payloads : List Bytes,
    (∀ payload ∈ payloads, payload.length ≤ maxMessageLen.toNat) ∧ data = frames payloads

/-- The messages make up some first bytes exactly when these are whole frames and
what follows starts with none. -/
theorem Deframed.frames_eq_iff {data rest first : Bytes} (deframed : Deframed data messages rest) :
    frames messages = first ↔ WholeFrames first ∧
      ∃ left, data = first ++ left ∧ ∀ payload, ¬ Carries maxMessageLen left payload := by
  constructor
  · rintro rfl
    exact ⟨⟨messages, deframed.fits, rfl⟩, rest, deframed.whole, deframed.stuck⟩
  · rintro ⟨⟨payloads, fits, rfl⟩, left, whole, stuck⟩
    rw [(deframed.unique ⟨whole, fits, stuck⟩).1]

end GrpcUds.Client
