import GrpcUds.Lib.Fallible
import GrpcUds.Server.Reachable
import GrpcUds.Server.Wire

/-!
# Order on the wire

What the socket has accepted, followed by the pending tail, is what nghttp2 has
emitted.  The one fact about queues behind it is that a promise pins the head of
its queue: whatever else happens to the stream, the promised bytes stay there.
-/

namespace GrpcUds.Server

open Transition Framing Headers

/-! ### System calls -/

variable {length : Nat} {results : List SendResult}

theorem writeSome_le {written count : Nat} {rest : List SendResult} (within : written ≤ length)
    (wrote : writeSome length written results = .ok (count, rest)) :
    count ≤ length := by
  induction results generalizing written with
  | nil =>
      obtain ⟨rfl, _⟩ := Prod.mk.inj (Except.ok.inj wrote)
      exact within
  | cons result results ih =>
      unfold writeSome at wrote
      split at wrote
      · cases result with
        | sent accepted => exact ih (by omega) wrote
        | interrupted => exact ih within wrote
        | wouldBlock =>
            obtain ⟨rfl, _⟩ := Prod.mk.inj (Except.ok.inj wrote)
            exact within
        | failed errno => exact absurd wrote (by simp)
      · obtain ⟨rfl, _⟩ := Prod.mk.inj (Except.ok.inj wrote)
        exact within

theorem sendmsg_le {total count : Nat} {rest : List SendResult}
    (wrote : sendmsg total results = .ok (count, rest)) : count ≤ total := by
  induction results with
  | nil =>
      obtain ⟨rfl, _⟩ := Prod.mk.inj (Except.ok.inj wrote)
      exact Nat.zero_le total
  | cons result results ih =>
      cases result with
      | sent accepted =>
          obtain ⟨rfl, _⟩ := Prod.mk.inj (Except.ok.inj wrote)
          exact Nat.min_le_right accepted total
      | interrupted => exact ih wrote
      | wouldBlock =>
          obtain ⟨rfl, _⟩ := Prod.mk.inj (Except.ok.inj wrote)
          exact Nat.zero_le total
      | failed errno => exact absurd wrote (by simp [sendmsg])

/-- A short gather write may cut anywhere. -/
theorem unsentTail_eq_drop (skip : Nat) (parts : List Bytes) :
    unsentTail skip parts = parts.flatten.drop skip := by
  induction parts generalizing skip with
  | nil => simp [unsentTail]
  | cons part parts ih =>
      unfold unsentTail
      split
      next passed =>
        rw [ih, List.flatten_cons, List.drop_append,
          List.drop_eq_nil_of_le passed, List.nil_append]
      next inside =>
        rw [ih, List.drop_zero, List.flatten_cons,
          List.drop_append_of_le_length (by omega)]

/-! ### Promises -/

/-- The promised bytes are at the head of the queue, and the head is committed. -/
structure OutQueue.Holds (queue : OutQueue) (length : Nat) (promised : Bytes) : Prop where
  committed : queue.frontCommitted = true
  available : length ≤ queue.frontRemaining
  regions : (queue.frontRegions length).1 ++ (queue.frontRegions length).2 = promised

namespace OutQueue

variable {queue : OutQueue}

theorem frontRemaining_congr {after : OutQueue} {front : OutMsg} {rest kept : List OutMsg}
    (shape : queue.messages = front :: rest) (shapeAfter : after.messages = front :: kept)
    (offset : after.frontOffset = queue.frontOffset) :
    after.frontRemaining = queue.frontRemaining := by
  simp only [frontRemaining, shape, shapeAfter, offset]

/-- Only the head, its offset and the commit matter to a promise. -/
theorem Holds.of_head {after : OutQueue} {promised : Bytes} (holds : queue.Holds length promised)
    {front : OutMsg} {rest kept : List OutMsg} (shape : queue.messages = front :: rest)
    (shapeAfter : after.messages = front :: kept) (offset : after.frontOffset = queue.frontOffset)
    (committed : after.frontCommitted = queue.frontCommitted) : after.Holds length promised where
  committed := committed.trans holds.committed
  available := frontRemaining_congr shape shapeAfter offset ▸ holds.available
  regions := by
    rw [frontRegions_window shapeAfter, offset, ← frontRegions_window shape, holds.regions]

theorem Holds.of_same {after : OutQueue} {promised : Bytes} (holds : queue.Holds length promised)
    (messages : after.messages = queue.messages) (offset : after.frontOffset = queue.frontOffset)
    (committed : after.frontCommitted = queue.frontCommitted) : after.Holds length promised where
  committed := committed.trans holds.committed
  available := by
    have available := holds.available
    simpa only [frontRemaining, messages, offset] using available
  regions := by
    have regions := holds.regions
    simpa only [frontRegions, messages, offset] using regions

/-- An enqueue never disturbs a promise, even when it evicts. -/
theorem Holds.enqueued {after : OutQueue} {promised body : Bytes} {result : Except ConnError Unit}
    (positive : 0 < length) (holds : queue.Holds length promised)
    (enqueued : Enqueued queue body result after) : after.Holds length promised := by
  have available := holds.available
  cases shape : queue.messages with
  | nil =>
      simp only [frontRemaining, shape] at available
      omega
  | cons front rest =>
      have isStarted : queue.started = true := by simp [started, holds.committed]
      obtain ⟨⟨kept, shapeAfter⟩, offset, committed⟩ := enqueued.keeps_front isStarted shape
      exact holds.of_head shape shapeAfter offset committed

theorem Holds.finish {promised : Bytes} (holds : queue.Holds length promised) (status : GrpcStatus)
    (message : Option Bytes) :
    (queue.finish status message).Holds length promised := by
  unfold OutQueue.finish
  split
  · exact holds
  · exact holds.of_same rfl rfl rfl

theorem promiseFront_holds (queue : OutQueue) (max : Nat)
    (positive : 0 < (queue.promiseFront max).1) :
    (queue.promiseFront max).2.Holds (queue.promiseFront max).1
      (((queue.promiseFront max).2.frontRegions (queue.promiseFront max).1).1 ++
        ((queue.promiseFront max).2.frontRegions (queue.promiseFront max).1).2) := by
  simp only [promiseFront] at positive ⊢
  rw [if_pos positive]
  exact ⟨rfl, Nat.min_le_left _ _, rfl⟩

end OutQueue

/-- A promise on one stream.  The stream may close, but its id stays taken. -/
structure Lane.Pinned (id : StreamId) (length : Nat) (promised : Bytes) (lane : Lane) : Prop where
  positive : 0 < length
  opened : .opened id ∈ lane.log
  holds : ∀ stream, lane.ctx = some stream → stream.out.Holds length promised

namespace Lane.Pinned

variable {id : StreamId} {length : Nat} {promised : Bytes} {lane next : Lane}

variable (pinned : lane.Pinned id length promised)
include pinned

theorem put {changed : StreamCtx} {effects : List Effect}
    (holds : changed.out.Holds length promised) :
    (lane.put changed effects).Pinned id length promised where
  positive := pinned.positive
  opened := List.mem_append_left _ pinned.opened
  holds := by
    rintro _ ⟨⟩
    exact holds

theorem quiet {stream changed : StreamCtx} {effects : List Effect} (found : lane.ctx = some stream)
    (same : changed.out = stream.out) :
    (lane.put changed effects).Pinned id length promised :=
  pinned.put (same ▸ pinned.holds stream found)

theorem running {flag : Bool} :
    ({ lane with running := flag } : Lane).Pinned id length promised :=
  ⟨pinned.positive, pinned.opened, pinned.holds⟩

omit pinned

theorem respond {stream : StreamCtx} {rc : Int} {failed : StreamState}
    (holds : stream.out.Holds length promised) :
    (stream.respond rc failed).out.Holds length promised := by
  unfold StreamCtx.respond
  split
  · exact holds.of_same rfl rfl rfl
  · exact holds

theorem concludeHandler {stream : StreamCtx} {rc : Int} (holds : stream.out.Holds length promised) :
    (GrpcUds.Server.concludeHandler rc stream).out.Holds length promised := by
  simp only [GrpcUds.Server.concludeHandler]
  split
  · exact holds.of_same rfl rfl rfl
  · exact holds

include pinned

/-- Everything but a read or a send of the stream leaves the promise alone. -/
theorem call (step : CallStep id lane next) :
    next.Pinned id length promised := by
  cases step with
  | opened fresh => exact absurd pinned.opened fresh
  | header found path deadline => exact pinned.quiet found rfl
  | received found chunk => exact pinned.quiet found rfl
  | ended found once => exact pinned.quiet found rfl
  | bodyIn found once => exact pinned.quiet found rfl
  | closed found idle errorCode fired =>
      exact ⟨pinned.positive, List.mem_append_left _ pinned.opened, by simp⟩
  | wrote found unfinished enqueued =>
      exact pinned.put ((pinned.holds _ found).enqueued pinned.positive enqueued)
  | finish found status message =>
      exact pinned.put ((pinned.holds _ found).finish status message)
  | configured found hook backpressure =>
      exact pinned.put ((pinned.holds _ found).of_same rfl rfl rfl)
  | disarmed found => exact pinned.quiet found rfl
  | refused found complete idle status rc =>
      exact pinned.put (respond ((pinned.holds _ found).of_same rfl rfl rfl))
  | invoked found complete idle handler userData payload =>
      exact .running (pinned.quiet found rfl)
  | returned found running unstarted rc submitRc =>
      exact .running (pinned.put (respond (concludeHandler (pinned.holds _ found))))
  | returnedStarted found running started rc =>
      exact .running (pinned.put (concludeHandler (pinned.holds _ found)))

theorem calls (steps : Relation.ReflTransGen (CallStep id) lane next) :
    next.Pinned id length promised := by
  induction steps with
  | refl => exact pinned
  | tail _ step ih => exact ih.call step

end Lane.Pinned

/-- A read that promises is a read of a large head. -/
theorem Conn.dataProviderRead_noCopy {conn : Conn} {id : StreamId} {count : Nat} {trailerRc : Int}
    (outcome : (conn.dataProviderRead id length trailerRc).1 = .noCopy count) :
    ∃ stream, conn.findStream id = some stream ∧ nocopyMin ≤ stream.out.frontRemaining ∧
      (stream.out.promiseFront length).1 = count ∧
      (conn.dataProviderRead id length trailerRc).2 =
        conn.reportRead id (stream.out.promiseFront length).2 (.noCopy count) := by
  cases found : conn.findStream id with
  | none => simp [dataProviderRead, found] at outcome
  | some stream =>
      simp only [dataProviderRead, found] at outcome ⊢
      split at outcome
      next large =>
        obtain rfl : (stream.out.promiseFront length).1 = count := by simpa using outcome
        exact ⟨stream, rfl, large.2, rfl, by rw [if_pos large]⟩
      next =>
        split at outcome
        · simp at outcome
        · split at outcome
          · dsimp only at outcome
            split at outcome <;> simp at outcome
          · simp at outcome

theorem Conn.dataProviderRead_pins {conn : Conn} (wellFormed : conn.WellFormed) {id : StreamId}
    {count : Nat} {trailerRc : Int} (legal : conn.Legal (.read id length trailerRc))
    (outcome : (conn.dataProviderRead id length trailerRc).1 = .noCopy count) :
    ((conn.dataProviderRead id length trailerRc).2.lane id).Pinned id count
      (Wire.promisedBytes (conn.dataProviderRead id length trailerRc).2 id count) := by
  obtain ⟨stream, found, large, rfl, stored⟩ := dataProviderRead_noCopy outcome
  have positive : 0 < (stream.out.promiseFront length).1 := by
    have room := legal.1
    simp only [nocopyMin] at large
    simp only [OutQueue.promiseFront]
    omega
  let promise := fun old : StreamCtx => { old with out := (stream.out.promiseFront length).2 }
  have kept : ∀ old, (promise old).id = old.id := fun _ => rfl
  have looked : (conn.dataProviderRead id length trailerRc).2.findStream id =
      some (promise stream) := by
    rw [stored]
    exact (findStream_modify_self conn id kept).trans (by rw [found]; rfl)
  have wellFormedAfter := (perform_moves wellFormed legal).wellFormed
  have opened := wellFormedAfter.opened _ (Table.lookup_mem looked)
  rw [Table.lookup_key looked] at opened
  refine ⟨positive, opened, fun later present => ?_⟩
  obtain rfl := Option.some.inj (looked.symm.trans present)
  simp only [Wire.promisedBytes, looked]
  exact stream.out.promiseFront_holds length positive

namespace Wire

/-- What holds of a connection on its socket while `inHand` is a chunk that nghttp2
has handed over and that is not yet written. -/
structure Sound (wire : Wire) (inHand : Bytes) : Prop where
  wellFormed : wire.conn.WellFormed
  bytes : wire.sent ++ (wire.conn.outPending ++ inHand) = wire.emitted
  ordered : ∀ write ∈ wire.writes, write.1 ≠ .tail → write.2 = []
  replaced : ∀ old ∈ wire.replaced, old = []
  pinned : ∀ frame, wire.active = some frame →
    (wire.conn.lane frame.id).Pinned frame.id frame.length frame.promised

theorem new_sound (methods : List MethodEntry) (maxMessageLen : UInt32) (fd : Int) :
    (new (.newServer methods maxMessageLen fd)).Sound [] where
  wellFormed := Conn.newServer_wellFormed methods maxMessageLen fd
  bytes := rfl
  ordered := by simp [new]
  replaced := by simp [new]
  pinned := by simp [new]

section Calls

variable {wire : Wire} {inHand : Bytes}

variable (sound : wire.Sound inHand)
include sound

theorem Sound.moves {next : Conn} (moves : wire.conn.Moves CallStep next)
    (settings : wire.conn.SameSettings next) :
    ({ wire with conn := next } : Wire).Sound inHand where
  wellFormed := moves.wellFormed
  bytes := settings.outPending ▸ sound.bytes
  ordered := sound.ordered
  replaced := sound.replaced
  pinned := fun frame active => (sound.pinned frame active).calls (moves.lanes frame.id)

theorem Sound.acts {next : Conn} (acts : wire.conn.Acts CallStep next) :
    ({ wire with conn := next } : Wire).Sound inHand :=
  sound.moves (acts.moves CallStep.log_grows sound.wellFormed) acts.toKeeps.sameSettings

theorem Sound.offer (kind : ConnEvent → Bool) {event : ConnEvent}
    (calls : ∀ event, kind event = true → event.isTransport = false) :
    ({ wire with conn := wire.conn.offer kind event } : Wire).Sound inHand := by
  unfold Conn.offer
  split
  next admitted =>
    cases performed : wire.conn.step event with
    | none => exact sound
    | some next =>
        have settings := Conn.step_settings sound.wellFormed performed
        obtain ⟨legal, rfl⟩ := Conn.step_eq_some_iff.mp performed
        exact sound.moves (Conn.perform_calls sound.wellFormed legal (calls event admitted))
          settings
  next => exact sound

theorem Sound.receive (events : List ConnEvent) :
    (wire.receive events).Sound inHand := by
  induction events generalizing wire with
  | nil => exact sound
  | cons event events ih =>
      refine ih (sound.offer ConnEvent.isReceive ?_)
      intro event received
      cases event <;> simp_all [ConnEvent.isReceive, ConnEvent.isTransport]

theorem Sound.close (id : StreamId) (errorCode : Nat) :
    ({ wire with conn := wire.conn.onStreamClose id errorCode } : Wire).Sound inHand :=
  sound.moves
    (show wire.conn.Moves CallStep (wire.conn.perform (.streamClose id errorCode)) from
      Conn.perform_calls sound.wellFormed trivial rfl)
    (wire.conn.onStreamClose_settings id errorCode)

theorem Sound.expireDeadlines (now : Nat) :
    (wire.expireDeadlines now).Sound inHand :=
  sound.acts (wire.conn.expireDeadlines_acts now sound.wellFormed.distinct)

theorem Sound.dispatch (env : DispatchEnv) :
    (wire.dispatch env).Sound inHand :=
  sound.acts (wire.conn.dispatch_acts env sound.wellFormed.distinct sound.wellFormed.idle)

end Calls

variable {next : Wire}

section Writes

variable {wire : Wire} {inHand : Bytes}

theorem Sound.put_ordered (sound : wire.Sound inHand) {writer : Writer}
    (allowed : writer ≠ .tail → wire.conn.outPending = []) :
    ∀ write ∈ wire.writes ++ [(writer, wire.conn.outPending)], write.1 ≠ .tail → write.2 = [] := by
  simp only [List.mem_append, List.mem_singleton]
  rintro write (old | rfl) other
  · exact sound.ordered write old other
  · exact allowed other

theorem consumePending_eq (wire : Wire) (count : Nat) :
    wire.consumePending count = wire.setPending (wire.conn.outPending.drop count) := by
  unfold Wire.consumePending
  split
  next all => rw [List.drop_eq_nil_of_le all]
  next => rfl

theorem Sound.put_tail (sound : wire.Sound inHand) (count : Nat) :
    ((wire.put .tail wire.conn.outPending count).consumePending count).Sound inHand := by
  rw [consumePending_eq]
  exact
    { wellFormed := ⟨sound.wellFormed.distinct, sound.wellFormed.idle, sound.wellFormed.opened⟩
      bytes := by
        have bytes := sound.bytes
        simp only [put, setPending, List.append_assoc]
        rwa [← List.append_assoc (List.take _ _), List.take_append_drop]
      ordered := sound.put_ordered fun other => absurd rfl other
      replaced := sound.replaced
      pinned := sound.pinned }

theorem Sound.put_nothing (sound : wire.Sound inHand) :
    (wire.put .tail wire.conn.outPending 0).Sound inHand where
  wellFormed := sound.wellFormed
  bytes := by simpa [put] using sound.bytes
  ordered := sound.put_ordered fun other => absurd rfl other
  replaced := sound.replaced
  pinned := sound.pinned

/-- The loop over the pending tail empties it, unless the socket is full. -/
theorem flushPending_sound {fuel : Nat} {full : Bool} {rest : List SendResult}
    (sound : wire.Sound inHand) (enough : wire.conn.outPending.length ≤ fuel)
    (flushed : flushPending fuel wire results = .ok (full, next, rest)) :
    next.Sound inHand ∧ (full = false → next.conn.outPending = []) := by
  induction fuel generalizing wire results with
  | zero =>
      obtain ⟨rfl, rfl, rfl⟩ : full = false ∧ next = wire ∧ rest = results := by
        simpa [flushPending, eq_comm] using flushed
      exact ⟨sound, fun _ => List.eq_nil_of_length_eq_zero (Nat.le_zero.mp enough)⟩
  | succ fuel ih =>
      unfold flushPending at flushed
      split at flushed
      next empty =>
        obtain ⟨rfl, rfl, rfl⟩ : full = false ∧ next = wire ∧ rest = results := by
          simpa [eq_comm] using flushed
        exact ⟨sound, fun _ => empty⟩
      next pending =>
        obtain ⟨⟨written, later⟩, wrote, continued⟩ := Fallible.bind_eq_ok_iff.mp flushed
        dsimp only at continued
        split at continued
        next nothing =>
          obtain ⟨rfl, rfl, rfl⟩ : full = true ∧
              next = wire.put .tail wire.conn.outPending written ∧ rest = later := by
            simpa [pure, Except.pure, eq_comm] using continued
          exact ⟨nothing ▸ sound.put_nothing, by simp⟩
        next progress =>
          refine ih (sound.put_tail written) ?_ continued
          rw [consumePending_eq]
          simp only [put, setPending, List.length_drop]
          omega

theorem Sound.put_chunk {chunk : Bytes} (sound : wire.Sound chunk)
    (clear : wire.conn.outPending = []) (count : Nat) :
    ((wire.put .chunk chunk count).stashPending (chunk.drop count)).Sound [] where
  wellFormed := ⟨sound.wellFormed.distinct, sound.wellFormed.idle, sound.wellFormed.opened⟩
  bytes := by
    have bytes := sound.bytes
    simp only [clear, List.nil_append] at bytes
    simp [put, stashPending, setPending, clear, bytes]
  ordered := sound.put_ordered fun _ => clear
  replaced := sound.replaced
  pinned := sound.pinned

theorem stashPending_nil (wire : Wire) : wire.stashPending [] = wire := by
  simp [stashPending, setPending]

/-- What the send callback can do with a frame whose promise is intact. -/
inductive SendData (wire : Wire) (frame : NoCopyFrame) (hd : FrameHeader) :
    SendDataResult → Wire → Prop where
  | untouched {answer : SendDataResult} (notSent : answer ≠ .ok) (notPaused : answer ≠ .pause) :
      SendData wire frame hd answer wire
  | full (clear : wire.conn.outPending = []) :
      SendData wire frame hd .wouldBlock (wire.put .frame (hd.val ++ frame.promised) 0)
  | sent (clear : wire.conn.outPending = []) :
      SendData wire frame hd .ok
        { wire.put .frame (hd.val ++ frame.promised) (hd.val ++ frame.promised).length with
          conn := wire.conn.consumePromise frame.id frame.length }
  | short (clear : wire.conn.outPending = []) (count : Nat) :
      SendData wire frame hd .pause
        { wire.put .frame (hd.val ++ frame.promised) count with
          conn :=
            { wire.conn.consumePromise frame.id frame.length with
              outPending := (hd.val ++ frame.promised).drop count }
          replaced := wire.replaced ++ [wire.conn.outPending] }

theorem sendData_spec {frame : NoCopyFrame}
    (pinned : (wire.conn.lane frame.id).Pinned frame.id frame.length frame.promised)
    (hd : FrameHeader) (padlen : Nat) (results : List SendResult) :
    SendData wire frame hd (wire.sendData frame.id frame.length hd padlen results).1
      (wire.sendData frame.id frame.length hd padlen results).2.1 := by
  unfold sendData
  split
  next => exact .untouched (by simp) (by simp)
  next open' =>
    have clear : wire.conn.outPending = [] := by
      simpa using fun pending => open' (.inr pending)
    split
    · exact .untouched (by simp) (by simp)
    · cases found : wire.conn.findStream frame.id with
      | none => exact .untouched (by simp) (by simp)
      | some stream =>
          have holds := pinned.holds stream found
          have regions := holds.regions
          have size := OutQueue.length_frontRegions holds.available
          dsimp only
          generalize stream.out.frontRegions frame.length = parts at regions size ⊢
          obtain ⟨a, b⟩ := parts
          dsimp only at regions size ⊢
          have data : hd.val ++ a ++ b = hd.val ++ frame.promised := by
            rw [List.append_assoc, regions]
          have total : (hd.val ++ frame.promised).length = hd.val.length + frame.length := by
            rw [← data]
            simp [size]
          rw [if_neg (by simp [size])]
          cases wrote : sendmsg (hd.val.length + frame.length) results with
          | error error => exact .untouched (by simp) (by simp)
          | ok outcome =>
              obtain ⟨written, rest⟩ := outcome
              have within := sendmsg_le wrote
              dsimp only
              rw [data]
              split
              next nothing => exact nothing ▸ .full clear
              next progress =>
                split
                · have tail : unsentTail written [hd.val, a, b] =
                      (hd.val ++ frame.promised).drop written := by
                    rw [unsentTail_eq_drop, ← data]
                    simp
                  rw [tail]
                  exact .short clear written
                · obtain rfl : written = (hd.val ++ frame.promised).length := by omega
                  exact .sent clear

theorem consumePromise_wellFormed (sound : wire.Sound inHand) (id : StreamId) (length : Nat) :
    (wire.conn.consumePromise id length).WellFormed :=
  ((wire.conn.consumePromise_acts id length).moves TransportStep.log_grows
    sound.wellFormed).wellFormed

/-- A frame that nghttp2 treats as sent is on the wire or in the pending tail. -/
theorem SendData.processed {frame : NoCopyFrame} {hd : FrameHeader} {answer : SendDataResult}
    (sendData : SendData wire frame hd answer next) (sound : wire.Sound [])
    (treated : answer = .ok ∨ answer = .pause) :
    ({ next with
        active := none
        emitted := next.emitted ++ (hd.val ++ frame.promised) } : Wire).Sound [] := by
  have consumed := consumePromise_wellFormed sound frame.id frame.length
  have bytes := sound.bytes
  cases sendData with
  | untouched notSent notPaused => exact absurd treated (by simp [notSent, notPaused])
  | full clear => exact absurd treated (by simp)
  | sent clear =>
      have pending := (wire.conn.consumePromise_acts frame.id frame.length).outPending
      simp only [clear, List.append_nil] at bytes
      refine ⟨consumed, ?_, sound.put_ordered fun _ => clear, sound.replaced, by simp⟩
      simp only [put, List.take_length, pending, clear, List.append_nil, bytes]
  | short clear count =>
      simp only [clear, List.append_nil] at bytes
      refine ⟨⟨consumed.distinct, consumed.idle, consumed.opened⟩, ?_,
        sound.put_ordered fun _ => clear, ?_, by simp⟩
      · simp only [put, List.append_nil, List.append_assoc, List.take_append_drop, bytes]
      · intro old membership
        rcases List.mem_append.mp membership with earlier | last
        · exact sound.replaced old earlier
        · exact (List.mem_singleton.mp last).trans clear

theorem SendData.kept {frame : NoCopyFrame} {hd : FrameHeader} {answer : SendDataResult}
    (sendData : SendData wire frame hd answer next) (sound : wire.Sound []) (notSent : answer ≠ .ok)
    (notPaused : answer ≠ .pause) : next.Sound [] := by
  cases sendData with
  | untouched => exact sound
  | full clear =>
      exact ⟨sound.wellFormed, by simpa [put] using sound.bytes,
        sound.put_ordered fun _ => clear, sound.replaced, sound.pinned⟩
  | sent => exact absurd rfl notSent
  | short => exact absurd rfl notPaused

theorem SendData.clear {frame : NoCopyFrame} {hd : FrameHeader} {answer : SendDataResult}
    (sendData : SendData wire frame hd answer next) (notPaused : answer ≠ .pause) :
    next.conn.outPending = wire.conn.outPending := by
  cases sendData with
  | untouched => rfl
  | full => rfl
  | sent => exact (wire.conn.consumePromise_acts frame.id frame.length).outPending
  | short => exact absurd rfl notPaused

theorem Sound.release (sound : wire.Sound inHand) :
    ({ wire with active := none } : Wire).Sound inHand :=
  ⟨sound.wellFormed, sound.bytes, sound.ordered, sound.replaced, by simp⟩

theorem Sound.read (sound : wire.Sound inHand) (idle : wire.active = none) {id : StreamId}
    {trailerRc : Int} (legal : wire.conn.Legal (.read id length trailerRc)) :
    ({ wire with conn := (wire.conn.dataProviderRead id length trailerRc).2 } : Wire).Sound
      inHand where
  wellFormed := (Conn.perform_moves sound.wellFormed legal).wellFormed
  bytes := (wire.conn.dataProviderRead_acts id legal.1 legal.2 trailerRc).outPending ▸ sound.bytes
  ordered := sound.ordered
  replaced := sound.replaced
  pinned := by simp [idle]

variable (sound : wire.Sound [])
include sound

/-- Inside nghttp2 the order is kept, and a chunk is handed over only while no
tail is pending. -/
theorem memSend_sound {result : Except Int Bytes} {actions : List SendAction} {chunk : Bytes}
    {rest : List SendResult} (clear : wire.conn.outPending = [])
    (pulled : memSend result actions wire results = .ok (chunk, next, rest)) :
    next.Sound chunk ∧ (chunk ≠ [] → next.conn.outPending = []) := by
  induction actions generalizing wire results with
  | nil =>
      cases result with
      | error code => simp [memSend] at pulled
      | ok bytes =>
          obtain ⟨rfl, rfl, rfl⟩ : chunk = bytes ∧
              next = { wire with emitted := wire.emitted ++ bytes } ∧ rest = results := by
            simpa [memSend, eq_comm] using pulled
          refine ⟨⟨sound.wellFormed, ?_, sound.ordered, sound.replaced, sound.pinned⟩,
            fun _ => clear⟩
          have bytes := sound.bytes
          simp only [clear, List.append_nil] at bytes
          simp [clear, bytes]
  | cons action actions ih =>
      cases action with
      | close id errorCode =>
          refine ih (sound.close id errorCode) ?_ pulled
          exact (wire.conn.onStreamClose_settings id errorCode).outPending.trans clear
      | read id length trailerRc =>
          unfold memSend at pulled
          split at pulled
          next possible =>
            obtain ⟨idle, legal⟩ := possible
            have read := sound.read idle legal
            have pending :=
              (wire.conn.dataProviderRead_acts id legal.1 legal.2 trailerRc).outPending
            have pins := fun count =>
              @Conn.dataProviderRead_pins _ _ sound.wellFormed _ count _ legal
            generalize wire.conn.dataProviderRead id length trailerRc = reply at *
            obtain ⟨outcome, conn⟩ := reply
            cases outcome with
            | callbackFailure => simp at pulled
            | noCopy count =>
                refine ih ?_ (pending.trans clear) pulled
                exact ⟨read.wellFormed, read.bytes, read.ordered, read.replaced, by
                  rintro _ ⟨⟩
                  exact pins count rfl⟩
            | _ => exact ih read (pending.trans clear) pulled
          next => exact ih sound clear pulled
      | offer hd padlen =>
          unfold memSend at pulled
          split at pulled
          next => exact ih sound clear pulled
          next frame active =>
            have spec := sendData_spec (sound.pinned frame active) hd padlen results
            generalize wire.sendData frame.id frame.length hd padlen results = reply at *
            obtain ⟨answer, after, later⟩ := reply
            cases answer with
            | ok =>
                exact ih (spec.processed sound (.inl rfl))
                  ((spec.clear (by simp)).trans clear) pulled
            | pause =>
                obtain ⟨rfl, rfl, rfl⟩ := by simpa [eq_comm] using pulled
                exact ⟨spec.processed sound (.inr rfl), by simp⟩
            | wouldBlock =>
                obtain ⟨rfl, rfl, rfl⟩ := by simpa [eq_comm] using pulled
                exact ⟨spec.kept sound (by simp) (by simp), by simp⟩
            | temporalFailure =>
                exact ih (spec.kept sound (by simp) (by simp)).release
                  ((spec.clear (by simp)).trans clear) pulled
            | callbackFailure => simp at pulled

theorem flushWrites_sound {wants : Bool} {pulls : List Pull} {status : TickStatus}
    (flushed : flushWrites wants pulls wire results = .ok (status, next)) :
    next.Sound [] := by
  induction pulls generalizing wire results with
  | nil =>
      unfold flushWrites at flushed
      obtain ⟨⟨full, drained, later⟩, tail, continued⟩ := Fallible.bind_eq_ok_iff.mp flushed
      have kept := (flushPending_sound sound (Nat.le_refl _) tail).1
      dsimp only at continued
      split at continued <;> obtain ⟨_, rfl⟩ := Prod.mk.inj (Except.ok.inj continued) <;> exact kept
  | cons pull pulls ih =>
      unfold flushWrites at flushed
      obtain ⟨⟨full, drained, later⟩, tail, continued⟩ := Fallible.bind_eq_ok_iff.mp flushed
      obtain ⟨kept, emptied⟩ := flushPending_sound sound (Nat.le_refl _) tail
      dsimp only at continued
      split at continued
      · obtain ⟨_, rfl⟩ := Prod.mk.inj (Except.ok.inj continued)
        exact kept
      next notFull =>
        obtain ⟨⟨chunk, pulled, remaining⟩, sent, further⟩ := Fallible.bind_eq_ok_iff.mp continued
        obtain ⟨owed, clear⟩ := memSend_sound kept (emptied (by simpa using notFull)) sent
        dsimp only at further
        split at further
        next nothing =>
          obtain ⟨_, rfl⟩ := Prod.mk.inj (Except.ok.inj further)
          exact nothing ▸ owed
        next something =>
          obtain ⟨⟨written, after⟩, wrote, last⟩ := Fallible.bind_eq_ok_iff.mp further
          have within := writeSome_le (Nat.zero_le _) wrote
          have stored := owed.put_chunk (clear something) written
          dsimp only at last
          split at last
          next =>
            obtain ⟨_, rfl⟩ := Prod.mk.inj (Except.ok.inj last)
            exact stored
          next whole =>
            rw [List.drop_eq_nil_of_le (Nat.not_lt.mp whole), stashPending_nil] at stored
            exact ih stored last

theorem drainReads_sound {reads : List ReadResult} {ended : Option TickStatus}
    (drained : drainReads reads wire = .ok (ended, next)) :
    next.Sound [] := by
  induction reads generalizing wire with
  | nil =>
      obtain ⟨_, rfl⟩ := Prod.mk.inj (Except.ok.inj drained)
      exact sound
  | cons read reads ih =>
      cases read with
      | received events => exact ih (sound.receive events) drained
      | refused code => simp [drainReads] at drained
      | endOfFile =>
          obtain ⟨_, rfl⟩ := Prod.mk.inj (Except.ok.inj drained)
          exact sound
      | interrupted => exact ih sound drained
      | failed errno => simp [drainReads] at drained

theorem tickRead_sound {env : TickEnv} {status : TickStatus}
    (ticked : wire.tickRead env = .ok (status, next)) : next.Sound [] := by
  obtain ⟨⟨ended, drained⟩, read, continued⟩ := Fallible.bind_eq_ok_iff.mp ticked
  have kept := drainReads_sound (sound.expireDeadlines env.now) read
  cases ended with
  | some status =>
      obtain ⟨_, rfl⟩ := Prod.mk.inj (Except.ok.inj continued)
      exact kept
  | none => exact flushWrites_sound (kept.dispatch env.dispatch) continued

theorem tickWrite_sound {env : TickEnv} {status : TickStatus}
    (ticked : wire.tickWrite env = .ok (status, next)) : next.Sound [] :=
  flushWrites_sound (sound.expireDeadlines env.now) ticked

end Writes

theorem step_sound {wire : Wire} {event : WireEvent} (sound : wire.Sound [])
    (performed : wire.step event = some next) : next.Sound [] := by
  have succeeded : ∀ {outcome : Except IoError (TickStatus × Wire)},
      outcome.toOption.map Prod.snd = some next → ∃ status, outcome = .ok (status, next) := by
    intro outcome returned
    cases outcome with
    | error error => simp [Except.toOption] at returned
    | ok value => exact ⟨value.1, by rw [← Option.some.inj returned]⟩
  cases event with
  | tickRead env =>
      obtain ⟨status, ticked⟩ := succeeded performed
      exact tickRead_sound sound ticked
  | tickWrite env =>
      obtain ⟨status, ticked⟩ := succeeded performed
      exact tickWrite_sound sound ticked
  | application event =>
      obtain rfl := Option.some.inj performed
      refine sound.offer ConnEvent.isApplication fun event offered => ?_
      cases event <;> simp_all [ConnEvent.isApplication, ConnEvent.isTransport]

end Wire

/-- In every run without a fatal error, whatever the socket and nghttp2 do, the
bytes the socket accepted followed by the pending tail are the bytes nghttp2
emitted.  Chunks and direct frames are written only while nothing is pending,
and the send callback stores its tail only over an empty one. -/
theorem wire_in_order {methods : List MethodEntry} {maxMessageLen : UInt32} {fd : Int}
    {events : List WireEvent} {wire : Wire}
    (reached : run Wire.step (Wire.new (.newServer methods maxMessageLen fd)) events =
      some wire) :
    wire.sent ++ wire.conn.outPending = wire.emitted ∧
    (∀ write ∈ wire.writes, write.1 ≠ .tail → write.2 = []) ∧
    ∀ old ∈ wire.replaced, old = [] := by
  have sound : wire.Sound [] := run_invariant
    (fun _ _ _ sound performed => Wire.step_sound sound performed)
    (Wire.new_sound methods maxMessageLen fd) reached
  exact ⟨by simpa using sound.bytes, sound.ordered, sound.replaced⟩

/-- A request whose handler answers with a large message.  The socket cuts the
first chunk, then the header of the direct frame. -/
def cutTick : TickEnv where
  now := 0
  reads :=
    [.received
      [.beginHeaders ⟨1, nvHeaders, 0, .request⟩ true, .header 1 nPath (ascii "/S/M") 0 true,
        .dataChunkRecv 1 (frame [9]) true, .frameRecv ⟨1, nvData, flagEndStream, .headers⟩]]
  dispatch := ⟨fun _ => ⟨[.writeCall 1 (List.replicate 4091 7) true true, .finishCall 1 .ok], 0⟩,
    fun _ => 0⟩
  pulls :=
    [⟨[], .ok [1, 2, 3]⟩, ⟨[.read 1 16384 0, .offer ⟨[0, 16, 0, 0, 0, 0, 0, 0, 1], rfl⟩ 0], .ok []⟩]
  sends := [.sent 2, .sent 1, .interrupted, .sent 7]
  wants := true

/-- The rest of the frame, and a chunk that is cut in turn. -/
def restTick : TickEnv where
  now := 0
  reads := []
  dispatch := ⟨fun _ => ⟨[], 0⟩, fun _ => 0⟩
  pulls := [⟨[.read 1 16384 0], .ok [5, 6]⟩]
  sends := [.sent 4000, .sent 98, .sent 1]
  wants := true

theorem wire_in_order_across_cuts :
    ∃ wire, run Wire.step (Wire.new (.newServer [⟨ascii "/S/M", 7, 0, none⟩] 100 3))
        [.tickRead cutTick, .tickWrite restTick] = some wire ∧
      wire.conn.outPending = [6] ∧ wire.replaced = [[]] ∧
      wire.sent ++ [6] = wire.emitted := by
  have computed : (run Wire.step
      (Wire.new (.newServer [⟨ascii "/S/M", 7, 0, none⟩] 100 3))
        [.tickRead cutTick, .tickWrite restTick]).map (fun wire =>
          (wire.conn.outPending, wire.replaced)) = some ([6], [[]]) := by
    decide +kernel
  obtain ⟨wire, reached, recorded⟩ := Option.map_eq_some_iff.mp computed
  obtain ⟨pending, replaced⟩ := Prod.mk.inj recorded
  exact ⟨wire, reached, pending, replaced, pending ▸ (wire_in_order reached).1⟩

end GrpcUds.Server
