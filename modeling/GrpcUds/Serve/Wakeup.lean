import GrpcUds.Serve.Loop

/-!
# A queued op wakes the loop

A push pokes the eventfd only if it found the queue empty and does not run on
the I/O thread.  The counter is cleared before the ticks and the queue is taken
after them, so between the two the queue may be filled without a poke.  Outside
that window a queue that is not empty has a poke behind it or ahead of it.
-/

namespace GrpcUds.Serve

open Transition Server

/-- The loop takes the queue before it polls again. -/
def Phase.beforeTake : Phase → Bool
  | accept _ _ => true
  | drainWakeup _ => true
  | ticking _ _ => true
  | inTick _ _ => true
  | _ => false

/-- What holds of the mailbox while the loop stands in a phase. -/
structure Awake (mailbox : Mailbox) (phase : Phase) : Prop where
  offThread : ∀ call ∈ mailbox.calls, call.stage = .poke → call.inline = false
  handlers : ∀ call ∈ mailbox.calls, call.inline = true →
    ∃ position count, phase = .inTick position count
  awake : phase.beforeTake = false → mailbox.ops ≠ [] →
    0 < mailbox.wakeup ∨ ∃ call ∈ mailbox.calls, call.stage = .poke

namespace Awake

variable {mailbox next : Mailbox} {phase later : Phase}

theorem new (phase : Phase) : Awake .new phase where
  offThread := by simp [Mailbox.new]
  handlers := by simp [Mailbox.new]
  awake := by simp [Mailbox.new]

variable (sound : Awake mailbox phase)
include sound

theorem begin {writer : Nat} {request : Request} {inline : Bool}
    (entered : mailbox.begin writer request inline = some next)
    (inTick : inline = true → ∃ position count, phase = .inTick position count) :
    Awake next phase := by
  unfold Mailbox.begin at entered
  split at entered
  · obtain rfl := Option.some.inj entered
    refine ⟨fun call member stage => ?_, fun call member isInline => ?_, fun window queued => ?_⟩
    · rcases Table.mem_concat.mp member with old | rfl
      · exact sound.offThread call old stage
      · simp only [Request.start] at stage
        split at stage <;> simp at stage
    · rcases Table.mem_concat.mp member with old | rfl
      · exact sound.handlers call old isInline
      · exact inTick isInline
    · refine (sound.awake window queued).imp_right ?_
      rintro ⟨call, member, stage⟩
      exact ⟨call, List.mem_append_left _ member, stage⟩
  · simp at entered

/-- A call that is not about to poke moves on. -/
theorem goto {position : Nat} {call : Call} (present : mailbox.calls[position]? = some call)
    (before : call.stage ≠ .poke) {stage : Stage} (after : stage ≠ .poke) :
    Awake (mailbox.goto position call stage) phase := by
  have member := List.mem_of_getElem? present
  refine ⟨fun other listed poking => ?_, fun other listed isInline => ?_, fun window queued => ?_⟩
  · rcases Mailbox.mem_calls_goto stage listed with old | rfl
    · exact sound.offThread other old poking
    · exact absurd poking after
  · rcases Mailbox.mem_calls_goto stage listed with old | rfl
    · exact sound.handlers other old isInline
    · exact sound.handlers call member isInline
  · refine (sound.awake window queued).imp_right ?_
    rintro ⟨other, old, poking⟩
    refine ⟨other, Mailbox.other_mem_goto present stage old ?_, poking⟩
    rintro rfl
    exact before poking

theorem answer {position : Nat} {call : Call} (present : mailbox.calls[position]? = some call)
    (covered : call.stage ≠ .poke ∨ 0 < mailbox.wakeup) (result : Except Closed Unit) :
    Awake (mailbox.answer position call result) phase := by
  refine ⟨fun other listed => sound.offThread other (Mailbox.mem_calls_answer listed),
    fun other listed => sound.handlers other (Mailbox.mem_calls_answer listed),
    fun window queued => ?_⟩
  rcases covered with before | woken
  · refine (sound.awake window queued).imp_right ?_
    rintro ⟨other, old, poking⟩
    refine ⟨other, Mailbox.other_mem_answer present result old ?_, poking⟩
    rintro rfl
    exact before poking
  · exact .inl woken

theorem advance {position : Nat} (advanced : mailbox.advance position = some next) :
    Awake next phase := by
  obtain ⟨call, writer, present, known, turn⟩ := Mailbox.advance_turn advanced
  have member := List.mem_of_getElem? present
  cases turn with
  | sawFinished stage finished => exact sound.answer present (.inl (by simp [stage])) _
  | sawUnfinished stage unfinished => exact sound.goto present (by simp [stage]) (by simp)
  | sawDead stage dead => exact sound.answer present (.inl (by simp [stage])) _
  | sawAlive stage alive =>
      refine sound.goto present (by simp [stage]) ?_
      split <;> simp
  | lostSwap stage finished => exact sound.answer present (.inl (by simp [stage])) _
  | wonSwap stage unfinished =>
      have swapped : Awake (mailbox.setFinished call.writer) phase :=
        ⟨sound.offThread, sound.handlers, sound.awake⟩
      exact swapped.goto present (by simp [stage]) (by simp)
  | pushedFirst stage empty offThread =>
      -- the queue was empty: this call pokes next
      refine ⟨fun other listed poking => ?_, fun other listed isInline => ?_, fun _ _ => ?_⟩
      · rcases Mailbox.mem_calls_goto .poke listed with old | rfl
        · exact sound.offThread other old poking
        · exact offThread
      · rcases Mailbox.mem_calls_goto .poke listed with old | rfl
        · exact sound.handlers other old isInline
        · exact sound.handlers call member isInline
      · exact .inr ⟨_, Mailbox.self_mem_goto present .poke, rfl⟩
  | pushed stage covered =>
      have queued : Awake (mailbox.push (mailbox.opOf call writer)).2 phase := by
        refine ⟨sound.offThread, sound.handlers, fun window _ => ?_⟩
        rcases covered with waiting | isInline
        · exact sound.awake window waiting
        · -- an inline push happens in a tick, and the queue is taken after it
          obtain ⟨_, _, inTick⟩ := sound.handlers call member isInline
          simp [inTick, Phase.beforeTake] at window
      exact queued.answer present (.inl (by simp [stage])) _
  | poked stage =>
      have woken : 0 < mailbox.poke.wakeup := by simp [Mailbox.poke, Mailbox.eventfdMax]
      have poked : Awake mailbox.poke phase :=
        ⟨sound.offThread, sound.handlers, fun _ _ => .inl woken⟩
      exact poked.answer present (.inr woken) _

/-- The loop moves on without touching the mailbox. -/
theorem move (calm : ∀ call ∈ mailbox.calls, call.inline = false)
    (window : later.beforeTake = false → phase.beforeTake = false) : Awake mailbox later where
  offThread := sound.offThread
  handlers := by
    intro call member isInline
    simp [calm call member] at isInline
  awake := fun after => sound.awake (window after)

/-- Outside a tick no handler is in the middle of a call. -/
theorem calm (outside : ∀ position count, phase ≠ .inTick position count) (call : Call)
    (member : call ∈ mailbox.calls) : call.inline = false := by
  cases isInline : call.inline with
  | false => rfl
  | true =>
      obtain ⟨position, count, inside⟩ := sound.handlers call member isInline
      exact absurd inside (outside position count)

/-- Only the writers' flags or their number change. -/
theorem flags (writers : List Writer) :
    Awake { mailbox with writers := writers } phase :=
  ⟨sound.offThread, sound.handlers, sound.awake⟩

end Awake

namespace Loop

theorem report_eq (mailbox : Mailbox) (writer : Nat) (result : Except ConnError Unit) :
    ∃ writers, report mailbox writer result = { mailbox with writers := writers } := by
  unfold report
  split <;> exact ⟨_, rfl⟩

theorem applyOp_mailbox (loop : Loop) (op : OutOp) (reserve : Bool) :
    ∃ writers, (loop.applyOp op reserve).mailbox = { loop.mailbox with writers := writers } := by
  unfold applyOp
  split
  · exact ⟨_, rfl⟩
  · exact report_eq _ _ _

theorem conclude_mailbox (loop : Loop) (position : Nat) (live : Bool) :
    (loop.conclude position live).mailbox = loop.mailbox := by
  unfold conclude
  split <;> rfl

theorem accept_eq (loop : Loop) (registered : Bool) (fd : Int) :
    (loop.accept registered fd).mailbox = loop.mailbox ∧
      (loop.accept registered fd).phase = loop.phase := by
  unfold accept
  split <;> exact ⟨rfl, rfl⟩

theorem step_awake {loop next : Loop} {event : LoopEvent}
    (sound : Awake loop.mailbox loop.phase) (performed : loop.step event = some next) :
    Awake next.mailbox next.phase := by
  have outside : ∀ {phase}, loop.phase = phase →
      (∀ position count, phase ≠ .inTick position count) →
      ∀ call ∈ loop.mailbox.calls, call.inline = false := by
    rintro _ rfl apart
    exact sound.calm apart
  cases step_inv performed with
  | begin entered inTick => exact sound.begin entered inTick
  | advance advanced => exact sound.advance advanced
  | shutdown phase => exact sound.move (outside phase (by simp)) (by simp [phase, Phase.beforeTake])
  | enterPoll phase =>
      exact sound.move (outside phase (by simp)) (by simp [phase, Phase.beforeTake])
  | interrupted phase =>
      exact sound.move (outside phase (by simp)) (by simp [phase, Phase.beforeTake])
  | pollFailed phase =>
      exact sound.move (outside phase (by simp)) (by simp [phase, Phase.beforeTake])
  | pollAccepts phase => exact sound.move (outside phase (by simp)) (by simp [Phase.beforeTake])
  | pollReturned phase =>
      refine sound.move (outside phase (by simp)) ?_
      dsimp only
      split <;> simp [Phase.beforeTake]
  | accept phase =>
      obtain ⟨mailbox, samePhase⟩ := loop.accept_eq _ _
      rw [mailbox, samePhase]
      exact sound
  | acceptDone phase =>
      refine sound.move (outside phase (by simp)) ?_
      dsimp only
      split <;> simp [Phase.beforeTake]
  | wakeupDrained phase drained =>
      exact sound.move (outside phase (by simp)) (by simp [Phase.beforeTake])
  | wakeupRead phase =>
      refine ⟨sound.offThread, sound.handlers, fun window => ?_⟩
      simp [phase, Phase.beforeTake] at window
  | skip phase => exact sound.move (outside phase (by simp)) (by simp [Phase.beforeTake])
  | tickStart phase present =>
      refine ⟨sound.offThread, fun call member isInline => ?_, fun window => ?_⟩
      · simp [outside phase (by simp) call member] at isInline
      · simp [Phase.beforeTake] at window
  | conn phase present allowed stepped => exact sound
  | dispatch phase present => exact sound.flags _
  | tickEnd phase quiet =>
      rw [conclude_mailbox]
      refine sound.move ?_ (by simp [Phase.beforeTake])
      simpa [Loop.quiet] using quiet
  | take phase =>
      refine ⟨sound.offThread, fun call member isInline => ?_, fun _ queued => ?_⟩
      · simp [outside phase (by simp) call member] at isInline
      · simp [Mailbox.take] at queued
  | applyOp phase =>
      obtain ⟨writers, mailbox⟩ := loop.applyOp_mailbox _ _
      rw [mailbox]
      exact (sound.flags writers).move (outside phase (by simp)) (by simp [phase, Phase.beforeTake])
  | applyDone phase =>
      exact sound.move (outside phase (by simp)) (by simp [phase, Phase.beforeTake])
  | flushSkip phase =>
      exact sound.move (outside phase (by simp)) (by simp [phase, Phase.beforeTake])
  | flushStart phase present live =>
      exact sound.move (outside phase (by simp)) (by simp [phase, Phase.beforeTake])
  | flushEnd phase =>
      rw [conclude_mailbox]
      exact sound.move (outside phase (by simp)) (by simp [phase, Phase.beforeTake])
  | retain phase => exact sound.move (outside phase (by simp)) (by simp [phase, Phase.beforeTake])

/-- In every reachable state in which the loop is about to enter or is inside
`poll` with an op in the queue, the eventfd is readable or a producer on another
thread that pushed onto the empty queue has its poke still ahead. -/
theorem no_op_waits_for_sleeping_loop {methods : List MethodEntry} {maxMessageLen : UInt32}
    {events : List LoopEvent} {loop : Loop}
    (reached : run step (new methods maxMessageLen) events = some loop)
    (polling : loop.phase = .top ∨ ∃ count, loop.phase = .poll count)
    (queued : loop.mailbox.ops ≠ []) :
    0 < loop.mailbox.wakeup ∨
      ∃ call ∈ loop.mailbox.calls, call.stage = .poke ∧ call.inline = false := by
  have sound : Awake loop.mailbox loop.phase :=
    run_invariant (fun loop event next sound performed => step_awake sound performed)
      (Awake.new .top) reached
  have window : loop.phase.beforeTake = false := by
    rcases polling with phase | ⟨count, phase⟩ <;> simp [phase, Phase.beforeTake]
  rcases sound.awake window queued with woken | ⟨call, member, poking⟩
  · exact .inl woken
  · exact .inr ⟨call, member, poking, sound.offThread call member poking⟩

/-- A producer pushes onto the empty queue while the loop is in `poll`. -/
theorem pushed_op_has_poke_ahead :
    ∃ loop, run step oneMethod (openCall ++
        [.begin 0 (.write [5]) false, .advance 0, .advance 0, .advance 0]) = some loop ∧
      loop.phase = .poll 1 ∧ loop.mailbox.ops ≠ [] ∧
      (0 < loop.mailbox.wakeup ∨
        ∃ call ∈ loop.mailbox.calls, call.stage = .poke ∧ call.inline = false) := by
  have reached : run step oneMethod (openCall ++
      [.begin 0 (.write [5]) false, .advance 0, .advance 0, .advance 0]) = some _ := rfl
  exact ⟨_, reached, rfl, by decide,
    no_op_waits_for_sleeping_loop reached (.inr ⟨1, rfl⟩) (by decide)⟩

end Loop

end GrpcUds.Serve
