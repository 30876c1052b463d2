import GrpcUds.Serve.Routing

/-!
# Writers that outlive `serve`

A writer learns that its call is over from flags that the loop raises when it
applies an op.  Once `serve` has returned nobody takes ops any more, so a writer
whose flags were down at that moment is never told.
-/

namespace GrpcUds.Serve

open Transition Server

variable {mailbox : Mailbox} {position : Nat}

namespace Mailbox

/-- How many calls on the writer, of those begun as the given one or later, returned
`Ok`. -/
def okSince (mailbox : Mailbox) (index begun : Nat) : Nat :=
  (mailbox.returned.filter fun entry =>
    entry.1.writer = index && decide (begun ≤ entry.1.serial) && entry.2.isOk).length

/-! ### Calls are numbered -/

/-- The calls in progress and those that returned have numbers below `begun`. -/
structure Numbered (mailbox : Mailbox) : Prop where
  calls : ∀ call ∈ mailbox.calls, call.serial < mailbox.begun
  returned : ∀ entry ∈ mailbox.returned, entry.1.serial < mailbox.begun

/-- The call moves on to another stage, or it returns. -/
theorem Turn.calls {next : Mailbox} {call : Call} {writer : Writer}
    (turn : mailbox.Turn position call writer next) :
    next.begun = mailbox.begun ∧
      ((∃ stage, next.calls = mailbox.calls.set position { call with stage := stage } ∧
          next.returned = mailbox.returned) ∨
        ∃ result, next.calls = mailbox.calls.eraseIdx position ∧
          next.returned = mailbox.returned ++ [(call, result)]) := by
  cases turn with
  | sawFinished stage finished => exact ⟨rfl, .inr ⟨_, rfl, rfl⟩⟩
  | sawUnfinished stage unfinished => exact ⟨rfl, .inl ⟨_, rfl, rfl⟩⟩
  | sawDead stage dead => exact ⟨rfl, .inr ⟨_, rfl, rfl⟩⟩
  | sawAlive stage alive => exact ⟨rfl, .inl ⟨_, rfl, rfl⟩⟩
  | lostSwap stage finished => exact ⟨rfl, .inr ⟨_, rfl, rfl⟩⟩
  | wonSwap stage unfinished => exact ⟨rfl, .inl ⟨_, rfl, rfl⟩⟩
  | pushedFirst stage empty offThread => exact ⟨rfl, .inl ⟨_, rfl, rfl⟩⟩
  | pushed stage covered => exact ⟨rfl, .inr ⟨_, rfl, rfl⟩⟩
  | poked stage => exact ⟨rfl, .inr ⟨_, rfl, rfl⟩⟩

theorem Numbered.advance {next : Mailbox} (numbered : mailbox.Numbered)
    (advanced : mailbox.advance position = some next) : next.Numbered := by
  obtain ⟨call, writer, present, known, turn⟩ := advance_turn advanced
  have earlier := numbered.calls call (List.mem_of_getElem? present)
  obtain ⟨begun, ⟨stage, calls, returned⟩ | ⟨result, calls, returned⟩⟩ := turn.calls
  · refine ⟨fun other member => ?_, fun entry member => ?_⟩
    · rw [begun]
      rcases List.mem_or_eq_of_mem_set (calls ▸ member) with old | rfl
      · exact numbered.calls other old
      · exact earlier
    · exact begun ▸ numbered.returned entry (returned ▸ member)
  · refine ⟨fun other member => ?_, fun entry member => ?_⟩
    · exact begun ▸ numbered.calls other (List.mem_of_mem_eraseIdx (calls ▸ member))
    · rw [begun]
      rcases Table.mem_concat.mp (returned ▸ member) with old | rfl
      · exact numbered.returned entry old
      · exact earlier

theorem begin_eq {next : Mailbox} {writer : Nat} {request : Request} {inline : Bool}
    (entered : mailbox.begin writer request inline = some next) :
    { mailbox with
      calls := mailbox.calls ++ [⟨mailbox.begun, writer, request, inline, request.start⟩]
      begun := mailbox.begun + 1 } = next := by
  unfold begin at entered
  split at entered
  · exact Option.some.inj entered
  · simp at entered

theorem Numbered.begin {next : Mailbox} (numbered : mailbox.Numbered) {writer : Nat}
    {request : Request} {inline : Bool} (entered : mailbox.begin writer request inline = some next)
    :
    next.Numbered := by
  obtain rfl := begin_eq entered
  refine ⟨fun call member => ?_,
    fun entry member => Nat.lt_succ_of_lt (numbered.returned entry member)⟩
  rcases Table.mem_concat.mp member with old | rfl
  · exact Nat.lt_succ_of_lt (numbered.calls call old)
  · exact Nat.lt_succ_self _

/-! ### A closed writer -/

/-- How far a call on a closed writer gets. -/
def Bounces (call : Call) (writer : Writer) : Prop :=
  call.stage = .loadFinished ∨
    (call.stage = .loadDead ∧ (call.request.isFinish = true ∨ writer.dead = true)) ∨
      (call.stage = .swapFinished ∧ writer.finished = true)

/-- The writer is closed, and the calls on it since a given one got and get nothing but
`Closed`. -/
structure Spent (mailbox : Mailbox) (index begun : Nat) (writer : Writer) : Prop where
  known : mailbox.writers[index]? = some writer
  closed : writer.closed = true
  calls : ∀ call ∈ mailbox.calls, call.writer = index → begun ≤ call.serial → Bounces call writer
  returned : ∀ entry ∈ mailbox.returned, entry.1.writer = index → begun ≤ entry.1.serial →
    entry.2 = .error .closed

namespace Spent

variable {mailbox next : Mailbox} {index begun : Nat} {writer : Writer}

variable (spent : mailbox.Spent index begun writer)
include spent

theorem begin {target : Nat} {request : Request} {inline : Bool}
    (entered : mailbox.begin target request inline = some next) :
    next.Spent index begun writer := by
  obtain rfl := begin_eq entered
  refine { spent with calls := fun call member onWriter late => ?_ }
  rcases Table.mem_concat.mp member with old | rfl
  · exact spent.calls call old onWriter late
  · simp only [Bounces, Request.start]
    cases request.isFinish <;> simp

theorem goto {call : Call} {stage : Stage} (bounces : call.writer = index → begun ≤ call.serial →
      Bounces { call with stage := stage } writer) :
    (mailbox.goto position call stage).Spent index begun writer := by
  refine { spent with calls := fun other member onWriter late => ?_ }
  rcases mem_calls_goto stage member with old | rfl
  · exact spent.calls other old onWriter late
  · exact bounces onWriter late

theorem answer {call : Call} {result : Except Closed Unit}
    (refused : call.writer = index → begun ≤ call.serial → result = .error .closed) :
    (mailbox.answer position call result).Spent index begun writer := by
  refine { spent with
    calls := fun other member => spent.calls other (mem_calls_answer member)
    returned := fun entry member onWriter late => ?_ }
  rcases Table.mem_concat.mp member with old | rfl
  · exact spent.returned entry old onWriter late
  · exact refused onWriter late

/-- An older call may still win the swap. -/
theorem setFinished (target : Nat) :
    ∃ later, (mailbox.setFinished target).Spent index begun later := by
  by_cases same : target = index
  · refine ⟨{ writer with finished := true }, ?_, rfl, fun call member onWriter late => ?_,
      spent.returned⟩
    · simp [Mailbox.setFinished, modifyWriter, spent.known, same]
    · exact (spent.calls call member onWriter late).imp_right
        (Or.imp_right fun swapping => ⟨swapping.1, rfl⟩)
  · refine ⟨writer, ?_, spent.closed, spent.calls, spent.returned⟩
    simp [Mailbox.setFinished, modifyWriter, spent.known, same]

theorem advance (advanced : mailbox.advance position = some next) :
    ∃ later, next.Spent index begun later := by
  obtain ⟨call, seen, present, known, turn⟩ := advance_turn advanced
  have sees : call.writer = index → seen = writer := by
    rintro rfl
    exact Option.some.inj (known.symm.trans spent.known)
  have bounces := spent.calls call (List.mem_of_getElem? present)
  have closed := spent.closed
  -- a call that gets as far as the push is not one of those that came too late
  have early : call.stage = .push ∨ call.stage = .poke → call.writer = index →
      ¬ begun ≤ call.serial := by
    intro stage onWriter late
    rcases bounces onWriter late with before | ⟨before, _⟩ | ⟨before, _⟩ <;>
      simp [before] at stage
  cases turn with
  | sawFinished stage finished => exact ⟨writer, spent.answer fun _ _ => rfl⟩
  | sawUnfinished stage unfinished =>
      refine ⟨writer, spent.goto fun onWriter late => .inr (.inl ⟨rfl, .inr ?_⟩)⟩
      obtain rfl := sees onWriter
      simpa [Writer.closed, unfinished] using closed
  | sawDead stage dead => exact ⟨writer, spent.answer fun _ _ => rfl⟩
  | sawAlive stage alive =>
      refine ⟨writer, spent.goto fun onWriter late => ?_⟩
      obtain rfl := sees onWriter
      have finishing : call.request.isFinish = true := by
        simpa [Bounces, stage, alive] using bounces onWriter late
      have finished : seen.finished = true := by simpa [Writer.closed, alive] using closed
      exact .inr (.inr ⟨by simp [finishing], finished⟩)
  | lostSwap stage finished => exact ⟨writer, spent.answer fun _ _ => rfl⟩
  | wonSwap stage unfinished =>
      obtain ⟨later, spent'⟩ := spent.setFinished call.writer
      refine ⟨later, spent'.goto fun onWriter late => ?_⟩
      obtain rfl := sees onWriter
      simpa [Bounces, stage, unfinished] using bounces onWriter late
  | pushedFirst stage empty offThread =>
      have pushed : (mailbox.push (mailbox.opOf call seen)).2.Spent index begun writer :=
        ⟨spent.known, closed, spent.calls, spent.returned⟩
      exact ⟨writer, pushed.goto fun onWriter late => absurd late (early (.inl stage) onWriter)⟩
  | pushed stage covered =>
      have pushed : (mailbox.push (mailbox.opOf call seen)).2.Spent index begun writer :=
        ⟨spent.known, closed, spent.calls, spent.returned⟩
      exact ⟨writer, pushed.answer fun onWriter late => absurd late (early (.inl stage) onWriter)⟩
  | poked stage =>
      have poked : mailbox.poke.Spent index begun writer :=
        ⟨spent.known, closed, spent.calls, spent.returned⟩
      exact ⟨writer, poked.answer fun onWriter late => absurd late (early (.inr stage) onWriter)⟩

theorem okSince_eq_zero :
    mailbox.okSince index begun = 0 := by
  rw [okSince, List.length_eq_zero_iff, List.filter_eq_nil_iff]
  intro entry member counted
  simp only [Bool.and_eq_true, decide_eq_true_eq] at counted
  rw [spent.returned entry member counted.1.1 counted.1.2] at counted
  simp [Except.isOk, Except.toBool] at counted

end Spent

/-! ### An open writer -/

/-- The mailbox with one more call in progress. -/
def calling (mailbox : Mailbox) (call : Call) : Mailbox :=
  { mailbox with calls := mailbox.calls ++ [call] }

theorem calling_getElem? (mailbox : Mailbox) (call : Call) :
    (mailbox.calling call).calls[mailbox.calls.length]? = some call := by
  simp [calling]

theorem calling_goto (mailbox : Mailbox) (call : Call) (stage : Stage) :
    (mailbox.calling call).goto mailbox.calls.length call stage =
      mailbox.calling { call with stage := stage } := by
  simp [calling, goto]

theorem calling_answer (mailbox : Mailbox) (call : Call) (result : Except Closed Unit) :
    (mailbox.calling call).answer mailbox.calls.length call result =
      { mailbox with returned := mailbox.returned ++ [(call, result)] } := by
  simp [calling, answer, List.eraseIdx_append_of_length_le]

end Mailbox

namespace Loop

theorem step_advance (loop : Loop) {next : Mailbox}
    (advanced : mailbox.advance position = some next) :
    { loop with mailbox := mailbox }.step (.advance position) =
      some { loop with mailbox := next } := by
  simp [step, advanced]

theorem mayBegin_offThread (loop : Loop) : loop.mayBegin false = true := by
  unfold mayBegin
  split <;> rfl

/-- A write on an open writer that nothing interrupts returns `Ok`. -/
theorem write_alone {loop : Loop} {index : Nat} {writer : Writer}
    (known : loop.mailbox.writers[index]? = some writer) (opened : writer.closed = false) :
    ∃ events next call, run step loop events = some next ∧
      next.mailbox.writers = loop.mailbox.writers ∧ call.writer = index ∧
      call.serial = loop.mailbox.begun ∧ next.mailbox.begun = loop.mailbox.begun + 1 ∧
      next.mailbox.returned = loop.mailbox.returned ++ [(call, .ok ())] := by
  obtain ⟨unfinished, alive⟩ : writer.finished = false ∧ writer.dead = false := by
    simpa [Writer.closed] using opened
  let start := { loop.mailbox with begun := loop.mailbox.begun + 1 }
  let call (stage : Stage) : Call := ⟨loop.mailbox.begun, index, .write [], false, stage⟩
  let pushed := (start.push (start.opOf (call .push) writer)).2
  have entered : loop.step (.begin index (.write []) false) =
      some { loop with mailbox := start.calling (call .loadFinished) } := by
    have inside := (List.getElem?_eq_some_iff.mp known).1
    simp [step, mayBegin_offThread, Mailbox.begin, inside, start, call, Mailbox.calling,
      Request.start, Request.isFinish]
  have checked : (start.calling (call .loadFinished)).advance start.calls.length =
      some (start.calling (call .loadDead)) :=
    (Mailbox.Turn.advance (start.calling_getElem? (call .loadFinished)) known
      (.sawUnfinished rfl unfinished)).trans (congrArg some (start.calling_goto _ _))
  have passed : (start.calling (call .loadDead)).advance start.calls.length =
      some (start.calling (call .push)) :=
    (Mailbox.Turn.advance (start.calling_getElem? (call .loadDead)) known
      (.sawAlive rfl alive)).trans (congrArg some (start.calling_goto _ _))
  by_cases empty : loop.mailbox.ops = []
  · have queued : (start.calling (call .push)).advance start.calls.length =
        some (pushed.calling (call .poke)) :=
      (Mailbox.Turn.advance (start.calling_getElem? (call .push)) known
        (.pushedFirst rfl empty rfl)).trans (congrArg some (pushed.calling_goto (call .push) _))
    have poked : (pushed.calling (call .poke)).advance start.calls.length =
        some { pushed.poke with returned := pushed.returned ++ [(call .poke, .ok ())] } :=
      (Mailbox.Turn.advance (pushed.calling_getElem? (call .poke)) known (.poked rfl)).trans
        (congrArg some (pushed.poke.calling_answer (call .poke) _))
    refine ⟨[.begin index (.write []) false, .advance start.calls.length,
      .advance start.calls.length, .advance start.calls.length, .advance start.calls.length],
      { loop with
        mailbox := { pushed.poke with returned := pushed.returned ++ [(call .poke, .ok ())] } },
      call .poke, ?_, rfl, rfl, rfl, rfl, rfl⟩
    simp [entered, step_advance loop checked, step_advance loop passed, step_advance loop queued,
      step_advance loop poked]
  · have queued : (start.calling (call .push)).advance start.calls.length =
        some { pushed with returned := pushed.returned ++ [(call .push, .ok ())] } :=
      (Mailbox.Turn.advance (start.calling_getElem? (call .push)) known
        (.pushed rfl (.inl empty))).trans (congrArg some (pushed.calling_answer (call .push) _))
    refine ⟨[.begin index (.write []) false, .advance start.calls.length,
      .advance start.calls.length, .advance start.calls.length],
      { loop with
        mailbox := { pushed with returned := pushed.returned ++ [(call .push, .ok ())] } },
      call .push, ?_, rfl, rfl, rfl, rfl, rfl⟩
    simp [entered, step_advance loop checked, step_advance loop passed, step_advance loop queued]

/-- Only producers begin, advance and end calls. -/
theorem step_calls {loop next : Loop} {event : LoopEvent}
    (performed : loop.step event = some next) :
    (∃ writer request inline, event = .begin writer request inline ∧
        loop.mailbox.begin writer request inline = some next.mailbox) ∨
      (∃ position, loop.mailbox.advance position = some next.mailbox) ∨
        (next.mailbox.calls = loop.mailbox.calls ∧ next.mailbox.returned = loop.mailbox.returned ∧
          next.mailbox.begun = loop.mailbox.begun ∧
            next.mailbox.pushed = loop.mailbox.pushed) := by
  cases step_inv performed with
  | begin entered inTick => exact .inl ⟨_, _, _, rfl, entered⟩
  | advance advanced => exact .inr (.inl ⟨_, advanced⟩)
  | accept phase =>
      right; right
      rw [(loop.accept_eq _ _).1]
      exact ⟨rfl, rfl, rfl, rfl⟩
  | applyOp phase =>
      right; right
      obtain ⟨writers, mailbox⟩ := loop.applyOp_mailbox _ _
      rw [mailbox]
      exact ⟨rfl, rfl, rfl, rfl⟩
  | tickEnd phase quiet =>
      right; right
      rw [conclude_mailbox]
      exact ⟨rfl, rfl, rfl, rfl⟩
  | flushEnd phase =>
      right; right
      rw [conclude_mailbox]
      exact ⟨rfl, rfl, rfl, rfl⟩
  | _ => exact .inr (.inr ⟨rfl, rfl, rfl, rfl⟩)

theorem step_numbered {loop next : Loop} {event : LoopEvent} (numbered : loop.mailbox.Numbered)
    (performed : loop.step event = some next) : next.mailbox.Numbered := by
  rcases step_calls performed with ⟨_, _, _, _, entered⟩ | ⟨_, advanced⟩ |
    ⟨calls, returned, begun, _⟩
  · exact numbered.begin entered
  · exact numbered.advance advanced
  · exact ⟨begun ▸ calls ▸ numbered.calls, begun ▸ returned ▸ numbered.returned⟩

/-- Nothing but the producers moves after `serve` has returned. -/
theorem step_spent {loop next : Loop} {event : LoopEvent} {index begun : Nat}
    (ended : loop.phase = .returned ∧ ∃ writer, loop.mailbox.Spent index begun writer)
    (performed : loop.step event = some next) :
    next.phase = .returned ∧ ∃ writer, next.mailbox.Spent index begun writer := by
  obtain ⟨phase, writer, spent⟩ := ended
  cases step_inv performed with
  | begin entered inTick => exact ⟨phase, writer, spent.begin entered⟩
  | advance advanced => exact ⟨phase, spent.advance advanced⟩
  | conn inside present allowed stepped => simp [phase] at inside
  | _ => simp_all

/-- Once `serve` has returned, the calls that are then made on a writer and all its
clones get at most one `Ok` in every continuation, if and only if the writer was
finished or reported dead by then. -/
theorem at_most_one_ok_after_serve_iff {methods : List MethodEntry} {maxMessageLen : UInt32}
    {events : List LoopEvent} {loop : Loop}
    (reached : run step (new methods maxMessageLen) events = some loop)
    (ended : loop.phase = .returned) {index : Nat} {writer : Writer}
    (known : loop.mailbox.writers[index]? = some writer) :
    (∀ later next, run step loop later = some next →
      next.mailbox.okSince index loop.mailbox.begun ≤ 1) ↔ writer.closed = true := by
  have start : (new methods maxMessageLen).mailbox.Numbered :=
    ⟨by simp [new, Mailbox.new], by simp [new, Mailbox.new]⟩
  have numbered : loop.mailbox.Numbered :=
    run_invariant
      (fun loop event next numbered performed => step_numbered numbered performed) start reached
  constructor
  · intro bounded
    by_contra opened
    have opened : writer.closed = false := by simpa using opened
    obtain ⟨first, middle, call, ran, writers, onWriter, serial, begun, returned⟩ :=
      write_alone known opened
    obtain ⟨second, next, call', ran', writers', onWriter', serial', begun', returned'⟩ :=
      write_alone (writers ▸ known) opened
    have both : run step loop (first ++ second) = some next := by
      rw [run_append, ran]
      exact ran'
    have two := bounded _ _ both
    rw [Mailbox.okSince, returned', returned] at two
    simp [onWriter, onWriter', serial, serial', begun, Except.isOk, Except.toBool] at two
  · intro closed later next ran
    have spent : loop.mailbox.Spent index loop.mailbox.begun writer := by
      refine ⟨known, closed, fun call member _ late => ?_, fun entry member _ late => ?_⟩
      · exact absurd late (Nat.not_le_of_lt (numbered.calls call member))
      · exact absurd late (Nat.not_le_of_lt (numbered.returned entry member))
    obtain ⟨_, _, spent'⟩ := run_invariant
      (fun loop event next ended performed => step_spent ended performed)
      (show loop.phase = .returned ∧ ∃ writer, loop.mailbox.Spent index _ writer from
        ⟨ended, writer, spent⟩) ran
    rw [spent'.okSince_eq_zero]
    exact Nat.zero_le 1

/-- The call was finished before the server stopped. -/
theorem finished_writer_is_refused_after_serve :
    ∃ loop, run step oneMethod (openCall ++
        [.begin 0 (.finish .ok none) false, .advance 0, .advance 0, .advance 0, .advance 0,
          .interrupted, .shutdown]) = some loop ∧
      loop.phase = .returned ∧
      ∀ later next, run step loop later = some next →
        next.mailbox.okSince 0 loop.mailbox.begun ≤ 1 := by
  have reached : run step oneMethod (openCall ++
      [.begin 0 (.finish .ok none) false, .advance 0, .advance 0, .advance 0, .advance 0,
        .interrupted, .shutdown]) = some _ := rfl
  exact ⟨_, reached, rfl, (at_most_one_ok_after_serve_iff reached rfl rfl).mpr rfl⟩

/-- The server stops while a call is open, and every write on it still returns `Ok` and
stays in the mailbox. -/
theorem open_writer_keeps_writing_after_serve :
    ∃ loop next, run step oneMethod (openCall ++ [.interrupted, .shutdown]) = some loop ∧
      loop.phase = .returned ∧
      run step loop
        [.begin 0 (.write [5]) false, .advance 0, .advance 0, .advance 0, .advance 0,
          .begin 0 (.write [6]) false, .advance 0, .advance 0, .advance 0] = some next ∧
      next.mailbox.okSince 0 loop.mailbox.begun = 2 ∧ next.mailbox.ops.length = 2 := by
  have reached : run step oneMethod (openCall ++ [.interrupted, .shutdown]) = some _ :=
    rfl
  exact ⟨_, _, reached, rfl, rfl, by decide, rfl⟩

end Loop

end GrpcUds.Serve
