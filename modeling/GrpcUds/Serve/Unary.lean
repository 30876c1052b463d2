import GrpcUds.Serve.Deliveries

/-!
# Unary handlers

The trampoline of a unary method answers for its handler, on the I/O thread: a
response is written and finished with OK, an error is finished with its status.
The handler never sees the writer, so these are all the calls on it.
-/

namespace GrpcUds.Serve

open Transition Server

structure Status where
  code : GrpcStatus
  message : Option Bytes
  deriving DecidableEq

def Status.ok : Status := ⟨.ok, none⟩

/-- The calls that the trampoline makes for what a unary handler returned. -/
def unaryRequests : Except Status Bytes → List Request
  | .ok response => [.writeOwned response, .finish Status.ok.code Status.ok.message]
  | .error status => [.finish status.code status.message]

def OpKind.isWrite : OpKind → Bool
  | write _ => true
  | _ => false

def OpKind.payload? : OpKind → Option Bytes
  | write payload => some payload
  | _ => none

theorem Request.isFinish_kind (request : Request) : request.kind.isFinish = request.isFinish := by
  cases request <;> rfl

/-- Nothing is asked for behind a finish. -/
def FinishesLast (requests : List Request) : Prop :=
  ∀ (position : Nat) (request : Request), requests[position]? = some request →
    request.isFinish = true → position + 1 = requests.length

theorem unaryRequests_finishesLast (result : Except Status Bytes) :
    FinishesLast (unaryRequests result) := by
  intro position request asked finishes
  cases result with
  | ok response =>
      match position with
      | 0 =>
          obtain rfl := Option.some.inj asked
          exact absurd finishes nofun
      | 1 => rfl
      | _ + 2 => exact absurd asked nofun
  | error status =>
      match position with
      | 0 => rfl
      | _ + 1 => exact absurd asked nofun

namespace Mailbox

def onWriter (index : Nat) (call : Call) : Bool := call.writer = index

/-- How many calls on the writer have returned. -/
def done (mailbox : Mailbox) (index : Nat) : Nat :=
  mailbox.returned.countP fun entry => onWriter index entry.1

/-- How many calls on the writer were made. -/
def asked (mailbox : Mailbox) (index : Nat) : Nat :=
  mailbox.calls.countP (onWriter index) + mailbox.done index

/-- The ops that were pushed for the writer. -/
def opsOf (mailbox : Mailbox) (index : Nat) : List OutOp :=
  mailbox.pushed.filter fun op => op.writer = index

/-- The requests are made on the writer one after the other, by the I/O thread. -/
structure Scripted (mailbox : Mailbox) (index : Nat) (requests : List Request) : Prop where
  single : mailbox.calls.countP (onWriter index) ≤ 1
  calls : ∀ call ∈ mailbox.calls, call.writer = index →
    call.inline = true ∧ call.stage ≠ .poke ∧
      (call.stage = .swapFinished → call.request.isFinish = true) ∧
      requests[mailbox.done index]? = some call.request
  pushed : (mailbox.opsOf index).map OutOp.kind =
    (requests.take (mailbox.done index)).map Request.kind
  finished : mailbox.finishedAt index = true →
    mailbox.done index = requests.length ∨ ∃ call ∈ mailbox.calls, winning index call = true

namespace Scripted

variable {mailbox next : Mailbox} {index : Nat} {requests : List Request}

variable (scripted : mailbox.Scripted index requests)
include scripted

theorem only {call other : Call} (member : call ∈ mailbox.calls) (listed : other ∈ mailbox.calls)
    (own : call.writer = index) (same : other.writer = index) : other = call := by
  have single := scripted.single
  rw [List.countP_eq_length_filter] at single
  have first : call ∈ mailbox.calls.filter (onWriter index) :=
    List.mem_filter.mpr ⟨member, by simp [onWriter, own]⟩
  have second : other ∈ mailbox.calls.filter (onWriter index) :=
    List.mem_filter.mpr ⟨listed, by simp [onWriter, same]⟩
  match shape : mailbox.calls.filter (onWriter index) with
  | [] => simp [shape] at first
  | [alone] =>
      rw [shape, List.mem_singleton] at first second
      exact second.trans first.symm
  | _ :: _ :: _ => simp [shape] at single

/-- While a call on the writer is in progress and has not won the swap, the writer is not
finished. -/
theorem unfinished {call : Call} (member : call ∈ mailbox.calls) (own : call.writer = index)
    (plain : winning index call = false) : mailbox.finishedAt index = false := by
  by_contra finished
  obtain ⟨_, _, _, next⟩ := scripted.calls call member own
  rcases scripted.finished (by simpa using finished) with all | ⟨other, listed, wins⟩
  · have inside := (List.getElem?_eq_some_iff.mp next).1
    omega
  · have same : other.writer = index := by
      simp only [winning, Bool.and_eq_true, decide_eq_true_eq] at wins
      exact wins.1.1
    obtain rfl := scripted.only member listed own same
    simp [plain] at wins

theorem begin {writer : Nat} {request : Request} {inline : Bool}
    (entered : mailbox.begin writer request inline = some next)
    (follows : writer = index → inline = true ∧
      requests[mailbox.asked index]? = some request ∧ ∀ call ∈ mailbox.calls, call.inline = false) :
    next.Scripted index requests := by
  obtain rfl := begin_eq entered
  have started : request.start ≠ .poke ∧ request.start ≠ .swapFinished := by
    unfold Request.start
    split <;> simp
  by_cases own : writer = index
  · obtain ⟨rfl, asked, quiet⟩ := follows own
    have none : mailbox.calls.countP (onWriter index) = 0 := by
      refine List.countP_eq_zero.mpr fun call member same => ?_
      have shown := (scripted.calls call member (by simpa [onWriter] using same)).1
      simp [quiet call member] at shown
    rw [Mailbox.asked, none, Nat.zero_add] at asked
    refine ⟨?_, fun call member same => ?_, scripted.pushed, fun finished => ?_⟩
    · rw [List.countP_append, none]
      exact (Nat.zero_add _).le.trans (List.countP_le_length.trans_eq rfl)
    · rcases Table.mem_concat.mp member with old | rfl
      · exact scripted.calls call old same
      · exact ⟨rfl, started.1, fun stage => absurd stage started.2, asked⟩
    · rcases scripted.finished finished with all | ⟨call, listed, wins⟩
      · exact .inl all
      · exact .inr ⟨call, List.mem_append_left _ listed, wins⟩
  · refine ⟨?_, fun call member same => ?_, scripted.pushed, fun finished => ?_⟩
    · rw [List.countP_append, List.countP_singleton, if_neg (by simpa [onWriter] using own)]
      exact scripted.single
    · rcases Table.mem_concat.mp member with old | rfl
      · exact scripted.calls call old same
      · exact absurd same own
    · rcases scripted.finished finished with all | ⟨call, listed, wins⟩
      · exact .inl all
      · exact .inr ⟨call, List.mem_append_left _ listed, wins⟩

/-- Writers may come and raise their other flags. -/
theorem grow {writers : List Writer}
    (flag : finishedAt { mailbox with writers := writers } index = mailbox.finishedAt index) :
    Scripted { mailbox with writers := writers } index requests :=
  ⟨scripted.single, scripted.calls, scripted.pushed, fun finished =>
    scripted.finished (flag.symm.trans finished)⟩

omit scripted

section Other

variable {position : Nat} {call : Call}

/-- A call on another writer moves on. -/
theorem goto_other (scripted : mailbox.Scripted index requests)
    (present : mailbox.calls[position]? = some call) (other : call.writer ≠ index) (stage : Stage) :
    (mailbox.goto position call stage).Scripted index requests := by
  refine ⟨?_, fun listed member same => ?_, scripted.pushed, fun finished => ?_⟩
  · have moved := countP_goto present (onWriter index) stage
    have apart : [{ call with stage := stage }].countP (onWriter index) = 0 := by
      simp [onWriter, other]
    have single := scripted.single
    omega
  · rcases mem_calls_goto stage member with old | rfl
    · exact scripted.calls listed old same
    · exact absurd same other
  · rcases scripted.finished finished with all | ⟨winner, listed, wins⟩
    · exact .inl all
    · refine .inr ⟨winner, other_mem_goto present stage listed ?_, wins⟩
      rintro rfl
      simp [winning, other] at wins

/-- A call on another writer returns. -/
theorem answer_other (scripted : mailbox.Scripted index requests)
    (present : mailbox.calls[position]? = some call) (other : call.writer ≠ index)
    (result : Except Closed Unit) :
    (mailbox.answer position call result).Scripted index requests := by
  have same : (mailbox.answer position call result).done index = mailbox.done index := by
    simp [done, Mailbox.answer, onWriter, other]
  refine ⟨?_, fun listed member own => ?_, ?_, fun finished => ?_⟩
  · have moved := countP_answer present (onWriter index) result
    have single := scripted.single
    omega
  · rw [same]
    exact scripted.calls listed (mem_calls_answer member) own
  · rw [same]
    exact scripted.pushed
  · rw [same]
    rcases scripted.finished finished with all | ⟨winner, listed, wins⟩
    · exact .inl all
    · refine .inr ⟨winner, other_mem_answer present result listed ?_, wins⟩
      rintro rfl
      simp [winning, other] at wins

theorem push_other (scripted : mailbox.Scripted index requests) (other : call.writer ≠ index)
    (writer : Writer) : (mailbox.push (mailbox.opOf call writer)).2.Scripted index requests := by
  refine ⟨scripted.single, scripted.calls, ?_, scripted.finished⟩
  have same : (mailbox.push (mailbox.opOf call writer)).2.opsOf index = mailbox.opsOf index := by
    simp [opsOf, Mailbox.push, opOf, other]
  rw [same]
  exact scripted.pushed

theorem advance_other (scripted : mailbox.Scripted index requests)
    (present : mailbox.calls[position]? = some call) {writer : Writer}
    (turn : mailbox.Turn position call writer next) (other : call.writer ≠ index) :
    next.Scripted index requests := by
  cases turn with
  | sawFinished stage finished => exact scripted.answer_other present other _
  | sawUnfinished stage unfinished => exact scripted.goto_other present other _
  | sawDead stage dead => exact scripted.answer_other present other _
  | sawAlive stage alive => exact scripted.goto_other present other _
  | lostSwap stage finished => exact scripted.answer_other present other _
  | wonSwap stage unfinished =>
      have swapped : (mailbox.setFinished call.writer).Scripted index requests := by
        apply scripted.grow
        simp [finishedAt, other]
      exact swapped.goto_other present other _
  | pushedFirst stage empty offThread =>
      exact (scripted.push_other other writer).goto_other present other _
  | pushed stage covered => exact (scripted.push_other other writer).answer_other present other _
  | poked stage =>
      have poked : mailbox.poke.Scripted index requests :=
        ⟨scripted.single, scripted.calls, scripted.pushed, scripted.finished⟩
      exact poked.answer_other present other _

end Other

section Own

variable {position : Nat} {call : Call}

/-- The call in progress moves on without finishing the writer. -/
theorem goto_own (scripted : mailbox.Scripted index requests)
    (present : mailbox.calls[position]? = some call) (own : call.writer = index)
    (plain : winning index call = false) {stage : Stage} (unpoked : stage ≠ .poke)
    (swaps : stage = .swapFinished → call.request.isFinish = true) :
    (mailbox.goto position call stage).Scripted index requests := by
  have member := List.mem_of_getElem? present
  have unfinished := scripted.unfinished member own plain
  refine ⟨?_, fun listed known same => ?_, scripted.pushed, fun finished => ?_⟩
  · have moved := countP_goto present (onWriter index) stage
    have before : [call].countP (onWriter index) = 1 := by simp [onWriter, own]
    have after : [{ call with stage := stage }].countP (onWriter index) = 1 := by
      simp [onWriter, own]
    have single := scripted.single
    omega
  · rcases mem_calls_goto stage known with old | rfl
    · exact scripted.calls listed old same
    · obtain ⟨shown, _, _, next⟩ := scripted.calls call member own
      exact ⟨shown, unpoked, swaps, next⟩
  · exact absurd (unfinished.symm.trans finished) nofun

/-- The finish wins the swap. -/
theorem swap_own (scripted : mailbox.Scripted index requests)
    (present : mailbox.calls[position]? = some call) (own : call.writer = index)
    (stage : call.stage = .swapFinished) :
    ((mailbox.setFinished call.writer).goto position call .push).Scripted index requests := by
  have member := List.mem_of_getElem? present
  have moved : (mailbox.goto position call .push).Scripted index requests :=
    scripted.goto_own present own (by simp [winning, stage]) nofun nofun
  obtain ⟨_, _, finishes, _⟩ := scripted.calls call member own
  refine ⟨moved.single, moved.calls, moved.pushed,
    fun _ => .inr ⟨_, self_mem_goto present .push, ?_⟩⟩
  simp [winning, own, finishes stage]

/-- The call pushes its op and returns. -/
theorem push_own (scripted : mailbox.Scripted index requests) (lastFinish : FinishesLast requests)
    (present : mailbox.calls[position]? = some call) (own : call.writer = index) (writer : Writer) :
    ((mailbox.push (mailbox.opOf call writer)).2.answer position call (.ok ())).Scripted index
      requests := by
  have member := List.mem_of_getElem? present
  obtain ⟨_, _, _, asks⟩ := scripted.calls call member own
  let pushed := (mailbox.push (mailbox.opOf call writer)).2
  have next : (pushed.answer position call (.ok ())).done index = mailbox.done index + 1 := by
    simp [done, Mailbox.answer, pushed, Mailbox.push, onWriter, own]
  have none : (pushed.answer position call (.ok ())).calls.countP (onWriter index) = 0 := by
    have moved : (mailbox.answer position call (.ok ())).calls.countP (onWriter index) +
      [call].countP (onWriter index) = mailbox.calls.countP (onWriter index) :=
        countP_answer present (onWriter index) (.ok ())
    have one : [call].countP (onWriter index) = 1 := by simp [onWriter, own]
    have single := scripted.single
    change (mailbox.answer position call (.ok ())).calls.countP (onWriter index) = 0
    omega
  refine ⟨none.le.trans (Nat.zero_le 1), fun other listed same => ?_, ?_, fun finished => .inl ?_⟩
  · have gone := List.countP_eq_zero.mp none other listed
    simp [onWriter, same] at gone
  · have grown : (pushed.answer position call (.ok ())).opsOf index =
        mailbox.opsOf index ++ [mailbox.opOf call writer] := by
      simp [opsOf, Mailbox.answer, pushed, Mailbox.push, List.filter_append, opOf, own]
    have taken : requests.take (mailbox.done index + 1) =
        requests.take (mailbox.done index) ++ [call.request] := by
      rw [List.take_add_one, asks]
      rfl
    rw [next, grown, taken, List.map_append, List.map_append, scripted.pushed]
    rfl
  · rw [next]
    refine lastFinish _ _ asks ?_
    -- a write would have seen that the writer is finished
    by_contra plain
    have unfinished := scripted.unfinished member own (by simp [winning, plain])
    exact absurd (unfinished.symm.trans finished) (by simp)

/-- The writer is not dead, so every request goes through. -/
theorem advance_own (scripted : mailbox.Scripted index requests)
    (lastFinish : FinishesLast requests) (present : mailbox.calls[position]? = some call)
    {writer : Writer}
    (known : mailbox.writers[call.writer]? = some writer) (alive : writer.dead = false)
    (turn : mailbox.Turn position call writer next) (own : call.writer = index) :
    next.Scripted index requests := by
  have member := List.mem_of_getElem? present
  obtain ⟨shown, unpoked, _, _⟩ := scripted.calls call member own
  have waiting : winning index call = false → writer.finished = false := by
    intro plain
    exact (Sealed.finishedAt_of_known known own).symm.trans (scripted.unfinished member own plain)
  cases turn with
  | sawFinished stage finished =>
      exact absurd ((waiting (by simp [winning, stage])).symm.trans finished) (by simp)
  | sawUnfinished stage unfinished =>
      exact scripted.goto_own present own (by simp [winning, stage]) (by simp) (by simp)
  | sawDead stage dead => exact absurd (alive.symm.trans dead) (by simp)
  | sawAlive stage =>
      apply scripted.goto_own present own (by simp [winning, stage])
      · split <;> simp
      · intro swaps
        by_contra plain
        simp [plain] at swaps
  | lostSwap stage finished =>
      exact absurd ((waiting (by simp [winning, stage])).symm.trans finished) (by simp)
  | wonSwap stage unfinished => exact scripted.swap_own present own stage
  | pushedFirst stage empty offThread => exact absurd (shown.symm.trans offThread) (by simp)
  | pushed stage covered => exact scripted.push_own lastFinish present own writer
  | poked stage => exact absurd stage unpoked

end Own

include scripted

theorem advance (lastFinish : FinishesLast requests)
    (alive : ∀ writer, mailbox.writers[index]? = some writer → writer.dead = false) {position : Nat}
    (advanced : mailbox.advance position = some next) :
    next.Scripted index requests := by
  obtain ⟨call, writer, present, known, turn⟩ := advance_turn advanced
  by_cases own : call.writer = index
  · exact scripted.advance_own lastFinish present known (alive writer (own ▸ known)) turn own
  · exact scripted.advance_other present turn own

/-- The call that pushes the finish is the only one. -/
theorem orderly (position : Nat) :
    mailbox.Orderly index position := by
  intro call present wins other listed
  simp only [winning, Bool.and_eq_true, decide_eq_true_eq] at wins
  by_cases same : other.writer = index
  · obtain rfl := scripted.only (List.mem_of_getElem? present) listed wins.1.1 same
    simp [exposed, wins.1.2]
  · simp [exposed, same]

end Scripted

theorem finishedAt_modify (mailbox : Mailbox) (position index : Nat) {change : Writer → Writer}
    (kept : ∀ writer, (change writer).finished = writer.finished) :
    (mailbox.modifyWriter position change).finishedAt index = mailbox.finishedAt index := by
  simp only [finishedAt, modifyWriter, List.getElem?_modify]
  cases mailbox.writers[index]? with
  | none => rfl
  | some writer =>
      split
      · exact kept writer
      · rfl

end Mailbox

namespace Loop

/-- The calls on the writer are those of the trampoline of a unary method, and the memory
suffices when the loop applies its ops. -/
def unary (index : Nat) (result : Except Status Bytes) (loop : Loop) (event : LoopEvent) : Bool :=
  match event, loop.phase with
  | .begin writer request inline, _ =>
      decide (writer ≠ index) ||
        inline && decide ((unaryRequests result)[loop.mailbox.asked index]? = some request)
  | .applyOp reserve, .apply (op :: _) => decide (op.writer ≠ index) || reserve
  | _, _ => true

theorem quiet_of_begin {loop next : Loop} {writer : Nat} {request : Request}
    (performed : loop.step (.begin writer request true) = some next) :
    ∀ call ∈ loop.mailbox.calls, call.inline = false := by
  have allowed : loop.mayBegin true = true := by
    by_contra refused
    simp [step, refused] at performed
  have quiet : loop.quiet = true := by
    unfold mayBegin at allowed
    split at allowed
    · simpa using allowed
    · simp at allowed
  intro call member
  simpa using List.all_eq_true.mp quiet call member

theorem applyOp_finishedAt (loop : Loop) (op : OutOp) (reserve : Bool) (index : Nat) :
    (loop.applyOp op reserve).mailbox.finishedAt index = loop.mailbox.finishedAt index := by
  unfold applyOp
  split
  · exact loop.mailbox.finishedAt_modify _ _ fun _ => rfl
  next position slot routing =>
    dsimp only
    unfold report
    split
    · rfl
    · exact loop.mailbox.finishedAt_modify _ _ fun _ => rfl
    · exact loop.mailbox.finishedAt_modify _ _ fun _ => rfl

theorem dispatch_finishedAt (loop : Loop) (position : Nat) (slot : ConnSlot)
    (submitRc : Nat → Int) (index : Nat) :
    (loop.dispatch position slot submitRc).mailbox.finishedAt index =
      loop.mailbox.finishedAt index := by
  simp only [Mailbox.finishedAt, dispatch]
  rcases Nat.lt_or_ge index loop.mailbox.writers.length with old | new
  · rw [List.getElem?_append_left old]
  · rw [List.getElem?_append_right new, List.getElem?_eq_none new, List.getElem?_map]
    cases (invokedIds _)[index - loop.mailbox.writers.length]? with
    | none => rfl
    | some id => rfl

section Script

variable {loop next : Loop} {event : LoopEvent} {index : Nat} {result : Except Status Bytes}

theorem step_scripted (serviced : Serviced index loop)
    (scripted : loop.mailbox.Scripted index (unaryRequests result))
    (unary : loop.unary index result event = true) (performed : loop.step event = some next) :
    next.mailbox.Scripted index (unaryRequests result) := by
  cases step_inv performed with
  | @begin writer request inline mailbox entered inTick =>
      refine scripted.begin entered fun own => ?_
      obtain ⟨rfl, asked⟩ : inline = true ∧
          (unaryRequests result)[loop.mailbox.asked index]? = some request := by
        simpa [Loop.unary, own] using unary
      exact ⟨rfl, asked, quiet_of_begin performed⟩
  | advance advanced =>
      exact scripted.advance (unaryRequests_finishesLast result)
        (fun writer known => (serviced.kept writer known).alive) advanced
  | accept phase => exact (loop.accept_eq _ _).1 ▸ scripted
  | @dispatch submitRc position count slot phase present =>
      exact scripted.grow (loop.dispatch_finishedAt position slot submitRc index)
  | tickEnd phase quiet => exact loop.conclude_mailbox _ _ ▸ scripted
  | flushEnd phase => exact loop.conclude_mailbox _ _ ▸ scripted
  | @applyOp reserve op batch phase =>
      have flag := loop.applyOp_finishedAt op reserve index
      obtain ⟨writers, mailbox, _⟩ := loop.applyOp_writers op reserve
      rw [mailbox] at flag
      rw [mailbox]
      exact scripted.grow flag
  | _ => exact ⟨scripted.single, scripted.calls, scripted.pushed, scripted.finished⟩

/-- The ops of the writer are what the trampoline asked for. -/
theorem kind_of_pushed (scripted : loop.mailbox.Scripted index (unaryRequests result))
    {op : OutOp} (pushed : op ∈ loop.mailbox.pushed) (own : op.writer = index) :
    op.kind ∈ (unaryRequests result).map Request.kind := by
  have listed : op.kind ∈ (loop.mailbox.opsOf index).map OutOp.kind :=
    List.mem_map_of_mem (List.mem_filter.mpr ⟨pushed, by simpa using own⟩)
  rw [scripted.pushed] at listed
  exact (List.take_sublist _ _).map Request.kind |>.subset listed

theorem orderly_of_unary (serviced : Serviced index loop)
    (scripted : loop.mailbox.Scripted index (unaryRequests result))
    (fits : ∀ response, result = .ok response → response.length ≤ Framing.u32Max)
    (unary : loop.unary index result event = true) (performed : loop.step event = some next) :
    loop.orderly index event = true := by
  cases step_inv performed with
  | @advance position mailbox advanced =>
      simp only [orderly]
      split
      next => rfl
      next call present =>
        cases wins : Mailbox.winning index call with
        | false => rfl
        | true =>
            have alone := scripted.orderly position call present wins
            simpa using fun other listed => alone other listed
  | @applyOp reserve op batch phase =>
      by_cases own : op.writer = index
      · have enough : reserve = true := by simpa [Loop.unary, phase, own] using unary
        have listed := kind_of_pushed scripted (serviced.routed.mem_pushed phase) own
        simp only [orderly, phase, enough, Bool.true_and]
        cases kind : op.kind with
        | write payload =>
            rw [kind] at listed
            cases result with
            | ok response =>
                have same : payload = response :=
                  by simpa [unaryRequests, Request.kind] using listed
                simp [same, fits response rfl]
            | error status => simp [unaryRequests, Request.kind] at listed
        | finish status message => simp
        | policy backpressure => simp
      · simp [orderly, phase, own]
  | _ => simp [orderly]

/-- The writer gets one message at most. -/
theorem written_once (scripted : loop.mailbox.Scripted index (unaryRequests result)) :
    loop.mailbox.pushed.Pairwise fun earlier later => earlier.writer = index →
      later.writer = index → earlier.kind.isWrite = true → later.kind.isWrite = false := by
  have once : ((unaryRequests result).map Request.kind).Pairwise fun earlier later =>
      earlier.isWrite = true → later.isWrite = false := by
    cases result <;> simp [unaryRequests, Request.kind, OpKind.isWrite]
  have taken := once.sublist
    ((List.take_sublist (loop.mailbox.done index) (unaryRequests result)).map Request.kind)
  rw [← scripted.pushed, List.pairwise_map, Mailbox.opsOf, List.pairwise_filter] at taken
  simpa using taken

end Script

/-! ### The answer on the wire -/

/-- The stream belongs to the writer and to no other. -/
def Alone (home : Nat × StreamId) (index : Nat) (loop : Loop) : Prop :=
  ∀ (position : Nat) (other : Nat × StreamId), loop.homes[position]? = some other →
    (other = home ↔ position = index)

namespace Alone

variable {home : Nat × StreamId} {index : Nat} {loop next : Loop}

theorem before (alone : Alone home index next) (grows : loop.homes <+: next.homes) :
    Alone home index loop := by
  intro position other found
  refine alone position other ?_
  obtain ⟨more, same⟩ := grows
  rw [← same, List.getElem?_append_left (List.getElem?_eq_some_iff.mp found).1, found]

theorem of_known (unique : loop.homes.Nodup) {writer : Writer}
    (known : loop.mailbox.writers[index]? = some writer) : Alone writer.home index loop := by
  have dwells : loop.homes[index]? = some writer.home := by simp [homes, known]
  intro position other found
  constructor
  · rintro rfl
    exact (List.getElem?_inj (List.getElem?_eq_some_iff.mp found).1 unique).mp
      (found.trans dwells.symm)
  · rintro rfl
    exact Option.some.inj (found.symm.trans dwells)

theorem home_iff (alone : Alone home index loop) {position : Nat} {writer : Writer}
    (known : loop.mailbox.writers[position]? = some writer) :
    writer.home = home ↔ position = index :=
  alone position writer.home (by simp [homes, known])

end Alone

/-- What the ops of the writer have done to its stream: all took effect, and the finish is
what the trailer will carry. -/
structure Answering (index : Nat) (home : Nat × StreamId) (loop : Loop) (sent : Bytes) : Prop where
  delivers : Delivers home loop sent
  applied : ∀ entry ∈ loop.processed, entry.op.writer = index →
    ∃ policy, entry.outcome = .applied home.1 policy (.ok ())
  concluded : ∀ entry ∈ loop.processed, entry.op.writer = index →
    ∀ status message, entry.op.kind = .finish status message →
      ∀ slot ∈ loop.conns, slot.serial = home.1 →
        Concluded (status, message) (slot.conn.logOf home.2)

namespace Answering

variable {index : Nat} {home : Nat × StreamId} {loop next : Loop} {sent : Bytes}

theorem new (methods : List MethodEntry) (maxMessageLen : UInt32) (index : Nat)
    (home : Nat × StreamId) : Answering index home (Loop.new methods maxMessageLen) [] where
  delivers := .new methods maxMessageLen home
  applied := fun _ member => absurd member List.not_mem_nil
  concluded := fun _ member => absurd member List.not_mem_nil

/-- A finish that was applied stays the first. -/
theorem concluded_step (answering : Answering index home loop sent) (routed : loop.Routed)
    (housed : Housed loop.conns loop.homes) (alone : Alone home index loop) {event : LoopEvent}
    (performed : loop.step event = some next) {entry : Processed}
    (member : entry ∈ loop.processed) (own : entry.op.writer = index) {status : GrpcStatus}
    {message : Option Bytes} (finishes : entry.op.kind = .finish status message) {slot : ConnSlot}
    (listed : slot ∈ next.conns) (here : slot.serial = home.1) :
    Concluded (status, message) (slot.conn.logOf home.2) := by
  rcases step_slots housed performed listed with fresh | ⟨before, known, serial, grows⟩
  · obtain ⟨writer, made, _⟩ := routed.reported entry member
    have older := (routed.named.made writer (List.mem_of_getElem? made)).2
    have origin : writer.origin = home.1 := congrArg Prod.fst ((alone.home_iff made).mpr own)
    omega
  · exact (answering.concluded entry member own status message finishes before known
      (serial.trans here)).grow (grows home.2)

theorem step (answering : Answering index home loop sent) (routed : loop.Routed)
    (housed : Housed loop.conns loop.homes) (alone : Alone home index loop) {event : LoopEvent}
    (performed : loop.step event = some next) (unapplied : ∀ reserve, event ≠ .applyOp reserve) :
    Answering index home next (sent ++ loop.sends home event) where
  delivers := answering.delivers.step routed housed performed unapplied
  applied := by
    rw [step_processed performed unapplied]
    exact answering.applied
  concluded := by
    rw [step_processed performed unapplied]
    intro entry member own status message finishes slot listed here
    exact answering.concluded_step routed housed alone performed member own finishes listed here

/-- An op of another writer. -/
theorem other (answering : Answering index home loop sent) (routed : loop.Routed)
    (housed : Housed loop.conns loop.homes) (alone : Alone home index loop) {reserve : Bool}
    {op : OutOp} {batch : List OutOp} (phase : loop.phase = .apply (op :: batch))
    (apart : op.writer ≠ index) :
    Answering index home { loop.applyOp op reserve with phase := .apply batch } sent := by
  have performed : loop.step (.applyOp reserve) =
      some { loop.applyOp op reserve with phase := .apply batch } := by simp [Loop.step, phase]
  obtain ⟨sender, sends, token, callId⟩ := routed.addressed op (routed.mem_pushed phase)
  have passed := answering.delivers.pass routed housed sends token callId
    (fun _ _ same => apart ((alone.home_iff sends).mp same)) reserve
  obtain ⟨outcome, processed⟩ := loop.applyOp_processed op reserve
  have before : ∀ entry ∈ (loop.applyOp op reserve).processed, entry.op.writer = index →
      entry ∈ loop.processed := by
    intro entry member own
    rw [processed] at member
    rcases Table.mem_concat.mp member with old | rfl
    · exact old
    · exact absurd own apart
  refine ⟨⟨passed.unmade, passed.slots⟩, fun entry member own => ?_, ?_⟩
  · exact answering.applied entry (before entry member own) own
  · intro entry member own status message finishes slot listed here
    exact answering.concluded_step routed housed alone performed (before entry member own) own
      finishes listed here

section Own

variable {result : Except Status Bytes} {op : OutOp} {batch : List OutOp}

/-- When the write is next, the stream has accepted nothing. -/
theorem unwritten (serviced : Serviced index loop)
    (scripted : loop.mailbox.Scripted index (unaryRequests result)) (alone : Alone home index loop)
    (phase : loop.phase = .apply (op :: batch)) (own : op.writer = index)
    (writes : op.kind.isWrite = true) : loop.payloads home = [] := by
  have routed := serviced.routed
  have once := written_once scripted
  have order := routed.order
  rw [phase] at order
  rw [← order, List.append_assoc, List.pairwise_append] at once
  rw [payloads, List.filterMap_eq_nil_iff]
  intro entry member
  unfold Processed.payload?
  split
  next payload serial policy kind outcome =>
    refine if_neg fun here => ?_
    -- the op of an earlier payload would be the writer's, and a write as well
    obtain ⟨sender, sends, reports⟩ := routed.reported entry member
    have pushed : entry.op ∈ loop.mailbox.pushed := by
      rw [← routed.order, List.append_assoc]
      exact List.mem_append_left _ (List.mem_map_of_mem member)
    obtain ⟨writer, known, _, callId⟩ := routed.addressed entry.op pushed
    obtain rfl := Option.some.inj (sends.symm.trans known)
    rw [outcome] at reports
    have dwells : sender.home = home := by
      rw [← here, callId, reports.1]
      rfl
    have first := once.2.2 entry.op (List.mem_map_of_mem member) op (by simp [Phase.batch])
      ((alone.home_iff sends).mp dwells) own (by rw [kind]; rfl)
    exact absurd (writes.symm.trans first) (by simp)
  next => rfl

/-- The next op of the writer takes effect. -/
theorem own (answering : Answering index home loop sent) (serviced : Serviced index loop)
    (scripted : loop.mailbox.Scripted index (unaryRequests result)) (alone : Alone home index loop)
    (fits : ∀ payload, op.kind = .write payload → payload.length ≤ Framing.u32Max)
    (phase : loop.phase = .apply (op :: batch)) (own : op.writer = index) :
    Answering index home { loop.applyOp op true with phase := .apply batch } sent := by
  have routed := serviced.routed
  have pushed := routed.mem_pushed phase
  obtain ⟨writer, sends, token, callId⟩ := routed.addressed op pushed
  obtain rfl : writer.home = home := (alone.home_iff sends).mpr own
  have kept := serviced.kept writer (own ▸ sends)
  have unfinished := unfinished_of_next serviced phase own
  obtain ⟨position, slot, routing, present, origin⟩ :=
    route_of_attached routed sends token kept.attached
  have member := List.mem_of_getElem? present
  have tame := serviced.housed.tame slot member
  have awaits : slot.conn.Awaits op.callId := callId ▸ kept.awaits unfinished slot member origin
  have here : (slot.serial, op.callId) = writer.home := Prod.ext origin callId
  have applied := applyOp_of_route routing present true
  obtain ⟨ok, delivers⟩ : (slot.conn.api (op.apiCall true)).1 = .ok () ∧
      Delivers writer.home (loop.applyOp op true) sent := by
    cases kind : op.kind with
    | write payload =>
        exact answering.delivers.write routed serviced.housed routing present here kind
          (fits payload kind) (unwritten serviced scripted alone phase own (by rw [kind]; rfl))
          awaits
    | finish status message =>
        have silent : ∀ payload, op.kind = .write payload → writer.home ≠ writer.home :=
          fun payload written => absurd (kind.symm.trans written) nofun
        refine ⟨?_, answering.delivers.pass routed serviced.housed sends token callId silent true⟩
        obtain ⟨stream, found, _⟩ := awaits
        cases message <;> simp [OutOp.apiCall, kind, Conn.api, Conn.finishCall, Conn.finishCallMsg,
          Conn.finishCallInner, found]
    | policy backpressure =>
        have listed := kind_of_pushed scripted pushed own
        rw [kind] at listed
        cases result <;> simp [unaryRequests, Request.kind] at listed
  refine ⟨⟨delivers.unmade, delivers.slots⟩, fun entry done same => ?_, ?_⟩
  · rw [applied] at done
    rcases Table.mem_concat.mp done with old | rfl
    · exact answering.applied entry old same
    · exact ⟨_, by rw [ok, origin]; rfl⟩
  · intro entry done same status message finishes other listed there
    rw [applied] at done listed
    rcases Table.mem_concat.mp done with old | rfl
    · have plain := unfinished entry old
      simp [Mailbox.finishes, same, finishes, OpKind.isFinish] at plain
    · rcases mem_modify_conn present listed with ⟨_, apart, found⟩ | rfl
      · exact absurd (there.trans origin.symm) (serial_ne routed.serials present apart found)
      · have dwelling : writer.home ∈ loop.homes :=
          List.mem_map_of_mem (List.mem_of_getElem? sends)
        have dispatched := serviced.housed.taken slot member writer.home dwelling origin.symm
        obtain ⟨stream, found, waits⟩ := kept.awaits unfinished slot member origin
        have concluded :=
          Concluded.of_finish (tame.reachable.answer _) found waits dispatched status message
        have asked : (slot.conn.api (op.apiCall true)).2 =
            (slot.conn.finishCallInner writer.callId status message).2 := by
          rw [← callId]
          have kind : op.kind = .finish status message := finishes
          cases message <;> simp [OutOp.apiCall, kind, Conn.api, Conn.finishCall,
            Conn.finishCallMsg]
        dsimp only
        rw [asked]
        exact concluded

end Own

end Answering

/-- What a run keeps true of the writer of a unary call. -/
structure UnaryCall (index : Nat) (result : Except Status Bytes) (home : Nat × StreamId)
    (loop : Loop) (sent : Bytes) : Prop where
  serviced : Serviced index loop
  scripted : loop.mailbox.Scripted index (unaryRequests result)
  answering : Alone home index loop → Answering index home loop sent

namespace UnaryCall

variable {index : Nat} {result : Except Status Bytes} {home : Nat × StreamId} {loop next : Loop}
  {sent : Bytes}

theorem new (methods : List MethodEntry) (maxMessageLen : UInt32) (index : Nat)
    (result : Except Status Bytes) (home : Nat × StreamId) :
    UnaryCall index result home (Loop.new methods maxMessageLen) [] where
  serviced := new_serviced methods maxMessageLen index
  scripted := by
    refine ⟨?_, ?_, ?_, ?_⟩ <;>
      simp [Loop.new, Mailbox.new, Mailbox.opsOf, Mailbox.done, Mailbox.finishedAt]
  answering := fun _ => .new methods maxMessageLen index home

variable (call : UnaryCall index result home loop sent)
include call

theorem step (fits : ∀ response, result = .ok response → response.length ≤ Framing.u32Max)
    {event : LoopEvent} (calm : loop.calm index event = true)
    (unary : loop.unary index result event = true) (performed : loop.step event = some next) :
    UnaryCall index result home next (sent ++ loop.sends home event) := by
  have serviced := call.serviced
  have orderly := orderly_of_unary serviced call.scripted fits unary performed
  refine ⟨step_serviced serviced calm orderly performed,
    step_scripted serviced call.scripted unary performed, fun alone => ?_⟩
  have before := alone.before (step_homes performed)
  have answering := call.answering before
  by_cases applies : ∃ reserve, event = .applyOp reserve
  · obtain ⟨reserve, rfl⟩ := applies
    cases step_inv performed with
    | @applyOp _ op batch phase =>
        have silent : loop.sends home (.applyOp reserve) = [] := rfl
        rw [silent, List.append_nil]
        by_cases own : op.writer = index
        · obtain ⟨rfl, short⟩ := orderly_applyOp phase own orderly
          exact answering.own serviced call.scripted before short phase own
        · exact answering.other serviced.routed serviced.housed before phase own
  · exact answering.step serviced.routed serviced.housed before performed
      fun reserve same => applies ⟨reserve, same⟩

/-- Once the finish is applied, all of the trampoline's ops are. -/
theorem processed_all {entry : Processed} (done : entry ∈ loop.processed)
    (finishing : Mailbox.finishes index entry.op = true) :
    ((loop.processed.map Processed.op).filter fun op => op.writer = index).map OutOp.kind =
      (unaryRequests result).map Request.kind := by
  obtain ⟨own, ends⟩ : entry.op.writer = index ∧ entry.op.kind.isFinish = true := by
    simpa [Mailbox.finishes] using finishing
  have order := call.serviced.routed.order
  have rest : (loop.phase.batch ++ loop.mailbox.ops).filter (fun op => op.writer = index) = [] :=
    List.filter_eq_nil_iff.mpr fun op after => by
      simpa using call.serviced.none_behind done finishing op after
  have all : loop.mailbox.opsOf index =
      (loop.processed.map Processed.op).filter fun op => op.writer = index := by
    rw [Mailbox.opsOf, ← order, List.append_assoc, List.filter_append, rest, List.append_nil]
  have listed : entry.op.kind ∈ (loop.mailbox.opsOf index).map OutOp.kind := by
    rw [all]
    exact List.mem_map_of_mem
      (List.mem_filter.mpr ⟨List.mem_map_of_mem done, by simpa using own⟩)
  have pushed := call.scripted.pushed
  rw [pushed] at listed
  obtain ⟨request, taken, kind⟩ := List.mem_map.mp listed
  obtain ⟨position, inside, found⟩ := List.getElem_of_mem taken
  have finishes : request.isFinish = true := by
    rw [← request.isFinish_kind, kind]
    exact ends
  have within : position < loop.mailbox.done index := by
    rw [List.length_take] at inside
    omega
  have asked : (unaryRequests result)[position]? = some request := by
    rw [← List.getElem?_take_of_lt within, List.getElem?_eq_getElem inside, found]
  have last := unaryRequests_finishesLast result position request asked finishes
  rw [List.take_of_length_le (by omega), all] at pushed
  exact pushed

/-- The payloads that the stream accepted are those of the applied ops. -/
theorem payloads_eq (alone : Alone home index loop) :
    loop.payloads home =
      (((loop.processed.map Processed.op).filter fun op => op.writer = index).map
        OutOp.kind).filterMap OpKind.payload? := by
  have routed := call.serviced.routed
  have answering := call.answering alone
  rw [List.filterMap_map, List.filterMap_filter, List.filterMap_map]
  apply List.filterMap_congr
  intro entry member
  obtain ⟨writer, known, reports⟩ := routed.reported entry member
  have pushed : entry.op ∈ loop.mailbox.pushed := by
    rw [← routed.order, List.append_assoc]
    exact List.mem_append_left _ (List.mem_map_of_mem member)
  obtain ⟨sender, sends, _, callId⟩ := routed.addressed entry.op pushed
  obtain rfl := Option.some.inj (known.symm.trans sends)
  by_cases own : entry.op.writer = index
  · obtain ⟨policy, outcome⟩ := answering.applied entry member own
    have here : (home.1, entry.op.callId) = home := by
      rw [callId, ← (alone.home_iff known).mpr own]
      rfl
    cases kind : entry.op.kind <;>
      simp [Processed.payload?, OpKind.payload?, kind, outcome, own, here]
  · have apart : entry.payload? home = none := by
      unfold Processed.payload?
      split
      next payload serial policy kind outcome =>
        refine if_neg fun here => own ((alone.home_iff known).mp ?_)
        rw [outcome] at reports
        rw [← here, callId, reports.1]
        rfl
      next => rfl
    simp [apart, own]

end UnaryCall

/-- The trailer says OK. -/
def saysOk (nva : List Headers.Nv) : Bool :=
  decide ((Headers.nGrpcStatus, Headers.vGrpcStatus .ok) ∈ nva)

theorem saysOk_trailerOf (finish : GrpcStatus × Option Bytes) :
    saysOk (trailerOf finish) = decide (finish.1 = .ok) := by
  have names : Headers.nGrpcStatus ≠ Headers.nGrpcMessage := by decide
  have digits : ∀ status : GrpcStatus,
      decide (Headers.vGrpcStatus .ok = Headers.vGrpcStatus status) = decide (status = .ok) := by
    intro status
    cases status <;> decide
  rw [← digits finish.1, saysOk, trailerOf]
  split
  · simp [Headers.trailer]
  · simp [Headers.trailerWithMessage, names]

/-- The unary contract: one message with OK, or no message with another status. -/
def UnaryAnswer (sent : Bytes) (nva : List Headers.Nv) : Prop :=
  if saysOk nva then ∃ response, response.length ≤ Framing.u32Max ∧ sent = Framing.frame response
  else sent = []

/-- In every run in which the client stays with a unary call, its deadline does not pass
and the memory suffices: what the client has been sent when the trailer is submitted
keeps the unary contract if and only if the handler did not return an error with
the code OK. -/
theorem unary_answer_iff {methods : List MethodEntry} {maxMessageLen : UInt32}
    {events : List LoopEvent} {loop : Loop} (index : Nat) (result : Except Status Bytes)
    (fits : ∀ response, result = .ok response → response.length ≤ Framing.u32Max)
    (along : Along step
      (fun loop event => loop.calm index event = true ∧ loop.unary index result event = true)
      (new methods maxMessageLen) events)
    (reached : run step (new methods maxMessageLen) events = some loop)
    {writer : Writer} (known : loop.mailbox.writers[index]? = some writer) {slot : ConnSlot}
    (member : slot ∈ loop.conns) (own : slot.serial = writer.origin) {nva : List Headers.Nv}
    {rc : Int} (submitted : .submitTrailer writer.callId nva rc ∈ slot.conn.logOf writer.callId) :
    UnaryAnswer
        (observe step (sends writer.home) (new methods maxMessageLen) events) nva ↔
      ∀ status, result = .error status → status.code ≠ .ok := by
  have preserved : ∀ loop event next sent, UnaryCall index result writer.home loop sent →
      loop.calm index event = true ∧ loop.unary index result event = true →
      loop.step event = some next →
      UnaryCall index result writer.home next (sent ++ loop.sends writer.home event) :=
    fun _ _ _ _ call meets performed => call.step fits meets.1 meets.2 performed
  have call : UnaryCall index result writer.home loop
      (observe step (sends writer.home) (new methods maxMessageLen) events) :=
    along.run_record preserved (UnaryCall.new methods maxMessageLen index result writer.home)
      reached
  have alone := Alone.of_known call.serviced.housed.unique known
  have answering := call.answering alone
  have tame := call.serviced.housed.tame slot member
  have trailed : 0 < trailers (slot.conn.logOf writer.callId) :=
    List.countP_pos_iff.mpr ⟨_, submitted, rfl⟩
  obtain ⟨entry, done, finishing⟩ := call.serviced.finished_of_trailed known member own trailed
  obtain ⟨mine, ends⟩ : entry.op.writer = index ∧ entry.op.kind.isFinish = true := by
    simpa [Mailbox.finishes] using finishing
  have kinds := call.processed_all done finishing
  have payloads := call.payloads_eq alone
  rw [kinds] at payloads
  have listed : entry.op.kind ∈ (unaryRequests result).map Request.kind := by
    rw [← kinds]
    exact List.mem_map_of_mem
      (List.mem_filter.mpr ⟨List.mem_map_of_mem done, by simpa using mine⟩)
  have trailer : ∀ status message, entry.op.kind = .finish status message →
      nva = trailerOf (status, message) := fun status message kind =>
    (answering.concluded entry done mine status message kind slot member own).trailer_eq
      (tame.reachable.answer _) submitted
  have sent := (answering.delivers.slots slot member own).trailed trailed
  cases result with
  | ok response =>
      have kind : entry.op.kind = .finish .ok none := by
        rcases (by simpa [unaryRequests, Request.kind, Status.ok] using listed :
          entry.op.kind = .write response ∨ entry.op.kind = .finish .ok none) with writes | kind
        · simp [writes, OpKind.isFinish] at ends
        · exact kind
      have heard : loop.payloads writer.home = [response] := payloads
      rw [heard] at sent
      have message := sent (Nat.le_refl 1)
      rw [UnaryAnswer, trailer _ _ kind, saysOk_trailerOf, message]
      refine ⟨by simp, fun _ => ?_⟩
      exact ⟨response, fits response rfl, List.append_nil _⟩
  | error status =>
      have kind : entry.op.kind =
          .finish status.code (status.message.filter fun text => !text.isEmpty) := by
        simpa [unaryRequests, Request.kind] using listed
      have heard : loop.payloads writer.home = [] := payloads
      rw [heard] at sent
      have nothing := sent (Nat.zero_le 1)
      rw [UnaryAnswer, trailer _ _ kind, saysOk_trailerOf, nothing]
      by_cases claimed : status.code = .ok
      · refine ⟨?_, fun allowed => absurd claimed (allowed status rfl)⟩
        rw [claimed]
        rintro ⟨response, _, same⟩
        simp [Framing.frame, Framing.encodeHeader] at same
      · simp [claimed]

/-- A connection is accepted, and its first call is dispatched to a unary handler that
returned the response 5. -/
def respondsInline : List LoopEvent := openCall.take 16 ++
  [.begin 0 (.writeOwned [5]) true, .advance 0, .advance 0, .advance 0,
    .begin 0 (.finish .ok none) true, .advance 0, .advance 0, .advance 0, .tickEnd true,
    .take, .applyOp true, .applyOp true, .applyDone,
    .flushStart, .conn (.read 1 100 0), .conn (.read 1 100 0), .flushEnd true, .retain]

theorem response_with_ok :
    ∃ loop writer slot, run step oneMethod respondsInline = some loop ∧
      loop.mailbox.writers[0]? = some writer ∧ slot ∈ loop.conns ∧
      .submitTrailer 1 (Headers.trailer .ok) 0 ∈ slot.conn.logOf 1 ∧
      UnaryAnswer (observe step (sends writer.home) oneMethod respondsInline)
        (Headers.trailer .ok) := by
  obtain ⟨loop, reached, writer, known, slot, member, own, callId, submitted⟩ :
      ∃ loop, run step oneMethod respondsInline = some loop ∧
        ∃ writer, loop.mailbox.writers[0]? = some writer ∧ ∃ slot, slot ∈ loop.conns ∧
          slot.serial = writer.origin ∧ writer.callId = 1 ∧
          .submitTrailer 1 (Headers.trailer .ok) 0 ∈ slot.conn.logOf 1 :=
    ⟨_, rfl, _, rfl, _, List.mem_singleton.mpr rfl, rfl, rfl, by decide⟩
  have along : Along step
      (fun loop event => loop.calm 0 event = true ∧ loop.unary 0 (.ok [5]) event = true) oneMethod
      respondsInline := by decide
  refine ⟨loop, writer, slot, reached, known, member, submitted, ?_⟩
  refine (unary_answer_iff 0 (.ok [5]) ?_ along reached known member own
    (callId.symm ▸ submitted)).mpr nofun
  rintro response ⟨⟩
  decide

/-- A unary handler returned an error with the code OK. -/
def failsWithOk : List LoopEvent := openCall.take 16 ++
  [.begin 0 (.finish .ok none) true, .advance 0, .advance 0, .advance 0, .tickEnd true,
    .take, .applyOp true, .applyDone,
    .flushStart, .conn (.read 1 100 0), .flushEnd true, .retain]

/-- The client is there all the time and memory suffices, and still the call is answered
with OK and no message. -/
theorem ok_without_message :
    ∃ loop writer slot,
      Along step
        (fun loop event => loop.calm 0 event = true ∧
          loop.unary 0 (.error ⟨.ok, none⟩) event = true) oneMethod failsWithOk ∧
      run step oneMethod failsWithOk = some loop ∧
      loop.mailbox.writers[0]? = some writer ∧ slot ∈ loop.conns ∧
      slot.serial = writer.origin ∧
      .submitTrailer 1 (Headers.trailer .ok) 0 ∈ slot.conn.logOf 1 ∧
      observe step (sends writer.home) oneMethod failsWithOk = [] ∧
      ¬ UnaryAnswer (observe step (sends writer.home) oneMethod failsWithOk)
        (Headers.trailer .ok) := by
  have reached : run step oneMethod failsWithOk = some _ := rfl
  have silent : observe step (sends (0, 1)) oneMethod failsWithOk = [] := by decide
  refine ⟨_, _, _, by decide, reached, rfl, List.mem_singleton.mpr rfl, rfl, by decide, silent, ?_⟩
  rintro ⟨response, _, same⟩
  exact absurd (silent.symm.trans same) nofun

end Loop

end GrpcUds.Serve
