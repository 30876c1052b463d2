import GrpcUds.Serve.Shutdown
import GrpcUds.Serve.Streams

/-!
# The op that finishes a call

The closed check of a write, the swap of a finish and the two pushes are steps
of their own.  `Sealed` is what makes a finish the last op of its writer: the
swap lets one finish through, and when that one is pushed no write is past its
check.  `accounted` ties the calls that returned `Ok` to the ops that were
pushed for them.
-/

namespace GrpcUds.Serve

open Server

namespace Mailbox

/-! ### Counting the calls in progress -/

section Counting

variable {mailbox : Mailbox} {position : Nat} {call : Call}

theorem countP_goto (present : mailbox.calls[position]? = some call) (counted : Call → Bool)
    (stage : Stage) :
    (mailbox.goto position call stage).calls.countP counted + [call].countP counted =
      mailbox.calls.countP counted + [{ call with stage := stage }].countP counted := by
  obtain ⟨inside, equal⟩ := List.getElem?_eq_some_iff.mp present
  have before := (List.getElem_cons_eraseIdx_perm inside).countP_eq counted
  have after := (List.set_perm_cons_eraseIdx inside { call with stage := stage }).countP_eq counted
  rw [equal, List.countP_cons] at before
  rw [List.countP_cons] at after
  simp only [goto, List.countP_singleton]
  rw [after, ← before]
  omega

theorem countP_answer (present : mailbox.calls[position]? = some call) (counted : Call → Bool)
    (result : Except Closed Unit) :
    (mailbox.answer position call result).calls.countP counted + [call].countP counted =
      mailbox.calls.countP counted := by
  obtain ⟨inside, rfl⟩ := List.getElem?_eq_some_iff.mp present
  have before := (List.getElem_cons_eraseIdx_perm inside).countP_eq counted
  rw [List.countP_cons] at before
  simp only [answer, List.countP_singleton]
  omega

end Counting

/-! ### Every `Ok` has its op -/

/-- The call asks for an op of the kind on the writer. -/
def asks (index : Nat) (kind : OpKind) (call : Call) : Bool :=
  call.writer = index && call.request.kind = kind

/-- The call has pushed its op and will return `Ok`. -/
def poking (index : Nat) (kind : OpKind) (call : Call) : Bool :=
  asks index kind call && call.stage = .poke

/-- Calls on the writer that returned `Ok`, by what they asked for. -/
def okCalls (mailbox : Mailbox) (index : Nat) (kind : OpKind) : Nat :=
  mailbox.returned.countP fun entry => asks index kind entry.1 && entry.2.isOk

def pushedOps (mailbox : Mailbox) (index : Nat) (kind : OpKind) : Nat :=
  mailbox.pushed.countP fun op => op.writer = index && op.kind = kind

/-- Every call that pushed its op has returned `Ok` or is about to. -/
def Accounted (mailbox : Mailbox) : Prop :=
  ∀ index kind, mailbox.okCalls index kind + mailbox.calls.countP (poking index kind) =
    mailbox.pushedOps index kind

variable {mailbox : Mailbox} {call : Call} {position : Nat}

theorem Accounted.begin {next : Mailbox} (accounted : mailbox.Accounted) {writer : Nat}
    {request : Request} {inline : Bool} (entered : mailbox.begin writer request inline = some next)
    :
    next.Accounted := by
  obtain rfl := begin_eq entered
  intro index kind
  have fresh : request.start ≠ .poke := by
    unfold Request.start
    split <;> simp
  have idle : [(⟨mailbox.begun, writer, request, inline, request.start⟩ : Call)].countP
      (poking index kind) = 0 := by
    simp [poking, fresh]
  have before := accounted index kind
  rw [List.countP_append, idle]
  exact before

theorem countP_poking (stage : call.stage ≠ .poke) (index : Nat) (kind : OpKind) :
    [call].countP (poking index kind) = 0 := by
  simp [poking, stage]

theorem okCalls_answer (mailbox : Mailbox) (position : Nat) (call : Call)
    (result : Except Closed Unit) (index : Nat) (kind : OpKind) :
    (mailbox.answer position call result).okCalls index kind =
      mailbox.okCalls index kind +
        [(call, result)].countP fun entry => asks index kind entry.1 && entry.2.isOk :=
  List.countP_append

/-- A call that pushes nothing moves on or is refused. -/
theorem Accounted.goto (accounted : mailbox.Accounted)
    (present : mailbox.calls[position]? = some call) (before : call.stage ≠ .poke) {stage : Stage}
    (after : stage ≠ .poke) : (mailbox.goto position call stage).Accounted := by
  intro index kind
  have moved := countP_goto present (poking index kind) stage
  rw [countP_poking before, countP_poking (by exact after)] at moved
  have same := accounted index kind
  change mailbox.okCalls index kind + _ = mailbox.pushedOps index kind
  omega

theorem Accounted.refuse (accounted : mailbox.Accounted)
    (present : mailbox.calls[position]? = some call) (before : call.stage ≠ .poke) :
    (mailbox.answer position call (.error .closed)).Accounted := by
  intro index kind
  have moved := countP_answer present (poking index kind) (.error .closed)
  rw [countP_poking before] at moved
  have same := accounted index kind
  have refused := mailbox.okCalls_answer position call (.error .closed) index kind
  have failed : [(call, (Except.error Closed.closed : Except Closed Unit))].countP
      (fun entry => asks index kind entry.1 && entry.2.isOk) = 0 := by
    simp [Except.isOk, Except.toBool]
  change _ + _ = mailbox.pushedOps index kind
  omega

/-- What one call contributes. -/
def share (index : Nat) (kind : OpKind) (call : Call) : Nat := if asks index kind call then 1 else 0

theorem pushedOps_push (mailbox : Mailbox) (call : Call) (writer : Writer) (index : Nat)
    (kind : OpKind) :
    (mailbox.push (mailbox.opOf call writer)).2.pushedOps index kind =
      mailbox.pushedOps index kind + share index kind call := by
  simp [pushedOps, push, List.countP_append, List.countP_singleton, opOf, share, asks]

theorem countP_poking_poke (stage : call.stage = .poke) (index : Nat) (kind : OpKind) :
    [call].countP (poking index kind) = share index kind call := by
  simp [poking, share, stage, List.countP_singleton]

theorem okCalls_answer_ok (mailbox : Mailbox) (position : Nat) (call : Call) (index : Nat)
    (kind : OpKind) :
    (mailbox.answer position call (.ok ())).okCalls index kind =
      mailbox.okCalls index kind + share index kind call := by
  rw [okCalls_answer, List.countP_singleton]
  simp [share, Except.isOk, Except.toBool]

theorem Accounted.advance {next : Mailbox} (accounted : mailbox.Accounted)
    (advanced : mailbox.advance position = some next) : next.Accounted := by
  obtain ⟨call, writer, present, known, turn⟩ := advance_turn advanced
  cases turn with
  | sawFinished stage finished => exact accounted.refuse present (by simp [stage])
  | sawUnfinished stage unfinished => exact accounted.goto present (by simp [stage]) (by simp)
  | sawDead stage dead => exact accounted.refuse present (by simp [stage])
  | sawAlive stage alive =>
      refine accounted.goto present (by simp [stage]) ?_
      split <;> simp
  | lostSwap stage finished => exact accounted.refuse present (by simp [stage])
  | wonSwap stage unfinished =>
      have swapped : (mailbox.setFinished call.writer).Accounted := accounted
      exact swapped.goto present (by simp [stage]) (by simp)
  | pushedFirst stage empty offThread =>
      intro index kind
      have before := accounted index kind
      have pushes := mailbox.pushedOps_push call writer index kind
      have pokes : [{ call with stage := .poke }].countP (poking index kind) =
        share index kind call := countP_poking_poke rfl index kind
      have queued : (mailbox.push (mailbox.opOf call writer)).2.calls[position]? = some call :=
        present
      have moved := countP_goto queued (poking index kind) .poke
      rw [countP_poking (by simp [stage]), pokes] at moved
      change mailbox.okCalls index kind + _ =
        (mailbox.push (mailbox.opOf call writer)).2.pushedOps index kind
      rw [pushes, ← before, Nat.add_assoc]
      exact congrArg _ moved
  | pushed stage covered =>
      intro index kind
      have before := accounted index kind
      have pushes := mailbox.pushedOps_push call writer index kind
      have queued : (mailbox.push (mailbox.opOf call writer)).2.calls[position]? = some call :=
        present
      have moved := countP_answer queued (poking index kind) (.ok ())
      rw [countP_poking (by simp [stage])] at moved
      have answered := (mailbox.push (mailbox.opOf call writer)).2.okCalls_answer_ok position call
        index kind
      change _ + _ = (mailbox.push (mailbox.opOf call writer)).2.pushedOps index kind
      rw [pushes, answered, ← before, Nat.add_right_comm]
      exact congrArg (_ + · + _) moved
  | poked stage =>
      intro index kind
      have before := accounted index kind
      have queued : mailbox.poke.calls[position]? = some call := present
      have moved := countP_answer queued (poking index kind) (.ok ())
      rw [countP_poking_poke stage] at moved
      have answered := mailbox.poke.okCalls_answer_ok position call index kind
      change _ + _ = mailbox.pushedOps index kind
      rw [answered, ← before, Nat.add_right_comm, Nat.add_assoc]
      exact congrArg _ moved

/-! ### The finish is the last op -/

def finishedAt (mailbox : Mailbox) (index : Nat) : Bool :=
  (mailbox.writers[index]?).any Writer.finished

theorem finishedAt_eq_true {index : Nat} :
    mailbox.finishedAt index = true ↔
      ∃ writer, mailbox.writers[index]? = some writer ∧ writer.finished = true := by
  simp [finishedAt, Option.any_eq_true]

/-- A finish of the writer that won the swap and has not pushed yet. -/
def winning (index : Nat) (call : Call) : Bool :=
  call.writer = index && call.request.isFinish && call.stage = .push

/-- Another call on the writer that found it unfinished and has not pushed yet. -/
def exposed (index : Nat) (call : Call) : Bool :=
  call.writer = index && !call.request.isFinish && (call.stage = .loadDead || call.stage = .push)

def finishes (index : Nat) (op : OutOp) : Bool := op.writer = index && op.kind.isFinish

/-- A finish is pushed only while no other call on its writer is past its check. -/
def Orderly (mailbox : Mailbox) (index position : Nat) : Prop :=
  ∀ call, mailbox.calls[position]? = some call → winning index call = true →
    ∀ other ∈ mailbox.calls, exposed index other = false

structure Sealed (mailbox : Mailbox) (index : Nat) : Prop where
  once : mailbox.calls.countP (winning index) + mailbox.pushed.countP (finishes index) ≤
    if mailbox.finishedAt index then 1 else 0
  alone : ∀ op ∈ mailbox.pushed, finishes index op = true →
    ∀ call ∈ mailbox.calls, exposed index call = false
  last : mailbox.pushed.Pairwise fun earlier later =>
    finishes index earlier = true → later.writer ≠ index

namespace Sealed

variable {mailbox next : Mailbox} {index : Nat}

variable (sealed : mailbox.Sealed index)
include sealed

theorem begin {writer : Nat} {request : Request} {inline : Bool}
    (entered : mailbox.begin writer request inline = some next) : next.Sealed index := by
  obtain rfl := begin_eq entered
  refine ⟨?_, fun op member finishing call listed => ?_, sealed.last⟩
  · have idle : [(⟨mailbox.begun, writer, request, inline, request.start⟩ : Call)].countP
        (winning index) = 0 := by
      cases finish : request.isFinish <;> simp [winning, Request.start, finish]
    rw [List.countP_append, idle]
    exact sealed.once
  · rcases Table.mem_concat.mp listed with old | rfl
    · exact sealed.alone op member finishing call old
    · cases finish : request.isFinish <;> simp [exposed, Request.start, finish]

/-- The flags may rise and writers may come. -/
theorem grow {writers : List Writer} (grow : GrowAll mailbox.writers writers) :
    Sealed { mailbox with writers := writers } index := by
  refine ⟨sealed.once.trans ?_, sealed.alone, sealed.last⟩
  cases finished : mailbox.finishedAt index with
  | false => simp
  | true =>
      obtain ⟨writer, known, raised⟩ := finishedAt_eq_true.mp finished
      obtain ⟨grown, present, grows⟩ := grow index writer known
      have still : finishedAt { mailbox with writers := writers } index = true :=
        finishedAt_eq_true.mpr ⟨grown, present, grows.finished raised⟩
      simp [still]

/-- While the writer is unfinished, nothing finishes it. -/
theorem unfinished (unfinished : mailbox.finishedAt index = false) :
    mailbox.calls.countP (winning index) = 0 ∧
      ∀ op ∈ mailbox.pushed, finishes index op = false := by
  have once := sealed.once
  rw [unfinished, if_neg (by simp)] at once
  have none : mailbox.pushed.countP (finishes index) = 0 := by omega
  refine ⟨by omega, fun op member => ?_⟩
  simpa using List.countP_eq_zero.mp none op member

theorem goto (present : mailbox.calls[position]? = some call) {stage : Stage}
    (calm : winning index { call with stage := stage } = false)
    (unexposed : exposed index { call with stage := stage } = true →
      ∀ op ∈ mailbox.pushed, finishes index op = false) :
    (mailbox.goto position call stage).Sealed index := by
  refine ⟨?_, fun op member finishing other listed => ?_, sealed.last⟩
  · have moved := countP_goto present (winning index) stage
    have none : [{ call with stage := stage }].countP (winning index) = 0 := by simp [calm]
    refine (Nat.add_le_add_right ?_ _).trans sealed.once
    omega
  · rcases mem_calls_goto stage listed with old | rfl
    · exact sealed.alone op member finishing other old
    · by_contra seen
      have quiet := unexposed (by simpa using seen) op member
      simp [quiet] at finishing

theorem answer (present : mailbox.calls[position]? = some call) (result : Except Closed Unit) :
    (mailbox.answer position call result).Sealed index := by
  refine ⟨?_, fun op member finishing other listed =>
    sealed.alone op member finishing other (mem_calls_answer listed), sealed.last⟩
  have moved := countP_answer present (winning index) result
  refine (Nat.add_le_add_right ?_ _).trans sealed.once
  omega

omit sealed

theorem finishes_opOf (mailbox : Mailbox) (stage : call.stage = .push) (writer : Writer)
    (index : Nat) :
    finishes index (mailbox.opOf call writer) = winning index call := by
  cases kind : call.request <;>
    simp [finishes, winning, opOf, stage, kind, Request.kind, Request.isFinish, OpKind.isFinish]

/-- The call at the push hands its op over. -/
theorem push (sealed : mailbox.Sealed index) (present : mailbox.calls[position]? = some call)
    (stage : call.stage = .push) (orderly : mailbox.Orderly index position) (writer : Writer)
    (later : next.pushed = mailbox.pushed ++ [mailbox.opOf call writer])
    (writers : next.writers = mailbox.writers)
    (moved : next.calls.countP (winning index) + [call].countP (winning index) =
      mailbox.calls.countP (winning index))
    (others : ∀ other ∈ next.calls, other ∈ mailbox.calls ∨ exposed index other = false) :
    next.Sealed index := by
  have same := finishes_opOf mailbox stage writer index
  have member := List.mem_of_getElem? present
  refine ⟨?_, fun op listed finishing other remains => ?_, ?_⟩
  · have flag : next.finishedAt index = mailbox.finishedAt index := by
      simp [finishedAt, writers]
    have once := sealed.once
    rw [later, List.countP_append, List.countP_singleton, same, flag]
    rw [List.countP_singleton] at moved
    omega
  · rw [later] at listed
    rcases others other remains with old | hidden
    · rcases Table.mem_concat.mp listed with before | rfl
      · exact sealed.alone op before finishing other old
      · exact orderly call present (same ▸ finishing) other old
    · exact hidden
  · rw [later, List.pairwise_append]
    refine ⟨sealed.last, List.pairwise_singleton _ _, fun earlier before op new finishing => ?_⟩
    obtain rfl := List.mem_singleton.mp new
    intro own
    have own : call.writer = index := own
    -- a finish is in: this call would be a write past its check or a second winner
    cases finish : call.request.isFinish with
    | false =>
        have hidden := sealed.alone earlier before finishing call member
        simp [exposed, own, finish, stage] at hidden
    | true =>
        have wins : winning index call = true := by simp [winning, own, finish, stage]
        have first : 0 < mailbox.calls.countP (winning index) :=
          List.countP_pos_iff.mpr ⟨call, member, wins⟩
        have second : 0 < mailbox.pushed.countP (finishes index) :=
          List.countP_pos_iff.mpr ⟨earlier, before, finishing⟩
        have once := sealed.once
        split at once <;> omega

theorem finishedAt_of_known {writer : Writer} (known : mailbox.writers[call.writer]? = some writer)
    (own : call.writer = index) :
    mailbox.finishedAt index = writer.finished := by
  subst own
  simp [finishedAt, known]

include sealed

/-- A finish wins the swap. -/
theorem swap {writer : Writer} (present : mailbox.calls[position]? = some call)
    (known : mailbox.writers[call.writer]? = some writer) (unfinished : writer.finished = false) :
    ((mailbox.setFinished call.writer).goto position call .push).Sealed index := by
  have raised : ∀ writer : Writer, writer.Grows { writer with finished := true } :=
    fun _ => ⟨rfl, rfl, rfl, fun _ => rfl, id, id⟩
  have swapped : (mailbox.setFinished call.writer).Sealed index :=
    sealed.grow (growAll_modify _ _ raised)
  by_cases own : call.writer = index
  · have open' : mailbox.finishedAt index = false :=
      (finishedAt_of_known known own).trans unfinished
    obtain ⟨noWinner, noFinish⟩ := sealed.unfinished open'
    refine ⟨?_, fun op listed finishing => ?_, sealed.last⟩
    · have flag : ((mailbox.setFinished call.writer).goto position call .push).finishedAt index =
          true := by
        refine finishedAt_eq_true.mpr ⟨{ writer with finished := true }, ?_, rfl⟩
        simp [Mailbox.goto, setFinished, modifyWriter, own ▸ known, own]
      have moved := countP_goto present (winning index) .push
      have none : mailbox.pushed.countP (finishes index) = 0 :=
        List.countP_eq_zero.mpr fun op member => by simp [noFinish op member]
      have few := List.countP_le_length (p := winning index) (l := [{ call with stage := .push }])
      rw [flag, if_pos rfl]
      change (mailbox.goto position call .push).calls.countP (winning index) +
        mailbox.pushed.countP (finishes index) ≤ 1
      simp only [List.length_singleton] at few
      omega
    · simp [noFinish op listed] at finishing
  · refine swapped.goto present (by simp [winning, own]) fun seen => ?_
    simp [exposed, own] at seen

theorem advance (orderly : mailbox.Orderly index position)
    (advanced : mailbox.advance position = some next) : next.Sealed index := by
  obtain ⟨call, writer, present, known, turn⟩ := advance_turn advanced
  have member := List.mem_of_getElem? present
  cases turn with
  | sawFinished stage finished => exact sealed.answer present _
  | sawUnfinished stage unfinished =>
      refine sealed.goto present (by simp [winning]) fun seen => ?_
      have own : call.writer = index := by simp [exposed] at seen; exact seen.1
      exact (sealed.unfinished ((finishedAt_of_known known own).trans unfinished)).2
  | sawDead stage dead => exact sealed.answer present _
  | sawAlive stage alive =>
      cases finish : call.request.isFinish with
      | true =>
          exact sealed.goto present (by simp [winning]) fun seen => by
            simp [exposed, finish] at seen
      | false =>
          refine sealed.goto present (by simp [winning, finish]) fun seen op listed => ?_
          have exposing : exposed index call = true := by simpa [exposed, finish, stage] using seen
          by_contra finishing
          have hidden := sealed.alone op listed (by simpa using finishing) call member
          simp [exposing] at hidden
  | lostSwap stage finished => exact sealed.answer present _
  | wonSwap stage unfinished => exact sealed.swap present known unfinished
  | pushedFirst stage empty offThread =>
      have queued : (mailbox.push (mailbox.opOf call writer)).2.calls[position]? = some call :=
        present
      refine sealed.push present stage orderly writer rfl rfl ?_ fun other listed => ?_
      · have moved := countP_goto queued (winning index) .poke
        have none : [{ call with stage := .poke }].countP (winning index) = 0 := by
          simp [winning]
        rw [none] at moved
        exact moved
      · rcases mem_calls_goto .poke listed with old | rfl
        · exact .inl old
        · exact .inr (by simp [exposed])
  | pushed stage covered =>
      have queued : (mailbox.push (mailbox.opOf call writer)).2.calls[position]? = some call :=
        present
      exact sealed.push present stage orderly writer rfl rfl
        (countP_answer queued (winning index) (.ok ())) fun other listed =>
          .inl (List.mem_of_mem_eraseIdx listed)
  | poked stage =>
      have poked : mailbox.poke.Sealed index := ⟨sealed.once, sealed.alone, sealed.last⟩
      exact poked.answer present _

end Sealed

end Mailbox

end GrpcUds.Serve
