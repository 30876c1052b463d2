import GrpcUds.Lib.Table
import GrpcUds.Serve.Health

/-!
# What a mailbox knows of one writer

The writer of a `Watch` call has one user, the holder of the lock, so at most one
call on it is in progress at a time.  `Trace` collects the calls on a writer and
what came of them, `Moves` is how a lone call changes it, and `Solo` says which
calls have pushed their op.
-/

namespace GrpcUds.Serve

/-- The calls in progress on a writer, the results of those that returned and the ops
they pushed. -/
structure Trace where
  inProgress : List Call
  results : List (OpKind × Bool)
  pushed : List OpKind

namespace Trace

/-- One step of the only call in progress. -/
inductive Moves (trace : Trace) (call : Call) : Trace → Prop where
  | checked {stage : Stage} (before : call.stage ≠ .poke) (after : stage ≠ .poke) :
      Moves trace call { trace with inProgress := [{ call with stage := stage }] }
  | refused (before : call.stage ≠ .poke) :
      Moves trace call
        { trace with
          inProgress := []
          results := trace.results ++ [(call.request.kind, false)] }
  | pushedFirst (before : call.stage ≠ .poke) :
      Moves trace call
        { trace with
          inProgress := [{ call with stage := .poke }]
          pushed := trace.pushed ++ [call.request.kind] }
  | pushed (before : call.stage ≠ .poke) :
      Moves trace call
        { inProgress := []
          results := trace.results ++ [(call.request.kind, true)]
          pushed := trace.pushed ++ [call.request.kind] }
  | poked (before : call.stage = .poke) :
      Moves trace call
        { trace with
          inProgress := []
          results := trace.results ++ [(call.request.kind, true)] }

/-- The ops of the calls that returned `Ok`. -/
def accepted (results : List (OpKind × Bool)) : List OpKind :=
  (results.filter fun result => result.2).map Prod.fst

@[simp]
theorem accepted_append (first second : List (OpKind × Bool)) :
    accepted (first ++ second) = accepted first ++ accepted second := by
  simp [accepted]

@[simp]
theorem accepted_ok (kind : OpKind) : accepted [(kind, true)] = [kind] := rfl

@[simp]
theorem accepted_refused (kind : OpKind) : accepted [(kind, false)] = [] := rfl

/-- Of the calls on a writer that has at most one in progress, those pushed their op that
returned `Ok` and the one that has yet to poke. -/
inductive Solo (trace : Trace) : Prop where
  | idle (none : trace.inProgress = []) (pushed : trace.pushed = accepted trace.results)
  | busy {call : Call} (alone : trace.inProgress = [call]) (before : call.stage ≠ .poke)
      (pushed : trace.pushed = accepted trace.results)
  | poking {call : Call} (alone : trace.inProgress = [call]) (before : call.stage = .poke)
      (pushed : trace.pushed = accepted trace.results ++ [call.request.kind])

/-- A call begins where none is in progress. -/
theorem Solo.begin {trace : Trace} {call only : Call} (solo : trace.Solo)
    (before : call.stage ≠ .poke) (alone : trace.inProgress ++ [call] = [only]) :
    { trace with inProgress := trace.inProgress ++ [call] }.Solo := by
  cases solo with
  | idle none pushed => exact .busy (by simp [none]) before pushed
  | busy other early pushed => simp [other] at alone
  | poking other late pushed => simp [other] at alone

theorem Solo.moves {trace next : Trace} {call : Call} (solo : trace.Solo)
    (alone : trace.inProgress = [call]) (moved : trace.Moves call next) : next.Solo := by
  cases solo with
  | idle none pushed => simp [none] at alone
  | busy only early pushed =>
      obtain rfl : _ = call := by simpa [only] using alone
      cases moved with
      | checked before after => exact .busy rfl after pushed
      | refused before => exact .idle rfl (by simpa using pushed)
      | pushedFirst before => exact .poking rfl rfl (by rw [pushed])
      | pushed before => exact .idle rfl (by simpa using pushed)
      | poked before => exact absurd before early
  | poking only late pushed =>
      obtain rfl : _ = call := by simpa [only] using alone
      cases moved with
      | poked before => exact .idle rfl (by simpa using pushed)
      | checked before after => exact absurd late before
      | refused before => exact absurd late before
      | pushedFirst before => exact absurd late before
      | pushed before => exact absurd late before

theorem Solo.pushed_of_idle {trace : Trace} (solo : trace.Solo)
    (idle : trace.inProgress = []) : trace.pushed = Trace.accepted trace.results := by
  cases solo with
  | idle none pushed => exact pushed
  | busy alone before pushed => simp [idle] at alone
  | poking alone before pushed => simp [idle] at alone

end Trace

namespace Mailbox

def trace (mailbox : Mailbox) (index : Nat) : Trace where
  inProgress := mailbox.calls.filter fun call => call.writer = index
  results := mailbox.results index
  pushed := mailbox.pushedBy index

theorem trace_of_untouched {mailbox : Mailbox} {index : Nat}
    (untouched : mailbox.untouched index = true) : mailbox.trace index = ⟨[], [], []⟩ := by
  simp only [Mailbox.untouched, Bool.and_eq_true, List.all_eq_true, bne_iff_ne] at untouched
  obtain ⟨⟨calls, returned⟩, pushed⟩ := untouched
  have noCall : mailbox.calls.filter (fun call => call.writer = index) = [] :=
    List.filter_eq_nil_iff.mpr fun call member => by simpa using calls call member
  have noResult : mailbox.returned.filter (fun entry => entry.1.writer = index) = [] :=
    List.filter_eq_nil_iff.mpr fun entry member => by simpa using returned entry member
  have noOp : mailbox.pushed.filter (fun op => op.writer = index) = [] :=
    List.filter_eq_nil_iff.mpr fun op member => by simpa using pushed op member
  simp [trace, results, pushedBy, noCall, noResult, noOp]

section Calls

variable {mailbox next : Mailbox} {position index : Nat} {call : Call} {writer : Writer}

theorem trace_begin {target : Nat} {request : Request} {inline : Bool}
    (entered : mailbox.begin target request inline = some next) (index : Nat) :
    (target ≠ index → next.trace index = mailbox.trace index) ∧
      (target = index → ∃ call, call.request = request ∧ call.stage ≠ .poke ∧
        next.trace index =
          { mailbox.trace index with
            inProgress := (mailbox.trace index).inProgress ++ [call] }) := by
  obtain rfl := begin_eq entered
  constructor
  · intro different
    simp [trace, results, pushedBy, different]
  · rintro rfl
    refine ⟨⟨mailbox.begun, target, request, inline, request.start⟩, rfl, ?_, ?_⟩
    · simp only [Request.start]
      split <;> simp
    · simp [trace, results, pushedBy]

/-- A call on another writer changes nothing. -/
theorem Turn.trace_other (turn : mailbox.Turn position call writer next)
    (present : mailbox.calls[position]? = some call) (different : call.writer ≠ index) :
    next.trace index = mailbox.trace index := by
  let selected (call : Call) : Bool := decide (call.writer = index)
  have skipped : selected call = false := by simpa [selected] using different
  have moved (stage : Stage) :
      (mailbox.calls.set position { call with stage := stage }).filter selected =
        mailbox.calls.filter selected := Table.filter_set_of_skipped present skipped skipped
  have ended : (mailbox.calls.eraseIdx position).filter selected =
      mailbox.calls.filter selected := Table.filter_eraseIdx_of_skipped present skipped
  simp only [selected] at moved ended
  cases turn <;>
    simp [trace, results, pushedBy, goto, answer, push, opOf, poke, setFinished, modifyWriter,
      moved, ended, different]

theorem Turn.trace_alone (turn : mailbox.Turn position call writer next)
    (present : mailbox.calls[position]? = some call) (onWriter : call.writer = index) {only : Call}
    (alone : (mailbox.trace index).inProgress = [only]) :
    call = only ∧ (mailbox.trace index).Moves call (next.trace index) := by
  obtain ⟨same, ended, moved⟩ := Table.filter_of_alone present (by simpa using onWriter) alone
  refine ⟨same, ?_⟩
  have movedTo (stage : Stage) := moved { call with stage := stage } (by simpa using onWriter)
  have ends (result : Except Closed Unit) : (mailbox.answer position call result).trace index =
      { mailbox.trace index with
        inProgress := []
        results := (mailbox.trace index).results ++ [(call.request.kind, result.isOk)] } := by
    simp [trace, results, pushedBy, answer, ended, onWriter]
  have goes (stage : Stage) : (mailbox.goto position call stage).trace index =
      { mailbox.trace index with inProgress := [{ call with stage := stage }] } := by
    simp [trace, results, pushedBy, goto, movedTo]
  cases turn with
  | sawFinished stage finished =>
      rw [ends]
      exact .refused (by simp [stage])
  | sawUnfinished stage unfinished =>
      rw [goes]
      exact .checked (by simp [stage]) (by simp)
  | sawDead stage dead =>
      rw [ends]
      exact .refused (by simp [stage])
  | sawAlive stage alive =>
      rw [goes]
      exact .checked (by simp [stage]) (by split <;> simp)
  | lostSwap stage finished =>
      rw [ends]
      exact .refused (by simp [stage])
  | wonSwap stage unfinished =>
      have same : ((mailbox.setFinished call.writer).goto position call .push).trace index =
          (mailbox.goto position call .push).trace index := rfl
      rw [same, goes]
      exact .checked (by simp [stage]) (by simp)
  | pushedFirst stage empty offThread =>
      have pushes : ((mailbox.push (mailbox.opOf call writer)).2.goto position call .poke).trace
          index = { (mailbox.goto position call .poke).trace index with
            pushed := (mailbox.trace index).pushed ++ [call.request.kind] } := by
        simp [trace, results, pushedBy, goto, push, opOf, onWriter]
      rw [pushes, goes]
      exact .pushedFirst (by simp [stage])
  | pushed stage covered =>
      have pushes :
          ((mailbox.push (mailbox.opOf call writer)).2.answer position call (.ok ())).trace index =
          { (mailbox.answer position call (.ok ())).trace index with
            pushed := (mailbox.trace index).pushed ++ [call.request.kind] } := by
        simp [trace, results, pushedBy, answer, push, opOf, onWriter]
      rw [pushes, ends]
      exact .pushed (by simp [stage])
  | poked stage =>
      have same : (mailbox.poke.answer position call (.ok ())).trace index =
          (mailbox.answer position call (.ok ())).trace index := rfl
      rw [same, ends]
      exact .poked stage

end Calls

end Mailbox

/-- A step that does not begin a call on a writer moves the only call on it, or none. -/
theorem Loop.step_trace {loop next : Loop} {event : LoopEvent} {index : Nat}
    (performed : loop.step event = some next)
    (elsewhere : ∀ request inline, event ≠ .begin index request inline) :
    next.mailbox.trace index = loop.mailbox.trace index ∨
      ∃ call ∈ (loop.mailbox.trace index).inProgress,
        ∀ only, (loop.mailbox.trace index).inProgress = [only] →
          call = only ∧ (loop.mailbox.trace index).Moves call (next.mailbox.trace index) := by
  rcases step_calls performed with ⟨target, request, inline, rfl, entered⟩ | ⟨_, advanced⟩ |
    ⟨calls, returned, _, pushed⟩
  · left
    apply (Mailbox.trace_begin entered index).1
    rintro rfl
    exact elsewhere request inline rfl
  · obtain ⟨call, writer, present, _, turn⟩ := Mailbox.advance_turn advanced
    by_cases onWriter : call.writer = index
    · refine .inr ⟨call, ?_, fun only alone => turn.trace_alone present onWriter alone⟩
      exact List.mem_filter.mpr ⟨List.mem_of_getElem? present, by simpa using onWriter⟩
    · exact .inl (turn.trace_other present onWriter)
  · left
    simp [Mailbox.trace, Mailbox.results, Mailbox.pushedBy, calls, returned, pushed]

end GrpcUds.Serve
