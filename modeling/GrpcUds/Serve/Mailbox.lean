import GrpcUds.Lib.Transition
import GrpcUds.Server.Conn

/-!
# The outbound mailbox of the std server

Any clone of a `ServerWriter` queues its ops in the mailbox of the server that
made it.  A call on a writer is not one step: the closed check loads two flags,
the push takes the queue lock, and the poke comes after the lock is released.
`Stage` is where a call stands between these steps, so that the steps of any
number of threads may come in any order.

The lock is never poisoned: nothing that holds it can panic.
-/

namespace GrpcUds.Serve

open Server

inductive OpKind where
  | write (payload : Bytes)
  | finish (status : GrpcStatus) (message : Option Bytes)
  | policy (backpressure : Backpressure)
  deriving DecidableEq

/-- `writer` is the shared state of the originating writer.  `serial` numbers the
ops in the order of their pushes; no operation reads it. -/
structure OutOp where
  token : Nat
  callId : StreamId
  kind : OpKind
  writer : Nat
  serial : Nat
  deriving DecidableEq

/-- What all clones of one writer share.  `origin` is the connection whose dispatch
made the writer; no operation reads it. -/
structure Writer where
  token : Nat
  callId : StreamId
  finished : Bool
  dead : Bool
  overflow : Bool
  origin : Nat
  deriving DecidableEq

def Writer.closed (writer : Writer) : Bool := writer.finished || writer.dead

inductive Closed where
  | closed
  deriving DecidableEq, Repr

/-- A call on a writer. -/
inductive Request where
  | write (message : Bytes)
  | writeOwned (message : Bytes)
  | finish (status : GrpcStatus) (message : Option Bytes)
  | setBackpressure (backpressure : Backpressure)
  deriving DecidableEq

/-- The next step of a call. -/
inductive Stage where
  | loadFinished
  | loadDead
  | swapFinished
  | push
  | poke
  deriving DecidableEq, Repr

namespace Request

def isFinish : Request → Bool
  | finish _ _ => true
  | _ => false

/-- The op that the call queues.  An empty message is none. -/
def kind : Request → OpKind
  | write message => .write message
  | writeOwned message => .write message
  | finish status message => .finish status (message.filter fun text => !text.isEmpty)
  | setBackpressure backpressure => .policy backpressure

def start (request : Request) : Stage :=
  if request.isFinish then .loadDead else .loadFinished

end Request

/-- A call in progress.  `inline` says that it runs on the I/O thread. -/
structure Call where
  serial : Nat
  writer : Nat
  request : Request
  inline : Bool
  stage : Stage
  deriving DecidableEq

/-- The mailbox, the writers that share it and the calls in progress on them.  The
last three fields record what happened. -/
structure Mailbox where
  ops : List OutOp
  /-- The counter of the eventfd. -/
  wakeup : Nat
  writers : List Writer
  calls : List Call
  begun : Nat
  pushed : List OutOp
  returned : List (Call × Except Closed Unit)

namespace Mailbox

def new : Mailbox where
  ops := []
  wakeup := 0
  writers := []
  calls := []
  begun := 0
  pushed := []
  returned := []

/-- Queue an op.  The flag says that the queue was empty. -/
def push (mailbox : Mailbox) (op : OutOp) : Bool × Mailbox :=
  (mailbox.ops.isEmpty,
    { mailbox with
      ops := mailbox.ops ++ [op]
      pushed := mailbox.pushed ++ [op] })

/-- The largest value an eventfd counts to; a write beyond it fails. -/
def eventfdMax : Nat := 2 ^ 64 - 2

def poke (mailbox : Mailbox) : Mailbox :=
  { mailbox with wakeup := min (mailbox.wakeup + 1) eventfdMax }

/-- One `read` of the eventfd. -/
def clearWakeup (mailbox : Mailbox) : Mailbox := { mailbox with wakeup := 0 }

def take (mailbox : Mailbox) : List OutOp × Mailbox :=
  (mailbox.ops, { mailbox with ops := [] })

def modifyWriter (mailbox : Mailbox) (index : Nat) (change : Writer → Writer) : Mailbox :=
  { mailbox with writers := mailbox.writers.modify index change }

def setFinished (mailbox : Mailbox) (index : Nat) : Mailbox :=
  mailbox.modifyWriter index fun writer => { writer with finished := true }

def setDead (mailbox : Mailbox) (index : Nat) : Mailbox :=
  mailbox.modifyWriter index fun writer => { writer with dead := true }

def setOverflow (mailbox : Mailbox) (index : Nat) : Mailbox :=
  mailbox.modifyWriter index fun writer => { writer with overflow := true }

/-! ### Calls -/

/-- A thread enters a call on an existing writer. -/
def begin (mailbox : Mailbox) (writer : Nat) (request : Request) (inline : Bool) :
    Option Mailbox :=
  if writer < mailbox.writers.length then
    some
      { mailbox with
        calls := mailbox.calls ++
          [{ serial := mailbox.begun
             writer := writer
             request := request
             inline := inline
             stage := request.start }]
        begun := mailbox.begun + 1 }
  else none

/-- The call moves on to a stage. -/
def goto (mailbox : Mailbox) (position : Nat) (call : Call) (stage : Stage) : Mailbox :=
  { mailbox with calls := mailbox.calls.set position { call with stage := stage } }

/-- The call returns to its caller. -/
def answer (mailbox : Mailbox) (position : Nat) (call : Call) (result : Except Closed Unit) :
    Mailbox :=
  { mailbox with
    calls := mailbox.calls.eraseIdx position
    returned := mailbox.returned ++ [(call, result)] }

def opOf (mailbox : Mailbox) (call : Call) (writer : Writer) : OutOp where
  token := writer.token
  callId := writer.callId
  kind := call.request.kind
  writer := call.writer
  serial := mailbox.pushed.length

/-- The next step of the call at a position. -/
def advance (mailbox : Mailbox) (position : Nat) : Option Mailbox := do
  let call ← mailbox.calls[position]?
  let writer ← mailbox.writers[call.writer]?
  match call.stage with
  | .loadFinished =>
      if writer.finished then return mailbox.answer position call (.error .closed)
      else return mailbox.goto position call .loadDead
  | .loadDead =>
      if writer.dead then return mailbox.answer position call (.error .closed)
      else
        return mailbox.goto position call (if call.request.isFinish then .swapFinished else .push)
  | .swapFinished =>
      if writer.finished then return mailbox.answer position call (.error .closed)
      else return (mailbox.setFinished call.writer).goto position call .push
  | .push =>
      let (wasEmpty, pushed) := mailbox.push (mailbox.opOf call writer)
      if wasEmpty && !call.inline then return pushed.goto position call .poke
      else return pushed.answer position call (.ok ())
  | .poke => return mailbox.poke.answer position call (.ok ())

/-- What one step of a call does. -/
inductive Turn (mailbox : Mailbox) (position : Nat) (call : Call) (writer : Writer) :
    Mailbox → Prop where
  | sawFinished (stage : call.stage = .loadFinished) (finished : writer.finished = true) :
      Turn mailbox position call writer (mailbox.answer position call (.error .closed))
  | sawUnfinished (stage : call.stage = .loadFinished) (unfinished : writer.finished = false) :
      Turn mailbox position call writer (mailbox.goto position call .loadDead)
  | sawDead (stage : call.stage = .loadDead) (dead : writer.dead = true) :
      Turn mailbox position call writer (mailbox.answer position call (.error .closed))
  | sawAlive (stage : call.stage = .loadDead) (alive : writer.dead = false) :
      Turn mailbox position call writer
        (mailbox.goto position call (if call.request.isFinish then .swapFinished else .push))
  | lostSwap (stage : call.stage = .swapFinished) (finished : writer.finished = true) :
      Turn mailbox position call writer (mailbox.answer position call (.error .closed))
  | wonSwap (stage : call.stage = .swapFinished) (unfinished : writer.finished = false) :
      Turn mailbox position call writer
        ((mailbox.setFinished call.writer).goto position call .push)
  | pushedFirst (stage : call.stage = .push) (empty : mailbox.ops = [])
      (offThread : call.inline = false) :
      Turn mailbox position call writer
        ((mailbox.push (mailbox.opOf call writer)).2.goto position call .poke)
  | pushed (stage : call.stage = .push) (covered : mailbox.ops ≠ [] ∨ call.inline = true) :
      Turn mailbox position call writer
        ((mailbox.push (mailbox.opOf call writer)).2.answer position call (.ok ()))
  | poked (stage : call.stage = .poke) :
      Turn mailbox position call writer (mailbox.poke.answer position call (.ok ()))

theorem advance_turn {mailbox next : Mailbox} {position : Nat}
    (advanced : mailbox.advance position = some next) :
    ∃ call writer, mailbox.calls[position]? = some call ∧
      mailbox.writers[call.writer]? = some writer ∧ mailbox.Turn position call writer next := by
  unfold advance at advanced
  obtain ⟨call, present, advanced⟩ := Option.bind_eq_some_iff.mp advanced
  obtain ⟨writer, known, advanced⟩ := Option.bind_eq_some_iff.mp advanced
  refine ⟨call, writer, present, known, ?_⟩
  split at advanced
  next stage =>
    split at advanced
    next finished =>
      obtain rfl := Option.some.inj advanced
      exact .sawFinished stage finished
    next unfinished =>
      obtain rfl := Option.some.inj advanced
      exact .sawUnfinished stage (Bool.eq_false_iff.mpr unfinished)
  next stage =>
    split at advanced
    next dead =>
      obtain rfl := Option.some.inj advanced
      exact .sawDead stage dead
    next alive =>
      obtain rfl := Option.some.inj advanced
      exact .sawAlive stage (Bool.eq_false_iff.mpr alive)
  next stage =>
    split at advanced
    next finished =>
      obtain rfl := Option.some.inj advanced
      exact .lostSwap stage finished
    next unfinished =>
      obtain rfl := Option.some.inj advanced
      exact .wonSwap stage (Bool.eq_false_iff.mpr unfinished)
  next stage =>
    dsimp only [push] at advanced
    split at advanced
    next wakes =>
      obtain rfl := Option.some.inj advanced
      obtain ⟨empty, offThread⟩ := Bool.and_eq_true_iff.mp wakes
      exact .pushedFirst stage (List.isEmpty_iff.mp empty) (by simpa using offThread)
    next covered =>
      obtain rfl := Option.some.inj advanced
      refine .pushed stage ?_
      by_cases empty : mailbox.ops = []
      · right
        simpa [empty] using covered
      · exact .inl empty
  next stage =>
    obtain rfl := Option.some.inj advanced
    exact .poked stage

theorem Turn.advance {mailbox next : Mailbox} {position : Nat} {call : Call} {writer : Writer}
    (present : mailbox.calls[position]? = some call)
    (known : mailbox.writers[call.writer]? = some writer)
    (turn : mailbox.Turn position call writer next) : mailbox.advance position = some next := by
  cases turn with
  | sawFinished stage finished => simp [Mailbox.advance, present, known, stage, finished]
  | sawUnfinished stage unfinished => simp [Mailbox.advance, present, known, stage, unfinished]
  | sawDead stage dead => simp [Mailbox.advance, present, known, stage, dead]
  | sawAlive stage alive => simp [Mailbox.advance, present, known, stage, alive]
  | lostSwap stage finished => simp [Mailbox.advance, present, known, stage, finished]
  | wonSwap stage unfinished => simp [Mailbox.advance, present, known, stage, unfinished]
  | pushedFirst stage empty offThread =>
      simp [Mailbox.advance, present, known, stage, push, empty, offThread]
  | pushed stage covered =>
      rcases covered with waiting | isInline
      · simp [Mailbox.advance, present, known, stage, push, waiting]
      · simp [Mailbox.advance, present, known, stage, push, isInline]
  | poked stage => simp [Mailbox.advance, present, known, stage]

/-! ### The calls in progress after a step -/

section Calls

variable {mailbox : Mailbox} {position : Nat} {call other : Call}

theorem mem_calls_goto (stage : Stage) (member : other ∈ (mailbox.goto position call stage).calls) :
    other ∈ mailbox.calls ∨ other = { call with stage := stage } :=
  List.mem_or_eq_of_mem_set member

theorem mem_calls_answer {result : Except Closed Unit}
    (member : other ∈ (mailbox.answer position call result).calls) : other ∈ mailbox.calls :=
  List.mem_of_mem_eraseIdx member

variable (present : mailbox.calls[position]? = some call)
include present

theorem self_mem_goto (stage : Stage) :
    { call with stage := stage } ∈ (mailbox.goto position call stage).calls := by
  obtain ⟨inside, _⟩ := List.getElem?_eq_some_iff.mp present
  exact List.mem_set inside _

/-- The other calls stay. -/
theorem other_mem_goto (stage : Stage) (member : other ∈ mailbox.calls) (different : other ≠ call) :
    other ∈ (mailbox.goto position call stage).calls := by
  obtain ⟨index, inside, rfl⟩ := List.getElem_of_mem member
  have apart : position ≠ index := by
    rintro rfl
    rw [List.getElem?_eq_getElem inside] at present
    exact different (Option.some.inj present)
  have kept : (mailbox.calls.set position { call with stage := stage })[index]? =
      some mailbox.calls[index] := by
    rw [List.getElem?_set_ne apart, List.getElem?_eq_getElem inside]
  exact List.mem_of_getElem? kept

theorem other_mem_answer (result : Except Closed Unit) (member : other ∈ mailbox.calls)
    (different : other ≠ call) :
    other ∈ (mailbox.answer position call result).calls := by
  obtain ⟨index, inside, rfl⟩ := List.getElem_of_mem member
  refine List.mem_eraseIdx_iff_getElem.mpr ⟨index, inside, ?_, rfl⟩
  rintro rfl
  rw [List.getElem?_eq_getElem inside] at present
  exact different (Option.some.inj present)

end Calls

end Mailbox

end GrpcUds.Serve
