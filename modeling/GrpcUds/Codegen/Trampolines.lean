import GrpcUds.Ffi.Responder
import GrpcUds.Server.Marks

/-!
# The generated handlers of unary methods

For a unary method the plugin emits a handler that decodes the request, calls the service
and completes the call.  In the C++ mode nobody looks at whether that succeeded.
-/

namespace GrpcUds.Codegen

open Framing Headers Server Ffi

/-- The C mode, and the C++ mode with the default body of the responder overload or with one
of the service. -/
inductive Mode where
  | c
  | cxx
  | cxxResponder
  deriving DecidableEq

/-- What the service does with a request: its own calls into the library, its code, the
message of its status (C++ only), and the response it filled in, if `pb_encode` fits it into
the buffer. -/
structure Handled where
  calls : List ApiCall
  rc : Int
  message : Bytes
  encoded : Option Bytes

def handlerDeferred : Int := -1000

def invalidArgumentCode : Int := 3

/-- A connection after some calls. -/
def perform (calls : List ApiCall) (conn : Conn) : Conn :=
  calls.foldl (fun conn call => (conn.api call).2) conn

/-- The calls of a script that are made: all up to the first one that fails. -/
def made (callId : StreamId) (copy reserve : Bool) : List AbiCall → Conn → List ApiCall
  | [], _ => []
  | call :: rest, conn =>
      let result := conn.api (call.apiCall callId copy reserve)
      call.apiCall callId copy reserve ::
        if resultToC result.1 = 0 then made callId copy reserve rest result.2 else []

section Generated

variable (callId : StreamId) (copy reserve : Bool)

/-- Behind the decoder. -/
def Handled.complete (handled : Handled) (conn : Conn) : Mode → HandlerRun
  | .c =>
      if handled.rc = handlerDeferred then ⟨handled.calls, Completion.okCode⟩
      else if handled.rc ≠ Completion.okCode then ⟨handled.calls, handled.rc⟩
      else
        let left := perform handled.calls conn
        let respond := Completion.cRespond handled.encoded
        ⟨handled.calls ++ made callId copy reserve respond.script left,
          if (respond.onIoThread callId copy reserve left).1 then Completion.okCode
          else Completion.internalCode⟩
  | .cxx =>
      let completion :=
        if handled.rc = Completion.okCode then Completion.respond handled.encoded
        else .fail handled.rc handled.message
      ⟨handled.calls ++ made callId copy reserve completion.script (perform handled.calls conn),
        Completion.okCode⟩
  -- The service completes the call itself, now or later.
  | .cxxResponder => ⟨handled.calls, Completion.okCode⟩

/-- The generated handler.  `decoded` is what the service made of the request, if `pb_decode`
accepted it. -/
def trampoline (decoded : Option Handled) (conn : Conn) (mode : Mode) : HandlerRun :=
  match decoded, mode with
  | none, .c => ⟨[], invalidArgumentCode⟩
  | none, _ => ⟨[.finishCall callId .invalidArgument], invalidArgumentCode⟩
  | some handled, mode => handled.complete callId copy reserve conn mode

end Generated

/-- The queue of a call after its dispatch, from the one that the service left.  What the
service has finished stays as it is. -/
def answer (mode : Mode) (handled : Handled) (copy reserve : Bool) (left : OutQueue) : OutQueue :=
  if left.finished then left
  else
    match mode, decide (handled.rc = 0), handled.encoded with
    | .cxxResponder, _, _ => left
    | .c, false, _ =>
        if handled.rc = handlerDeferred then left
        else left.finish (grpcStatusFromI32 handled.rc) none
    | .cxx, false, _ => left.finish (grpcStatusFromI32 handled.rc) (some handled.message)
    | .c, true, none => left.finish .internal none
    | .cxx, true, none => left.finish .internal (some (ascii "response encode failed"))
    | mode, true, some buf =>
        let written := left.enqueueFramed buf copy reserve
        if resultToC written.1 = 0 then written.2.finish .ok none
        else if mode = .c then written.2.finish .internal none
        else written.2

/-- The parts of a queue that a client sees. -/
def SameAnswer (left later : OutQueue) : Prop :=
  later.messages = left.messages ∧ SameFinish left later

/-- A call that the service keeps for later, or a response that the C++ mode loses. -/
def StaysOpen (mode : Mode) (handled : Handled) (copy reserve : Bool) (left : OutQueue) : Prop :=
  (mode = .c ∧ handled.rc = handlerDeferred) ∨ mode = .cxxResponder ∨
    mode = .cxx ∧ handled.rc = 0 ∧ ∃ buf, handled.encoded = some buf ∧
      (left.enqueueFramed buf copy reserve).1 ≠ .ok ()

variable {conn : Conn} {id : StreamId} {stream left : StreamCtx}

/-- A call on a stream that is there changes that stream. -/
theorem findStream_api (found : conn.findStream id = some stream) {call : ApiCall}
    (named : call.callId = id) : (conn.api call).2.findStream id = some (call.change stream) := by
  rw [(conn.api_touches call).findStream id, if_pos named, found]
  rfl

/-- The stream of a handler, when it returns and after its code is taken in. -/
theorem settle_answer (distinct : conn.Distinct) {position : Nat}
    (found : conn.streams[position]? = some stream) (run : HandlerRun) (submitRc : Int) :
    ∃ last later, (perform run.calls conn).findStream stream.id = some last ∧
      ((perform run.calls conn).settle position stream.id run.rc submitRc).findStream stream.id =
        some later ∧ SameAnswer (concludeHandler run.rc last).out later.out := by
  obtain ⟨last, placed, follows⟩ := (conn.calls_send run.calls).streams position stream found
  have spread := (conn.calls_act run.calls).toKeeps.distinct distinct
  have looked := Conn.findStream_of_getElem? spread placed
  have applied (change : StreamCtx → StreamCtx) (kept : ∀ stream, (change stream).id = stream.id)
      (effects : List Effect) : ((perform run.calls conn).idle.apply last.id change
        effects).findStream last.id = some (change last) := by
    rw [(Conn.apply_touches _ _ _ _ kept).findStream, if_pos rfl]
    exact congrArg (Option.map change) looked
  rw [← follows.id]
  refine ⟨last, ?_⟩
  rw [perform, Conn.settle_eq_apply spread placed]
  split
  · exact ⟨_, looked, applied (concludeHandler run.rc) (fun _ => rfl) _, rfl, rfl, rfl, rfl⟩
  · refine ⟨_, looked, applied
        (fun stream => (concludeHandler run.rc stream).respond submitRc .cancelled)
        (fun _ => StreamCtx.respond_id _ submitRc .cancelled) _, ?_⟩
    unfold StreamCtx.respond
    split <;> exact ⟨rfl, rfl, rfl, rfl⟩

theorem finish_of_finished {out : OutQueue} (finished : out.finished = true) (status : GrpcStatus)
    (message : Option Bytes) : out.finish status message = out := by
  simp [OutQueue.finish, finished]

theorem finished_finish (out : OutQueue) (status : GrpcStatus) (message : Option Bytes) :
    (out.finish status message).finished = true := by
  unfold OutQueue.finish
  split <;> simp_all

/-- A completion finds nothing to do on a stream that is finished. -/
theorem made_of_finished (copy reserve : Bool) (script : List AbiCall)
    (found : conn.findStream id = some left) (finished : left.out.finished = true) :
    ∃ last, (perform (made id copy reserve script conn) conn).findStream id = some last ∧
      last.out = left.out := by
  induction script generalizing conn left with
  | nil => exact ⟨left, found, rfl⟩
  | cons call rest ih =>
      have stored := findStream_api found (show (call.apiCall id copy reserve).callId = id by
        cases call <;> rfl)
      have same : ((call.apiCall id copy reserve).change left).out = left.out := by
        cases call <;> simp [AbiCall.apiCall, ApiCall.change, StreamCtx.write, finished,
          finish_of_finished finished]
      rw [← same] at finished ⊢
      simp only [made]
      split
      · exact ih stored finished
      · exact ⟨_, stored, rfl⟩

theorem complete_calls (handled : Handled) (conn : Conn) (id : StreamId) (copy reserve : Bool)
    (mode : Mode) : ∃ script, (handled.complete id copy reserve conn mode).calls =
      handled.calls ++ made id copy reserve script (perform handled.calls conn) := by
  cases mode with
  | c =>
      unfold Handled.complete
      dsimp only
      split
      · exact ⟨[], (List.append_nil _).symm⟩
      · split
        · exact ⟨[], (List.append_nil _).symm⟩
        · exact ⟨_, rfl⟩
  | cxx => exact ⟨_, rfl⟩
  | cxxResponder => exact ⟨[], (List.append_nil _).symm⟩

theorem finish_code (found : conn.findStream id = some left) (status : GrpcStatus)
    (message : Option Bytes) : resultToC (conn.finishCallInner id status message).1 = 0 := by
  simp [Conn.finishCallInner, found, resultToC]

/-- A response that is written, and finished with OK if the queue took it. -/
theorem respond_found (found : conn.findStream id = some left)
    (unfinished : left.out.finished = false) (buf : Bytes) (copy reserve : Bool) {ends : AbiCall}
    (finishes : ends = .finish Completion.okCode ∨ ends = .finishMsg Completion.okCode []) :
    let written := left.out.enqueueFramed buf copy reserve
    (runScript id copy reserve [.write buf, ends] conn).1 = decide (resultToC written.1 = 0) ∧
      ∃ last, (perform (made id copy reserve [.write buf, ends] conn) conn).findStream id =
          some last ∧
        last.out = if resultToC written.1 = 0 then written.2.finish .ok none else written.2 := by
  intro written
  let write : ApiCall := .writeCall id buf copy reserve
  have code : (conn.api write).1 = written.1 := by
    simp only [write, Conn.api, Conn.writeCall, Conn.writeCallWith, found, unfinished,
      Bool.false_eq_true, if_false]
    split <;> simp_all [written]
  have stored := findStream_api found (show write.callId = id from rfl)
  have queue : (write.change left).out = written.2 := by
    simp [write, ApiCall.change, StreamCtx.write, unfinished, written]
  obtain ⟨ended, finished⟩ :
      resultToC ((conn.api write).2.api (ends.apiCall id copy reserve)).1 = 0 ∧
        ∃ last, ((conn.api write).2.api (ends.apiCall id copy reserve)).2.findStream id =
            some last ∧
          last.out = written.2.finish .ok none := by
    rw [← queue]
    rcases finishes with rfl | rfl <;>
      exact ⟨finish_code stored _ _, _, findStream_api stored rfl, rfl⟩
  simp only [runScript, made, ite_self]
  change (if resultToC (conn.api write).1 = 0 then if resultToC ((conn.api write).2.api
    (ends.apiCall id copy reserve)).1 = 0 then _ else _ else _ : Bool × Conn).1 = _ ∧ ∃ last,
      (perform (write :: if resultToC (conn.api write).1 = 0 then _ else _) conn).findStream id =
        _ ∧ _
  rw [code, if_pos ended]
  split
  next taken => exact ⟨by simp [taken], finished⟩
  next refused => exact ⟨by simp [refused], _, stored, queue⟩

theorem concludeHandler_out (rc : Int) (stream : StreamCtx) :
    (concludeHandler rc stream).out =
      if rc = 0 then stream.out else stream.out.finish (grpcStatusFromI32 rc) none := by
  cases finished : stream.out.finished <;> by_cases ok : rc = 0 <;>
    simp [concludeHandler, OutQueue.finish, finished, ok, finalMessageOf]

/-- The calls of a handler, and what its code adds to them, are the answer. -/
theorem complete_answer (handled : Handled) (mode : Mode) {copy reserve : Bool}
    (found : (perform handled.calls conn).findStream id = some left) {last : StreamCtx}
    (ran : (perform (handled.complete id copy reserve conn mode).calls conn).findStream id =
      some last) :
    (concludeHandler (handled.complete id copy reserve conn mode).rc last).out =
      answer mode handled copy reserve left.out := by
  cases closed : left.out.finished with
  | true =>
    obtain ⟨script, calls⟩ := complete_calls handled conn id copy reserve mode
    obtain ⟨after, stored, same⟩ := made_of_finished copy reserve script found closed
    rw [calls, perform, List.foldl_append] at ran
    obtain rfl : after = last := Option.some.inj (stored.symm.trans ran)
    rw [concludeHandler_out, same, finish_of_finished closed, ite_self]
    simp [answer, closed]
  | false =>
  obtain ⟨calls, rc, message, encoded⟩ := handled
  have appended (more : List ApiCall) :
      perform (calls ++ more) conn = perform more (perform calls conn) :=
    List.foldl_append
  have ended (call : ApiCall) (named : call.callId = id)
      (alone : (perform (calls ++ [call]) conn).findStream id = some last) :
      last = call.change left := by
    rw [appended] at alone
    exact Option.some.inj (alone.symm.trans (findStream_api found named))
  rw [concludeHandler_out]
  simp only [Handled.complete, Completion.okCode] at ran ⊢
  rcases eq_or_ne rc 0 with rfl | ok
  · have taken : ¬ (0 : Int) = handlerDeferred := by decide
    cases encoded with
    | none =>
        cases mode with
        | c =>
            obtain rfl : left = last := by
              simpa [taken, Completion.script, made, found] using ran
            simp [taken, answer, closed, Completion.onIoThread, Completion.encodes]
            rfl
        | cxx =>
            simp only [if_true, Completion.script, made, ite_self] at ran
            rw [ended _ rfl ran]
            simp [answer, closed]
            rfl
        | cxxResponder =>
            obtain rfl : left = last := Option.some.inj (found.symm.trans ran)
            simp [answer]
    | some buf =>
        cases mode with
        | c =>
            obtain ⟨code, after, stored, queue⟩ :=
              respond_found found closed buf copy reserve (.inl rfl)
            simp only [taken, if_false, ne_eq, not_true_eq_false, Completion.script, appended,
              Completion.onIoThread, Completion.encodes, code] at ran ⊢
            obtain rfl : after = last := Option.some.inj (stored.symm.trans ran)
            by_cases accepted : resultToC (left.out.enqueueFramed buf copy reserve).1 = 0
            · simp [answer, closed, queue, accepted]
            · simp [answer, closed, queue, accepted, Completion.internalCode]
              rfl
        | cxx =>
            obtain ⟨_, after, stored, queue⟩ :=
              respond_found found closed buf copy reserve (.inr rfl)
            simp only [if_true, Completion.script, appended] at ran ⊢
            obtain rfl : after = last := Option.some.inj (stored.symm.trans ran)
            simp [answer, closed, queue]
        | cxxResponder =>
            obtain rfl : left = last := Option.some.inj (found.symm.trans ran)
            simp [answer]
  · cases mode with
    | c =>
        by_cases kept : rc = handlerDeferred <;>
          obtain rfl : left = last := by simpa [kept, ok, found] using ran
        · simp [answer, closed, kept, show ¬ handlerDeferred = 0 by decide]
        · simp [answer, closed, ok, kept]
    | cxx =>
        simp only [ok, if_false, Completion.script, made, ite_self] at ran
        rw [ended _ rfl ran]
        simp [answer, closed, ok]
        rfl
    | cxxResponder =>
        obtain rfl : left = last := Option.some.inj (found.symm.trans ran)
        simp [answer]

theorem answer_open {mode : Mode} {handled : Handled} {copy reserve : Bool} {out : OutQueue}
    (stays : (answer mode handled copy reserve out).finished = false) :
    StaysOpen mode handled copy reserve out := by
  have refused (result : Except ConnError Unit) (code : ¬ resultToC result = 0) :
      result ≠ .ok () := by
    rintro rfl
    exact code rfl
  unfold answer at stays
  unfold StaysOpen
  have ends := finished_finish
  split at stays
  next finished => simp [finished] at stays
  next => cases mode <;> split at stays <;> grind

/-- The handler of a stream makes its calls and returns, and the dispatch settles the call.  A
request that does not decode is answered with INVALID_ARGUMENT; otherwise the answer is what
the service did.  A call that the service did not finish stays open only if it was kept for
later, by the code of the C mode or by an overload of the C++ mode, or if the queue refused
the response of the C++ mode. -/
theorem generated_unary_is_answered (distinct : conn.Distinct) {position : Nat}
    (found : conn.streams[position]? = some stream) (decoded : Option Handled) (mode : Mode)
    (copy reserve : Bool) (submitRc : Int) :
    let run := trampoline stream.id copy reserve decoded conn mode
    ∃ later, ((perform run.calls conn).settle position stream.id run.rc submitRc).findStream
        stream.id = some later ∧
      (decoded = none → SameAnswer (stream.out.finish .invalidArgument none) later.out) ∧
      ∀ handled, decoded = some handled →
        ∃ left, (perform handled.calls conn).findStream stream.id = some left ∧
          SameAnswer (answer mode handled copy reserve left.out) later.out ∧
            (later.out.finished = false → StaysOpen mode handled copy reserve left.out) := by
  intro run
  have present := Conn.findStream_of_getElem? distinct found
  obtain ⟨last, later, ran, settled, same⟩ := settle_answer distinct found run submitRc
  refine ⟨later, settled, ?_, ?_⟩
  · rintro rfl
    have finished : (trampoline stream.id copy reserve none conn mode).calls = [] ∨
        (trampoline stream.id copy reserve none conn mode).calls =
          [.finishCall stream.id .invalidArgument] := by
      cases mode <;> simp [trampoline]
    have code : run.rc = 3 := by cases mode <;> rfl
    rw [concludeHandler_out, code] at same
    rcases finished with none | one
    · rw [none] at ran
      rwa [Option.some.inj (ran.symm.trans present)] at same
    · rw [one] at ran
      rw [Option.some.inj (ran.symm.trans (findStream_api present rfl))] at same
      change SameAnswer ((stream.out.finish .invalidArgument none).finish _ _) later.out at same
      rwa [finish_of_finished (finished_finish _ _ _)] at same
  · rintro handled rfl
    obtain ⟨left, placed, follows⟩ :=
      (conn.calls_send handled.calls).streams position stream found
    have spread := (conn.calls_act handled.calls).toKeeps.distinct distinct
    have there := Conn.findStream_of_getElem? spread placed
    rw [follows.id] at there
    change SameAnswer (concludeHandler (handled.complete stream.id copy reserve conn mode).rc
      last).out later.out at same
    rw [complete_answer handled mode there ran] at same
    refine ⟨left, there, same, fun stays => ?_⟩
    rw [same.2.1] at stays
    exact answer_open stays

/-- Without memory for the copy the response is lost and nobody finishes the call. -/
theorem generated_unary_stays_open :
    let conn := { Conn.newServer [] 64 (-1) with streams := [.new 1, .new 3] }
    let run := trampoline 3 false true (some ⟨[], 0, [], some [7]⟩) conn .cxx
    ∃ later, ((perform run.calls conn).settle 1 3 run.rc 0).findStream 3 = some later ∧
      later.out.finished = false := by
  intro conn run
  have distinct : conn.Distinct := by unfold Conn.Distinct; decide
  obtain ⟨later, settled, _, answered⟩ := @generated_unary_is_answered conn (.new 3) distinct 1
    rfl (some ⟨[], 0, [], some [7]⟩) .cxx false true 0
  obtain ⟨left, there, ⟨_, finished, _⟩, _⟩ := answered _ rfl
  obtain rfl : .new 3 = left := Option.some.inj there
  exact ⟨later, settled, finished⟩

end GrpcUds.Codegen
