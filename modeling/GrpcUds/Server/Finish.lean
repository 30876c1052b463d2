import GrpcUds.Server.Lifecycle

/-!
# Finishing, holding back and trailing

What the effects on a stream say about its outbound queue: which finish it
carries, whether nghttp2 holds its DATA back, and which trailer it has sent.
-/

namespace GrpcUds.Server

open Relation

/-- The status and message an effect asks the call to end with.  A handler that
returns a non-zero code asks for the mapped code. -/
def Effect.asFinish : Effect → Option (GrpcStatus × Option Bytes)
  | finish _ status message => some (status, message)
  | refused _ status => some (status, none)
  | returned _ rc => if rc = 0 then none else some (grpcStatusFromI32 rc, none)
  | _ => none

def firstFinish (log : List Effect) : Option (GrpcStatus × Option Bytes) :=
  log.findSome? Effect.asFinish

/-- A finish was asked for before the stream was dispatched. -/
def finishedEarly : List Effect → Bool
  | [] => false
  | effect :: rest =>
      if effect.startsDispatch then false else effect.asFinish.isSome || finishedEarly rest

/-- Effects on whether nghttp2 holds the stream's DATA back. -/
def Effect.isFlow : Effect → Bool
  | readReturned _ _ => true
  | resumeData _ => true
  | _ => false

def Effect.isTrailer : Effect → Bool
  | submitTrailer _ _ _ => true
  | _ => false

/-- How often a trailer was submitted. -/
def trailers (log : List Effect) : Nat := log.countP Effect.isTrailer

/-- The trailer block that a finish asks for. -/
def trailerOf (finish : GrpcStatus × Option Bytes) : List Headers.Nv :=
  match finalMessageOf finish.2 with
  | none => Headers.trailer finish.1
  | some message => Headers.trailerWithMessage finish.1 message

variable {effects log : List Effect} {out : OutQueue}

section Logs

theorem firstFinish_append (first second : List Effect) :
    firstFinish (first ++ second) = (firstFinish first).or (firstFinish second) :=
  List.findSome?_append

theorem firstFinish_of_neutral (neutral : ∀ effect ∈ effects, effect.asFinish = none) :
    firstFinish effects = none :=
  List.findSome?_eq_none_iff.mpr neutral

theorem finishedEarly_append (first second : List Effect) :
    finishedEarly (first ++ second) =
      (finishedEarly first || (decide (dispatches first = 0) && finishedEarly second)) := by
  induction first with
  | nil => simp [finishedEarly, dispatches]
  | cons effect rest ih =>
      cases starts : effect.startsDispatch with
      | true => simp [finishedEarly, dispatches, starts]
      | false =>
          have others : dispatches (effect :: rest) = dispatches rest := by
            simp [dispatches, starts]
          simp only [List.cons_append, finishedEarly, starts, Bool.false_eq_true, if_false,
            ih, others, Bool.or_assoc]

/-- Before the dispatch every finish is an early one. -/
theorem finishedEarly_of_undispatched (undispatched : dispatches log = 0) :
    finishedEarly log = (firstFinish log).isSome := by
  induction log with
  | nil => rfl
  | cons effect rest ih =>
      cases starts : effect.startsDispatch with
      | true => simp [dispatches, starts] at undispatched
      | false =>
          have others : dispatches rest = 0 := by
            simpa [dispatches, List.countP_cons, starts] using undispatched
          cases asked : effect.asFinish with
          | none =>
              simpa [finishedEarly, firstFinish, starts, asked] using ih others
          | some finish => simp [finishedEarly, firstFinish, starts, asked]

theorem deferred_append_of_silent (silent : ∀ effect ∈ effects, effect.isFlow = false)
    (log : List Effect) :
    deferred (log ++ effects) = deferred log := by
  have still : ∀ held, effects.foldl deferStep held = held := by
    induction effects with
    | nil => exact fun held => rfl
    | cons effect rest ih =>
        intro held
        have unmoved : deferStep held effect = held := by
          have quiet := silent effect (by simp)
          cases effect <;> simp_all [Effect.isFlow, deferStep]
        rw [List.foldl_cons, unmoved]
        exact ih (fun effect membership =>
          silent effect (List.mem_cons_of_mem _ membership)) held
  rw [deferred, List.foldl_append, still, deferred]

theorem deferred_read (log : List Effect) (id : StreamId) (outcome : ReadOutcome) :
    deferred (log ++ [.readReturned id outcome]) = decide (outcome = .deferred) := by
  simp [deferred, deferStep]

theorem deferred_resume (log : List Effect) (id : StreamId) :
    deferred (log ++ [.resumeData id]) = false := by
  simp [deferred, deferStep]

theorem trailers_append (first second : List Effect) :
    trailers (first ++ second) = trailers first + trailers second :=
  List.countP_append

theorem readEnded_append (first second : List Effect) :
    readEnded (first ++ second) = (readEnded first || readEnded second) := by
  simp [readEnded]

end Logs

/-! ### The finish that counts -/

/-- The queue's final status and message are those of the first finish, unless
an early finish was overwritten by a refusal. -/
structure Settled (log : List Effect) (out : OutQueue) : Prop where
  tracked : out.finished = (firstFinish log).isSome
  unset : firstFinish log = none → out.finalMessage = none
  carried : ∀ finish, firstFinish log = some finish → finishedEarly log = false →
    out.finalStatus = finish.1 ∧ out.finalMessage = finalMessageOf finish.2

/-- Equal in everything a finish sets. -/
def SameFinish (out out' : OutQueue) : Prop :=
  out'.finished = out.finished ∧ out'.finalStatus = out.finalStatus ∧
    out'.finalMessage = out.finalMessage

theorem sameFinish_of_enqueued {queue : OutQueue} {body : Bytes} {result : Except ConnError Unit}
    (enqueued : OutQueue.Enqueued queue body result out) :
    SameFinish queue out := by
  cases enqueued <;> exact ⟨rfl, rfl, rfl⟩

theorem finishedEarly_of_append (late : finishedEarly (log ++ effects) = false) :
    finishedEarly log = false := by
  rw [finishedEarly_append, Bool.or_eq_false_iff] at late
  exact late.1

theorem Settled.neutral {out' : OutQueue} (settled : Settled log out) (same : SameFinish out out')
    (neutral : ∀ effect ∈ effects, effect.asFinish = none) : Settled (log ++ effects) out' := by
  have first : firstFinish (log ++ effects) = firstFinish log := by
    rw [firstFinish_append, firstFinish_of_neutral neutral, Option.or_none]
  obtain ⟨finished, status, message⟩ := same
  refine ⟨by rw [first, finished, settled.tracked], fun none => ?_, fun finish asked late => ?_⟩
  · rw [message]
    exact settled.unset (first ▸ none)
  · rw [status, message]
    exact settled.carried finish (first ▸ asked) (finishedEarly_of_append late)

/-- Asking an unfinished queue to finish settles it; a finished one keeps what it has. -/
theorem Settled.finish {out' : OutQueue} {finish : GrpcStatus × Option Bytes}
    (settled : Settled log out) (asks : firstFinish effects = some finish)
    (kept : out.finished = true → SameFinish out out')
    (taken : out.finished = false → out'.finished = true ∧ out'.finalStatus = finish.1 ∧
      out'.finalMessage = (finalMessageOf finish.2).or out.finalMessage) :
    Settled (log ++ effects) out' := by
  cases known : firstFinish log with
  | some earlier =>
      have finished : out.finished = true := by rw [settled.tracked, known]; rfl
      obtain ⟨same, status, message⟩ := kept finished
      have first : firstFinish (log ++ effects) = some earlier := by
        rw [firstFinish_append, known]
        rfl
      refine ⟨by rw [first, same, finished]; rfl, by simp [first], fun finish asked late => ?_⟩
      rw [status, message]
      exact settled.carried finish (known.trans (first ▸ asked)) (finishedEarly_of_append late)
  | none =>
      have unfinished : out.finished = false := by rw [settled.tracked, known]; rfl
      obtain ⟨finished, status, message⟩ := taken unfinished
      have first : firstFinish (log ++ effects) = some finish := by
        rw [firstFinish_append, known, asks]
        rfl
      refine ⟨by rw [first, finished]; rfl, by simp [first], fun asked sameFirst _ => ?_⟩
      obtain rfl : finish = asked := by simpa [first] using sameFirst
      rw [message, settled.unset known, Option.or_none]
      exact ⟨status, rfl⟩

/-! ### Nothing is stuck -/

/-- While the stream's DATA is deferred the queue is empty and open, and the
response is under way, so that the next write or finish issues a resume. -/
structure Flowing (id : StreamId) (log : List Effect) (out : OutQueue) : Prop where
  answered : .submitResponse id 0 ∈ log → out.responseStarted = true
  held : deferred log = true →
    out.responseStarted = true ∧ out.messages = [] ∧ out.finished = false

theorem Flowing.silent {id : StreamId} {out' : OutQueue} (flowing : Flowing id log out)
    (started : out'.responseStarted = out.responseStarted)
    (emptied : out.messages = [] → out'.messages = []) (finished : out'.finished = out.finished)
    (unanswered : .submitResponse id 0 ∉ effects)
    (silent : ∀ effect ∈ effects, effect.isFlow = false) : Flowing id (log ++ effects) out' := by
  refine ⟨fun membership => ?_, fun held => ?_⟩
  · rcases List.mem_append.mp membership with old | new
    · exact started.trans (flowing.answered old)
    · exact absurd new unanswered
  · rw [deferred_append_of_silent silent] at held
    obtain ⟨isStarted, empty, unfinished⟩ := flowing.held held
    exact ⟨started.trans isStarted, emptied empty, finished.trans unfinished⟩

/-- Before the response there is nothing to hold back. -/
theorem Flowing.undeferred {id : StreamId} (flowing : Flowing id log out)
    (unstarted : out.responseStarted = false) :
    deferred log = false := by
  cases held : deferred log with
  | false => rfl
  | true => exact absurd (flowing.held held).1 (by simp [unstarted])

theorem Flowing.of_undeferred {id : StreamId} {out' : OutQueue} (flowing : Flowing id log out)
    (started : out'.responseStarted = out.responseStarted)
    (unanswered : .submitResponse id 0 ∉ effects) (free : deferred (log ++ effects) = false) :
    Flowing id (log ++ effects) out' := by
  refine ⟨fun membership => ?_, fun held => absurd held (by simp [free])⟩
  rcases List.mem_append.mp membership with old | new
  · exact started.trans (flowing.answered old)
  · exact absurd new unanswered

/-- A refusal settles the queue; it overwrites only an early finish. -/
theorem Settled.refuse {stream : StreamCtx} (settled : Settled log stream.out)
    (undispatched : dispatches log = 0) (id : StreamId) (status : GrpcStatus) (rc : Int) :
    Settled (log ++ [.refused id status, .submitResponse id rc])
      ((finalizeError status stream).respond rc .dispatched).out := by
  have asks : firstFinish [.refused id status, .submitResponse id rc] = some (status, none) := rfl
  have after : ((finalizeError status stream).respond rc .dispatched).out.finished = true ∧
      ((finalizeError status stream).respond rc .dispatched).out.finalStatus = status ∧
      ((finalizeError status stream).respond rc .dispatched).out.finalMessage =
        stream.out.finalMessage := by
    unfold StreamCtx.respond
    split <;> exact ⟨rfl, rfl, rfl⟩
  obtain ⟨finished, finalStatus, message⟩ := after
  cases known : firstFinish log with
  | none =>
      have first : firstFinish (log ++ [.refused id status, .submitResponse id rc]) =
          some (status, none) := by
        rw [firstFinish_append, known, asks]
        rfl
      refine ⟨by rw [first, finished]; rfl, by simp [first], fun asked sameFirst _ => ?_⟩
      obtain rfl : (status, none) = asked := by simpa [first] using sameFirst
      exact ⟨finalStatus, message.trans (settled.unset known)⟩
  | some earlier =>
      have first : firstFinish (log ++ [.refused id status, .submitResponse id rc]) =
          some earlier := by
        rw [firstFinish_append, known]
        rfl
      have early : finishedEarly log = true := by
        rw [finishedEarly_of_undispatched undispatched, known]
        rfl
      refine ⟨by rw [first, finished]; rfl, by simp [first], fun _ _ late => ?_⟩
      exact absurd (finishedEarly_of_append late) (by simp [early])

/-- A stream whose response is submitted now was not held back before. -/
theorem Flowing.respond {id : StreamId} {before : List Effect} {stream changed : StreamCtx}
    (flowing : Flowing id log stream.out) (unstarted : stream.out.responseStarted = false)
    (rc : Int) (failed : StreamState) (unanswered : .submitResponse id 0 ∉ before)
    (silent : ∀ effect ∈ before, effect.isFlow = false) :
    Flowing id (log ++ (before ++ [.submitResponse id rc])) (changed.respond rc failed).out := by
  have free : deferred (log ++ (before ++ [.submitResponse id rc])) = false := by
    rw [deferred_append_of_silent, flowing.undeferred unstarted]
    intro effect membership
    rcases List.mem_append.mp membership with old | last
    · exact silent effect old
    · rw [List.mem_singleton.mp last]
      rfl
  refine ⟨fun membership => ?_, fun held => absurd held (by simp [free])⟩
  by_cases accepted : rc = 0
  · simp [StreamCtx.respond, accepted, startResponse]
  · rcases List.mem_append.mp membership with old | new
    · exact absurd (flowing.answered old) (by simp [unstarted])
    · rcases List.mem_append.mp new with earlier | last
      · exact absurd earlier unanswered
      · simp [accepted, eq_comm] at last

/-! ### The trailer -/

/-- The trailer goes out at most once, at the end of the DATA, and carries the
finish that counts. -/
structure Trailed (id : StreamId) (log : List Effect) : Prop where
  count : trailers log ≤ if readEnded log then 1 else 0
  carried : finishedEarly log = false → ∀ nva rc, .submitTrailer id nva rc ∈ log →
    ∃ finish, firstFinish log = some finish ∧ nva = trailerOf finish

theorem Trailed.append {id : StreamId} (trailed : Trailed id log)
    (untrailed : ∀ effect ∈ effects, effect.isTrailer = false) : Trailed id (log ++ effects) := by
  have none : trailers effects = 0 := by
    rw [trailers, List.countP_eq_zero]
    intro effect membership
    simp [untrailed effect membership]
  refine ⟨?_, fun late nva rc membership => ?_⟩
  · rw [trailers_append, none, readEnded_append]
    have count := trailed.count
    cases ended : readEnded log with
    | false =>
        rw [ended] at count
        exact (Nat.le_zero.mp count).symm ▸ Nat.zero_le _
    | true => simpa [ended] using count
  · rcases List.mem_append.mp membership with old | new
    · obtain ⟨finish, first, carries⟩ :=
        trailed.carried (finishedEarly_of_append late) nva rc old
      exact ⟨finish, by rw [firstFinish_append, first]; rfl, carries⟩
    · exact absurd (untrailed _ new) (by simp [Effect.isTrailer])

/-- The trailer block of a settled queue is the one its first finish asks for. -/
theorem Settled.trailerFor_eq (settled : Settled log out) (finished : out.finished = true)
    (late : finishedEarly log = false) :
    ∃ finish, firstFinish log = some finish ∧ trailerFor out = trailerOf finish := by
  have some' := settled.tracked
  rw [finished] at some'
  obtain ⟨finish, asked⟩ := Option.isSome_iff_exists.mp some'.symm
  obtain ⟨status, message⟩ := settled.carried finish asked late
  refine ⟨finish, asked, ?_⟩
  unfold trailerFor trailerOf
  rw [message, status]
  cases encoded : finalMessageOf finish.2 with
  | none => rfl
  | some text =>
      have nonempty : text ≠ [] := by
        unfold finalMessageOf at encoded
        split at encoded
        · simp at encoded
        next raw =>
          split at encoded
          · simp at encoded
          next present =>
            obtain rfl := Option.some.inj encoded
            rw [Ne, Headers.percentEncodeMessage_eq_nil_iff]
            simpa using present
      simp [nonempty]

theorem Trailed.trail {id : StreamId} (trailed : Trailed id log) (settled : Settled log out)
    (finished : out.finished = true) (unended : readEnded log = false) (rc : Int)
    (outcome : ReadOutcome) (final : outcome.isFinal = true) :
    Trailed id (log ++ [.submitTrailer id (trailerFor out) rc, .readReturned id outcome]) := by
  have count := trailed.count
  rw [unended] at count
  refine ⟨?_, fun late nva rc' membership => ?_⟩
  · rw [trailers_append, readEnded_append]
    simp only [readEnded, List.any_cons, final, Bool.or_true, Bool.true_or, if_true]
    simp only [Bool.false_eq_true, if_false, Nat.le_zero] at count
    rw [count]
    rfl
  · have lateBefore := finishedEarly_of_append late
    have first : ∀ finish, firstFinish log = some finish → firstFinish
        (log ++ [.submitTrailer id (trailerFor out) rc, .readReturned id outcome]) = some finish :=
      fun finish known => by rw [firstFinish_append, known]; rfl
    rcases List.mem_append.mp membership with old | new
    · obtain ⟨finish, known, carries⟩ := trailed.carried lateBefore nva rc' old
      exact ⟨finish, first finish known, carries⟩
    · obtain ⟨finish, known, carries⟩ := settled.trailerFor_eq finished lateBefore
      have same : nva = trailerFor out := by simp at new; exact new.1
      exact ⟨finish, first finish known, same.trans carries⟩

end GrpcUds.Server
