import GrpcUds.Server.HookLaw
import Mathlib.Data.List.Induction
import Mathlib.Data.List.TakeWhile

/-!
# When cancel hooks fire

Facts about every history that obeys the law of `Phase`, and from them what
every run of a session does with its hooks.
-/

namespace GrpcUds.Server

open Transition Framing Headers

namespace HookEvent

def asInstalled : HookEvent → Option CancelHook
  | installed hook => some hook
  | _ => none

def asFired : HookEvent → Option CancelHook
  | fired hook => some hook
  | _ => none

/-- The event ends a call that the server has not finished: by an error, by its
deadline, or with the connection. -/
def endsCall : HookEvent → Bool
  | expired => true
  | closed errorCode finished => decide (errorCode ≠ 0) && !finished
  | dropped finished => !finished
  | _ => false

end HookEvent

/-- The part of a history in which an installation stands, up to the next one. -/
def tenure (history : List HookEvent) : List HookEvent :=
  history.takeWhile fun event => event.asInstalled.isNone

def firings (history : List HookEvent) : List CancelHook := history.filterMap HookEvent.asFired

/-- Each hook does in a history what its contract says. -/
structure HooksExact (history : List HookEvent) : Prop where
  /-- The hook of an unfinished call that ends so fires exactly once. -/
  once : ∀ before hook after, history = before ++ .installed hook :: after →
    (∃ event ∈ tenure after, event.endsCall = true) → firings (tenure after) = [hook]
  /-- It does not fire if the call closes cleanly without having expired. -/
  clean : ∀ before hook after finished, history = before ++ .installed hook :: after →
    .closed 0 finished ∈ tenure after → .expired ∉ tenure after → firings (tenure after) = []
  /-- It does not fire once another hook has taken its place. -/
  replaced : ∀ before hook middle other after,
    history = before ++ .installed hook :: (middle ++ .installed other :: after) →
      .installed hook ∉ .installed other :: after → hook ∉ firings after

theorem tenure_cons_installed (hook : CancelHook) (rest : List HookEvent) :
    tenure (.installed hook :: rest) = [] := rfl

variable {event : HookEvent} {final : Phase}

theorem tenure_cons (other : event.asInstalled = none) (rest : List HookEvent) :
    tenure (event :: rest) = event :: tenure rest := by
  simp [tenure, other]

theorem tenure_append {span : List HookEvent} (whole : tenure span = span)
    (plain : event.asInstalled = none) : tenure (span ++ [event]) = span ++ [event] := by
  apply List.takeWhile_eq_self_iff.mpr
  intro listed membership
  rcases List.mem_append.mp membership with old | last
  · exact List.takeWhile_eq_self_iff.mp whole listed old
  · rw [List.mem_singleton.mp last, plain]
    rfl

theorem firings_append_of_silent (span : List HookEvent) (silent : event.asFired = none) :
    firings (span ++ [event]) = firings span := by
  simp [firings, silent]

theorem firings_cons_fired (hook : CancelHook) (rest : List HookEvent) :
    firings (.fired hook :: rest) = hook :: firings rest := rfl

theorem firings_cons (silent : event.asFired = none) (rest : List HookEvent) :
    firings (event :: rest) = firings rest := by
  simp [firings, silent]

namespace Phase

variable {events : List HookEvent} {finished : Bool} {hook : CancelHook}

theorem run_gone (followed : run next .gone events = some final) : events = [] := by
  cases events with
  | nil => rfl
  | cons event rest => cases event <;> simp [next] at followed

/-- A stream without a hook fires none until one is installed. -/
theorem firings_of_empty (followed : run next (.live none finished) events = some final) :
    firings (tenure events) = [] := by
  induction events generalizing finished with
  | nil => rfl
  | cons event rest ih =>
      obtain ⟨phase, stepped, continued⟩ := Option.bind_eq_some_iff.mp followed
      cases event with
      | installed hook => rfl
      | finish =>
          obtain rfl := Option.some.inj stepped
          exact ih continued
      | concluded =>
          obtain rfl := Option.some.inj stepped
          exact ih continued
      | expired =>
          cases finished with
          | true => simp [next] at stepped
          | false =>
              obtain rfl := Option.some.inj stepped
              exact ih continued
      | closed errorCode answered =>
          obtain ⟨_, rfl⟩ : finished = answered ∧ .gone = phase := by
            simpa [next] using stepped
          obtain rfl := run_gone continued
          rfl
      | dropped answered =>
          obtain ⟨_, rfl⟩ : finished = answered ∧ .gone = phase := by
            simpa [next] using stepped
          obtain rfl := run_gone continued
          rfl
      | fired hook => simp [next] at stepped

/-- A hook that is asked for fires next. -/
theorem run_owing {closing : Bool} (followed : run next (.owing hook closing) events = some final)
    (settled : final.Settled) :
    ∃ later, events = .fired hook :: later ∧
      run next (if closing then .gone else .live none true) later = some final := by
  cases events with
  | nil =>
      obtain rfl := Option.some.inj followed
      exact settled.elim
  | cons event rest =>
      obtain ⟨phase, stepped, continued⟩ := Option.bind_eq_some_iff.mp followed
      cases event with
      | fired other =>
          obtain ⟨rfl, rfl⟩ : hook = other ∧ (if closing then gone else live none true) =
              phase := by
            simpa [next] using stepped
          exact ⟨rest, rfl, continued⟩
      | _ => simp [next] at stepped

/-- Nothing has asked for the hook. -/
structure Untouched (span : List HookEvent) : Prop where
  silent : firings span = []
  calm : ∀ event ∈ span, event.endsCall = false
  clean : ∀ errorCode answered, .closed errorCode answered ∈ span → errorCode = 0

/-- The hook fired, for an expiry of an unfinished call or for a reset. -/
structure FiredOnce (hook : CancelHook) (finished : Bool) (span : List HookEvent) : Prop where
  once : firings span = [hook]
  cause : (finished = false ∧ .expired ∈ span) ∨
    (∃ errorCode answered, errorCode ≠ 0 ∧ .closed errorCode answered ∈ span) ∧
      ∀ answered, .closed 0 answered ∉ span

section Finishing

variable {event : HookEvent} {span : List HookEvent} (silent : event.asFired = none)
  (stays : ∀ errorCode answered, event ≠ .closed errorCode answered)
include silent stays

theorem Untouched.cons (untouched : Untouched span) (calm : event.endsCall = false) :
    Untouched (event :: span) where
  silent := by rw [firings_cons silent, untouched.silent]
  calm := by simpa [calm] using untouched.calm
  clean := by
    intro errorCode answered listed
    rcases List.mem_cons.mp listed with first | later
    · exact absurd first.symm (stays errorCode answered)
    · exact untouched.clean errorCode answered later

theorem FiredOnce.cons (fired : FiredOnce hook true span) :
    FiredOnce hook finished (event :: span) where
  once := by rw [firings_cons silent, fired.once]
  cause := by
    rcases fired.cause with ⟨impossible, _⟩ | ⟨⟨errorCode, answered, failed, listed⟩, clean⟩
    · simp at impossible
    · refine .inr ⟨⟨errorCode, answered, failed, List.mem_cons_of_mem _ listed⟩, ?_⟩
      intro other present
      rcases List.mem_cons.mp present with first | later
      · exact stays 0 other first.symm
      · exact clean other later

end Finishing

/-- The two lives of an installed hook: nothing asks for it before the next
installation, or something does and it fires once. -/
theorem tenure_cases (followed : run next (.live (some hook) finished) events = some final)
    (settled : final.Settled) :
    Untouched (tenure events) ∨ FiredOnce hook finished (tenure events) := by
  induction events generalizing finished with
  | nil => exact .inl ⟨rfl, by simp [tenure], by simp [tenure]⟩
  | cons event rest ih =>
      obtain ⟨phase, stepped, continued⟩ := Option.bind_eq_some_iff.mp followed
      cases event with
      | installed other =>
          rw [tenure_cons_installed]
          exact .inl ⟨rfl, by simp, by simp⟩
      | finish =>
          obtain rfl := Option.some.inj stepped
          rw [tenure_cons rfl]
          exact (ih continued).imp (fun untouched => untouched.cons rfl (by simp) rfl)
            (fun fired => fired.cons rfl (by simp))
      | concluded =>
          obtain rfl := Option.some.inj stepped
          rw [tenure_cons rfl]
          exact (ih continued).imp (fun untouched => untouched.cons rfl (by simp) rfl)
            (fun fired => fired.cons rfl (by simp))
      | expired =>
          cases finished with
          | true => simp [next] at stepped
          | false =>
              obtain rfl := Option.some.inj stepped
              obtain ⟨later, rfl, after⟩ := run_owing continued settled
              rw [tenure_cons rfl, tenure_cons rfl]
              refine .inr ⟨?_, .inl ⟨rfl, by simp⟩⟩
              rw [firings_cons rfl, firings_cons_fired, firings_of_empty after]
      | closed errorCode answered =>
          by_cases clean : errorCode = 0
          · obtain ⟨_, rfl⟩ : finished = answered ∧ .gone = phase := by
              simpa [next, clean] using stepped
            obtain rfl := run_gone continued
            exact .inl ⟨rfl, by simp [tenure, HookEvent.asInstalled, HookEvent.endsCall, clean],
              by simp [tenure, HookEvent.asInstalled, clean]⟩
          · obtain ⟨_, rfl⟩ : finished = answered ∧ .owing hook true = phase := by
              simpa [next, clean] using stepped
            obtain ⟨later, rfl, after⟩ := run_owing continued settled
            obtain rfl := run_gone after
            refine .inr ⟨rfl, .inr ⟨⟨errorCode, answered, clean, by simp [tenure,
              HookEvent.asInstalled]⟩, ?_⟩⟩
            simp [tenure, HookEvent.asInstalled, Ne.symm clean]
      | dropped answered =>
          obtain ⟨rfl, held, rfl⟩ : finished = answered ∧ finished = true ∧ .gone = phase := by
            simpa [next] using stepped
          obtain rfl := run_gone continued
          exact .inl ⟨rfl, by simp [tenure, HookEvent.asInstalled, HookEvent.endsCall, held],
            by simp [tenure, HookEvent.asInstalled]⟩
      | fired other => simp [next] at stepped

/-- The hook in the slot. -/
def slot : Phase → Option CancelHook
  | live hook _ => hook
  | owing hook _ => some hook
  | gone => none

/-- Only an installation fills the slot. -/
theorem slot_of_next {phase after : Phase} (stepped : phase.next event = some after)
    (held : after.slot = some hook) :
    phase.slot = some hook ∨ event = .installed hook := by
  unfold next at stepped
  split at stepped <;> grind [slot]

/-- What fires was in the slot or has been installed since. -/
theorem mem_firings {phase : Phase} (followed : run next phase events = some final)
    (fires : hook ∈ firings events) :
    phase.slot = some hook ∨ .installed hook ∈ events := by
  induction events generalizing phase with
  | nil => simp [firings] at fires
  | cons event rest ih =>
      obtain ⟨after, stepped, continued⟩ := Option.bind_eq_some_iff.mp followed
      have later : hook ∈ firings rest →
          phase.slot = some hook ∨ .installed hook ∈ event :: rest := by
        intro fires
        rcases ih continued fires with held | installed
        · exact (slot_of_next stepped held).imp id fun same => by simp [same]
        · exact .inr (List.mem_cons_of_mem _ installed)
      cases fired : event.asFired with
      | none =>
          rw [firings_cons fired] at fires
          exact later fires
      | some other =>
          obtain rfl : event = .fired other := by
            cases event <;> simp_all [HookEvent.asFired]
          rcases List.mem_cons.mp fires with rfl | fires
          · left
            cases phase <;> simp [next] at stepped
            exact congrArg some stepped.1
          · exact later fires

/-- Where the standing hook does not fire, what fires has been installed since. -/
theorem mem_firings_of_silent {phase : Phase} (followed : run next phase events = some final)
    (silent : firings (tenure events) = []) (fires : hook ∈ firings events) :
    .installed hook ∈ events := by
  induction events generalizing phase with
  | nil => simp [firings] at fires
  | cons event rest ih =>
      obtain ⟨after, stepped, continued⟩ := Option.bind_eq_some_iff.mp followed
      cases placed : event.asInstalled with
      | none =>
          rw [tenure_cons placed] at silent
          have quiet : event.asFired = none := List.filterMap_eq_nil_iff.mp silent event (by simp)
          rw [firings_cons quiet] at silent fires
          exact List.mem_cons_of_mem _ (ih continued silent fires)
      | some other =>
          obtain rfl : event = .installed other := by
            cases event <;> simp_all [HookEvent.asInstalled]
          rw [firings_cons rfl] at fires
          rcases mem_firings continued fires with held | again
          · obtain ⟨_, _, rfl⟩ : ∃ earlier finished, phase = .live earlier finished := by
              cases phase <;> simp [next] at stepped ⊢
            obtain rfl := Option.some.inj stepped
            obtain rfl : other = hook := Option.some.inj held
            exact List.mem_cons_self
          · exact List.mem_cons_of_mem _ again

/-- A filled slot was filled by an installation that nothing has asked for since. -/
theorem exists_installed
    (followed : run next (.live none false) events = some (.live (some hook) finished)) :
    ∃ before after, events = before ++ .installed hook :: after ∧ tenure after = after ∧
      firings after = [] := by
  induction events using List.reverseRecOn generalizing finished with
  | nil => simp at followed
  | append_singleton events event ih =>
      rw [run_append] at followed
      obtain ⟨phase, earlier, stepped⟩ := Option.bind_eq_some_iff.mp followed
      rw [run_cons] at stepped
      obtain ⟨_, stepped, same⟩ := Option.bind_eq_some_iff.mp stepped
      obtain rfl := Option.some.inj same
      -- only these steps leave a hook in the slot
      have filled : event = .installed hook ∨ (event = .finish ∨ event = .concluded) ∧
          ∃ finished, phase = .live (some hook) finished := by
        unfold next at stepped
        split at stepped <;> grind
      rcases filled with rfl | ⟨plain, earlierFinished, rfl⟩
      · exact ⟨events, [], rfl, rfl, rfl⟩
      · obtain ⟨before, after, rfl, whole, silent⟩ := ih earlier
        refine ⟨before, after ++ [event], by simp, ?_, ?_⟩
        · apply tenure_append whole
          rcases plain with rfl | rfl <;> rfl
        · rw [firings_append_of_silent after, silent]
          rcases plain with rfl | rfl <;> rfl

/-- The server has answered the call, or it is gone. -/
def answered : Phase → Bool
  | live _ finished => finished
  | _ => true

theorem answered_of_finish {phase : Phase} (followed : run next phase events = some final)
    (finish : phase.answered = true ∨ .finish ∈ events) : final.answered = true := by
  induction events generalizing phase with
  | nil =>
      obtain rfl := Option.some.inj followed
      simpa using finish
  | cons event rest ih =>
      obtain ⟨after, stepped, continued⟩ := Option.bind_eq_some_iff.mp followed
      have kept : phase.answered = true ∨ event = .finish → after.answered = true := by
        unfold next at stepped
        split at stepped <;> grind [answered]
      apply ih continued
      rcases finish with earlier | listed
      · exact .inl (kept (.inl earlier))
      · rcases List.mem_cons.mp listed with same | later
        · exact .inl (kept (.inr same.symm))
        · exact .inr later

/-- Where anything but a firing comes next, the stream is live. -/
theorem live_of_next {phase after : Phase} (stepped : phase.next event = some after)
    (silent : event.asFired = none) :
    ∃ hook finished, phase = .live hook finished := by
  unfold next at stepped
  split at stepped <;> grind [HookEvent.asFired]

/-- A live stream keeps its hook where nothing is installed. -/
theorem hook_of_next {later : Bool} {held : Option CancelHook}
    (stepped : (live (some hook) finished).next event = some (.live held later))
    (plain : event.asInstalled = none) : held = some hook := by
  unfold next at stepped
  split at stepped <;> grind [HookEvent.asInstalled]

/-- A hook that stands and has not fired is in the slot when the call is finished. -/
theorem run_finish {since rest : List HookEvent} (standing : tenure since = since)
    (unfired : firings since = [])
    (followed : run next (.live (some hook) finished) (since ++ .finish :: rest) = some final) :
    run next (.live (some hook) true) rest = some final := by
  have plain : ∀ event ∈ since, event.asInstalled = none := fun event listed => by
    simpa using List.takeWhile_eq_self_iff.mp standing event listed
  have silent : ∀ event ∈ since, event.asFired = none := List.filterMap_eq_nil_iff.mp unfired
  clear standing unfired
  induction since generalizing finished with
  | nil => exact followed
  | cons event since ih =>
      obtain ⟨phase, stepped, continued⟩ := Option.bind_eq_some_iff.mp followed
      have live : ∃ held later, phase = .live held later := by
        cases since with
        | nil =>
            obtain ⟨_, following, _⟩ := Option.bind_eq_some_iff.mp continued
            exact live_of_next following rfl
        | cons head tail =>
            obtain ⟨_, following, _⟩ := Option.bind_eq_some_iff.mp continued
            exact live_of_next following (silent head (by simp))
      obtain ⟨held, later, rfl⟩ := live
      obtain rfl := hook_of_next stepped (plain event (by simp))
      exact ih continued (fun event listed => plain event (by simp [listed]))
        fun event listed => silent event (by simp [listed])

end Phase

/-- A history that obeys the law keeps the contract of its hooks. -/
theorem hooksExact_of_lawful {history : List HookEvent}
    (followed : run Phase.next (.live none false) history = some final) (settled : final.Settled) :
    HooksExact history := by
  -- after an installation the slot holds its hook
  have installed : ∀ {before hook after}, history = before ++ .installed hook :: after →
      ∃ finished, run Phase.next (.live (some hook) finished) after = some final := by
    rintro before hook after rfl
    rw [run_append] at followed
    obtain ⟨phase, _, continued⟩ := Option.bind_eq_some_iff.mp followed
    obtain ⟨next, stepped, continued⟩ := Option.bind_eq_some_iff.mp continued
    cases phase with
    | live earlier finished =>
        obtain rfl := Option.some.inj stepped
        exact ⟨finished, continued⟩
    | owing _ _ => simp [Phase.next] at stepped
    | gone => simp [Phase.next] at stepped
  constructor
  · intro before hook after split ends
    obtain ⟨finished, continued⟩ := installed split
    rcases Phase.tenure_cases continued settled with untouched | fired
    · obtain ⟨event, listed, ending⟩ := ends
      simp [untouched.calm event listed] at ending
    · exact fired.once
  · intro before hook after answered split closed unexpired
    obtain ⟨finished, continued⟩ := installed split
    rcases Phase.tenure_cases continued settled with untouched | fired
    · exact untouched.silent
    · rcases fired.cause with ⟨_, expired⟩ | ⟨_, unclean⟩
      · exact absurd expired unexpired
      · exact absurd closed (unclean answered)
  · intro before hook middle other after split gone fires
    have later : history = (before ++ .installed hook :: middle) ++ .installed other :: after := by
      simp [split]
    obtain ⟨finished, continued⟩ := installed later
    rcases Phase.mem_firings continued fires with held | again
    · obtain rfl : other = hook := Option.some.inj held
      simp at gone
    · exact gone (List.mem_cons_of_mem _ again)

theorem Lane.phase_settled (lane : Lane) (id : StreamId) : (lane.phase id).Settled := by
  unfold Lane.phase
  split
  · trivial
  · split <;> trivial

namespace Session

theorem phase_of_open {session : Session} (open_ : session.dropped = false) (id : StreamId) :
    session.phase id = (session.conn.lane id).phase id := by
  simp [phase, open_]

/-- A step obeys the law, unless it drops the hook of an unfinished call. -/
theorem step_follows {session next : Session} {event : SessionEvent} {id : StreamId}
    (sound : session.Sound) (disarmed : session.DropsDisarmed id event)
    (performed : session.step event = some next) :
    run Phase.next (session.phase id) (session.hookEvents id event) = some (next.phase id) := by
  obtain ⟨open_, steps⟩ := step_inv performed
  rw [phase_of_open open_]
  cases steps with
  | conn event legal =>
      rw [phase_of_open (show ({ session with conn := session.conn.perform event } :
        Session).dropped = false from open_)]
      exact Conn.perform_lawful sound legal id
  | drop =>
      cases found : session.conn.findStream id with
      | none =>
          have absent : (session.conn.lane id).ctx = none := found
          simp [hookEvents, found, phase, Lane.phase, absent]
      | some stream =>
          have present : (session.conn.lane id).ctx = some stream := found
          have opened : .opened id ∈ (session.conn.lane id).log := by
            have known := sound.opened stream (Table.lookup_mem found)
            rwa [Table.lookup_key found] at known
          have held := disarmed stream found
          cases finished : stream.out.finished with
          | true =>
              simp [hookEvents, found, phase, Lane.phase, present, opened, Phase.next, finished]
          | false =>
              simp [hookEvents, found, phase, Lane.phase, present, opened, Phase.next, finished,
                held finished]

/-- A drop that is not disarmed meets a filled slot. -/
theorem armed_of_not_disarmed {session : Session} {event : SessionEvent} {id : StreamId}
    (open_ : session.dropped = false) (armed : ¬ session.DropsDisarmed id event) :
    event = .drop ∧ session.hookEvents id .drop = [.dropped false] ∧
      ∃ hook, session.phase id = .live (some hook) false := by
  cases event with
  | conn event => exact absurd trivial armed
  | drop =>
      simp only [DropsDisarmed, not_forall] at armed
      obtain ⟨stream, found, unfinished, held⟩ := armed
      have present : (session.conn.lane id).ctx = some stream := found
      obtain ⟨hook, installed⟩ := Option.ne_none_iff_exists'.mp held
      refine ⟨rfl, by simp [hookEvents, found, unfinished], hook, ?_⟩
      simp [phase_of_open open_, Lane.phase, present, installed, unfinished]

theorem run_of_dropped {session final : Session} {events : List SessionEvent}
    (dropped : session.dropped = true) (reached : run step session events = some final) :
    events = [] := by
  cases events with
  | nil => rfl
  | cons event rest => simp [step, dropped] at reached

section Runs

variable {methods : List MethodEntry} {maxMessageLen : UInt32} {fd : Int}
  {events : List SessionEvent} {final : Session}

/-- The history of a call whose hook no drop takes obeys the law. -/
theorem history_lawful {id : StreamId}
    (reached : run step (newServer methods maxMessageLen fd) events = some final)
    (along : Along step (DropsDisarmed id) (newServer methods maxMessageLen fd) events) :
    run Phase.next (.live none false)
      (hookHistory id (newServer methods maxMessageLen fd) events) = some (final.phase id) :=
  along.run_observe (fun _ _ _ => step_sound)
    (fun _ _ _ => step_follows) (newServer_sound methods maxMessageLen fd) reached

/-- Any other history ends with that drop. -/
theorem history_of_drop {id : StreamId}
    (reached : run step (newServer methods maxMessageLen fd) events = some final)
    (broken : ¬ Along step (DropsDisarmed id) (newServer methods maxMessageLen fd) events) :
    ∃ earlier hook,
      hookHistory id (newServer methods maxMessageLen fd) events = earlier ++ [.dropped false] ∧
      run Phase.next (.live none false) earlier = some (.live (some hook) false) := by
  obtain ⟨before, event, after, middle, next, rfl, along, ran, armed, performed, continued⟩ :=
    Along.exists_break reached broken
  obtain ⟨open_, steps⟩ := step_inv performed
  obtain ⟨rfl, marked, hook, phase⟩ := armed_of_not_disarmed open_ armed
  cases steps
  obtain rfl := run_of_dropped rfl continued
  refine ⟨hookHistory id (newServer methods maxMessageLen fd) before, hook, ?_, ?_⟩
  · rw [hookHistory, observe_append ran, observe_cons performed, marked]
    rfl
  · rw [← phase]
    exact history_lawful ran along

/-- In every run, the hooks of a call do what their contract says exactly when
the connection is not dropped while the call is open, unfinished and has a hook
installed.  Dropping the connection then loses the hook. -/
theorem hooks_fire_exactly_once (id : StreamId)
    (reached : run step (newServer methods maxMessageLen fd) events = some final) :
    HooksExact (hookHistory id (newServer methods maxMessageLen fd) events) ↔
      Along step (DropsDisarmed id) (newServer methods maxMessageLen fd) events := by
  constructor
  · intro exact_
    by_contra broken
    obtain ⟨earlier, hook, history, armed⟩ := history_of_drop reached broken
    obtain ⟨before, after, rfl, whole, silent⟩ := Phase.exists_installed armed
    have standing : tenure (after ++ [.dropped false]) = after ++ [.dropped false] :=
      tenure_append whole rfl
    have once := exact_.once before hook (after ++ [.dropped false]) (by simp [history])
      ⟨.dropped false, by simp [standing], rfl⟩
    rw [standing, firings_append_of_silent after rfl, silent] at once
    simp at once
  · intro along
    exact hooksExact_of_lawful (history_lawful reached along) (Lane.phase_settled _ id)

end Runs

/-- A call whose handler installs a hook and leaves the call open. -/
def armedCall (id : StreamId) (hook : CancelHook) : List SessionEvent :=
  [.conn (.beginHeaders ⟨id, nvHeaders, 0, .request⟩ true),
    .conn (.header id nPath (ascii "/S/M") 0 true),
    .conn (.dataChunkRecv id (frame [9]) true),
    .conn (.frameRecv ⟨id, nvData, flagEndStream, .headers⟩),
    .conn (.dispatch ⟨fun _ => ⟨[.setCancelHook id hook], 0⟩, fun _ => 0⟩)]

/-- A connection with one method, without a socket. -/
def oneMethod : Session := newServer [⟨ascii "/S/M", 7, 0, none⟩] 100 (-1)

/-- The peer resets the call: its hook fires once. -/
theorem reset_call_fires_once :
    HooksExact (hookHistory 1 oneMethod
      (armedCall 1 ⟨5, 6⟩ ++ [.conn (.streamClose 1 8), .drop])) ∧
    hookHistory 1 oneMethod (armedCall 1 ⟨5, 6⟩ ++ [.conn (.streamClose 1 8), .drop]) =
      [.installed ⟨5, 6⟩, .closed 8 false, .fired ⟨5, 6⟩] := by
  refine ⟨(hooks_fire_exactly_once 1 rfl).mpr ?_, by decide⟩
  refine ⟨trivial, trivial, trivial, trivial, trivial, trivial, fun stream found => ?_, trivial⟩
  exact (Option.some_ne_none stream found.symm).elim

/-- The connection is dropped instead: the hook is lost. -/
theorem dropped_call_loses_hook :
    (run step oneMethod (armedCall 1 ⟨5, 6⟩ ++ [.drop])).isSome ∧
    ¬ HooksExact (hookHistory 1 oneMethod (armedCall 1 ⟨5, 6⟩ ++ [.drop])) := by
  have history : hookHistory 1 oneMethod (armedCall 1 ⟨5, 6⟩ ++ [.drop]) =
      [.installed ⟨5, 6⟩, .dropped false] := by decide
  refine ⟨rfl, fun exact_ => ?_⟩
  have once := exact_.once [] ⟨5, 6⟩ [.dropped false] history ⟨.dropped false, by decide, rfl⟩
  exact absurd once (by decide)

section Runs

variable {methods : List MethodEntry} {maxMessageLen : UInt32} {fd : Int}
  {events : List SessionEvent} {final : Session}

/-- After the application has finished a call whose hook stands and has not fired,
the hook is never invoked exactly when the stream is closed, if at all, with
error code 0.  Deadline sweeps and the drop of the connection leave it alone. -/
theorem hook_silent_after_finish (id : StreamId)
    (reached : run step (newServer methods maxMessageLen fd) events = some final)
    {earlier since after : List HookEvent} {hook : CancelHook}
    (history : hookHistory id (newServer methods maxMessageLen fd) events =
      earlier ++ .installed hook :: (since ++ .finish :: after))
    (standing : tenure since = since) (unfired : firings since = []) :
    (firings (tenure after) = [] ∧ ∀ other ∈ firings after, .installed other ∈ after) ↔
      ∀ errorCode finished, .closed errorCode finished ∈ tenure after → errorCode = 0 := by
  have along : Along step (DropsDisarmed id) (newServer methods maxMessageLen fd) events := by
    -- a drop that loses a hook finds the call unfinished
    by_contra broken
    obtain ⟨before, _, dropped, armed⟩ := history_of_drop reached broken
    have listed : .finish ∈ before ++ [HookEvent.dropped false] := by
      rw [← dropped, history]
      simp
    have answered := Phase.answered_of_finish armed (.inr (by simpa using listed))
    simp [Phase.answered] at answered
  have lawful := history_lawful reached along
  rw [history, run_append] at lawful
  obtain ⟨phase, _, continued⟩ := Option.bind_eq_some_iff.mp lawful
  obtain ⟨next, stepped, continued⟩ := Option.bind_eq_some_iff.mp continued
  obtain ⟨held, finished, rfl⟩ := Phase.live_of_next stepped rfl
  obtain rfl := Option.some.inj stepped
  have rest := Phase.run_finish standing unfired continued
  rcases Phase.tenure_cases rest (Lane.phase_settled _ id) with untouched | fired
  · refine ⟨fun _ => untouched.clean, fun _ => ⟨untouched.silent, fun other fires => ?_⟩⟩
    exact Phase.mem_firings_of_silent rest untouched.silent fires
  · constructor
    · rintro ⟨none, _⟩
      rw [fired.once] at none
      simp at none
    · intro clean
      rcases fired.cause with ⟨impossible, _⟩ | ⟨⟨errorCode, answered, failed, listed⟩, _⟩
      · simp at impossible
      · exact absurd (clean errorCode answered listed) failed

end Runs

/-- A finished call that closes cleanly. -/
theorem clean_close_spares_hook :
    hookHistory 1 oneMethod (armedCall 1 ⟨5, 6⟩ ++
      [.conn (.api (.finishCall 1 .ok)), .conn (.streamClose 1 0), .drop]) =
        [.installed ⟨5, 6⟩, .finish, .closed 0 true] ∧
    firings (tenure [.closed 0 true]) = [] := by
  have history : hookHistory 1 oneMethod (armedCall 1 ⟨5, 6⟩ ++
      [.conn (.api (.finishCall 1 .ok)), .conn (.streamClose 1 0), .drop]) =
        [.installed ⟨5, 6⟩, .finish, .closed 0 true] := by decide
  have silent := @hook_silent_after_finish [⟨ascii "/S/M", 7, 0, none⟩] 100 (-1) _ _ 1 rfl []
    [] [.closed 0 true] ⟨5, 6⟩ history rfl rfl
  exact ⟨history, (silent.mpr (by simp [tenure, HookEvent.asInstalled])).1⟩

/-- A finished call that the peer resets before the trailer is sent: its hook fires. -/
theorem reset_after_finish_fires_hook :
    (run step oneMethod (armedCall 1 ⟨5, 6⟩ ++
      [.conn (.api (.finishCall 1 .ok)), .conn (.streamClose 1 8)])).isSome ∧
    hookHistory 1 oneMethod (armedCall 1 ⟨5, 6⟩ ++
      [.conn (.api (.finishCall 1 .ok)), .conn (.streamClose 1 8)]) =
        [.installed ⟨5, 6⟩, .finish, .closed 8 true, .fired ⟨5, 6⟩] ∧
    firings (tenure [.closed 8 true, .fired ⟨5, 6⟩]) = [⟨5, 6⟩] :=
  ⟨rfl, by decide⟩

end Session

end GrpcUds.Server
