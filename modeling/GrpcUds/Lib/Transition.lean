import Mathlib.Data.List.Basic
import Mathlib.Logic.Relation

/-!
# Runs of guarded deterministic machines

A machine is a partial function `step : State → Event → Option State`.  A
missing result says that the environment may not produce the event in that
state.  All nondeterminism is carried by the events, so a statement about
every list of events is a statement about every schedule.
-/

namespace Transition

universe u v

variable {State : Type u} {Event : Type v}

/-- Perform a list of events, stopping at the first one that is refused. -/
def run (step : State → Event → Option State) : State → List Event → Option State
  | state, [] => some state
  | state, event :: rest => (step state event).bind fun next => run step next rest

variable {step : State → Event → Option State}

@[simp]
theorem run_nil (state : State) : run step state [] = some state := rfl

@[simp]
theorem run_cons (state : State) (event : Event) (rest : List Event) :
    run step state (event :: rest) =
      (step state event).bind fun next => run step next rest := rfl

theorem run_append (state : State) (first second : List Event) :
    run step state (first ++ second) =
      (run step state first).bind fun middle => run step middle second := by
  induction first generalizing state with
  | nil => rfl
  | cons event rest ih =>
      cases performed : step state event with
      | none => simp [performed]
      | some next => simpa [performed] using ih next

/-- A property kept by every step is kept by every run. -/
theorem run_invariant {Invariant : State → Prop}
    (preserved : ∀ state event next, Invariant state →
      step state event = some next → Invariant next)
    {state final : State} {events : List Event}
    (start : Invariant state) (reached : run step state events = some final) :
    Invariant final := by
  induction events generalizing state with
  | nil =>
      obtain rfl := Option.some.inj reached
      exact start
  | cons event rest ih =>
      obtain ⟨next, performed, continued⟩ := Option.bind_eq_some_iff.mp reached
      exact ih (preserved state event next start performed) continued

/-- Every step of the run meets a condition in the state in which it is taken. -/
def Along (step : State → Event → Option State) (Meets : State → Event → Prop) :
    State → List Event → Prop
  | _, [] => True
  | state, event :: rest =>
      Meets state event ∧
        match step state event with
        | none => True
        | some next => Along step Meets next rest

instance Along.decidable {Meets : State → Event → Prop}
    [∀ state event, Decidable (Meets state event)] (state : State) :
    (events : List Event) → Decidable (Along step Meets state events)
  | [] => .isTrue trivial
  | event :: rest =>
      @instDecidableAnd _ _ _ <|
        match step state event with
        | none => .isTrue trivial
        | some next => Along.decidable next rest

/-- A property of the state and of the events that have led to it. -/
theorem Along.run_history {Meets : State → Event → Prop} {Invariant : List Event → State → Prop}
    (preserved : ∀ past state event next, Invariant past state → Meets state event →
      step state event = some next → Invariant (past ++ [event]) next)
    {state final : State} {past events : List Event} (along : Along step Meets state events)
    (start : Invariant past state) (reached : run step state events = some final) :
    Invariant (past ++ events) final := by
  induction events generalizing state past with
  | nil =>
      obtain rfl := Option.some.inj reached
      rw [List.append_nil]
      exact start
  | cons event rest ih =>
      obtain ⟨next, performed, continued⟩ := Option.bind_eq_some_iff.mp reached
      obtain ⟨meets, later⟩ := along
      rw [performed] at later
      have longer := ih later
        (preserved past state event next start meets performed) continued
      rwa [List.append_assoc] at longer

/-- A property kept by every step that meets a condition is kept by every run all of
whose steps meet it. -/
theorem Along.run_invariant {Meets : State → Event → Prop} {Invariant : State → Prop}
    (preserved : ∀ state event next, Invariant state → Meets state event →
      step state event = some next → Invariant next)
    {state final : State} {events : List Event} (along : Along step Meets state events)
    (start : Invariant state) (reached : run step state events = some final) :
    Invariant final :=
  @run_history _ _ step Meets (fun _ => Invariant) (fun _ => preserved) state final [] events
    along start reached

/-- What an observer of every step records over a run. -/
def observe {Output : Type*} (step : State → Event → Option State)
    (emit : State → Event → List Output) : State → List Event → List Output
  | _, [] => []
  | state, event :: rest =>
      match step state event with
      | none => []
      | some next => emit state event ++ observe step emit next rest

theorem observe_cons {Output : Type*} {emit : State → Event → List Output} {state next : State}
    {event : Event} (performed : step state event = some next) (rest : List Event) :
    observe step emit state (event :: rest) = emit state event ++ observe step emit next rest := by
  simp [observe, performed]

theorem observe_append {Output : Type*} {emit : State → Event → List Output}
    {state middle : State} {first : List Event} (reached : run step state first = some middle)
    (second : List Event) :
    observe step emit state (first ++ second) =
      observe step emit state first ++ observe step emit middle second := by
  induction first generalizing state with
  | nil =>
      obtain rfl := Option.some.inj reached
      rfl
  | cons event rest ih =>
      obtain ⟨next, performed, continued⟩ := Option.bind_eq_some_iff.mp reached
      rw [List.cons_append, observe_cons performed, observe_cons performed,
        ih continued, List.append_assoc]

/-- A run some step of which misses the condition has a first such step. -/
theorem Along.exists_break {Meets : State → Event → Prop} {state final : State}
    {events : List Event} (reached : run step state events = some final)
    (broken : ¬ Along step Meets state events) :
    ∃ before event after middle next, events = before ++ event :: after ∧
      Along step Meets state before ∧ run step state before = some middle ∧
      ¬ Meets middle event ∧ step middle event = some next ∧
      run step next after = some final := by
  induction events generalizing state with
  | nil => exact absurd trivial broken
  | cons event rest ih =>
      obtain ⟨next, performed, continued⟩ := Option.bind_eq_some_iff.mp reached
      by_cases meets : Meets state event
      · have later : ¬ Along step Meets next rest := by
          intro along
          apply broken
          simp only [Along, performed]
          exact ⟨meets, along⟩
        obtain ⟨before, missed, after, middle, last, rfl, along, ran, misses, stepped, ended⟩ :=
          ih continued later
        refine ⟨event :: before, missed, after, middle, last, rfl, ?_, ?_, misses, stepped, ended⟩
        · simp only [Along, performed]
          exact ⟨meets, along⟩
        · simp [performed, ran]
      · exact ⟨[], event, rest, state, next, rfl, trivial, rfl, meets, performed, continued⟩

/-- If exactly the steps that meet a condition lead from good states to good states, then
the states along a run are all good if and only if every step of it meets the condition. -/
theorem along_iff_forall_reached {Meets : State → Event → Prop} {Invariant Good : State → Prop}
    {Allowed : Event → Prop}
    (preserved : ∀ state event next, Invariant state →
      step state event = some next → Invariant next)
    (decides : ∀ state event next, Invariant state → Good state → Allowed event →
      step state event = some next → (Good next ↔ Meets state event))
    {state final : State} {events : List Event} (start : Invariant state) (good : Good state)
    (allowed : ∀ event ∈ events, Allowed event) (reached : run step state events = some final) :
    Along step Meets state events ↔ ∀ before after middle, events = before ++ after →
      run step state before = some middle → Good middle := by
  induction events generalizing state with
  | nil =>
      refine ⟨fun _ before after middle split ran => ?_, fun _ => trivial⟩
      obtain ⟨rfl, rfl⟩ := List.append_eq_nil_iff.mp split.symm
      obtain rfl := Option.some.inj ran
      exact good
  | cons event rest ih =>
      obtain ⟨next, performed, continued⟩ := Option.bind_eq_some_iff.mp reached
      have decided := decides state event next start good (allowed event (by simp)) performed
      have sound := preserved state event next start performed
      have others : ∀ later ∈ rest, Allowed later := fun later membership =>
        allowed later (List.mem_cons_of_mem _ membership)
      simp only [Along, performed]
      constructor
      · rintro ⟨meets, later⟩ before after middle split ran
        cases before with
        | nil =>
            obtain rfl := Option.some.inj ran
            exact good
        | cons first before =>
            obtain ⟨rfl, tail⟩ := List.cons.inj split
            rw [run_cons, performed] at ran
            exact (ih sound (decided.mpr meets) others continued).mp later
              before after middle tail ran
      · intro all
        have goodNext : Good next := all [event] rest next rfl (by simp [performed])
        refine ⟨decided.mp goodNext,
          (ih sound goodNext others continued).mpr ?_⟩
        intro before after middle split ran
        exact all (event :: before) after middle (by rw [split]; rfl) (by simp [performed, ran])

/-- A property of the state and of what has been recorded so far. -/
theorem Along.run_record {Output : Type*} {emit : State → Event → List Output}
    {Meets : State → Event → Prop} {Invariant : State → List Output → Prop}
    (preserved : ∀ state event next outputs, Invariant state outputs → Meets state event →
      step state event = some next → Invariant next (outputs ++ emit state event))
    {state final : State} {events : List Event} {outputs : List Output}
    (along : Along step Meets state events) (start : Invariant state outputs)
    (reached : run step state events = some final) :
    Invariant final (outputs ++ observe step emit state events) := by
  induction events generalizing state outputs with
  | nil =>
      obtain rfl := Option.some.inj reached
      rw [observe, List.append_nil]
      exact start
  | cons event rest ih =>
      obtain ⟨next, performed, continued⟩ := Option.bind_eq_some_iff.mp reached
      obtain ⟨meets, later⟩ := along
      rw [performed] at later
      rw [observe_cons performed, ← List.append_assoc]
      exact ih later (preserved state event next outputs start meets performed)
        continued

/-- If an abstract machine follows every step through what is recorded of it, it follows
every run. -/
theorem Along.run_observe {Output Abstract : Type*} {emit : State → Event → List Output}
    {view : State → Abstract} {follow : Abstract → Output → Option Abstract}
    {Meets : State → Event → Prop} {Invariant : State → Prop}
    (preserved : ∀ state event next, Invariant state →
      step state event = some next → Invariant next)
    (followed : ∀ state event next, Invariant state → Meets state event →
      step state event = some next →
        run follow (view state) (emit state event) = some (view next))
    {state final : State} {events : List Event} (along : Along step Meets state events)
    (start : Invariant state) (reached : run step state events = some final) :
    run follow (view state) (observe step emit state events) = some (view final) := by
  let Follows (last : State) (outputs : List Output) : Prop :=
    Invariant last ∧ run follow (view state) outputs = some (view last)
  have steps : ∀ last event next outputs, Follows last outputs → Meets last event →
      step last event = some next → Follows next (outputs ++ emit last event) := by
    rintro last event next outputs ⟨sound, ran⟩ meets performed
    refine ⟨preserved last event next sound performed, ?_⟩
    rw [run_append, ran]
    exact followed last event next sound meets performed
  exact (along.run_record steps ⟨start, run_nil _⟩ reached).2

/-- A reflexive and transitive relation between successive states that satisfy
an invariant relates the two ends of every run. -/
theorem run_relates {Invariant : State → Prop} {Related : State → State → Prop}
    (preserved : ∀ state event next, Invariant state →
      step state event = some next → Invariant next)
    (reflexive : ∀ state, Related state state)
    (transitive : ∀ first second third,
      Related first second → Related second third → Related first third)
    (related : ∀ state event next, Invariant state →
      step state event = some next → Related state next)
    {state final : State} {events : List Event}
    (start : Invariant state) (reached : run step state events = some final) :
    Related state final := by
  let Sound (last : State) : Prop := Invariant last ∧ Related state last
  have steps : ∀ last event next, Sound last → step last event = some next → Sound next :=
    fun last event next ⟨sound, reaches⟩ performed =>
      ⟨preserved last event next sound performed,
        transitive state last next reaches (related last event next sound performed)⟩
  exact (run_invariant steps ⟨start, reflexive state⟩ reached).2

end Transition
