import GrpcUds.Serve.Trace

/-!
# What the watchers of a service are sent

`Standing` says where a watcher stands between the statuses it is owed and those
it was sent, `Enrolled` what the registry lists.  Every step of the reporter keeps
both, so they hold in every reachable state.
-/

namespace GrpcUds.Serve

open Transition Server

/-! ### One watcher -/

/-- The watchers the holder of the lock has yet to reach; the first of `pending` is no
longer one once the send to it is in progress. -/
def Section.waiting (held : Section) : List Nat :=
  match held.call with
  | none => held.pending
  | some _ => held.pending.tail

namespace Reporter

/-- The statuses a watcher is to be sent: the one at its registration, and those of the
later `set_status` calls for its service. -/
def owed (reporter : Reporter) (watch : Watch) : List ServingStatus :=
  watch.initial ::
    ((reporter.effects.drop watch.since).filter fun effect => effect.1 = watch.service).map Prod.snd

/-- Sends of the statuses that all returned `Ok`. -/
def told (encodeToVec : Int → Bytes) (statuses : List ServingStatus) : List (OpKind × Bool) :=
  statuses.map fun status => (status.op encodeToVec, true)

/-- The watchers of a service that have been sent its latest status. -/
def informed (reporter : Reporter) (service : Bytes) : List Nat :=
  match reporter.lock with
  | some held => if held.service = service then held.kept else reporter.watchers service
  | none => reporter.watchers service

/-- Those the holder of the lock is sending to. -/
def awaiting (reporter : Reporter) (service : Bytes) : List Nat :=
  match reporter.lock with
  | some held => if held.service = service then held.pending else []
  | none => []

def roster (reporter : Reporter) (service : Bytes) : List Nat :=
  reporter.informed service ++ reporter.awaiting service

/-- Where a watcher stands. -/
inductive Standing (encodeToVec : Int → Bytes) (reporter : Reporter) (watch : Watch)
    (trace : Trace) : Prop where
  /-- A send returned `Closed`, and it is a watcher no more. -/
  | dropped {count : Nat} {status : ServingStatus}
      (closedAt : (reporter.owed watch)[count]? = some status) (idle : trace.inProgress = [])
      (results : trace.results =
        told encodeToVec ((reporter.owed watch).take count) ++ [(status.op encodeToVec, false)])
      (absent : watch.writer ∉ reporter.roster watch.service)
  /-- It was sent all it is owed. -/
  | informed (idle : trace.inProgress = [])
      (results : trace.results = told encodeToVec (reporter.owed watch))
      (present : watch.writer ∈ reporter.informed watch.service)
  /-- The holder of the lock will come to it. -/
  | waiting {held : Section} {front : List ServingStatus} (locked : reporter.lock = some held)
      (same : held.service = watch.service) (owes : reporter.owed watch = front ++ [held.status])
      (idle : trace.inProgress = []) (results : trace.results = told encodeToVec front)
      (present : watch.writer ∈ held.waiting)
  /-- The send to it is in progress. -/
  | sending {held : Section} {front : List ServingStatus} {rest : List Nat} {call : Call}
      (locked : reporter.lock = some held) (same : held.service = watch.service)
      (owes : reporter.owed watch = front ++ [held.status])
      (first : held.pending = watch.writer :: rest) (begun : held.call = some front.length)
      (alone : trace.inProgress = [call])
      (request : call.request = .writeOwned (encodeToVec held.status.number))
      (results : trace.results = told encodeToVec front)
  /-- The send to it has returned. -/
  | sent {held : Section} {front : List ServingStatus} {rest : List Nat} {isOk : Bool}
      (locked : reporter.lock = some held) (same : held.service = watch.service)
      (owes : reporter.owed watch = front ++ [held.status])
      (first : held.pending = watch.writer :: rest) (begun : held.call = some front.length)
      (idle : trace.inProgress = [])
      (results : trace.results = told encodeToVec front ++ [(held.status.op encodeToVec, isOk)])

variable {encodeToVec : Int → Bytes}

theorem length_told (statuses : List ServingStatus) :
    (told encodeToVec statuses).length = statuses.length := by
  simp [told]

theorem told_append (first second : List ServingStatus) :
    told encodeToVec (first ++ second) = told encodeToVec first ++ told encodeToVec second := by
  simp [told]

theorem accepted_told (statuses : List ServingStatus) :
    Trace.accepted (told encodeToVec statuses) = statuses.map (ServingStatus.op encodeToVec) := by
  induction statuses with
  | nil => rfl
  | cons status rest ih =>
      rw [show status :: rest = [status] ++ rest from rfl, told_append, Trace.accepted_append,
        ih]
      rfl

namespace Standing

variable {reporter : Reporter} {watch : Watch} {trace next : Trace}

variable (standing : reporter.Standing encodeToVec watch trace)
include standing

/-- Only a watcher that is being sent to has a call in progress. -/
theorem moves {call : Call} (alone : trace.inProgress = [call]) (moved : trace.Moves call next) :
    reporter.Standing encodeToVec watch next := by
  cases standing with
  | dropped closedAt idle results absent => simp [idle] at alone
  | informed idle results present => simp [idle] at alone
  | waiting locked same owes idle results present => simp [idle] at alone
  | sent locked same owes first begun idle results => simp [idle] at alone
  | sending locked same owes first begun only request results =>
      obtain rfl : _ = call := by simpa [only] using alone
      cases moved with
      | checked before after => exact .sending locked same owes first begun rfl request results
      | refused before =>
          exact .sent locked same owes first begun rfl (by rw [results, request]; rfl)
      | pushedFirst before => exact .sending locked same owes first begun rfl request results
      | pushed before =>
          exact .sent locked same owes first begun rfl (by rw [results, request]; rfl)
      | poked before =>
          exact .sent locked same owes first begun rfl (by rw [results, request]; rfl)

/-- The loop does not touch the registry. -/
theorem onLoop (loop : Loop) :
    { reporter with loop := loop }.Standing encodeToVec watch trace := by
  cases standing with
  | dropped closedAt idle results absent => exact .dropped closedAt idle results absent
  | informed idle results present => exact .informed idle results present
  | waiting locked same owes idle results present =>
      exact .waiting locked same owes idle results present
  | sending locked same owes first begun alone request results =>
      exact .sending locked same owes first begun alone request results
  | sent locked same owes first begun idle results =>
      exact .sent locked same owes first begun idle results

theorem busy_or_idle :
    trace.inProgress = [] ∨ ∃ call, trace.inProgress = [call] := by
  cases standing with
  | dropped closedAt idle results absent => exact .inl idle
  | informed idle results present => exact .inl idle
  | waiting locked same owes idle results present => exact .inl idle
  | sending locked same owes first begun alone request results => exact .inr ⟨_, alone⟩
  | sent locked same owes first begun idle results => exact .inl idle

end Standing

/-! ### The registry -/

variable {reporter : Reporter} {service : Bytes}

theorem informed_free (free : reporter.lock = none) (service : Bytes) :
    reporter.informed service = reporter.watchers service := by
  simp [informed, free]

theorem roster_free (free : reporter.lock = none) (service : Bytes) :
    reporter.roster service = reporter.watchers service := by
  simp [roster, informed, awaiting, free]

section Locked

variable {reporter : Reporter} {held : Section}

variable (locked : reporter.lock = some held)
include locked

theorem roster_same :
    reporter.roster held.service = held.kept ++ held.pending := by
  simp [roster, informed, awaiting, locked]

theorem roster_other (different : held.service ≠ service) :
    reporter.roster service = reporter.watchers service := by
  simp [roster, informed, awaiting, locked, different]

theorem informed_same :
    reporter.informed held.service = held.kept := by
  simp [informed, locked]

theorem informed_other (different : held.service ≠ service) :
    reporter.informed service = reporter.watchers service := by
  simp [informed, locked, different]

theorem informed_call (loop : Loop) (call : Option Nat) (service : Bytes) :
    { reporter with loop := loop, lock := some { held with call := call } }.informed service =
      reporter.informed service := by
  simp [informed, locked]

theorem roster_call (loop : Loop) (call : Option Nat) (service : Bytes) :
    { reporter with loop := loop, lock := some { held with call := call } }.roster service =
      reporter.roster service := by
  simp [roster, informed, awaiting, locked]

end Locked

section Free

variable {reporter : Reporter} (free : reporter.lock = none)
include free

theorem roster_setStatus (service : Bytes) (status : ServingStatus) (inline : Bool)
    (other : Bytes) :
    (reporter.setStatus service status inline).roster other = reporter.roster other := by
  have locked : (reporter.setStatus service status inline).lock = some _ := rfl
  rw [roster_free free]
  by_cases same : service = other
  · subst same
    exact roster_same locked
  · exact roster_other locked same

theorem roster_watch_same (service : Bytes) (writer : Nat) :
    (reporter.watch service writer).roster service = reporter.roster service ++ [writer] := by
  have locked : (reporter.watch service writer).lock = some _ := rfl
  rw [roster_free free]
  exact roster_same locked

theorem roster_watch_other (writer : Nat) {other : Bytes} (different : service ≠ other) :
    (reporter.watch service writer).roster other = reporter.roster other := by
  have locked : (reporter.watch service writer).lock = some _ := rfl
  rw [roster_free free]
  exact roster_other locked different

end Free

theorem owed_setStatus {watch : Watch} (since : watch.since ≤ reporter.effects.length)
    (service : Bytes) (status : ServingStatus) (inline : Bool) :
    (reporter.setStatus service status inline).owed watch =
      reporter.owed watch ++ if service = watch.service then [status] else [] := by
  by_cases same : service = watch.service
  · simp [owed, setStatus, List.drop_append_of_le_length since, same]
  · simp [owed, setStatus, List.drop_append_of_le_length since, same]

/-- Every writer in the registry is that of one `Watch` call for the service it is listed
under, and the registry holds the last status that a watcher is owed. -/
structure Enrolled (reporter : Reporter) : Prop where
  distinct : (reporter.watches.map Watch.writer).Nodup
  since : ∀ watch ∈ reporter.watches, watch.since ≤ reporter.effects.length
  known : ∀ service, ∀ writer ∈ reporter.roster service,
    ∃ watch ∈ reporter.watches, watch.writer = writer ∧ watch.service = service
  once : ∀ service, (reporter.roster service).Nodup
  latest : ∀ watch ∈ reporter.watches,
    (reporter.owed watch).getLast? = some (reporter.current watch.service)

namespace Enrolled

variable {reporter : Reporter}

variable (enrolled : reporter.Enrolled)
include enrolled

theorem of_roster_sublist {next : Reporter} (watches : next.watches = reporter.watches)
    (effects : next.effects = reporter.effects) (statuses : next.statuses = reporter.statuses)
    (kept : ∀ service, (next.roster service).Sublist (reporter.roster service)) :
    next.Enrolled where
  distinct := watches ▸ enrolled.distinct
  since := watches ▸ effects ▸ enrolled.since
  known := by
    intro service writer member
    rw [watches]
    exact enrolled.known service writer ((kept service).subset member)
  once := fun service => (enrolled.once service).sublist (kept service)
  latest := by
    intro watch member
    have latest := enrolled.latest watch (watches ▸ member)
    simpa only [owed, current, effects, statuses] using latest

theorem setStatus (free : reporter.lock = none) (service : Bytes) (status : ServingStatus)
    (inline : Bool) :
    (reporter.setStatus service status inline).Enrolled := by
  have roster := roster_setStatus free service status inline
  refine ⟨enrolled.distinct, ?_, ?_, ?_, ?_⟩
  · intro watch member
    have since := enrolled.since watch member
    simp only [Reporter.setStatus, List.length_append, List.length_singleton]
    omega
  · intro other writer member
    exact enrolled.known other writer (roster other ▸ member)
  · intro other
    exact (roster other).symm ▸ enrolled.once other
  · intro watch member
    rw [owed_setStatus (enrolled.since watch member)]
    by_cases same : service = watch.service
    · simp [current, Reporter.setStatus, same]
    · simpa [current, Reporter.setStatus, same, Ne.symm same] using enrolled.latest watch member

theorem watch (free : reporter.lock = none) (service : Bytes) {writer : Nat}
    (fresh : ∀ watch ∈ reporter.watches, watch.writer ≠ writer) :
    (reporter.watch service writer).Enrolled := by
  have listed := roster_watch_same free service writer
  have others (other : Bytes) (different : service ≠ other) :=
    roster_watch_other free writer different
  refine ⟨?_, ?_, ?_, ?_, ?_⟩
  · simp only [Reporter.watch, List.map_append, List.map_singleton]
    refine List.nodup_append.mpr ⟨enrolled.distinct, List.nodup_singleton _, ?_⟩
    intro other member last isLast
    obtain ⟨watch, watching, rfl⟩ := List.mem_map.mp member
    exact List.mem_singleton.mp isLast ▸ fresh watch watching
  · intro watch member
    rcases Table.mem_concat.mp member with old | rfl
    · exact enrolled.since watch old
    · exact Nat.le_refl _
  · intro other listedWriter member
    by_cases same : service = other
    · subst same
      rw [listed] at member
      rcases List.mem_append.mp member with old | new
      · obtain ⟨watch, watching, found⟩ := enrolled.known service listedWriter old
        exact ⟨watch, List.mem_append_left _ watching, found⟩
      · exact ⟨_, List.mem_append_right _ (List.mem_singleton_self _),
          (List.mem_singleton.mp new).symm, rfl⟩
    · obtain ⟨watch, watching, found⟩ :=
        enrolled.known other listedWriter (others other same ▸ member)
      exact ⟨watch, List.mem_append_left _ watching, found⟩
  · intro other
    by_cases same : service = other
    · subst same
      rw [listed]
      refine List.nodup_append.mpr ⟨enrolled.once service, List.nodup_singleton _, ?_⟩
      intro old member last isLast
      obtain ⟨watch, watching, rfl, _⟩ := enrolled.known service old member
      exact List.mem_singleton.mp isLast ▸ fresh watch watching
    · exact (others other same).symm ▸ enrolled.once other
  · intro watch member
    rcases Table.mem_concat.mp member with old | rfl
    · exact enrolled.latest watch old
    · simp [owed, Reporter.watch, current]

theorem service_eq {watch : Watch} (member : watch ∈ reporter.watches)
    (listed : watch.writer ∈ reporter.roster service) :
    watch.service = service := by
  obtain ⟨other, otherMember, sameWriter, rfl⟩ := enrolled.known service watch.writer listed
  rw [List.inj_on_of_nodup_map enrolled.distinct otherMember member sameWriter]

end Enrolled

/-! ### Steps of the holder of the lock -/

namespace Standing

variable {reporter : Reporter} {watch : Watch} {trace : Trace}

theorem setStatus (standing : reporter.Standing encodeToVec watch trace)
    (free : reporter.lock = none) (since : watch.since ≤ reporter.effects.length) (service : Bytes)
    (status : ServingStatus) (inline : Bool) :
    (reporter.setStatus service status inline).Standing encodeToVec watch trace := by
  have owes := owed_setStatus since service status inline
  cases standing with
  | dropped closedAt idle results absent =>
      have early := (List.getElem?_eq_some_iff.mp closedAt).1
      rw [← List.getElem?_append_left early, ← owes] at closedAt
      refine .dropped closedAt idle ?_ ?_
      · rw [owes, List.take_append_of_le_length (Nat.le_of_lt early)]
        exact results
      · rw [roster_setStatus free]
        exact absent
  | informed idle results present =>
      rw [informed_free free] at present
      have locked : (reporter.setStatus service status inline).lock = some _ := rfl
      by_cases same : service = watch.service
      · rw [if_pos same] at owes
        exact .waiting locked same owes idle results (same ▸ present)
      · rw [if_neg same, List.append_nil] at owes
        refine .informed idle (owes ▸ results) ?_
        rw [informed_other locked same]
        exact present
  | waiting locked => simp [free] at locked
  | sending locked => simp [free] at locked
  | sent locked => simp [free] at locked

/-- The other watchers, when one more is registered. -/
theorem beside {writer : Nat} (standing : reporter.Standing encodeToVec watch trace)
    (free : reporter.lock = none) (different : watch.writer ≠ writer) :
    (reporter.watch service writer).Standing encodeToVec watch trace := by
  have locked : (reporter.watch service writer).lock = some _ := rfl
  cases standing with
  | dropped closedAt idle results absent =>
      refine .dropped closedAt idle results ?_
      by_cases same : service = watch.service
      · subst same
        rw [roster_watch_same free]
        simp [absent, different]
      · rw [roster_watch_other free writer same]
        exact absent
  | informed idle results present =>
      refine .informed idle results ?_
      rw [informed_free free] at present
      by_cases same : service = watch.service
      · subst same
        exact informed_same locked ▸ present
      · rw [informed_other locked same]
        exact present
  | waiting locked => simp [free] at locked
  | sending locked => simp [free] at locked
  | sent locked => simp [free] at locked

/-- The new watcher waits for its first status. -/
theorem registered (reporter : Reporter) (service : Bytes) (writer : Nat) :
    (reporter.watch service writer).Standing encodeToVec
      ⟨service, writer, reporter.current service, reporter.effects.length⟩ ⟨[], [], []⟩ := by
  have locked : (reporter.watch service writer).lock = some _ := rfl
  have owes : (reporter.watch service writer).owed
      ⟨service, writer, reporter.current service, reporter.effects.length⟩ =
        [] ++ [reporter.current service] := by
    simp [owed, Reporter.watch]
  exact .waiting locked rfl owes rfl rfl (by simp [Section.waiting])

section Sends

variable {held : Section} {writer : Nat} {rest : List Nat}
  (locked : reporter.lock = some held) (pending : held.pending = writer :: rest)
include locked pending

theorem send_other (standing : reporter.Standing encodeToVec watch trace) (idle : held.call = none)
    (different : watch.writer ≠ writer) (loop : Loop) (before : Nat) :
    { reporter with loop := loop, lock := some { held with call := some before } }.Standing
      encodeToVec watch trace := by
  cases standing with
  | dropped closedAt quiet results absent =>
      exact .dropped closedAt quiet results (by rw [roster_call locked]; exact absent)
  | informed quiet results present =>
      exact .informed quiet results (by rw [informed_call locked]; exact present)
  | waiting lockedToo same owes quiet results present =>
      obtain rfl := Option.some.inj (locked.symm.trans lockedToo)
      refine .waiting rfl same owes quiet results ?_
      simpa [Section.waiting, idle, pending, different] using present
  | sending lockedToo same owes first begun alone request results =>
      obtain rfl := Option.some.inj (locked.symm.trans lockedToo)
      simp [idle] at begun
  | sent lockedToo same owes first begun quiet results =>
      obtain rfl := Option.some.inj (locked.symm.trans lockedToo)
      simp [idle] at begun

theorem send_self (enrolled : reporter.Enrolled) (member : watch ∈ reporter.watches)
    (standing : reporter.Standing encodeToVec watch trace) (idle : held.call = none)
    (isFirst : watch.writer = writer) (loop : Loop) {call : Call}
    (request : call.request = .writeOwned (encodeToVec held.status.number)) :
    { reporter with
      loop := loop
      lock := some { held with call := some trace.results.length } }.Standing encodeToVec watch
        { trace with inProgress := trace.inProgress ++ [call] } := by
  subst isFirst
  have listed : watch.writer ∈ reporter.roster held.service := by
    simp [roster_same locked, pending]
  have same := enrolled.service_eq member listed
  cases standing with
  | dropped closedAt quiet results absent => exact absurd (same ▸ listed) absent
  | informed quiet results present =>
      rw [same, informed_same locked] at present
      have once := enrolled.once held.service
      rw [roster_same locked, pending] at once
      exact absurd rfl ((List.nodup_append.mp once).2.2 _ present _ (by simp))
  | waiting lockedToo _ owes quiet results present =>
      obtain rfl := Option.some.inj (locked.symm.trans lockedToo)
      refine .sending rfl same.symm owes pending ?_ (by simp [quiet]) request results
      rw [results, length_told]
  | sending lockedToo _ owes first begun alone asked results =>
      obtain rfl := Option.some.inj (locked.symm.trans lockedToo)
      simp [idle] at begun
  | sent lockedToo _ owes first begun quiet results =>
      obtain rfl := Option.some.inj (locked.symm.trans lockedToo)
      simp [idle] at begun

theorem sent_other (standing : reporter.Standing encodeToVec watch trace) {before : Nat}
    (sending : held.call = some before) (different : watch.writer ≠ writer) {kept : List Nat}
    (grown : kept = held.kept ∨ kept = held.kept ++ [writer]) :
    { reporter with
      lock := some { held with kept := kept, pending := rest, call := none } }.Standing encodeToVec
        watch trace := by
  have keeps : watch.writer ∈ kept ↔ watch.writer ∈ held.kept := by
    rcases grown with rfl | rfl <;> simp [different]
  have informed (service : Bytes) : watch.writer ∈
      { reporter with
        lock := some { held with kept := kept, pending := rest, call := none } }.informed service ↔
          watch.writer ∈ reporter.informed service := by
    by_cases same : held.service = service <;> simp [Reporter.informed, locked, same, keeps]
  have roster (service : Bytes) : watch.writer ∈
      { reporter with
        lock := some { held with kept := kept, pending := rest, call := none } }.roster service ↔
          watch.writer ∈ reporter.roster service := by
    rw [Reporter.roster, Reporter.roster, List.mem_append, List.mem_append, informed]
    by_cases same : held.service = service <;>
      simp [awaiting, locked, same, pending, different]
  cases standing with
  | dropped closedAt quiet results absent =>
      exact .dropped closedAt quiet results (by rw [roster]; exact absent)
  | informed quiet results present => exact .informed quiet results ((informed _).mpr present)
  | waiting lockedToo same owes quiet results present =>
      obtain rfl := Option.some.inj (locked.symm.trans lockedToo)
      refine .waiting rfl same owes quiet results ?_
      simpa [Section.waiting, sending, pending] using present
  | sending lockedToo same owes first begun alone request results =>
      obtain rfl := Option.some.inj (locked.symm.trans lockedToo)
      simp [pending, Ne.symm different] at first
  | sent lockedToo same owes first begun quiet results =>
      obtain rfl := Option.some.inj (locked.symm.trans lockedToo)
      simp [pending, Ne.symm different] at first

theorem sent_self (enrolled : reporter.Enrolled) (member : watch ∈ reporter.watches)
    (standing : reporter.Standing encodeToVec watch trace) {before : Nat}
    (sending : held.call = some before) (isFirst : watch.writer = writer) {kind : OpKind}
    {isOk : Bool} (result : trace.results[before]? = some (kind, isOk)) :
    { reporter with
      lock := some
        { held with
          kept := if isOk then held.kept ++ [writer] else held.kept
          pending := rest
          call := none } }.Standing encodeToVec watch trace := by
  subst isFirst
  have listed : watch.writer ∈ reporter.roster held.service := by
    simp [roster_same locked, pending]
  have same := enrolled.service_eq member listed
  have once := enrolled.once held.service
  rw [roster_same locked, pending] at once
  obtain ⟨_, onceRest, apart⟩ := List.nodup_append.mp once
  cases standing with
  | dropped closedAt quiet results absent => exact absurd (same ▸ listed) absent
  | informed quiet results present =>
      rw [same, informed_same locked] at present
      exact absurd rfl (apart _ present _ (by simp))
  | waiting lockedToo _ owes quiet results present =>
      obtain rfl := Option.some.inj (locked.symm.trans lockedToo)
      rw [Section.waiting, sending, pending] at present
      exact absurd present (List.nodup_cons.mp onceRest).1
  | sending lockedToo _ owes first begun alone asked results =>
      obtain rfl := Option.some.inj (locked.symm.trans lockedToo)
      obtain rfl : before = _ := Option.some.inj (sending.symm.trans begun)
      rw [results, List.getElem?_eq_none (Nat.le_of_eq (length_told _))] at result
      simp at result
  | @sent _ front _ wasOk lockedToo _ owes first begun quiet results =>
      obtain rfl := Option.some.inj (locked.symm.trans lockedToo)
      obtain rfl : before = front.length := Option.some.inj (sending.symm.trans begun)
      obtain ⟨rfl, rfl⟩ : held.status.op encodeToVec = kind ∧ wasOk = isOk := by
        rw [results, List.getElem?_append_right (Nat.le_of_eq (length_told _)),
          length_told] at result
        simpa using result
      cases wasOk with
      | true =>
          have all : trace.results = told encodeToVec (reporter.owed watch) := by
            rw [results, owes, told_append]
            rfl
          exact .informed quiet all (by simp [Reporter.informed, same])
      | false =>
          have closedAt : (reporter.owed watch)[front.length]? = some held.status := by
            simp [owes]
          have upTo : trace.results =
              told encodeToVec ((reporter.owed watch).take front.length) ++
                [(held.status.op encodeToVec, false)] := by
            rw [results, owes, List.take_left]
          have missing : watch.writer ∉ held.kept := fun kept => apart _ kept _ (by simp) rfl
          refine .dropped closedAt quiet upTo ?_
          simp [Reporter.roster, Reporter.informed, awaiting, same, missing,
            (List.nodup_cons.mp onceRest).1]

end Sends

theorem unlock (standing : reporter.Standing encodeToVec watch trace) {held : Section}
    (locked : reporter.lock = some held) (pending : held.pending = []) :
    { reporter with
      watchers := Function.update reporter.watchers held.service held.kept
      lock := none }.Standing encodeToVec watch trace := by
  have informed (service : Bytes) :
      { reporter with
        watchers := Function.update reporter.watchers held.service held.kept
        lock := none }.informed service = reporter.informed service := by
    by_cases same : held.service = service
    · subst same
      simp [Reporter.informed, locked]
    · simp [Reporter.informed, locked, same, Ne.symm same]
  have noneWaits : held.waiting = [] := by
    unfold Section.waiting
    split <;> simp [pending]
  cases standing with
  | dropped closedAt quiet results absent =>
      refine .dropped closedAt quiet results ?_
      rw [Reporter.roster, informed]
      exact fun listed => absent (List.mem_append_left _ (by simpa [awaiting] using listed))
  | informed quiet results present =>
      exact .informed quiet results (by rw [informed]; exact present)
  | waiting lockedToo same owes quiet results present =>
      obtain rfl := Option.some.inj (locked.symm.trans lockedToo)
      simp [noneWaits] at present
  | sending lockedToo same owes first begun alone request results =>
      obtain rfl := Option.some.inj (locked.symm.trans lockedToo)
      simp [pending] at first
  | sent lockedToo same owes first begun quiet results =>
      obtain rfl := Option.some.inj (locked.symm.trans lockedToo)
      simp [pending] at first

end Standing

/-! ### Runs -/

structure Sound (encodeToVec : Int → Bytes) (reporter : Reporter) : Prop where
  enrolled : reporter.Enrolled
  solo : ∀ watch ∈ reporter.watches, (reporter.loop.mailbox.trace watch.writer).Solo
  standing : ∀ watch ∈ reporter.watches,
    reporter.Standing encodeToVec watch (reporter.loop.mailbox.trace watch.writer)

theorem sound_new (loop : Loop) : (Reporter.new loop).Sound encodeToVec where
  enrolled := by
    refine ⟨List.nodup_nil, ?_, ?_, ?_, ?_⟩ <;> simp [Reporter.new, roster, informed, awaiting]
  solo := by simp [Reporter.new]
  standing := by simp [Reporter.new]

namespace Sound

variable {reporter : Reporter}

variable (sound : reporter.Sound encodeToVec)
include sound

/-- A step of the loop or of a call that is in progress. -/
theorem loop {event : LoopEvent} {next : Loop} (admitted : reporter.admits event = true)
    (performed : reporter.loop.step event = some next) :
    { reporter with loop := next }.Sound encodeToVec := by
  have moved (watch : Watch) (member : watch ∈ reporter.watches) :
      (next.mailbox.trace watch.writer).Solo ∧
        reporter.Standing encodeToVec watch (next.mailbox.trace watch.writer) := by
    have solo := sound.solo watch member
    have standing := sound.standing watch member
    have elsewhere : ∀ request inline, event ≠ .begin watch.writer request inline := by
      rintro request inline rfl
      simp only [admits, Bool.and_eq_true, List.all_eq_true] at admitted
      simpa using admitted.1 watch member
    rcases Loop.step_trace performed elsewhere with same | ⟨call, busy, moves⟩
    · rw [same]
      exact ⟨solo, standing⟩
    · rcases standing.busy_or_idle with idle | ⟨only, alone⟩
      · simp [idle] at busy
      · obtain ⟨rfl, moved⟩ := moves only alone
        exact ⟨solo.moves alone moved, standing.moves alone moved⟩
  exact ⟨sound.enrolled.of_roster_sublist rfl rfl rfl fun _ => List.Sublist.refl _,
    fun watch member => (moved watch member).1,
    fun watch member => (moved watch member).2.onLoop next⟩

theorem watch (free : reporter.lock = none) (service : Bytes) {writer : Nat}
    (fresh : reporter.fresh writer = true) :
    (reporter.watch service writer).Sound encodeToVec := by
  simp only [Reporter.fresh, Bool.and_eq_true, List.all_eq_true] at fresh
  obtain ⟨⟨_, untouched⟩, unused⟩ := fresh
  have untouched := Mailbox.trace_of_untouched untouched
  have others : ∀ watch ∈ reporter.watches, watch.writer ≠ writer := fun watch member => by
    simpa using unused watch member
  refine ⟨sound.enrolled.watch free service others, ?_, ?_⟩
  · intro watch member
    rcases Table.mem_concat.mp member with old | rfl
    · exact sound.solo watch old
    · exact .idle (congrArg Trace.inProgress untouched) (by simp [Reporter.watch, untouched]; rfl)
  · intro watch member
    rcases Table.mem_concat.mp member with old | rfl
    · exact (sound.standing watch old).beside free (others watch old)
    · simp only [Reporter.watch, untouched]
      exact Standing.registered reporter service writer

theorem send {held : Section} {writer : Nat} {rest : List Nat} {next : Loop}
    (locked : reporter.lock = some held) (pending : held.pending = writer :: rest)
    (idle : held.call = none) (performed : reporter.loop.step
      (.begin writer (.writeOwned (encodeToVec held.status.number)) held.inline) = some next) :
    { reporter with
      loop := next
      lock := some
        { held with call := some (reporter.loop.mailbox.results writer).length } }.Sound
      encodeToVec := by
  have roster (service : Bytes) := roster_call locked next
    (some (reporter.loop.mailbox.results writer).length) service
  have moved (watch : Watch) (member : watch ∈ reporter.watches) :
      (next.mailbox.trace watch.writer).Solo ∧
        { reporter with
          loop := next
          lock := some
            { held with call := some (reporter.loop.mailbox.results writer).length } }.Standing
          encodeToVec watch (next.mailbox.trace watch.writer) := by
    have solo := sound.solo watch member
    have standing := sound.standing watch member
    have entered : reporter.loop.mailbox.begin writer (.writeOwned (encodeToVec held.status.number))
        held.inline = some next.mailbox := by
      cases Loop.step_inv performed with
      | begin entered inTick => exact entered
    obtain ⟨other, self⟩ := Mailbox.trace_begin entered watch.writer
    by_cases isFirst : watch.writer = writer
    · obtain ⟨call, request, early, trace⟩ := self isFirst.symm
      have sending := standing.send_self locked pending sound.enrolled member idle
        isFirst next request
      rw [trace]
      refine ⟨?_, isFirst ▸ sending⟩
      rcases sending.busy_or_idle with none | ⟨only, alone⟩
      · simp at none
      · exact solo.begin early alone
    · have same := other (Ne.symm isFirst)
      rw [same]
      exact ⟨solo, standing.send_other locked pending idle isFirst next _⟩
  exact ⟨sound.enrolled.of_roster_sublist rfl rfl rfl fun service =>
      (roster service).symm ▸ List.Sublist.refl _,
    fun watch member => (moved watch member).1, fun watch member => (moved watch member).2⟩

theorem sent {held : Section} {writer : Nat} {rest : List Nat} {before : Nat} {kind : OpKind}
    {isOk : Bool} (locked : reporter.lock = some held) (pending : held.pending = writer :: rest)
    (sending : held.call = some before)
    (result : (reporter.loop.mailbox.results writer)[before]? = some (kind, isOk)) :
    { reporter with
      lock := some
        { held with
          kept := if isOk then held.kept ++ [writer] else held.kept
          pending := rest
          call := none } }.Sound encodeToVec := by
  refine ⟨sound.enrolled.of_roster_sublist rfl rfl rfl fun service => ?_, sound.solo, ?_⟩
  · by_cases same : held.service = service
    · subst same
      rw [roster_same locked, pending]
      have shorter : (if isOk then held.kept ++ [writer] else held.kept).Sublist
          (held.kept ++ [writer]) := by
        split
        · exact List.Sublist.refl _
        · exact List.sublist_append_left _ _
      simpa [roster, informed, awaiting] using shorter.append_right rest
    · simp [roster, informed, awaiting, locked, same]
  · intro watch member
    have standing := sound.standing watch member
    by_cases isFirst : watch.writer = writer
    · exact standing.sent_self locked pending sound.enrolled member sending isFirst
        (isFirst ▸ result)
    · refine standing.sent_other locked pending sending isFirst ?_
      split
      · exact .inr rfl
      · exact .inl rfl

theorem unlock {held : Section} (locked : reporter.lock = some held) (pending : held.pending = []) :
    { reporter with
      watchers := Function.update reporter.watchers held.service held.kept
      lock := none }.Sound encodeToVec := by
  refine ⟨sound.enrolled.of_roster_sublist rfl rfl rfl fun service => ?_, sound.solo,
    fun watch member => (sound.standing watch member).unlock locked pending⟩
  by_cases same : held.service = service
  · subst same
    simp [roster, informed, awaiting, locked]
  · simp [roster, informed, awaiting, locked, same, Ne.symm same]

end Sound

theorem step_sound {next : Reporter} {event : ReporterEvent} (sound : reporter.Sound encodeToVec)
    (performed : reporter.step encodeToVec event = some next) : next.Sound encodeToVec := by
  cases step_inv performed with
  | loop admitted moved => exact sound.loop admitted moved
  | setStatus free =>
      refine ⟨sound.enrolled.setStatus free _ _ _, sound.solo, fun watch member => ?_⟩
      exact (sound.standing watch member).setStatus free (sound.enrolled.since watch member) _ _ _
  | watch free fresh => exact sound.watch free _ fresh
  | send locked pending idle entered => exact sound.send locked pending idle entered
  | sent locked pending sending result => exact sound.sent locked pending sending result
  | unlock locked pending => exact sound.unlock locked pending

theorem sound_of_run {loop : Loop} {events : List ReporterEvent}
    (reached : run (step encodeToVec) (.new loop) events = some reporter) :
    reporter.Sound encodeToVec :=
  run_invariant (fun _ _ _ sound performed => step_sound sound performed)
    (sound_new loop) reached

/-! ### What was pushed -/

namespace Standing

variable {reporter : Reporter} {watch : Watch} {trace : Trace}

/-- The pushed statuses are those owed, in order, up to the last one or up to the first
send that returned `Closed`. -/
theorem pushed_take (standing : reporter.Standing encodeToVec watch trace) (solo : trace.Solo) :
    ∃ count, trace.pushed = ((reporter.owed watch).take count).map (ServingStatus.op encodeToVec) ∧
      ((reporter.owed watch).length ≤ count + 1 ∨
        ∃ status, (reporter.owed watch)[count]? = some status ∧
          trace.results =
            told encodeToVec ((reporter.owed watch).take count) ++
              [(status.op encodeToVec, false)]) := by
  cases standing with
  | dropped closedAt idle results absent =>
      refine ⟨_, ?_, .inr ⟨_, closedAt, results⟩⟩
      rw [solo.pushed_of_idle idle, results, Trace.accepted_append, accepted_told]
      simp
  | informed idle results present =>
      refine ⟨(reporter.owed watch).length, ?_, .inl (Nat.le_succ _)⟩
      rw [solo.pushed_of_idle idle, results, accepted_told, List.take_length]
  | @waiting held front locked same owes idle results present =>
      refine ⟨front.length, ?_, .inl (by simp [owes])⟩
      rw [solo.pushed_of_idle idle, results, accepted_told, owes, List.take_left]
  | @sending held front rest call locked same owes first begun alone request results =>
      cases solo with
      | idle none pushed => simp [none] at alone
      | busy other before pushed =>
          refine ⟨front.length, ?_, .inl (by simp [owes])⟩
          rw [pushed, results, accepted_told, owes, List.take_left]
      | poking other before pushed =>
          obtain rfl : _ = call := by simpa [other] using alone
          refine ⟨(front ++ [held.status]).length, ?_, .inl (by simp [owes])⟩
          rw [pushed, results, accepted_told, owes, List.take_length, request]
          simp [ServingStatus.op]
  | @sent held front rest isOk locked same owes first begun idle results =>
      have pushed := solo.pushed_of_idle idle
      rw [results, Trace.accepted_append, accepted_told] at pushed
      cases isOk with
      | true =>
          refine ⟨(front ++ [held.status]).length, ?_, .inl (by simp [owes])⟩
          rw [pushed, owes, List.take_length]
          simp
      | false =>
          refine ⟨front.length, ?_, .inl (by simp [owes])⟩
          rw [pushed, owes, List.take_left]
          simp

/-- Nothing is under way while the lock is free. -/
theorem pushed_of_free (standing : reporter.Standing encodeToVec watch trace) (solo : trace.Solo)
    (free : reporter.lock = none) :
    (watch.writer ∈ reporter.watchers watch.service ∧
        trace.results = told encodeToVec (reporter.owed watch) ∧
        trace.pushed = (reporter.owed watch).map (ServingStatus.op encodeToVec)) ∨
      (watch.writer ∉ reporter.watchers watch.service ∧
        ∃ count status, (reporter.owed watch)[count]? = some status ∧
          trace.results = told encodeToVec ((reporter.owed watch).take count) ++
            [(status.op encodeToVec, false)] ∧
          trace.pushed =
            ((reporter.owed watch).take count).map (ServingStatus.op encodeToVec)) := by
  cases standing with
  | dropped closedAt idle results absent =>
      right
      rw [roster_free free] at absent
      refine ⟨absent, _, _, closedAt, results, ?_⟩
      rw [solo.pushed_of_idle idle, results, Trace.accepted_append, accepted_told]
      simp
  | informed idle results present =>
      left
      rw [informed_free free] at present
      refine ⟨present, results, ?_⟩
      rw [solo.pushed_of_idle idle, results, accepted_told]
  | waiting locked => simp [free] at locked
  | sending locked => simp [free] at locked
  | sent locked => simp [free] at locked

end Standing

/-- The ops are sends of these statuses and of no others. -/
def Carries (encodeToVec : Int → Bytes) (ops : List OpKind) (statuses : List ServingStatus) :
    Prop :=
  ∀ others, ops = others.map (ServingStatus.op encodeToVec) ↔ others = statuses

section Readable

variable (readable : Function.Injective fun status : ServingStatus => encodeToVec status.number)
include readable

theorem op_injective : Function.Injective (ServingStatus.op encodeToVec) :=
  fun _ _ same => readable (OpKind.write.inj same)

theorem carries_of_eq {ops : List OpKind} {statuses : List ServingStatus}
    (pushed : ops = statuses.map (ServingStatus.op encodeToVec)) :
    Carries encodeToVec ops statuses := by
  intro others
  rw [pushed, (List.map_injective_iff.mpr (op_injective readable)).eq_iff, eq_comm]

end Readable

/-- The statuses pushed for a watcher are the one the registry held at its registration
and those of the later `set_status` calls for its service, in the order in which they
took effect, up to the first send that returned `Closed`; only the status whose
`set_status` still holds the lock may be missing.  When the lock is free none is
missing, and what a watcher that is still registered was sent last is what the
registry holds. -/
theorem watcher_hears_every_status
    (readable : Function.Injective fun status : ServingStatus => encodeToVec status.number)
    {methods : List MethodEntry} {maxMessageLen : UInt32} {events : List ReporterEvent}
    {reporter : Reporter}
    (reached : run (step encodeToVec) (.new (.new methods maxMessageLen)) events =
      some reporter) {watch : Watch} (member : watch ∈ reporter.watches) :
    (∃ count,
      Carries encodeToVec (reporter.loop.mailbox.pushedBy watch.writer)
          ((reporter.owed watch).take count) ∧
        ((reporter.owed watch).length ≤ count + 1 ∨
          ∃ status, (reporter.owed watch)[count]? = some status ∧
            reporter.loop.mailbox.results watch.writer =
              told encodeToVec ((reporter.owed watch).take count) ++
                [(status.op encodeToVec, false)])) ∧
      (reporter.lock = none →
        (watch.writer ∈ reporter.watchers watch.service ∧
            reporter.loop.mailbox.results watch.writer = told encodeToVec (reporter.owed watch) ∧
            Carries encodeToVec (reporter.loop.mailbox.pushedBy watch.writer)
              (reporter.owed watch) ∧
            ∀ status, (reporter.loop.mailbox.pushedBy watch.writer).getLast? =
              some (status.op encodeToVec) ↔ status = reporter.current watch.service) ∨
          (watch.writer ∉ reporter.watchers watch.service ∧
            ∃ count status, (reporter.owed watch)[count]? = some status ∧
              reporter.loop.mailbox.results watch.writer =
                told encodeToVec ((reporter.owed watch).take count) ++
                  [(status.op encodeToVec, false)] ∧
              Carries encodeToVec (reporter.loop.mailbox.pushedBy watch.writer)
                ((reporter.owed watch).take count))) := by
  have sound := sound_of_run reached
  have solo := sound.solo watch member
  have standing := sound.standing watch member
  refine ⟨?_, fun free => ?_⟩
  · obtain ⟨count, pushed, upTo⟩ := standing.pushed_take solo
    exact ⟨count, carries_of_eq readable pushed, upTo⟩
  rcases standing.pushed_of_free solo free with
    ⟨present, results, pushed⟩ | ⟨absent, count, status, closedAt, results, pushed⟩
  · refine .inl ⟨present, results, carries_of_eq readable pushed, fun status => ?_⟩
    rw [show reporter.loop.mailbox.pushedBy watch.writer = _ from pushed, List.getLast?_map,
      sound.enrolled.latest watch member, Option.map_some, Option.some.injEq,
      (op_injective readable).eq_iff, eq_comm]
  · exact .inr ⟨absent, count, status, closedAt, results, carries_of_eq readable pushed⟩

/-- A `Watch` of an unknown service, and then `set_status` from another thread. -/
def watchThenSet : List ReporterEvent := (Loop.openCall.take 16).map .loop ++
  [.watch [7] 0, .send, .loop (.advance 0), .loop (.advance 0), .loop (.advance 0), .sent, .unlock,
    .setStatus [7] .serving false, .send, .loop (.advance 0), .loop (.advance 0),
    .loop (.advance 0), .sent, .unlock]

/-- What prost writes for the four numbers: a field with its default value is left out. -/
def responseBytes (number : Int) : Bytes :=
  if number = 0 then [] else [0x08, UInt8.ofNat number.toNat]

theorem watcher_hears_unknown_then_serving :
    ∃ reporter, run (step responseBytes) (.new Loop.oneMethod) watchThenSet =
        some reporter ∧
      reporter.lock = none ∧ reporter.watchers [7] = [0] ∧
      reporter.loop.mailbox.pushedBy 0 = [.write [0x08, 3], .write [0x08, 1]] ∧
      Carries responseBytes (reporter.loop.mailbox.pushedBy 0) [.serviceUnknown, .serving] := by
  have readable : Function.Injective fun status : ServingStatus =>
      responseBytes status.number := by
    intro first second
    cases first <;> cases second <;> decide
  obtain ⟨reporter, reached, member, free, registered, pushed, owed⟩ :
      ∃ reporter, run (step responseBytes) (.new Loop.oneMethod) watchThenSet =
          some reporter ∧
        (⟨[7], 0, .serviceUnknown, 0⟩ : Watch) ∈ reporter.watches ∧ reporter.lock = none ∧
        reporter.watchers [7] = [0] ∧
        reporter.loop.mailbox.pushedBy 0 = [.write [0x08, 3], .write [0x08, 1]] ∧
        reporter.owed ⟨[7], 0, .serviceUnknown, 0⟩ = [.serviceUnknown, .serving] :=
    ⟨_, rfl, List.mem_singleton_self _, rfl, rfl, by decide, rfl⟩
  refine ⟨reporter, reached, free, registered, pushed, ?_⟩
  rcases (watcher_hears_every_status readable reached member).2 free with
    ⟨_, _, heard, _⟩ | ⟨absent, _⟩
  · exact owed ▸ heard
  · simp [registered] at absent

end Reporter

end GrpcUds.Serve
