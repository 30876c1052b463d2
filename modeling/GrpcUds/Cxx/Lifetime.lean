import GrpcUds.Cxx.Scan
import GrpcUds.Lib.Heap

/-!
# The lifetime of the connections of `ServerThread`

The loop holds its connections as raw pointers in a vector.  Every use that it makes of
one through this vector is recorded, and a heap replays the record.  What a drain does
with the connections that the mailbox names, and what handlers do inside a tick, are not
uses through the vector and are not recorded here.
-/

namespace GrpcUds.Cxx

open Transition Heap

variable {α : Type} [DecidableEq α]

/-- What a scan did to the connections that it examined. -/
def examUses (env : ScanEnv α) : Nat → List (Exam α) → List (α × Use)
  | _, [] => []
  | turn, exam :: exams =>
      (exam.conn, .touch) ::
        ((if env.drops turn exam.conn exam.action then [(exam.conn, .free)] else []) ++
          examUses env (turn + 1) exams)

structure Loop (α : Type) where
  conns : List α
  uses : List (α × Use)
  ended : Bool

/-- One turn of the loop: the poll is interrupted, or it returns and some connections are
accepted and the others scanned, or it ends the loop. -/
inductive LoopTurn (α : Type) where
  | interrupted
  | served (accepted : List α) (env : ScanEnv α) (report : Nat → Revents)
  | stopped

/-- A turn asks every connection for its poll entry first.  `Accept` returns new objects.  After
the loop all connections are ticked once more and freed.  `DrainOutbound` runs before the
accepts and before that last tick; it does not use the vector. -/
def Loop.step (loop : Loop α) (turn : LoopTurn α) : Option (Loop α) :=
  let polled := loop.uses ++ loop.conns.map (·, .touch)
  if loop.ended then none
  else
    match turn with
    | .interrupted => some { loop with uses := polled }
    | .served accepted env report =>
        if accepted.Nodup ∧ ∀ conn ∈ accepted, conn ∉ loop.conns then
          match scanPolled env loop.conns accepted report with
          | .error _ => none
          | .ok (kept, exams) =>
              some ⟨kept, polled ++ (accepted.map (·, .alloc) ++ examUses env 0 exams), false⟩
        else none
    | .stopped =>
        some ⟨[], polled ++ (loop.conns.map (·, .touch) ++ loop.conns.map (·, .free)), true⟩

/-- The scan from an index on uses what is left, and keeps what it does not free. -/
theorem scan_replays (env : ScanEnv α) (revents : List Revents) (fuel turn : Nat)
    {live : List α} (kept remaining accepted : List α) (enough : remaining.length < fuel)
    (room : kept.length + remaining.length < revents.length)
    (same : live.Perm (kept ++ (remaining ++ accepted))) :
    ∃ rest exams after,
      scan env revents fuel turn (kept ++ (remaining ++ accepted)) kept.length
          (kept.length + remaining.length) = .ok (rest, exams) ∧
        run Heap.step live (examUses env turn exams) = some after ∧ after.Perm rest := by
  induction remaining generalizing fuel turn kept live with
  | nil =>
      obtain ⟨fuel, rfl⟩ := Nat.exists_eq_add_one_of_ne_zero (Nat.ne_zero_of_lt enough)
      exact ⟨kept ++ accepted, [], live, scan_nil env revents kept accepted, rfl, same⟩
  | cons conn remaining ih =>
      obtain ⟨fuel, rfl⟩ := Nat.exists_eq_add_one_of_ne_zero (Nat.ne_zero_of_lt enough)
      rw [List.length_cons] at enough room
      obtain ⟨bits, read⟩ : ∃ bits, revents[kept.length + 1]? = some bits :=
        ⟨_, List.getElem?_eq_getElem (by omega)⟩
      have allocated : conn ∈ live := by simp [same.mem_iff]
      rw [List.length_cons, List.cons_append,
        scan_cons env revents kept remaining accepted conn read]
      split
      next drops =>
        have freed : (live.erase conn).Perm (kept ++ (remaining ++ accepted)) := by
          simpa using (same.trans List.perm_middle).erase conn
        obtain ⟨rest, exams, after, scanned, used, left⟩ :=
          ih fuel (turn + 1) kept (by omega) (by omega) freed
        rw [scanned]
        exact ⟨rest, _, after, rfl,
          by simpa [examUses, Heap.step, allocated, drops] using used, left⟩
      next keeps =>
        have stays : live.Perm (kept ++ [conn] ++ (remaining ++ accepted)) := by simpa using same
        obtain ⟨rest, exams, after, scanned, used, left⟩ :=
          ih fuel (turn + 1) (kept ++ [conn]) (by omega) (by simp; omega) stays
        rw [scanned]
        exact ⟨rest, _, after, rfl,
          by simpa [examUses, Heap.step, allocated, keeps] using used, left⟩

theorem scanPolled_replays (env : ScanEnv α) {live conns : List α} (accepted : List α)
    (report : Nat → Revents) (same : live.Perm conns) :
    ∃ rest exams after, scanPolled env conns accepted report = .ok (rest, exams) ∧
      run Heap.step (live ++ accepted) (examUses env 0 exams) = some after ∧ after.Perm rest := by
  have scanned := scan_replays env (reported conns report) (conns.length + 1) 0 [] conns accepted
    (Nat.lt_succ_self _) (by simp [length_reported]) (same.append_right accepted)
  simpa [scanPolled, length_reported] using scanned

/-- The heap accepts the record, what is allocated is what the loop holds, and nothing is left
at the end. -/
def Loop.Sound (loop : Loop α) : Prop :=
  ∃ live, run Heap.step [] loop.uses = some live ∧ live.Perm loop.conns ∧
    (loop.ended = true → live = [])

theorem Loop.sound_step (loop : Loop α) (turn : LoopTurn α) (next : Loop α) (sound : loop.Sound)
    (stepped : loop.step turn = some next) : next.Sound := by
  obtain ⟨live, replayed, same, _⟩ := sound
  have polled : run Heap.step [] (loop.uses ++ loop.conns.map (·, .touch)) = some live := by
    rw [run_append, replayed]
    exact run_touch fun conn held => same.mem_iff.mpr held
  unfold Loop.step at stepped
  split at stepped
  · exact absurd stepped (by simp)
  next running =>
    cases turn with
    | interrupted =>
        obtain rfl := Option.some.inj stepped
        exact ⟨live, polled, same, fun ended => absurd ended running⟩
    | served accepted env report =>
        obtain ⟨rest, exams, after, scanned, used, left⟩ :=
          scanPolled_replays env accepted report same
        dsimp only at stepped
        split at stepped
        next legal =>
          rw [scanned] at stepped
          obtain rfl := Option.some.inj stepped
          refine ⟨after, ?_, left, by simp⟩
          rw [run_append, polled, Option.bind_some, run_append, run_alloc legal.1, Option.bind_some]
          · exact used
          · exact fun conn new held => legal.2 conn new (same.mem_iff.mp held)
        · exact absurd stepped (by simp)
    | stopped =>
        obtain rfl := Option.some.inj stepped
        refine ⟨[], ?_, .refl _, fun _ => rfl⟩
        rw [run_append, polled, Option.bind_some, run_append, run_touch, Option.bind_some]
        · exact run_free same
        · exact fun conn held => same.mem_iff.mpr held

/-- Whatever `poll`, the ticks and `Accept` return, the loop uses no connection of its vector
before it is accepted or after it is freed, it frees none twice, and at the end of the loop
none is left.  A running loop serves whatever new connections come. -/
theorem connections_are_freed_once {turns : List (LoopTurn α)} {loop : Loop α}
    (reached : run Loop.step ⟨[], [], false⟩ turns = some loop) :
    loop.Sound ∧ ∀ accepted env report, loop.ended = false → accepted.Nodup →
      (∀ conn ∈ accepted, conn ∉ loop.conns) →
        (loop.step (.served accepted env report)).isSome := by
  refine ⟨run_invariant Loop.sound_step ⟨[], rfl, .refl _, fun _ => rfl⟩ reached, ?_⟩
  intro accepted env report running distinct fresh
  obtain ⟨_, _, _, scanned, _⟩ := scanPolled_replays env accepted report (.refl loop.conns)
  simpa [Loop.step, running, distinct, scanned] using fresh

/-- A run that drops one connection and frees the other at the end. -/
theorem connections_are_freed_after_drop :
    let turns : List (LoopTurn Nat) := [.served [1, 2] (closes 1) (readable 0),
      .served [] (closes 1) (readable 1), .stopped]
    ∃ loop, run Loop.step ⟨[], [], false⟩ turns = some loop ∧ loop.Sound ∧
      (2, .free) ∈ loop.uses := by
  intro turns
  exact ⟨_, rfl, (@connections_are_freed_once Nat _ turns _ rfl).1, by decide⟩

end GrpcUds.Cxx
