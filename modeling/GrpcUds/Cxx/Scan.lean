import Mathlib.Data.List.Range
import GrpcUds.Lib.Cursor

/-!
# The scan of `ServerThread`

After a poll that returned, the loop goes over the connections that were polled.  A
connection whose tick reports that it is closed or failed is freed and erased from the
vector, and the index stays, so that the next connection moves under it.  The poll set
keeps its entries, and the same index now reads the entry of the one that was erased.
-/

namespace GrpcUds.Cxx

open Cursor

/-- What an entry of the poll set stands for. -/
inductive Polled (α : Type) where
  | listener
  | conn (conn : α)
  | wakeup
  | stop
  deriving DecidableEq

/-- The bits that `poll` reports for an entry. -/
structure Revents where
  pollin : Bool
  pollout : Bool
  pollhup : Bool
  pollerr : Bool
  pollnval : Bool
  deriving DecidableEq, Repr

/-- What the scan does to a connection. -/
inductive Action where
  | tickRead
  | tickWrite
  | skip
  deriving DecidableEq, Repr

/-- What the calls into the core return, turn by turn: whether the next deadline of a
connection is due, and the result of ticking it. -/
structure ScanEnv (α : Type) where
  due : Nat → α → Bool
  tick : Nat → α → Action → Int

/-- One turn of the scan: the connection, the index of the entry that was read and the
action that was taken. -/
structure Exam (α : Type) where
  conn : α
  entry : Nat
  action : Action
  deriving DecidableEq

variable {α : Type}

/-- The poll set that is built from the connections. -/
def pollSet (conns : List α) : List (Polled α) :=
  .listener :: (conns.map .conn ++ [.wakeup, .stop])

def Revents.action (revents : Revents) (due : Bool) : Action :=
  if revents.pollin || revents.pollhup || revents.pollerr || revents.pollnval then .tickRead
  else if revents.pollout then .tickWrite
  else if due then .tickRead
  else .skip

/-- A connection that was ticked is dropped if it is closed or in error. -/
def ScanEnv.drops (env : ScanEnv α) (turn : Nat) (conn : α) (action : Action) : Bool :=
  match action with
  | .skip => false
  | action => decide (env.tick turn conn action = 1 ∨ env.tick turn conn action < 0)

/-- The scan from an index on: the connections that are kept, and what was examined.
`fuel` bounds the turns. -/
def scan (env : ScanEnv α) (revents : List Revents) :
    Nat → Nat → List α → Nat → Nat → Except Fault (List α × List (Exam α))
  | 0, _, _, _, _ => .error .outOfTurns
  | fuel + 1, turn, conns, index, cap =>
      if index < cap then do
        let bits ← get revents (index + 1)
        let conn ← get conns index
        let action := bits.action (env.due turn conn)
        let exam : Exam α := ⟨conn, index + 1, action⟩
        if env.drops turn conn action then
          let (kept, exams) ←
            scan env revents fuel (turn + 1) (conns.eraseIdx index) index (cap - 1)
          .ok (kept, exam :: exams)
        else
          let (kept, exams) ← scan env revents fuel (turn + 1) conns (index + 1) cap
          .ok (kept, exam :: exams)
      else .ok (conns, [])

/-- What `poll` reports for every entry of the poll set. -/
def reported (polled : List α) (report : Nat → Revents) : List Revents :=
  (List.range (pollSet polled).length).map report

/-- The scan of an iteration: the connections that were accepted stand behind the polled
ones, and the listener, the wakeup and the stop entries are not counted. -/
def scanPolled (env : ScanEnv α) (polled accepted : List α) (report : Nat → Revents) :
    Except Fault (List α × List (Exam α)) :=
  scan env (reported polled report) (polled.length + 1) 0 (polled ++ accepted) 0
    ((reported polled report).length - 3)

/-- No connection but the last is dropped on what its own entry says. -/
def OnlyLastDrops (env : ScanEnv α) (polled : List α) (report : Nat → Revents) : Prop :=
  ∀ (turn : Nat) (conn : α), turn + 1 < polled.length → polled[turn]? = some conn →
    env.drops turn conn ((report (turn + 1)).action (env.due turn conn)) = false

/-- A connection stands one behind its position in the poll set. -/
theorem pollSet_succ {conns : List α} {position : Nat} {conn : α}
    (found : conns[position]? = some conn) :
    (pollSet conns)[position + 1]? = some (.conn conn) := by
  have inside : position < (conns.map Polled.conn).length := by
    rw [List.length_map]
    exact (List.getElem?_eq_some_iff.mp found).1
  rw [pollSet, List.getElem?_cons_succ, List.getElem?_append_left inside, List.getElem?_map, found]
  rfl

section Turns

variable (env : ScanEnv α) (revents : List Revents)

/-- One turn.  The connections before the index are kept, the next one is examined on the
entry behind the index, and it stays or goes. -/
theorem scan_cons {fuel turn : Nat} (kept remaining accepted : List α) (conn : α) {bits : Revents}
    (read : revents[kept.length + 1]? = some bits) :
    scan env revents (fuel + 1) turn (kept ++ conn :: (remaining ++ accepted)) kept.length
        (kept.length + (remaining.length + 1)) =
      (if env.drops turn conn (bits.action (env.due turn conn)) then
          scan env revents fuel (turn + 1) (kept ++ (remaining ++ accepted)) kept.length
            (kept.length + remaining.length)
        else
          scan env revents fuel (turn + 1) ((kept ++ [conn]) ++ (remaining ++ accepted))
            (kept ++ [conn]).length ((kept ++ [conn]).length + remaining.length)).map
        fun result =>
          (result.1, ⟨conn, kept.length + 1, bits.action (env.due turn conn)⟩ :: result.2) := by
  have inside : kept.length < kept.length + (remaining.length + 1) := by omega
  have bitsRead : get revents (kept.length + 1) = .ok bits := by rw [Cursor.get, read]
  have connRead : get (kept ++ conn :: (remaining ++ accepted)) kept.length = .ok conn := by
    rw [Cursor.get, List.getElem?_append_right (Nat.le_refl _), Nat.sub_self]
    rfl
  have erased : (kept ++ conn :: (remaining ++ accepted)).eraseIdx kept.length =
      kept ++ (remaining ++ accepted) := by
    rw [List.eraseIdx_append_of_length_le (Nat.le_refl _), Nat.sub_self]
    rfl
  have kept_ : (kept ++ [conn]) ++ (remaining ++ accepted) =
      kept ++ conn :: (remaining ++ accepted) := by
    rw [List.append_assoc]
    rfl
  have longer : (kept ++ [conn]).length = kept.length + 1 := by simp
  have cap : kept.length + 1 + remaining.length = kept.length + (remaining.length + 1) := by omega
  rw [scan, if_pos inside, bitsRead]
  simp only [bind, Except.bind, connRead]
  rw [kept_, longer, cap, erased, Nat.add_succ_sub_one]
  split
  · cases scan env revents fuel (turn + 1) (kept ++ (remaining ++ accepted)) kept.length
      (kept.length + remaining.length) <;> rfl
  · cases scan env revents fuel (turn + 1) (kept ++ conn :: (remaining ++ accepted))
      (kept.length + 1) (kept.length + (remaining.length + 1)) <;> rfl

theorem scan_nil {fuel turn : Nat} (kept accepted : List α) :
    scan env revents (fuel + 1) turn (kept ++ accepted) kept.length kept.length =
      .ok (kept ++ accepted, []) := by
  rw [scan, if_neg (Nat.lt_irrefl _)]

/-- Every connection that is left is examined once, in order, the first of them on the entry
behind the index. -/
theorem scan_examines (fuel turn : Nat) (kept remaining accepted : List α)
    (enough : remaining.length < fuel) (room : kept.length + remaining.length < revents.length) :
    ∃ rest exams,
      scan env revents fuel turn (kept ++ (remaining ++ accepted)) kept.length
          (kept.length + remaining.length) = .ok (rest, exams) ∧
        exams.map Exam.conn = remaining ∧
        (∀ exam, exams.head? = some exam → exam.entry = kept.length + 1) ∧
        ∀ (offset : Nat) (exam : Exam α), exams[offset]? = some exam →
          ∃ bits, revents[exam.entry]? = some bits ∧
            exam.action = bits.action (env.due (turn + offset) exam.conn) := by
  induction remaining generalizing fuel turn kept with
  | nil =>
      obtain ⟨fuel, rfl⟩ := Nat.exists_eq_add_one_of_ne_zero (Nat.ne_zero_of_lt enough)
      exact ⟨kept ++ accepted, [], scan_nil env revents kept accepted, rfl, by simp, by simp⟩
  | cons conn remaining ih =>
      obtain ⟨fuel, rfl⟩ := Nat.exists_eq_add_one_of_ne_zero (Nat.ne_zero_of_lt enough)
      rw [List.length_cons] at enough room
      obtain ⟨bits, read⟩ : ∃ bits, revents[kept.length + 1]? = some bits :=
        ⟨_, List.getElem?_eq_getElem (by omega)⟩
      have decided {exams : List (Exam α)}
          (later : ∀ (offset : Nat) (exam : Exam α), exams[offset]? = some exam →
            ∃ bits, revents[exam.entry]? = some bits ∧
              exam.action = bits.action (env.due (turn + 1 + offset) exam.conn)) :
          ∀ (offset : Nat) (exam : Exam α),
            (⟨conn, kept.length + 1, bits.action (env.due turn conn)⟩ :: exams)[offset]? =
              some exam →
            ∃ bits, revents[exam.entry]? = some bits ∧
              exam.action = bits.action (env.due (turn + offset) exam.conn) := by
        intro offset exam found
        cases offset with
        | zero =>
            obtain rfl := Option.some.inj found
            exact ⟨bits, read, rfl⟩
        | succ offset =>
            have same : turn + (offset + 1) = turn + 1 + offset := by omega
            rw [same]
            exact later offset exam found
      rw [List.length_cons, List.cons_append,
        scan_cons env revents kept remaining accepted conn read]
      split
      · obtain ⟨rest, exams, scanned, conns, _, later⟩ :=
          ih fuel (turn + 1) kept (by omega) (by omega)
        rw [scanned]
        refine ⟨rest, _, rfl, by rw [List.map_cons, conns], ?_, decided later⟩
        rintro exam ⟨⟩
        rfl
      · obtain ⟨rest, exams, scanned, conns, _, later⟩ :=
          ih fuel (turn + 1) (kept ++ [conn]) (by omega) (by simp; omega)
        rw [scanned]
        refine ⟨rest, _, rfl, by rw [List.map_cons, conns], ?_, decided later⟩
        rintro exam ⟨⟩
        rfl

/-- None of the connections but the last is dropped on what its own entry says, if the first
of them is examined in this turn. -/
def KeepsAll (turn : Nat) (remaining : List α) : Prop :=
  ∀ (offset : Nat) (conn : α) (bits : Revents), offset + 1 < remaining.length →
    remaining[offset]? = some conn → revents[turn + offset + 1]? = some bits →
    env.drops (turn + offset) conn (bits.action (env.due (turn + offset) conn)) = false

theorem keepsAll_cons {turn : Nat} {conn : α} {remaining : List α} {bits : Revents}
    (read : revents[turn + 1]? = some bits) :
    KeepsAll env revents turn (conn :: remaining) ↔
      (remaining ≠ [] → env.drops turn conn (bits.action (env.due turn conn)) = false) ∧
        KeepsAll env revents (turn + 1) remaining := by
  have shifted (offset : Nat) : turn + (offset + 1) = turn + 1 + offset := by omega
  constructor
  · intro keeps
    refine ⟨fun more => keeps 0 conn bits ?_ rfl read, ?_⟩
    · simpa using List.length_pos_iff.mpr more
    · intro offset other otherBits inside found otherRead
      rw [← shifted] at otherRead ⊢
      exact keeps (offset + 1) other otherBits (by simpa using inside) found otherRead
  · rintro ⟨first, later⟩ offset other otherBits inside found otherRead
    rw [List.length_cons] at inside
    cases offset with
    | zero =>
        obtain rfl := Option.some.inj found
        obtain rfl := Option.some.inj (read.symm.trans otherRead)
        exact first (List.length_pos_iff.mp (by omega))
    | succ offset =>
        rw [shifted] at otherRead ⊢
        exact later offset other otherBits (by omega) found otherRead

/-- While the index is level with the turns, every further entry is the own one of the
connection that it is read for, unless one but the last is dropped. -/
theorem scan_entries_iff (fuel turn : Nat) (kept remaining accepted : List α)
    (level : kept.length = turn) (enough : remaining.length < fuel)
    (room : kept.length + remaining.length < revents.length) {rest : List α} {exams : List (Exam α)}
    (scanned : scan env revents fuel turn (kept ++ (remaining ++ accepted)) kept.length
      (kept.length + remaining.length) = .ok (rest, exams)) :
    exams.map Exam.entry = List.range' (turn + 1) remaining.length ↔
      KeepsAll env revents turn remaining := by
  induction remaining generalizing fuel turn kept exams with
  | nil =>
      obtain ⟨_, _, again, conns, _, _⟩ :=
        scan_examines env revents fuel turn kept [] accepted enough room
      obtain ⟨_, rfl⟩ := Prod.mk.inj (Except.ok.inj (again.symm.trans scanned))
      rw [List.map_eq_nil_iff.mp conns]
      simp [KeepsAll]
  | cons conn remaining ih =>
      obtain ⟨fuel, rfl⟩ := Nat.exists_eq_add_one_of_ne_zero (Nat.ne_zero_of_lt enough)
      rw [List.length_cons] at enough room
      obtain ⟨bits, read⟩ : ∃ bits, revents[kept.length + 1]? = some bits :=
        ⟨_, List.getElem?_eq_getElem (by omega)⟩
      rw [List.length_cons, List.cons_append,
        scan_cons env revents kept remaining accepted conn read]
        at scanned
      rw [level] at read
      rw [keepsAll_cons env revents read]
      cases dropped : env.drops turn conn (bits.action (env.due turn conn)) with
      | true =>
          obtain ⟨rest, exams, continued, conns, first, _⟩ :=
            scan_examines env revents fuel (turn + 1) kept remaining accepted (by omega) (by omega)
          rw [if_pos dropped, continued] at scanned
          obtain ⟨_, rfl⟩ := Prod.mk.inj (Except.ok.inj scanned)
          cases remaining with
          | nil =>
              rw [List.map_eq_nil_iff.mp conns]
              simp [level, KeepsAll]
          | cons next remaining =>
              -- The next connection is read for on the entry of this one.
              constructor
              · intro own
                cases exams with
                | nil => simp at conns
                | cons exam exams =>
                    have entry := first exam rfl
                    simp only [List.map_cons, List.length_cons, List.range'_succ] at own
                    have second := (List.cons.inj (List.cons.inj own).2).1
                    omega
              · rintro ⟨keeps, _⟩
                simp at keeps
      | false =>
          obtain ⟨later, exams, continued, _⟩ :=
            scan_examines env revents fuel (turn + 1) (kept ++ [conn]) remaining accepted (by omega)
              (by simp; omega)
          rw [if_neg (by rw [dropped]; decide), continued] at scanned
          obtain ⟨rfl, rfl⟩ := Prod.mk.inj (Except.ok.inj scanned)
          have others := ih fuel (turn + 1) (kept ++ [conn]) (by simp [level])
            (by omega) (by simp; omega) continued
          rw [List.map_cons, List.length_cons, List.range'_succ, level, List.cons.injEq, others]
          simp

end Turns

theorem length_reported (polled : List α) (report : Nat → Revents) :
    (reported polled report).length = polled.length + 3 := by
  simp [reported, pollSet]

theorem getElem?_reported (polled : List α) (report : Nat → Revents) (entry : Nat) :
    (reported polled report)[entry]? =
      if entry < polled.length + 3 then some (report entry) else none := by
  have size := length_reported polled report
  split
  next inside =>
    rw [List.getElem?_eq_getElem (by omega)]
    simp [reported]
  next outside => exact List.getElem?_eq_none (by omega)

theorem eq_of_reported {polled : List α} {report : Nat → Revents} {entry : Nat} {bits : Revents}
    (read : (reported polled report)[entry]? = some bits) : bits = report entry := by
  rw [getElem?_reported] at read
  split at read
  · exact (Option.some.inj read).symm
  · simp at read

/-- Every connection that was polled is examined exactly once and handled as the entry says
that is read for it.  That entry is its own, one behind its position, for all of them if and
only if no connection but the last is dropped. -/
theorem scan_own_entries_iff (env : ScanEnv α) (polled accepted : List α) (report : Nat → Revents) :
    ∃ kept exams, scanPolled env polled accepted report = .ok (kept, exams) ∧
      exams.map Exam.conn = polled ∧
      (∀ position exam, exams[position]? = some exam →
        exam.action = (report exam.entry).action (env.due position exam.conn)) ∧
      (∀ position conn, polled[position]? = some conn →
        (pollSet polled)[position + 1]? = some (.conn conn)) ∧
      (exams.map Exam.entry = List.range' 1 polled.length ↔
        OnlyLastDrops env polled report) := by
  have size := length_reported polled report
  have room : ([] : List α).length + polled.length < (reported polled report).length := by
    rw [size, List.length_nil]
    omega
  have enough : polled.length < polled.length + 1 := Nat.lt_succ_self _
  obtain ⟨kept, exams, scanned, conns, _, decided⟩ :=
    scan_examines env (reported polled report) (polled.length + 1) 0 [] polled accepted enough room
  have entries := scan_entries_iff env (reported polled report) (polled.length + 1) 0 [] polled
    accepted rfl enough room scanned
  simp only [List.nil_append, List.length_nil, Nat.zero_add, KeepsAll] at scanned entries decided
  refine ⟨kept, exams, ?_, conns, ?_, fun _ _ => pollSet_succ, ?_⟩
  · rw [scanPolled, size, Nat.add_sub_cancel]
    exact scanned
  · intro position exam found
    obtain ⟨bits, read, action⟩ := decided position exam found
    rw [action, eq_of_reported read]
  · rw [entries]
    constructor
    · intro keeps turn conn inside found
      apply keeps turn conn (report (turn + 1)) inside found
      rw [getElem?_reported, if_pos (by omega)]
    · intro keeps turn conn bits inside found read
      rw [eq_of_reported read]
      exact keeps turn conn inside found

/-- Two connections, of which the first or the second is readable and closes. -/
def closes (closing : Nat) : ScanEnv Nat where
  due := fun _ _ => false
  tick := fun _ conn _ => if conn = closing then 1 else 0

def readable (entry : Nat) : Nat → Revents := fun index =>
  if index = entry then ⟨true, false, true, false, false⟩ else ⟨false, false, false, false, false⟩

/-- The last connection may close. -/
theorem scan_own_entries_last_closes :
    ∃ kept exams, scanPolled (closes 20) [10, 20] [] (readable 2) = .ok (kept, exams) ∧
      exams.map Exam.entry = [1, 2] := by
  obtain ⟨kept, exams, scanned, _, _, _, own⟩ :=
    scan_own_entries_iff (closes 20) [10, 20] [] (readable 2)
  refine ⟨kept, exams, scanned, own.mpr ?_⟩
  intro turn conn inside found
  have first : turn = 0 := by
    simp only [List.length_cons, List.length_nil] at inside
    omega
  subst first
  obtain rfl := Option.some.inj found
  decide

/-- The first connection closes, and the second, for which nothing was reported, is ticked
on the first one's entry. -/
theorem scan_reads_entry_of_dropped :
    scanPolled (closes 10) [10, 20] [] (readable 1) =
        .ok ([20], [⟨10, 1, .tickRead⟩, ⟨20, 1, .tickRead⟩]) ∧
      (readable 1 2).action ((closes 10).due 1 20) = .skip := by
  constructor
  · rfl
  · decide

end GrpcUds.Cxx
