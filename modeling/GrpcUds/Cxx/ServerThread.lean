import GrpcUds.Lib.Cursor
import GrpcUds.Server.Timeout

/-!
# The I/O loop of `ServerThread`

One turn of the loop polls the listener, the connections, the wakeup and the stop
descriptors, for no longer than the earliest pending deadline, and then goes over the
connections that were polled.  The wait is kept in an `int` while remaining times have
64 bits, and connections are erased from their vector while the poll set stays.
-/

namespace GrpcUds.Cxx

open Cursor

/-! ### The wait -/

/-- `grpcuds_conn_next_deadline_ms` on a connection that is not null. -/
def grpcudsConnNextDeadlineMs (conn : Server.Conn) (now : Nat) : Int :=
  match conn.nextDeadlineMs now with
  | some ms => (min ms (2 ^ 63 - 1) : Nat)
  | none => -1

/-- `static_cast<int>` of a 64-bit number. -/
def toInt (value : Int) : Int := value.bmod (2 ^ 32)

/-- The wait after one more connection. -/
def shorten (timeout d : Int) : Int :=
  if 0 ≤ d ∧ (timeout < 0 ∨ d < timeout) then toInt (if 0 < d then d else 1) else timeout

/-- The wait for some connections, each asked at its own reading of the clock. -/
def pollTimeout (conns : List (Server.Conn × Nat)) : Int :=
  (conns.map fun polled => grpcudsConnNextDeadlineMs polled.1 polled.2).foldl shorten (-1)

/-- No wait past a deadline: without end only if none is pending, and otherwise no longer
than any of them, or a millisecond. -/
structure WaitsWithin (conns : List (Server.Conn × Nat)) (timeout : Int) : Prop where
  endless : timeout = -1 → ∀ polled ∈ conns, polled.1.nextDeadlineMs polled.2 = none
  pending : ∀ polled ∈ conns, ∀ ms, polled.1.nextDeadlineMs polled.2 = some ms →
    0 ≤ timeout ∧ timeout ≤ max 1 ms

/-- A remaining time that is not negative as an `int`. -/
def StaysPositive (ms : Nat) : Prop := min ms (2 ^ 63 - 1) % 2 ^ 32 < 2 ^ 31

/-- What the wait says of the remaining times it was made from; -1 stands for none. -/
structure Shortened (remaining : List Int) (timeout : Int) : Prop where
  small : timeout < 2 ^ 31
  lost : timeout < 0 → ∀ d ∈ remaining, 0 ≤ d → 2 ^ 31 ≤ d % 2 ^ 32
  within : 0 ≤ timeout → ∀ d ∈ remaining, 0 ≤ d → timeout ≤ max 1 d
  found : 0 ≤ timeout → ∃ d ∈ remaining, 0 ≤ d ∧ d % 2 ^ 32 < 2 ^ 31

theorem toInt_eq (value : Int) :
    toInt value = if value % 2 ^ 32 < 2 ^ 31 then value % 2 ^ 32 else value % 2 ^ 32 - 2 ^ 32 := by
  rw [toInt, Int.bmod_def]
  rfl

/-- A time below the current wait is small enough to be kept. -/
theorem shorten_less {timeout d : Int} (small : timeout < 2 ^ 31) (nonneg : 0 ≤ d)
    (less : d < timeout) : shorten timeout d = max 1 d := by
  rw [shorten, if_pos ⟨nonneg, .inr less⟩, toInt_eq]
  split <;> split <;> omega

/-- The first time is kept if its low 32 bits are not negative as an `int`. -/
theorem shorten_first {timeout d : Int} (none : timeout < 0) (nonneg : 0 ≤ d)
    (positive : d % 2 ^ 32 < 2 ^ 31) :
    0 ≤ shorten timeout d ∧ shorten timeout d ≤ max 1 d ∧ shorten timeout d < 2 ^ 31 := by
  rw [shorten, if_pos ⟨nonneg, .inl none⟩, toInt_eq]
  split_ifs <;> omega

theorem shorten_lost {timeout d : Int} (none : timeout < 0) (nonneg : 0 ≤ d)
    (negative : 2 ^ 31 ≤ d % 2 ^ 32) : shorten timeout d < 0 := by
  rw [shorten, if_pos ⟨nonneg, .inl none⟩, toInt_eq]
  split <;> split <;> omega

namespace Shortened

variable {remaining : List Int} {timeout : Int}

theorem start : Shortened [] (-1) where
  small := by decide
  lost := by simp
  within := by simp
  found := by simp

variable (shortened : Shortened remaining timeout)
include shortened

/-- A connection that does not change the wait. -/
theorem keep {d : Int} (longer : 0 ≤ d → 0 ≤ timeout ∧ timeout ≤ d) :
    Shortened (remaining ++ [d]) timeout where
  small := shortened.small
  lost := by
    intro negative other listed nonneg
    rcases List.mem_append.mp listed with before | last
    · exact shortened.lost negative other before nonneg
    · rw [List.mem_singleton.mp last] at nonneg
      have := longer nonneg
      omega
  within := by
    intro positive other listed nonneg
    rcases List.mem_append.mp listed with before | last
    · exact shortened.within positive other before nonneg
    · rw [List.mem_singleton.mp last] at nonneg ⊢
      have := longer nonneg
      omega
  found := by
    intro positive
    obtain ⟨other, listed, fits⟩ := shortened.found positive
    exact ⟨other, List.mem_append_left _ listed, fits⟩

/-- A connection that sets the wait to its own time. -/
theorem replace {d next : Int} (nonneg : 0 ≤ d) (positive : 0 ≤ next) (own : next ≤ max 1 d)
    (small : next < 2 ^ 31) (fits : d % 2 ^ 32 < 2 ^ 31) (less : timeout < 0 ∨ next ≤ timeout) :
    Shortened (remaining ++ [d]) next where
  small := small
  lost := fun negative => absurd negative (Int.not_lt.mpr positive)
  within := by
    intro _ other listed nonneg
    rcases List.mem_append.mp listed with before | last
    · rcases less with none | shorter
      · have high := shortened.lost none other before nonneg
        omega
      · have within := shortened.within (by omega) other before nonneg
        omega
    · rw [List.mem_singleton.mp last]
      exact own
  found := fun _ => ⟨d, List.mem_append_right _ (List.mem_singleton_self d), nonneg, fits⟩

theorem step (d : Int) :
    Shortened (remaining ++ [d]) (shorten timeout d) := by
  have small := shortened.small
  by_cases shorter : 0 ≤ d ∧ (timeout < 0 ∨ d < timeout)
  · obtain ⟨nonneg, none | less⟩ := shorter
    · by_cases positive : d % 2 ^ 32 < 2 ^ 31
      · obtain ⟨nextNonneg, own, nextSmall⟩ := shorten_first none nonneg positive
        exact shortened.replace nonneg nextNonneg own nextSmall positive (.inl none)
      · have negative := shorten_lost none nonneg (by omega)
        refine ⟨by omega, ?_, fun impossible => by omega, fun impossible => by omega⟩
        intro _ other listed otherNonneg
        rcases List.mem_append.mp listed with before | last
        · exact shortened.lost none other before otherNonneg
        · rw [List.mem_singleton.mp last]
          omega
    · rw [shorten_less small nonneg less]
      exact shortened.replace nonneg (by omega) (Int.le_refl _) (by omega) (by omega)
        (.inr (by omega))
  · rw [shorten, if_neg shorter]
    exact shortened.keep fun nonneg => by omega

theorem foldl (more : List Int) :
    Shortened (remaining ++ more) (more.foldl shorten timeout) := by
  induction more generalizing remaining timeout with
  | nil =>
      rw [List.append_nil]
      exact shortened
  | cons d more ih =>
      have continued := ih (shortened.step d)
      rw [List.append_assoc] at continued
      exact continued

end Shortened

theorem grpcudsConnNextDeadlineMs_some {conn : Server.Conn} {now ms : Nat}
    (pending : conn.nextDeadlineMs now = some ms) :
    grpcudsConnNextDeadlineMs conn now = (min ms (2 ^ 63 - 1) : Nat) := by
  rw [grpcudsConnNextDeadlineMs, pending]

theorem pending_of_nonneg {conn : Server.Conn} {now : Nat}
    (nonneg : 0 ≤ grpcudsConnNextDeadlineMs conn now) :
    ∃ ms, conn.nextDeadlineMs now = some ms := by
  cases pending : conn.nextDeadlineMs now with
  | none => simp [grpcudsConnNextDeadlineMs, pending] at nonneg
  | some ms => exact ⟨ms, rfl⟩

theorem staysPositive_iff {ms : Nat} :
    StaysPositive ms ↔ ((min ms (2 ^ 63 - 1) : Nat) : Int) % 2 ^ 32 < 2 ^ 31 := by
  unfold StaysPositive
  omega

/-- The loop never sleeps past a deadline if and only if none is pending or one of them
has a remaining time whose low 32 bits are not negative as an `int`. -/
theorem poll_waits_within_iff (conns : List (Server.Conn × Nat)) :
    WaitsWithin conns (pollTimeout conns) ↔
      (∀ polled ∈ conns, polled.1.nextDeadlineMs polled.2 = none) ∨
        ∃ polled ∈ conns, ∃ ms, polled.1.nextDeadlineMs polled.2 = some ms ∧ StaysPositive ms := by
  have shortened : Shortened _ (pollTimeout conns) := Shortened.start.foldl _
  rw [List.nil_append] at shortened
  have listed {polled : Server.Conn × Nat} (member : polled ∈ conns) :
      grpcudsConnNextDeadlineMs polled.1 polled.2 ∈
        conns.map fun polled => grpcudsConnNextDeadlineMs polled.1 polled.2 :=
    List.mem_map.mpr ⟨polled, member, rfl⟩
  constructor
  · intro waits
    by_cases positive : 0 ≤ pollTimeout conns
    · obtain ⟨d, member, nonneg, fits⟩ := shortened.found positive
      obtain ⟨polled, memberToo, rfl⟩ := List.mem_map.mp member
      obtain ⟨ms, pending⟩ := pending_of_nonneg nonneg
      rw [grpcudsConnNextDeadlineMs_some pending, ← staysPositive_iff] at fits
      exact .inr ⟨polled, memberToo, ms, pending, fits⟩
    · left
      intro polled member
      cases pending : polled.1.nextDeadlineMs polled.2 with
      | none => rfl
      | some ms => exact absurd (waits.pending polled member ms pending).1 positive
  · rintro (none | ⟨polled, member, ms, pending, fits⟩)
    · refine ⟨fun _ => none, ?_⟩
      intro polled member ms pending
      simp [none polled member] at pending
    · have positive : 0 ≤ pollTimeout conns := by
        by_contra negative
        have high := shortened.lost (Int.not_le.mp negative) _ (listed member)
        rw [grpcudsConnNextDeadlineMs_some pending] at high
        rw [staysPositive_iff] at fits
        omega
      refine ⟨fun endless => by omega, ?_⟩
      intro other member ms pending
      have within := shortened.within positive _ (listed member)
      rw [grpcudsConnNextDeadlineMs_some pending] at within
      omega

/-- A connection with one dispatched call, whose timeout arrived at time 0. -/
def waiting (timeout : Bytes) : Server.Conn :=
  ((((Server.Conn.newServer [] 64 3).pushStream 1).onHeader 1 Headers.nGrpcTimeout timeout 0
    true).2.modify 1 fun stream => { stream with state := .dispatched })

/-- Two calls of five seconds and of 600 hours. -/
theorem poll_waits_within_five_seconds :
    WaitsWithin [(waiting (Headers.ascii "600H"), 0), (waiting (Headers.ascii "5S"), 1)]
      (pollTimeout [(waiting (Headers.ascii "600H"), 0), (waiting (Headers.ascii "5S"), 1)]) := by
  apply (poll_waits_within_iff _).mpr
  right
  refine ⟨(waiting (Headers.ascii "5S"), 1), by simp, 4999, ?_, ?_⟩
  · decide
  · unfold StaysPositive
    omega

/-- A deadline 600 hours away makes the wait negative, and one 4294967295 milliseconds away
makes it -1: `poll` then waits without end. -/
theorem poll_waits_without_end :
    (waiting (Headers.ascii "600H")).nextDeadlineMs 0 = some 2160000000 ∧
      pollTimeout [(waiting (Headers.ascii "600H"), 0)] = -2134967296 ∧
      (waiting (Headers.ascii "4294968S")).nextDeadlineMs 705 = some 4294967295 ∧
      pollTimeout [(waiting (Headers.ascii "4294968S"), 705)] = -1 := by
  decide +kernel

end GrpcUds.Cxx
