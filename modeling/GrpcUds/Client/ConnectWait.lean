import Mathlib.Data.Nat.Find
import Mathlib.Data.List.Range
import GrpcUds.Lib.Xorshift
import GrpcUds.Client.Conn

/-!
# Connecting with retries

`connect_wait` tries to connect until it succeeds or the deadline has passed, with a
nap between two attempts.  The backoff grows to a second, the jitter takes a percentage
of it, and no nap is asked for beyond the deadline.
-/

namespace GrpcUds.Client

open Headers

def connectBackoffInitialMs : Nat := 50

def connectBackoffMaxMs : Nat := 1000

/-- Times 1.6 in integers, capped. -/
def nextBackoffMs (cur : Nat) : Nat := min (saturatingMul cur 8 / 5) connectBackoffMaxMs

/-- 80 to 120 percent, picked from `r`. -/
def applyJitter (ms r : Nat) : Nat := saturatingMul ms (80 + r % 41) / 100

def xorshift64 (s : BitVec 64) : BitVec 64 :=
  let x := s ^^^ s <<< 13
  let x := x ^^^ x >>> 7
  x ^^^ x <<< 17

/-- The time that `sleep_ms` asks `poll` for. -/
def sleepMs (ms : Nat) : Nat := min ms (2 ^ 31 - 1)

/-- What one attempt hands to the next. -/
structure Retry where
  backoff : Nat
  rng : BitVec 64
  deriving DecidableEq

/-- A nap: the clock before it, the backoff and the generator it was made from, its length
with jitter, and the sleep that was asked for. -/
structure Nap where
  now : Nat
  backoff : Nat
  rng : BitVec 64
  length : Nat
  slept : Nat
  deriving DecidableEq

def Retry.next (retry : Retry) : Retry := ⟨nextBackoffMs retry.backoff, xorshift64 retry.rng⟩

def Retry.nap (retry : Retry) (deadline now : Nat) : Nap :=
  let rng := xorshift64 retry.rng
  let length := applyJitter retry.backoff rng.toNat
  ⟨now, retry.backoff, rng, length, sleepMs (min length (deadline - now))⟩

/-- What `connect_wait` meets: the outcome of each attempt, the two readings of the clock
that it starts with, its process id as a `u64`, and the clock after each failed attempt. -/
structure WaitEnv (α : Type) where
  connect : Nat → Except ClientError α
  start : Nat
  seeded : Nat
  pid : BitVec 64
  clock : Nat → Nat

namespace WaitEnv

variable {α : Type}

/-- A `u64` sum. -/
def deadline (env : WaitEnv α) (timeoutMs : Nat) : Nat := (env.start + timeoutMs) % 2 ^ 64

def seed (env : WaitEnv α) : BitVec 64 := BitVec.ofNat 64 env.seeded <<< 17 ^^^ (env.pid ||| 1#64)

/-- The loop: its result and the naps it took.  It has none when the fuel does not
suffice. -/
def connectLoop (env : WaitEnv α) (deadline : Nat) :
    Nat → Nat → Retry → Option (Except ClientError α × List Nap)
  | 0, _, _ => none
  | fuel + 1, attempt, retry =>
      match env.connect attempt with
      | .ok conn => some (.ok conn, [])
      | .error error =>
          let now := env.clock attempt
          if deadline ≤ now then some (.error error, [])
          else
            (env.connectLoop deadline fuel (attempt + 1) retry.next).map fun (result, naps) =>
              (result, retry.nap deadline now :: naps)

def connectWait (env : WaitEnv α) (timeoutMs fuel : Nat) :
    Option (Except ClientError α × List Nap) :=
  env.connectLoop (env.deadline timeoutMs) fuel 0 ⟨connectBackoffInitialMs, env.seed⟩

/-- The state that an attempt starts with. -/
def retryAt (env : WaitEnv α) : Nat → Retry
  | 0 => ⟨connectBackoffInitialMs, env.seed⟩
  | attempt + 1 => (env.retryAt attempt).next

/-- The nap after an attempt, if there is one. -/
def napAt (env : WaitEnv α) (deadline attempt : Nat) : Nap :=
  (env.retryAt attempt).nap deadline (env.clock attempt)

/-- The loop ends after an attempt: it connected, or the deadline has passed. -/
def Stops (env : WaitEnv α) (deadline attempt : Nat) : Prop :=
  (∃ conn, env.connect attempt = .ok conn) ∨ deadline ≤ env.clock attempt

/-- The clock does not go back, and every nap that the loop takes lasts at least as long as
was asked for. -/
structure Advances (env : WaitEnv α) (timeoutMs : Nat) : Prop where
  starts : env.start ≤ env.clock 0
  sleeps : ∀ attempt, (∀ earlier ≤ attempt, ¬ env.Stops (env.deadline timeoutMs) earlier) →
    env.clock attempt + (env.napAt (env.deadline timeoutMs) attempt).slept ≤ env.clock (attempt + 1)

end WaitEnv

/-! ### Backoff, jitter and generator -/

theorem nextBackoffMs_bounds {cur : Nat} (large : 50 ≤ cur) (small : cur ≤ 1000) :
    cur ≤ nextBackoffMs cur ∧ nextBackoffMs cur ≤ 1000 := by
  unfold nextBackoffMs saturatingMul u64Max connectBackoffMaxMs
  omega

/-- The jitter rounds down to a whole millisecond. -/
theorem applyJitter_bounds {ms : Nat} (small : ms ≤ 1000) (r : Nat) :
    80 * ms < 100 * (applyJitter ms r + 1) ∧ 100 * applyJitter ms r ≤ 120 * ms := by
  have lower : ms * 80 ≤ ms * (80 + r % 41) := Nat.mul_le_mul_left _ (by omega)
  have upper : ms * (80 + r % 41) ≤ ms * 120 := Nat.mul_le_mul_left _ (by omega)
  have exact_ : saturatingMul ms (80 + r % 41) = ms * (80 + r % 41) := by
    apply Nat.min_eq_left
    unfold u64Max
    omega
  rw [applyJitter, exact_]
  omega

theorem xorshift64_ne_zero {s : BitVec 64} (nonzero : s ≠ 0#64) : xorshift64 s ≠ 0#64 := by
  intro zero
  apply nonzero
  apply Xorshift.eq_zero_of_left (show 0 < 13 by decide)
  apply Xorshift.eq_zero_of_right (show 0 < 7 by decide)
  exact Xorshift.eq_zero_of_left (show 0 < 17 by decide) zero

theorem Retry.slept_le (retry : Retry) (deadline now : Nat) :
    (retry.nap deadline now).slept ≤ deadline - now := by
  simp only [Retry.nap, sleepMs]
  omega

/-- A sleep is cut short only by the deadline. -/
theorem Retry.slept_eq {retry : Retry} (small : retry.backoff ≤ 1000) (deadline now : Nat) :
    (retry.nap deadline now).slept = min (retry.nap deadline now).length (deadline - now) := by
  have jitter := (applyJitter_bounds small (xorshift64 retry.rng).toNat).2
  simp only [Retry.nap, sleepMs]
  omega

namespace WaitEnv

variable {α : Type} (env : WaitEnv α)

theorem backoff_bounds (attempt : Nat) :
    50 ≤ (env.retryAt attempt).backoff ∧ (env.retryAt attempt).backoff ≤ 1000 := by
  induction attempt with
  | zero =>
      change 50 ≤ connectBackoffInitialMs ∧ connectBackoffInitialMs ≤ 1000
      decide
  | succ attempt ih =>
      obtain ⟨large, small⟩ := ih
      obtain ⟨grows, capped⟩ := nextBackoffMs_bounds large small
      exact ⟨Nat.le_trans large grows, capped⟩

theorem backoff_grows (attempt : Nat) :
    (env.retryAt attempt).backoff ≤ (env.retryAt (attempt + 1)).backoff := by
  obtain ⟨large, small⟩ := env.backoff_bounds attempt
  exact (nextBackoffMs_bounds large small).1

theorem backoff_mono {first second : Nat} (order : first ≤ second) :
    (env.retryAt first).backoff ≤ (env.retryAt second).backoff := by
  induction order with
  | refl => exact Nat.le_refl _
  | step _ ih => exact Nat.le_trans ih (env.backoff_grows _)

/-- The process id makes the seed odd. -/
theorem seed_ne_zero : env.seed ≠ 0#64 := by
  intro zero
  have bit : env.seed.getLsbD 0 = true := by
    simp [seed]
  rw [zero] at bit
  simp at bit

theorem rng_ne_zero (attempt : Nat) : (env.retryAt attempt).rng ≠ 0#64 := by
  induction attempt with
  | zero => exact env.seed_ne_zero
  | succ attempt ih => exact xorshift64_ne_zero ih

/-! ### The loop -/

theorem deadline_le (timeoutMs : Nat) : env.deadline timeoutMs ≤ env.start + timeoutMs :=
  Nat.mod_le _ _

variable {env}

/-- Every nap but the last takes forty milliseconds at least. -/
theorem Advances.clock_ge {timeoutMs : Nat} (advances : env.Advances timeoutMs) {attempt : Nat}
    (goes : ∀ earlier ≤ attempt, ¬ env.Stops (env.deadline timeoutMs) earlier) :
    env.start + 40 * attempt ≤ env.clock attempt := by
  induction attempt with
  | zero => exact advances.starts
  | succ attempt ih =>
      have goesBefore : ∀ earlier ≤ attempt, ¬ env.Stops (env.deadline timeoutMs) earlier :=
        fun earlier upTo => goes earlier (Nat.le_succ_of_le upTo)
      have early : env.clock (attempt + 1) < env.deadline timeoutMs :=
        Nat.lt_of_not_le fun late => goes (attempt + 1) (Nat.le_refl _) (.inr late)
      obtain ⟨large, small⟩ := env.backoff_bounds attempt
      have before := ih goesBefore
      have sleeps := advances.sleeps attempt goesBefore
      have cut := Retry.slept_eq small (env.deadline timeoutMs) (env.clock attempt)
      have jitter := (applyJitter_bounds small (xorshift64 (env.retryAt attempt).rng).toNat).1
      simp only [napAt] at sleeps
      rw [cut] at sleeps
      simp only [Retry.nap] at sleeps
      omega

/-- The loop ends in time. -/
theorem Advances.exists_stop {timeoutMs : Nat} (advances : env.Advances timeoutMs) :
    ∃ attempt ≤ (timeoutMs + 39) / 40, env.Stops (env.deadline timeoutMs) attempt := by
  by_contra none
  have goes : ∀ earlier ≤ (timeoutMs + 39) / 40,
      ¬ env.Stops (env.deadline timeoutMs) earlier :=
    fun earlier upTo stops => none ⟨earlier, upTo, stops⟩
  have early : env.clock ((timeoutMs + 39) / 40) < env.deadline timeoutMs :=
    Nat.lt_of_not_le fun late => goes _ (Nat.le_refl _) (.inr late)
  have late := advances.clock_ge goes
  have bound := env.deadline_le timeoutMs
  omega

/-- The loop ends with the first attempt that stops it, and has napped after every one
before. -/
theorem connectLoop_eq {deadline last : Nat} (stops : env.Stops deadline last) :
    ∀ (fuel attempt : Nat), attempt ≤ last → last < attempt + fuel →
      (∀ earlier, attempt ≤ earlier → earlier < last → ¬ env.Stops deadline earlier) →
      env.connectLoop deadline fuel attempt (env.retryAt attempt) =
        some (env.connect last,
          (List.range' attempt (last - attempt)).map (env.napAt deadline)) := by
  intro fuel
  induction fuel with
  | zero => omega
  | succ fuel ih =>
      intro attempt upTo enough goes
      rw [connectLoop]
      by_cases same : attempt = last
      · subst same
        rw [Nat.sub_self]
        cases outcome : env.connect attempt with
        | ok conn => rfl
        | error error =>
            have late : deadline ≤ env.clock attempt := by
              rcases stops with ⟨conn, connected⟩ | late
              · simp [outcome] at connected
              · exact late
            simp only [late, if_true]
            rfl
      · have here := goes attempt (Nat.le_refl _) (by omega)
        cases outcome : env.connect attempt with
        | ok conn => exact absurd (.inl ⟨conn, outcome⟩) here
        | error error =>
            have early : ¬ deadline ≤ env.clock attempt := fun late => here (.inr late)
            have continued := ih (attempt + 1) (by omega) (by omega)
              fun earlier lower upper => goes earlier (by omega) upper
            have count : last - attempt = (last - (attempt + 1)) + 1 := by omega
            simp only [early, if_false]
            rw [show (env.retryAt attempt).next = env.retryAt (attempt + 1) from rfl, continued,
              count, List.range'_succ]
            rfl

end WaitEnv

/-- A nap of 80 to 120 percent of its backoff, rounded down, that does not sleep past the
deadline. -/
structure Nap.Fair (nap : Nap) (deadline : Nat) : Prop where
  atLeast : 80 * nap.backoff < 100 * (nap.length + 1)
  atMost : 100 * nap.length ≤ 120 * nap.backoff
  inTime : nap.now + nap.slept ≤ deadline
  capped : nap.backoff ≤ 1000
  nonzero : nap.rng ≠ 0#64

theorem WaitEnv.napAt_fair {α : Type} (env : WaitEnv α) {deadline attempt : Nat}
    (early : env.clock attempt < deadline) : (env.napAt deadline attempt).Fair deadline := by
  obtain ⟨_, small⟩ := env.backoff_bounds attempt
  obtain ⟨atLeast, atMost⟩ := applyJitter_bounds small (xorshift64 (env.retryAt attempt).rng).toNat
  have slept := (env.retryAt attempt).slept_le deadline (env.clock attempt)
  refine ⟨atLeast, atMost, ?_, small, xorshift64_ne_zero (env.rng_ne_zero attempt)⟩
  change env.clock attempt + ((env.retryAt attempt).nap deadline (env.clock attempt)).slept ≤
    deadline
  omega

/-- On a clock that a sleep advances, `connect_wait` ends after at most two attempts and one
for every forty milliseconds, with the first connection or the last error; the error only
once the deadline has passed. -/
theorem connect_wait_ends {α : Type} (env : WaitEnv α) (timeoutMs : Nat)
    (advances : env.Advances timeoutMs) :
    env.seed ≠ 0#64 ∧
    ∃ result naps, env.connectWait timeoutMs (2 + timeoutMs / 40) = some (result, naps) ∧
      naps.length + 1 ≤ 2 + timeoutMs / 40 ∧ (timeoutMs = 0 → naps = []) ∧
      result = env.connect naps.length ∧
      (∀ attempt < naps.length, ∃ error, env.connect attempt = .error error) ∧
      (∀ error, result = .error error → env.deadline timeoutMs ≤ env.clock naps.length) ∧
      (∀ nap ∈ naps, nap.Fair (env.deadline timeoutMs)) ∧
      (naps.map Nap.backoff).Pairwise (· ≤ ·) := by
  refine ⟨env.seed_ne_zero, ?_⟩
  obtain ⟨stop, inTime, stopped⟩ := advances.exists_stop
  have exists_ : ∃ attempt, env.Stops (env.deadline timeoutMs) attempt := ⟨stop, stopped⟩
  classical
  let last := Nat.find exists_
  have stops : env.Stops (env.deadline timeoutMs) last := Nat.find_spec exists_
  have first : ∀ earlier, earlier < last → ¬ env.Stops (env.deadline timeoutMs) earlier :=
    fun earlier less => Nat.find_min exists_ less
  have few : last ≤ (timeoutMs + 39) / 40 := Nat.le_trans (Nat.find_min' exists_ stopped) inTime
  have loop := WaitEnv.connectLoop_eq stops (2 + timeoutMs / 40) 0 (Nat.zero_le _) (by omega)
    fun earlier _ less => first earlier less
  have count : ((List.range' 0 (last - 0)).map (env.napAt (env.deadline timeoutMs))).length =
      last := by simp
  refine ⟨env.connect last, _, loop, ?_⟩
  rw [count]
  refine ⟨by omega, ?_, rfl, ?_, ?_, ?_, ?_⟩
  · intro zero
    have none : last = 0 := by omega
    rw [none]
    rfl
  · intro attempt less
    cases outcome : env.connect attempt with
    | ok conn => exact absurd (.inl ⟨conn, outcome⟩) (first attempt less)
    | error error => exact ⟨error, rfl⟩
  · intro error failed
    rcases stops with ⟨conn, connected⟩ | late
    · rw [connected] at failed
      simp at failed
    · exact late
  · intro nap listed
    obtain ⟨attempt, member, rfl⟩ := List.mem_map.mp listed
    have less : attempt < last := by
      rw [List.mem_range'_1] at member
      omega
    apply env.napAt_fair
    apply Nat.lt_of_not_le
    exact fun late => first attempt less (.inr late)
  · rw [List.map_map, List.pairwise_map]
    apply List.Pairwise.imp _ List.pairwise_lt_range'
    intro first second less
    exact env.backoff_mono (Nat.le_of_lt less)

/-- A server that comes up for the third attempt, on a clock of sixty milliseconds. -/
def lateServer : WaitEnv Unit where
  connect := fun attempt => if attempt < 2 then .error .connect else .ok ()
  start := 0
  seeded := 0
  pid := 6#64
  clock := fun attempt => 60 * attempt

/-- The third attempt connects. -/
theorem connect_wait_ends_connected :
    ∃ naps, lateServer.connectWait 100 4 = some (.ok (), naps) ∧ naps.length = 2 ∧
      ∀ nap ∈ naps, nap.Fair 100 := by
  have advances : lateServer.Advances 100 := by
    refine ⟨Nat.le_refl _, ?_⟩
    intro attempt _
    have slept := (lateServer.retryAt attempt).slept_le 100 (60 * attempt)
    cases attempt with
    | zero => decide
    | succ attempt =>
        change 60 * (attempt + 1) + ((lateServer.retryAt (attempt + 1)).nap 100
          (60 * (attempt + 1))).slept ≤ 60 * (attempt + 1 + 1)
        omega
  obtain ⟨_, result, naps, ended, _, _, last, _, _, fair, _⟩ :=
    connect_wait_ends lateServer 100 advances
  obtain ⟨naps, same, count⟩ :
      ∃ naps, lateServer.connectWait 100 4 = some (.ok (), naps) ∧ naps.length = 2 :=
    ⟨_, rfl, rfl⟩
  obtain ⟨rfl, rfl⟩ := Prod.mk.inj (Option.some.inj (ended.symm.trans same))
  exact ⟨_, same, count, fair⟩

/-- A server that never comes up, on a clock that every sleep advances exactly. -/
def noServer : WaitEnv Unit where
  connect := fun _ => .error .connect
  start := 0
  seeded := 0
  pid := 6#64
  clock := fun attempt => [0, 41, 117, 225, 398].getD attempt 500

/-- The fifth nap is below 80 percent of its backoff: 260 of 326 milliseconds. -/
theorem jitter_below_eighty_percent :
    noServer.Advances 500 ∧
      ∃ result naps nap, noServer.connectWait 500 (2 + 500 / 40) = some (result, naps) ∧
        naps[4]? = some nap ∧ nap.backoff = 326 ∧ nap.length = 260 ∧
        100 * nap.length < 80 * nap.backoff := by
  constructor
  · refine ⟨Nat.le_refl _, ?_⟩
    intro attempt _
    match attempt with
    | 0 | 1 | 2 | 3 | 4 => decide
    | attempt + 5 =>
        have slept := (noServer.retryAt (attempt + 5)).slept_le 500 500
        change 500 + ((noServer.retryAt (attempt + 5)).nap 500 500).slept ≤ 500
        omega
  · have run : ((noServer.connectWait 500 (2 + 500 / 40)).map fun ended =>
        ended.2[4]?.map fun nap => (nap.backoff, nap.length)) = some (some (326, 260)) := by
      decide +kernel
    obtain ⟨⟨result, naps⟩, ended, found⟩ := Option.map_eq_some_iff.mp run
    obtain ⟨nap, fifth, same⟩ := Option.map_eq_some_iff.mp found
    obtain ⟨backoff, length⟩ := Prod.mk.inj same
    exact ⟨result, naps, nap, ended, fifth, backoff, length, by omega⟩

end GrpcUds.Client
