import Mathlib.Data.List.Basic
import Mathlib.Data.List.Nodup

/-!
# Operations that go through a queue or past it

An operation is either posted to a queue, from which it is taken later, or performed
at once.  A ledger numbers the operations in the order in which they are made, and
keeps the order in which they are done.  Two operations that are equal are about the
same object; a later one can only be done first by passing an earlier one in the queue.
-/

universe u

structure Ledger (Op : Type u) where
  /-- The operations made so far.  An operation is known by its position. -/
  ops : List Op
  waiting : List Nat
  done : List Nat
  /-- The operations that were waiting when a later one on the same object was
  performed, with that one. -/
  passed : List (Nat × Nat)

namespace Ledger

variable {Op : Type u}

def new : Ledger Op := ⟨[], [], [], []⟩

def post (ledger : Ledger Op) (op : Op) : Ledger Op :=
  { ledger with
    ops := ledger.ops ++ [op]
    waiting := ledger.waiting ++ [ledger.ops.length] }

def perform [DecidableEq Op] (ledger : Ledger Op) (op : Op) : Ledger Op :=
  { ledger with
    ops := ledger.ops ++ [op]
    done := ledger.done ++ [ledger.ops.length]
    passed := ledger.passed ++
      (ledger.waiting.filter fun number => ledger.ops[number]? = some op).map
        fun number => (number, ledger.ops.length) }

/-- Take the first operation from the queue, and do it or drop it. -/
def take (ledger : Ledger Op) (reached : Bool) : Ledger Op :=
  { ledger with
    waiting := ledger.waiting.tail
    done := if reached then ledger.done ++ ledger.waiting.head?.toList else ledger.done }

/-- The operations in the queue. -/
def queue (ledger : Ledger Op) : List (Option Op) :=
  ledger.waiting.map fun number => ledger.ops[number]?

/-- What holds while only operations that are `gone` are dropped. -/
structure Ordered (gone : Op → Prop) (ledger : Ledger Op) : Prop where
  sorted : (ledger.waiting ++ [ledger.ops.length]).Pairwise (· < ·)
  known : ∀ number ∈ ledger.done, number < ledger.ops.length
  once : ledger.done.Nodup
  apart : ∀ number ∈ ledger.done, number ∉ ledger.waiting
  overtaking : ∀ pair ∈ ledger.passed, pair.2 ∈ ledger.done
  kept : ∀ number op, ledger.ops[number]? = some op →
    number ∈ ledger.waiting ∨ number ∈ ledger.done ∨ gone op
  order : ∀ earlier later op, ledger.ops[earlier]? = some op → ledger.ops[later]? = some op →
    earlier < later → later ∈ ledger.done →
      (List.Sublist [earlier, later] ledger.done ↔ (earlier, later) ∉ ledger.passed)

theorem pair_sublist_concat {first second last : Nat} {numbers : List Nat} :
    List.Sublist [first, second] (numbers ++ [last]) ↔
      List.Sublist [first, second] numbers ∨ first ∈ numbers ∧ second = last := by
  constructor
  · intro sublist
    obtain ⟨front, back, split, inFront, inBack⟩ := List.sublist_append_iff.mp sublist
    rcases List.sublist_singleton.mp inBack with rfl | rfl
    · rw [List.append_nil] at split
      exact .inl (split ▸ inFront)
    · obtain ⟨rfl, last⟩ := List.append_inj'
        (show [first] ++ [second] = front ++ [last] from split) rfl
      exact .inr ⟨List.singleton_sublist.mp inFront, (List.cons.inj last).1⟩
  · rintro (before | ⟨present, rfl⟩)
    · exact before.trans (List.sublist_append_left _ _)
    · exact (List.singleton_sublist.mpr present).append (.refl [second])

namespace Ordered

variable {gone : Op → Prop} {ledger : Ledger Op}

theorem new : Ordered gone (new : Ledger Op) := by
  constructor <;> simp [Ledger.new]

theorem waiting_lt (ordered : ledger.Ordered gone) {number : Nat}
    (waits : number ∈ ledger.waiting) : number < ledger.ops.length :=
  (List.pairwise_append.mp ordered.sorted).2.2 number waits _ (List.mem_singleton_self _)

theorem mono (ordered : ledger.Ordered gone) {gone' : Op → Prop}
    (grows : ∀ op ∈ ledger.ops, gone op → gone' op) : ledger.Ordered gone' := by
  refine { ordered with kept := fun number op found => ?_ }
  exact (ordered.kept number op found).imp_right
    (Or.imp_right (grows op (List.mem_of_getElem? found)))

/-- An operation of the longer list is an old one or the last one. -/
theorem getElem?_concat {op last : Op} {ops : List Op} {number : Nat}
    (found : (ops ++ [last])[number]? = some op) :
    ops[number]? = some op ∧ number < ops.length ∨ number = ops.length ∧ op = last := by
  rcases Nat.lt_or_ge number ops.length with inside | beyond
  · rw [List.getElem?_append_left inside] at found
    exact .inl ⟨found, inside⟩
  · rw [List.getElem?_append_right beyond, List.getElem?_singleton] at found
    split at found
    next first => exact .inr ⟨by omega, (Option.some.inj found).symm⟩
    next => exact absurd found nofun

theorem queue_concat (ordered : ledger.Ordered gone) (op : Op) :
    (ledger.waiting.map fun number => (ledger.ops ++ [op])[number]?) = ledger.queue := by
  apply List.map_congr_left
  intro number waits
  exact List.getElem?_append_left (ordered.waiting_lt waits)

theorem queue_post (ordered : ledger.Ordered gone) (op : Op) :
    (ledger.post op).queue = ledger.queue ++ [some op] := by
  simp only [queue, post, List.map_append, List.map_cons, List.map_nil,
    List.getElem?_concat_length]
  rw [ordered.queue_concat op]
  rfl

theorem queue_perform [DecidableEq Op] (ordered : ledger.Ordered gone) (op : Op) :
    (ledger.perform op).queue = ledger.queue :=
  ordered.queue_concat op

theorem queue_take (ledger : Ledger Op) (reached : Bool) :
    (ledger.take reached).queue = ledger.queue.tail := by
  simp [queue, take, List.map_tail]

theorem post (ordered : ledger.Ordered gone) (op : Op) : (ledger.post op).Ordered gone := by
  refine ⟨?_, ?_, ordered.once, ?_, ordered.overtaking, ?_, ?_⟩
  · simp only [Ledger.post, List.length_append, List.length_singleton]
    refine List.pairwise_append.mpr ⟨ordered.sorted, List.pairwise_singleton _ _, ?_⟩
    intro number waits last isLast
    obtain rfl := List.mem_singleton.mp isLast
    rcases List.mem_append.mp waits with before | new
    · exact Nat.lt_succ_of_lt (ordered.waiting_lt before)
    · obtain rfl := List.mem_singleton.mp new
      exact Nat.lt_succ_self _
  · intro number finished
    simpa [Ledger.post] using Nat.lt_succ_of_lt (ordered.known number finished)
  · intro number finished waits
    rcases List.mem_append.mp waits with before | new
    · exact ordered.apart number finished before
    · exact absurd (ordered.known number finished) (by simp [List.mem_singleton.mp new])
  · intro number other found
    rcases getElem?_concat found with ⟨old, _⟩ | ⟨rfl, _⟩
    · exact (ordered.kept number other old).imp_left (List.mem_append_left _)
    · exact .inl (List.mem_append_right _ (List.mem_singleton_self _))
  · intro earlier later other first second before finished
    have inside := ordered.known later finished
    rcases getElem?_concat first with ⟨oldFirst, _⟩ | ⟨rfl, _⟩
    · rcases getElem?_concat second with ⟨oldSecond, _⟩ | ⟨rfl, _⟩
      · exact ordered.order earlier later other oldFirst oldSecond before finished
      · exact absurd inside (Nat.lt_irrefl _)
    · omega

/-- An operation that is performed at once is done before those that wait. -/
theorem perform [DecidableEq Op] (ordered : ledger.Ordered gone) {op : Op} (there : ¬ gone op) :
    (ledger.perform op).Ordered gone := by
  refine ⟨?_, ?_, ?_, ?_, ?_, ?_, ?_⟩
  · simp only [Ledger.perform, List.length_append, List.length_singleton]
    refine List.pairwise_append.mpr
      ⟨(List.pairwise_append.mp ordered.sorted).1, List.pairwise_singleton _ _, ?_⟩
    intro number waits last isLast
    obtain rfl := List.mem_singleton.mp isLast
    exact Nat.lt_succ_of_lt (ordered.waiting_lt waits)
  · intro number finished
    simp only [Ledger.perform, List.length_append, List.length_singleton]
    rcases List.mem_append.mp finished with before | new
    · exact Nat.lt_succ_of_lt (ordered.known number before)
    · obtain rfl := List.mem_singleton.mp new
      exact Nat.lt_succ_self _
  · refine List.nodup_append.mpr ⟨ordered.once, List.nodup_singleton _, ?_⟩
    rintro number finished last isLast rfl
    obtain rfl := List.mem_singleton.mp isLast
    exact Nat.lt_irrefl _ (ordered.known _ finished)
  · intro number finished waits
    rcases List.mem_append.mp finished with before | new
    · exact ordered.apart number before waits
    · obtain rfl := List.mem_singleton.mp new
      exact Nat.lt_irrefl _ (ordered.waiting_lt waits)
  · intro pair listed
    rcases List.mem_append.mp listed with before | new
    · exact List.mem_append_left _ (ordered.overtaking pair before)
    · obtain ⟨number, _, rfl⟩ := List.mem_map.mp new
      exact List.mem_append_right _ (List.mem_singleton_self _)
  · intro number other found
    rcases getElem?_concat found with ⟨old, _⟩ | ⟨rfl, _⟩
    · exact (ordered.kept number other old).imp_right (Or.imp_left (List.mem_append_left _))
    · exact .inr (.inl (List.mem_append_right _ (List.mem_singleton_self _)))
  · intro earlier later other first second before finished
    simp only [Ledger.perform, pair_sublist_concat, List.mem_append, List.mem_map,
      List.mem_filter, decide_eq_true_eq, Prod.mk.injEq]
    rcases getElem?_concat second with ⟨oldSecond, inside⟩ | ⟨rfl, rfl⟩
    · obtain ⟨oldFirst, _⟩ : ledger.ops[earlier]? = some other ∧ earlier < ledger.ops.length := by
        refine (getElem?_concat first).resolve_right ?_
        omega
      have settled : later ∈ ledger.done := by
        refine (List.mem_append.mp finished).resolve_right ?_
        intro new
        have := List.mem_singleton.mp new
        omega
      have order := ordered.order earlier later other oldFirst oldSecond before settled
      have different : later ≠ ledger.ops.length := by omega
      constructor
      · rintro (sublist | ⟨_, same⟩) (listed | ⟨_, _, _, same⟩)
        · exact order.mp sublist listed
        · exact different same.symm
        · exact different same
        · exact different same.symm
      · intro unlisted
        exact .inl (order.mpr fun listed => unlisted (.inl listed))
    · -- The new operation: what waits on the same object is passed.
      obtain ⟨oldFirst, _⟩ : ledger.ops[earlier]? = some other ∧ earlier < ledger.ops.length := by
        refine (getElem?_concat first).resolve_right ?_
        omega
      constructor
      · rintro (sublist | ⟨finishedFirst, _⟩) (listed | ⟨number, ⟨waits, _⟩, rfl, _⟩)
        · exact Nat.lt_irrefl _ (ordered.known _ (ordered.overtaking _ listed))
        · exact Nat.lt_irrefl _ (ordered.known _ (sublist.subset (by simp)))
        · exact Nat.lt_irrefl _ (ordered.known _ (ordered.overtaking _ listed))
        · exact ordered.apart _ finishedFirst waits
      · intro unlisted
        refine .inr ⟨?_, rfl⟩
        rcases ordered.kept earlier other oldFirst with waits | finishedFirst | missing
        · exact absurd (.inr ⟨earlier, ⟨waits, oldFirst⟩, rfl, rfl⟩) unlisted
        · exact finishedFirst
        · exact absurd missing there

/-- Taking from the queue, if what is dropped is gone and what is done is not. -/
theorem take (ordered : ledger.Ordered gone) {number : Nat} {op : Op} {rest : List Nat}
    (head : ledger.waiting = number :: rest) (found : ledger.ops[number]? = some op)
    {reached : Bool} (right : reached = true ↔ ¬ gone op) : (ledger.take reached).Ordered gone := by
  have sorted := ordered.sorted
  rw [head, List.cons_append, List.pairwise_cons] at sorted
  have unfinished : number ∉ ledger.done := fun finished =>
    ordered.apart number finished (head ▸ List.mem_cons_self)
  have fewer : ∀ other, other ∈ rest → other ∈ ledger.waiting := fun other waits =>
    head ▸ List.mem_cons_of_mem _ waits
  cases reached with
  | false =>
      have dropped : gone op := by simpa using right
      refine ⟨?_, ordered.known, ordered.once, ?_, ordered.overtaking, ?_, ordered.order⟩
      · simpa [Ledger.take, head] using sorted.2
      · intro other finished waits
        exact ordered.apart other finished (fewer other (by simpa [Ledger.take, head] using waits))
      · intro other made known
        rcases ordered.kept other made known with waits | finished
        · rw [head] at waits
          rcases List.mem_cons.mp waits with rfl | later
          · exact .inr (.inr (Option.some.inj (found.symm.trans known) ▸ dropped))
          · exact .inl (by simpa [Ledger.take, head] using later)
        · exact .inr finished
  | true =>
      have there : ¬ gone op := right.mp rfl
      have taken : (ledger.take true).done = ledger.done ++ [number] := by
        simp [Ledger.take, head]
      have left : (ledger.take true).waiting = rest := by simp [Ledger.take, head]
      refine ⟨?_, ?_, ?_, ?_, ?_, ?_, ?_⟩
      · rw [left]
        exact sorted.2
      · intro other finished
        rw [taken, List.mem_append, List.mem_singleton] at finished
        rcases finished with before | rfl
        · exact ordered.known other before
        · exact ordered.waiting_lt (head ▸ List.mem_cons_self)
      · rw [taken]
        refine List.nodup_append.mpr ⟨ordered.once, List.nodup_singleton _, ?_⟩
        rintro other finished last isLast rfl
        exact unfinished (List.mem_singleton.mp isLast ▸ finished)
      · intro other finished waits
        rw [taken, List.mem_append, List.mem_singleton] at finished
        rw [left] at waits
        rcases finished with before | rfl
        · exact ordered.apart other before (fewer other waits)
        · exact Nat.lt_irrefl _ (sorted.1 _ (List.mem_append_left _ waits))
      · intro pair listed
        rw [taken]
        exact List.mem_append_left _ (ordered.overtaking pair listed)
      · intro other made known
        rw [taken, left, List.mem_append, List.mem_singleton]
        rcases ordered.kept other made known with waits | finished | missing
        · rw [head] at waits
          rcases List.mem_cons.mp waits with rfl | later
          · exact .inr (.inl (.inr rfl))
          · exact .inl later
        · exact .inr (.inl (.inl finished))
        · exact .inr (.inr missing)
      · intro earlier later other first second before finished
        rw [taken, List.mem_append, List.mem_singleton] at finished
        rw [taken, pair_sublist_concat]
        rcases finished with settled | rfl
        · have different : later ≠ number := fun same => unfinished (same ▸ settled)
          have order := ordered.order earlier later other first second before settled
          rw [or_iff_left fun finishedLater => different finishedLater.2]
          exact order
        · have unpassed : (earlier, later) ∉ ledger.passed := fun listed =>
            unfinished (ordered.overtaking _ listed)
          refine iff_of_true (.inr ⟨?_, rfl⟩) unpassed
          -- The head of the queue is the oldest that waits.
          rcases ordered.kept earlier other first with waits | done | missing
          · rw [head] at waits
            rcases List.mem_cons.mp waits with rfl | later
            · exact absurd before (Nat.lt_irrefl _)
            · exact absurd (sorted.1 _ (List.mem_append_left _ later)) (by omega)
          · exact done
          · exact absurd (Option.some.inj (second.symm.trans found) ▸ missing) there

end Ordered

end Ledger
