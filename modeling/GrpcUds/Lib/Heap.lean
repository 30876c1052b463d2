import GrpcUds.Lib.Transition

/-!
# Replaying the uses of addresses

A heap refuses to hand out an address in use, to touch one that is not, and to free twice.
-/

namespace Heap

open Transition

inductive Use where
  | alloc
  | touch
  | free
  deriving DecidableEq

variable {α : Type} [DecidableEq α] {live addresses : List α}

/-- The addresses in use. -/
def step (live : List α) : α × Use → Option (List α)
  | (address, .alloc) => if address ∈ live then none else some (live ++ [address])
  | (address, .touch) => if address ∈ live then some live else none
  | (address, .free) => if address ∈ live then some (live.erase address) else none

theorem run_touch (allocated : ∀ address ∈ addresses, address ∈ live) :
    run step live (addresses.map (·, .touch)) = some live := by
  induction addresses with
  | nil => rfl
  | cons address rest ih =>
      obtain ⟨first, others⟩ := List.forall_mem_cons.mp allocated
      simpa [step, first] using ih others

theorem run_alloc (distinct : addresses.Nodup) (fresh : ∀ address ∈ addresses, address ∉ live) :
    run step live (addresses.map (·, .alloc)) = some (live ++ addresses) := by
  induction addresses generalizing live with
  | nil => simp
  | cons address rest ih =>
      obtain ⟨first, others⟩ := List.forall_mem_cons.mp fresh
      obtain ⟨new, distinct⟩ := List.nodup_cons.mp distinct
      have later := @ih (live ++ [address]) distinct (by grind)
      simpa [step, first] using later

theorem run_free (same : live.Perm addresses) :
    run step live (addresses.map (·, .free)) = some [] := by
  induction addresses generalizing live with
  | nil => simp [same.eq_nil]
  | cons address rest ih =>
      have left : (live.erase address).Perm rest := by simpa using same.erase address
      simpa [step, same.mem_iff] using ih left

end Heap
