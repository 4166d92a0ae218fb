import Neemata.Workflows.InMemory.Frame
import Neemata.Workflows.InMemory.Sound

/-!
# Run leases of the store

A run has at most one lease. It is superseded when the store no longer has its token. Only the
operations of coordinators look at it.
-/

namespace Neemata.Workflows

variable {V : Type}

namespace Mem

/-- The store has the lease's token for the lease's run. -/
def holdsRunLease (m : Mem V) (lease : RunLease) : Bool :=
  (m.runLeases.get? lease.runId).any fun stored => stored.leaseToken = lease.leaseToken

theorem holdsRunLease_iff {m : Mem V} {lease : RunLease} : m.holdsRunLease lease = true ↔
    ∃ stored, m.runLeases.get? lease.runId = some stored ∧
      stored.leaseToken = lease.leaseToken := by
  simp only [holdsRunLease, Option.any_eq_true, decide_eq_true_eq]

theorem renewRunLease_of_not_holds {m : Mem V} {lease : RunLease}
    (h : ¬ m.holdsRunLease lease) (leaseMs : Nat) : m.renewRunLease lease leaseMs = (none, m) := by
  unfold renewRunLease
  split
  · rfl
  · next stored hget =>
    have hne : stored.leaseToken ≠ lease.leaseToken :=
      fun heq => h (holdsRunLease_iff.mpr ⟨stored, hget, heq⟩)
    rw [if_pos hne]

end Mem

end Neemata.Workflows
