import Neemata.Workflows.InMemory.Attempts
import Neemata.Workflows.InMemory.Conservation

/-!
# Commands and the attempts they are for

As long as what is dispatched is for a stored attempt, with the token of that attempt, every command
of the attempt queue is for an attempt that was created (`commanded_after`).
-/

namespace Neemata.Workflows

variable {V : Type}

/-- The command an operation dispatches. -/
def Op.dispatched : Op V → Option (AttemptCommand V)
  | .executor (.dispatch command _) => some command
  | _ => none

namespace Mem

/-- The attempt was created with this token. -/
def Issued (m : Mem V) (attemptId leaseToken : String) : Prop :=
  Minted "attempt" m.nextId attemptId ∧
    ∀ attempt, m.attempts.get? attemptId = some attempt → attempt.leaseToken = leaseToken

/-- The commands of the queue are for attempts that were created. -/
structure Commanded [JsRuntime V] (m : Mem V) : Prop where
  sound : m.AttemptSound
  kept : m.QueuesKept
  issued : ∀ e ∈ m.attemptQueue.entries,
    m.Issued e.item.payload.attemptId e.item.payload.leaseToken

variable [JsRuntime V] {m : Mem V}

theorem Issued.step (hm : m.Sound) {attemptId leaseToken : String}
    (h : m.Issued attemptId leaseToken) (op : Op V) : (m.step op).Issued attemptId leaseToken := by
  have heffect := step_effect hm.keyed op
  refine ⟨h.1.mono heffect.nextId_le, fun attempt' hget => ?_⟩
  obtain hfresh | ⟨attempt, hbefore, rfl | hchange⟩ := heffect.attempts_back hget
  · exact absurd (hfresh ▸ h.1) (not_minted_freshId _ _)
  · exact h.2 _ hbefore
  · rw [hchange.same]
    exact h.2 attempt hbefore

theorem Commanded.step (h : m.Commanded) (op : Op V) (hop : m.Contracted op)
    (hdispatch : ∀ command runAt, op = .executor (.dispatch command runAt) →
      m.Issued command.attemptId command.leaseToken) : (m.step op).Commanded where
  sound := h.sound.step hop.1 hop.2
  kept := h.kept.step h.sound.sound op
  issued e' he' := by
    obtain ⟨e, he, -, hpayload⟩ | ⟨command, runAt, hop, hpayload, -⟩ := h.kept.attempt_back op he'
    · rw [hpayload]
      exact (h.issued e he).step h.sound.sound op
    · rw [hpayload]
      exact (hdispatch command runAt hop).step h.sound.sound op

/-- Operations keep to their contracts and dispatch attempts that are stored. -/
def Provided (m : Mem V) (op : Op V) : Prop :=
  m.Contracted op ∧ ∀ command ∈ op.dispatched,
    (m.attempts.get? command.attemptId).any fun attempt => attempt.leaseToken = command.leaseToken

instance (m : Mem V) (op : Op V) : Decidable (m.Provided op) :=
  inferInstanceAs (Decidable (m.Contracted op ∧ ∀ command ∈ op.dispatched, _))

theorem Commanded.step_provided (h : m.Commanded) {op : Op V} (hop : m.Provided op) :
    (m.step op).Commanded := by
  refine h.step op hop.1 fun command runAt hdispatch => ?_
  have hstored := hop.2 command (hdispatch ▸ rfl)
  simp only [Option.any_eq_true, decide_eq_true_eq] at hstored
  obtain ⟨attempt, hget, htoken⟩ := hstored
  refine ⟨(h.sound.sound.attempts _ _ hget).2, fun found hfound => ?_⟩
  rw [hget] at hfound
  exact Option.some.inj hfound ▸ htoken

theorem commanded_after (maxDeliveries : Option Int) {history : List (Op V)}
    (h : Trace.Admits Mem.step Provided (createInMemoryWorkflowRuntime maxDeliveries) history) :
    (after maxDeliveries history).Commanded := by
  refine Trace.run_inv_of_admits Mem.step (fun m op hop hm => hm.step_provided hop) h ?_
  exact ⟨attemptSound_create maxDeliveries, queuesKept_create maxDeliveries,
    fun _ he => absurd he (Multiset.notMem_zero _)⟩

end Mem

end Neemata.Workflows
