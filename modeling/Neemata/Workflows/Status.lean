import Mathlib.Tactic.Common

/-!
# Statuses and transitions

The status enumerations of `runtime/status.ts` and the state machines of `runtime/transitions.ts`.
Runs and nodes share the shape of their machine (a terminal status has no successor); an attempt
leaves `started` once.
-/

namespace Neemata.Workflows

/-- `WorkflowStatus` of the public types, the status of a run. -/
inductive RuntimeRunStatus
  | queued | running | waiting | cancelling | cancelled | failed | completed
deriving DecidableEq, Repr

/-- The status of a node and of a node child. -/
inductive RuntimeNodeStatus
  | pending | running | waiting | cancelling | cancelled | failed | completed
deriving DecidableEq, Repr

inductive RuntimeAttemptStatus
  | started | completed | failed | timedOut | cancelled
deriving DecidableEq, Repr

def isTerminalRunStatus : RuntimeRunStatus → Bool
  | .completed | .failed | .cancelled => true
  | _ => false

def isTerminalNodeStatus : RuntimeNodeStatus → Bool
  | .completed | .failed | .cancelled => true
  | _ => false

/-- The status word as the source spells it. -/
def RuntimeRunStatus.text : RuntimeRunStatus → String
  | .queued => "queued"
  | .running => "running"
  | .waiting => "waiting"
  | .cancelling => "cancelling"
  | .cancelled => "cancelled"
  | .failed => "failed"
  | .completed => "completed"

/-! ## The transition maps -/

def runTransitions : RuntimeRunStatus → List RuntimeRunStatus
  | .queued => [.running, .cancelling, .cancelled, .failed, .completed]
  | .running => [.waiting, .cancelling, .cancelled, .failed, .completed]
  | .waiting => [.running, .cancelling, .cancelled, .failed, .completed]
  | .cancelling => [.cancelled, .failed, .completed]
  | .completed => []
  | .failed => []
  | .cancelled => []

def nodeTransitions : RuntimeNodeStatus → List RuntimeNodeStatus
  | .pending => [.running, .waiting, .cancelling, .cancelled, .failed, .completed]
  | .running => [.waiting, .cancelling, .cancelled, .failed, .completed]
  | .waiting => [.running, .cancelling, .cancelled, .failed, .completed]
  | .cancelling => [.cancelled, .failed, .completed]
  | .completed => []
  | .failed => []
  | .cancelled => []

def attemptTransitions : RuntimeAttemptStatus → List RuntimeAttemptStatus
  | .started => [.completed, .failed, .timedOut, .cancelled]
  | .completed => []
  | .failed => []
  | .timedOut => []
  | .cancelled => []

def canTransition {σ : Type} [DecidableEq σ] (transitions : σ → List σ) (source target : σ) : Bool :=
  target ∈ transitions source

/-- An attempt is settled once it has left `started`. -/
def isSettledAttemptStatus (status : RuntimeAttemptStatus) : Bool := status ≠ .started

/-! ## Terminal statuses -/

theorem not_canTransition_of_terminal_run {s t : RuntimeRunStatus} (h : isTerminalRunStatus s) :
    canTransition runTransitions s t = false := by
  cases s <;> first | rfl | cases h

theorem canTransition_terminal_run {s t : RuntimeRunStatus} (hs : isTerminalRunStatus s = false)
    (ht : isTerminalRunStatus t) : canTransition runTransitions s t := by
  cases s <;> first | exact Bool.noConfusion hs | (cases t <;> first | rfl | cases ht)

theorem canTransition_cancelling_run {s : RuntimeRunStatus} (hs : isTerminalRunStatus s = false)
    (hc : s ≠ .cancelling) : canTransition runTransitions s .cancelling := by
  cases s <;> first | rfl | exact Bool.noConfusion hs | exact absurd rfl hc

theorem canTransition_terminal_node {s t : RuntimeNodeStatus} (hs : isTerminalNodeStatus s = false)
    (ht : isTerminalNodeStatus t) : canTransition nodeTransitions s t := by
  cases s <;> first | exact Bool.noConfusion hs | (cases t <;> first | rfl | cases ht)

theorem canTransition_waiting_node {s t : RuntimeNodeStatus} (hs : isTerminalNodeStatus s = false)
    (hc : s ≠ .cancelling) (hw : s ≠ .waiting) (ht : t = .waiting) :
    canTransition nodeTransitions s t := by
  subst ht
  cases s <;> first
    | rfl
    | exact Bool.noConfusion hs
    | exact absurd rfl hc
    | exact absurd rfl hw

/-- A node that is neither terminal nor `cancelling` is `running` or may become it. -/
theorem running_of_live_node {s : RuntimeNodeStatus} (hs : isTerminalNodeStatus s = false)
    (hc : s ≠ .cancelling) : .running = s ∨ canTransition nodeTransitions s .running := by
  cases s <;> first
    | exact .inr rfl
    | exact .inl rfl
    | exact Bool.noConfusion hs
    | exact absurd rfl hc

theorem live_of_running_node {s : RuntimeNodeStatus}
    (h : s = .running ∨ canTransition nodeTransitions s .running) :
    isTerminalNodeStatus s = false := by
  cases s <;> first | rfl | (rcases h with h | h <;> cases h)

theorem canTransition_settled_attempt {t : RuntimeAttemptStatus}
    (ht : isSettledAttemptStatus t) : canTransition attemptTransitions .started t := by
  cases t <;> first | rfl | cases ht

end Neemata.Workflows
