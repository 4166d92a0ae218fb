import Neemata.Workflows.Worker.CancelProtocol

/-!
# How a coordinator ends nodes and runs

`coordinator/cancel.ts`, `coordinator/sinks.ts` and `coordinator/attempt.ts`. The store of a
coordinator is the one behind its lease; reads pass the fence unchanged, so `wakeParentRun` is the
one of the workers.
-/

namespace Neemata.Workflows

variable {V : Type}

section Sinks

variable (store : WorkflowStore V)

/-! ## Cancellation -/

/-- The body of the loop over the children: cancel the run of one child, if it has one that is not
terminal. `cancel` is the recursion. -/
def cancelChildRun (cancel : String → Pass V (Option (StoredRun V))) (child : StoredNodeChild V) :
    Pass V Unit :=
  match child.childRunId with
  | none => return
  | some childRunId => do
    let childSnapshot : Option (RunSnapshot V) ← store (.loadRunSnapshot childRunId)
    match childSnapshot with
    | none => return
    | some childSnapshot =>
      if isTerminalRunStatus childSnapshot.run.status then return
      else
        let _ ← store (.requestRunCancellation childRunId)
        if childSnapshot.run.kind = .workflow then
          executor (.enqueue
            { runId := childRunId, workflowName := childSnapshot.run.workflowName } none)
        let _ ← cancel childRunId

def cancelChildRuns (cancel : String → Pass V (Option (StoredRun V))) :
    List (StoredNodeChild V) → Pass V Unit
  | [] => return
  | child :: children => do
    cancelChildRun store cancel child
    cancelChildRuns cancel children

/-- `cancelRunTree`, down to a depth: linked runs can lie on a cycle, where the recursion of the
source never ends. -/
def cancelRunTree : (depth : Nat) → (runId : String) → Pass V (Option (StoredRun V))
  | 0, _ => ExceptT.mk .halt
  | depth + 1, runId => do
    let snapshot : Option (RunSnapshot V) ← store (.loadRunSnapshot runId)
    match snapshot with
    | none => return none
    | some snapshot =>
      if isTerminalRunStatus snapshot.run.status then return some snapshot.run
      else
        let _ ← store (.requestRunCancellation runId)
        store (.cancelNonTerminalRunNodes runId)
        cancelChildRuns store (cancelRunTree depth) snapshot.children
        let _ ← executor (.deleteUnclaimed runId)
        store (.cancelRun runId)

def cancelNodeChildRunsAndCommands (depth : Nat) (runId nodeName : String) : Pass V Unit := do
  let children : List (StoredNodeChild V) × List (StoredAttempt V) ←
    store (.loadNodeChildren runId nodeName)
  cancelChildRuns store (cancelRunTree store depth) children.1
  let _ ← executor (.deleteUnclaimed runId)

def shouldCancelFailedFanInNode (workflow : WorkflowImplementation) (node : StoredNode V) :
    Pass V Bool := do
  let declaration ← getWorkflowNodeDeclaration workflow node.name
  match declaration with
  | .parallel _ => return true
  | .mapTask _ _ mode _ | .mapWorkflow _ mode => return mode ≠ .waitSettled
  | _ => return false

def cancelFailedFanInNodeChildren (depth : Nat) (workflow : WorkflowImplementation)
    (runId : String) (node : StoredNode V) : Pass V Unit := do
  if ← shouldCancelFailedFanInNode workflow node then
    cancelNodeChildRunsAndCommands store depth runId node.name

/-! ## Sinks -/

def completeRunAndWakeParent (runId : String) (output : V) : Pass V Unit := do
  let completed : Option (StoredRun V) ← store (.completeRun runId output)
  wakeParentRun completed

def failRunAndWakeParent (runId : String) (error : Thrown V) : Pass V Unit := do
  let failed : Option (StoredRun V) ← store (.failRun runId error)
  wakeParentRun failed

def cancelRunAndWakeParent (depth : Nat) (runId : String) : Pass V Unit := do
  let cancelled ← cancelRunTree store depth runId
  wakeParentRun cancelled

def failNodeAndRun (runId nodeName : String) (error : Thrown V) : Pass V Unit := do
  let _ ← store (.failNode runId nodeName error)
  failRunAndWakeParent store runId error

def cancelNodeAndRun (depth : Nat) (runId nodeName : String) : Pass V Unit := do
  let _ ← store (.cancelNode runId nodeName)
  cancelRunAndWakeParent store depth runId

def failMissingChildRun (parentRunId nodeName : String) (childKind : RunKind)
    (childRunId : String) : Pass V Unit :=
  failNodeAndRun store parentRunId nodeName
    (.error s!"Missing child {childKind.text} run [{childRunId}]")

/-! ## Attempts -/

/-- What `prepareAttempt` gives: the attempt, the input of its command, and whether the attempt
was created. -/
structure PreparedAttempt (V : Type) where
  attempt : StoredAttempt V
  commandInput : V
  created : Bool

/-- The common `prepareAttempt`: `ensureChildAttempt` with an input, which only a created attempt
gets. -/
def prepareAttempt (params : ChildAttemptParams V) : Pass V (PreparedAttempt V) := do
  let result : StoredAttempt V × Bool ← store (.ensureChildAttempt params)
  return ⟨result.1, if result.2 then params.input else result.1.input, result.2⟩

/-- Only `startTaskRun` sets `throwOnDispatchFailure`. -/
def dispatchPreparedAttempt (runId nodeName : String) (throwOnDispatchFailure : Bool)
    (prepare : Pass V (PreparedAttempt V)) (dispatch : StoredAttempt V → V → Pass V Unit) :
    Pass V Unit := do
  let prepared ← prepare
  if !prepared.created && prepared.attempt.status ≠ .started then return
  else
    tryCatch (dispatch prepared.attempt prepared.commandInput) fun error => do
      if throwOnDispatchFailure then
        let _ ← store (.failCurrentAttempt prepared.attempt.id prepared.attempt.leaseToken error)
        failNodeAndRun store runId nodeName error
      throw error

/-- `dispatchActivityAttempt` and `dispatchTaskAttempt`, which differ in the target of the
command. -/
def dispatchAttempt (target : AttemptTarget) (workflowName runId nodeName childKey : String)
    (runAt : Option Nat) (throwOnDispatchFailure : Bool) (prepare : Pass V (PreparedAttempt V)) :
    Pass V Unit :=
  dispatchPreparedAttempt store runId nodeName throwOnDispatchFailure prepare
    fun attempt commandInput => executor (.dispatch {
      target
      workflowName
      runId
      nodeName
      childKey
      attemptId := attempt.id
      leaseToken := attempt.leaseToken
      input := commandInput
      idempotencyKey := attempt.idempotencyKey } runAt)

def dispatchTaskRunAttempt (taskName taskRunId : String) (taskInput : V)
    (idempotencyKey : Option V) (timeout : Option String) (startAt : Option Nat := none)
    (throwOnDispatchFailure : Bool := false) : Pass V Unit := do
  let _ ← store (.createNode { runId := taskRunId, name := TASK_RUN_NODE_NAME, kind := .task })
  let _ ← store (.setNodeInput taskRunId TASK_RUN_NODE_NAME taskInput)
  let _ ← store (.ensureNodeChildren taskRunId TASK_RUN_NODE_NAME
    [{ childKey := SELF_CHILD_KEY, kind := .task }])
  dispatchAttempt store (.task taskName timeout) taskName taskRunId TASK_RUN_NODE_NAME
    SELF_CHILD_KEY startAt throwOnDispatchFailure (prepareAttempt store {
      runId := taskRunId
      nodeName := TASK_RUN_NODE_NAME
      childKey := SELF_CHILD_KEY
      input := taskInput
      idempotencyKey })

end Sinks

end Neemata.Workflows
