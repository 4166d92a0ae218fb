import Neemata.Workflows.Coordinator.Pass
import Neemata.Workflows.Duration
import Mathlib.Algebra.Group.Nat.Defs

/-!
# Attempts at the execution worker

What an execution worker does with a claimed attempt: `worker/retry.ts`, `worker/reconcile.ts`,
`worker/heartbeat.ts`, `worker/task-attempt.ts`, `worker/activity-attempt.ts`, the registry
(`runtime/registry.ts`) and the driver of `worker/entry.ts`. The in-memory runtime has no atomic
completion, so every write of a completion is a step of its own.
-/

namespace Neemata.Workflows

open Binary64 (Double)

variable {V : Type}

/-- `RunExecutionWorkerInput`: the implementations of an execution worker. -/
structure ExecutionWorkerInput where
  workerId : String
  workflows : List WorkflowImplementation := []
  activityNames : Option (List String) := none
  tasks : List TaskImplementation := []
  taskNames : Option (List String) := none
  leaseMs : Option Nat := none

/-- `WorkerCommandResult` -/
inductive WorkerCommandResult | processed | released
deriving DecidableEq, Repr

/-! ## Errors that the worker tells apart -/

/-- `error instanceof Error && error.message === message` -/
def Thrown.isErrorWith [JsRuntime V] (error : Thrown V) (message : String) : Bool :=
  match error with
  | .stored _ | .user _ => false
  | error => error.message = message

def isStaleWorkflowCommandAck [JsRuntime V] (error : Thrown V) : Bool :=
  error.isErrorWith "Stale workflow command ack"

def isAttemptHeartbeatLeaseLost [JsRuntime V] (error : Thrown V) : Bool :=
  error.isErrorWith "Workflow attempt heartbeat lease lost"

def isAttemptShutdown : Thrown V → Bool
  | .workflowAttemptShutdown => true
  | _ => false

def isAttemptCancellationObserved : Thrown V → Bool
  | .workflowAttemptCancellationObserved => true
  | _ => false

def isAttemptTimeout : Thrown V → Bool
  | .workflowAttemptTimeout _ => true
  | _ => false

/-! ## Child keys -/

/-- `ParsedChildKey`. The keys of map items are not told apart from unknown ones here: no caller
looks at their index. -/
inductive ParsedChildKey
  | self
  | case (caseKey : String)
  | member (memberKey : String)
deriving DecidableEq, Repr

/-- What follows `start` in `key`. -/
def keyAfter (start key : String) : Option String :=
  if start.toList.isPrefixOf key.toList then
    some (String.ofList (key.toList.drop start.toList.length))
  else none

def parseChildKey (childKey : String) : Option ParsedChildKey :=
  if childKey = SELF_CHILD_KEY then some .self
  else
    ((keyAfter "case:" childKey).map .case).or ((keyAfter "member:" childKey).map .member)

/-- Whether the child is the only one of its node; such a node completes with its attempt. -/
def shouldCompleteNodeFromAttempt (childKey : String) : Bool :=
  match parseChildKey childKey with
  | some .self | some (.case _) => true
  | some (.member _) | none => false

/-! ## Wake-ups -/

def enqueueContinueRun (command : AttemptCommand V) : Pass V Unit :=
  executor (.enqueue { runId := command.runId, workflowName := command.workflowName } none)

/-- Wake the parent of a run, if it has one that is still stored. An empty id or name is none. -/
def wakeParentRun (run : Option (StoredRun V)) : Pass V Unit := do
  match run.bind StoredRun.parentRunId, run.bind StoredRun.parentNodeName with
  | some parentRunId, some parentNodeName =>
    if parentRunId = "" ∨ parentNodeName = "" then return
    let parent ← workflowStore (.loadRunSnapshot parentRunId)
    match parent with
    | none => return
    | some parent =>
      executor (.enqueue { runId := parentRunId, workflowName := parent.run.workflowName } none)
  | _, _ => return

/-! ## Retries -/

def shouldRetryAttempt (failedAttempt : StoredAttempt V) (retry : Option RetryPolicy) : Bool :=
  retry.any fun retry =>
    (failedAttempt.status = .failed || failedAttempt.status = .timedOut) &&
      (Double.finite failedAttempt.attemptNumber).lt retry.attempts

/-- The delay before the retry of attempt `failedAttemptNumber`, if there is one. -/
def retryDelayMs (retry : Option RetryPolicy) (failedAttemptNumber : Nat) : Option Double :=
  match parseDurationMs (retry.bind RetryPolicy.delay) with
  | none => none
  | some base =>
    if base = .finite 0 then none
    else if retry.bind RetryPolicy.backoff = some .exponential then
      some (base.mul (.round (2 ^ (failedAttemptNumber - 1))))
    else some base

def retryDispatchOptions (retry : Option RetryPolicy) (failedAttemptNumber : Nat) :
    Pass V (Option Nat) :=
  match retryDelayMs retry failedAttemptNumber with
  | none => pure none
  | some delayMs => do
    let now ← dateNow
    return some (dateAfter now delayMs)

/-- The command of the next attempt: it keeps the target of the last one. -/
def retryCommand (command : AttemptCommand V) (retryAttempt : StoredAttempt V) : AttemptCommand V :=
  { command with
    attemptId := retryAttempt.id
    leaseToken := retryAttempt.leaseToken
    input := retryAttempt.input
    idempotencyKey := retryAttempt.idempotencyKey }

/-- `retryAttemptCore`, and with the target in the command also `retryActivityAttempt` and
`retryTaskAttempt`: create and dispatch the next attempt if the policy has one left. -/
def retryAttemptCore (command : AttemptCommand V) (failedAttempt : StoredAttempt V)
    (retry : Option RetryPolicy) : Pass V Bool := do
  if !shouldRetryAttempt failedAttempt retry then return false
  let retryAttempt : StoredAttempt V ← workflowStore (.createAttempt {
    runId := command.runId
    nodeName := command.nodeName
    childKey := command.childKey
    input := failedAttempt.input
    idempotencyKey := failedAttempt.idempotencyKey })
  let runAt ← retryDispatchOptions retry failedAttempt.attemptNumber
  executor (.dispatch (retryCommand command retryAttempt) runAt)
  return true

/-! ## Redelivered attempts -/

/-- The command is for the current attempt of its child, not yet settled. -/
def isFreshAttempt (command : AttemptCommand V) (child : Option (StoredNodeChild V))
    (storedAttempt : Option (StoredAttempt V)) : Bool :=
  child.any (fun child => child.currentAttemptId = some command.attemptId) &&
  storedAttempt.any fun attempt =>
    attempt.status = .started && attempt.leaseToken = command.leaseToken

def ackTerminalAttempt (claimed : Claimed (AttemptCommand V)) : Pass V WorkerCommandResult := do
  executor (.ackAttempt claimed)
  return .processed

def isFailedAttemptStatus : RuntimeAttemptStatus → Bool
  | .failed | .timedOut => true
  | _ => false

/-- The completion path of a completed current attempt, once more. -/
def replayCompletedAttempt (claimed : Claimed (AttemptCommand V)) (output : V) :
    Pass V WorkerCommandResult := do
  let command := claimed.command
  let _ ← workflowStore (.completeNodeChild command.runId command.nodeName command.childKey output)
  let snapshot : Option (RunSnapshot V) ← workflowStore (.loadRunSnapshot command.runId)
  if snapshot.any fun snapshot => snapshot.run.kind = .task then
    let _ ← workflowStore (.completeNode command.runId command.nodeName output)
    let completed : Option (StoredRun V) ← workflowStore (.completeRun command.runId output)
    wakeParentRun completed
    ackTerminalAttempt claimed
  else
    if shouldCompleteNodeFromAttempt command.childKey then
      let _ ← workflowStore (.completeNode command.runId command.nodeName output)
    enqueueContinueRun command
    ackTerminalAttempt claimed

/-- The completion path of a failed current attempt, once more. -/
def replayFailedAttempt (claimed : Claimed (AttemptCommand V)) (error : Thrown V) :
    Pass V WorkerCommandResult := do
  let command := claimed.command
  let _ ← workflowStore (.failNodeChild command.runId command.nodeName command.childKey error)
  let snapshot : Option (RunSnapshot V) ← workflowStore (.loadRunSnapshot command.runId)
  if snapshot.any fun snapshot => snapshot.run.kind = .task then
    let _ ← workflowStore (.failNode command.runId command.nodeName error)
    let failed : Option (StoredRun V) ← workflowStore (.failRun command.runId error)
    wakeParentRun failed
    ackTerminalAttempt claimed
  else
    if shouldCompleteNodeFromAttempt command.childKey then
      let _ ← workflowStore (.failNode command.runId command.nodeName error)
    enqueueContinueRun command
    ackTerminalAttempt claimed

def reconcileStaleAttempt [JsRuntime V] (claimed : Claimed (AttemptCommand V))
    (child : Option (StoredNodeChild V)) (storedAttempt : Option (StoredAttempt V)) :
    Pass V WorkerCommandResult := do
  let command := claimed.command
  match child, storedAttempt with
  | some child, some storedAttempt =>
    let isCurrentAttempt : Bool := child.currentAttemptId = some command.attemptId
    if isCurrentAttempt && storedAttempt.status = .completed then
      replayCompletedAttempt claimed (storedAttempt.output.getD (JsRuntime.undefined))
    else if isCurrentAttempt && isFailedAttemptStatus storedAttempt.status then
      replayFailedAttempt claimed (storedAttempt.error.elim
        (.error s!"Workflow attempt [{command.attemptId}] failed") .stored)
    else
      if storedAttempt.status = .completed ∧ child.status = .completed ∨
          isFailedAttemptStatus storedAttempt.status ∧ child.status = .failed then
        enqueueContinueRun command
      ackTerminalAttempt claimed
  | _, _ => ackTerminalAttempt claimed

/-! ## Heartbeats -/

/-- One heartbeat of `runWithAttemptHeartbeat`: a lost lease and a cancelled run end the race,
other errors are left to the next one. -/
def beat [JsRuntime V] (claimed : Claimed (AttemptCommand V)) (leaseMs : Nat) : Pass V Unit := do
  let runStatus : Option RuntimeRunStatus ←
    tryCatch (some <$> executor (.heartbeat claimed (some leaseMs))) fun error =>
      if isAttemptHeartbeatLeaseLost error then throw error else pure none
  if runStatus.any fun runStatus => runStatus = .cancelling || isTerminalRunStatus runStatus then
    throw .workflowAttemptCancellationObserved

def beats [JsRuntime V] (claimed : Claimed (AttemptCommand V)) (leaseMs : Nat) : Nat → Pass V Unit
  | 0 => pure ()
  | count + 1 => do
    beat claimed leaseMs
    beats claimed leaseMs count

def timeoutError (command : AttemptCommand V) (timeoutMs : Double) : Thrown V :=
  .workflowAttemptTimeout (s!"Workflow attempt [{command.attemptId}] for " ++
    s!"[{command.runId}.{command.nodeName}] timed out after {timeoutMs.text}ms")

/-- What the race gives once no heartbeat has ended it. -/
def raceResult (command : AttemptCommand V) :
    (timeoutMs : Option Double) → RaceEnd V timeoutMs.isSome → Pass V V
  | none, .returned output | some _, .returned output => pure output
  | none, .threw error | some _, .threw error => throw error
  | some timeoutMs, .timedOut => throw (timeoutError command timeoutMs)
  | none, .shutdown | some _, .shutdown => throw .workflowAttemptShutdown

/-- The handler under its heartbeats and its timer. -/
def runWithAttemptHeartbeat [JsRuntime V] (input : ExecutionWorkerInput)
    (claimed : Claimed (AttemptCommand V)) (timeoutMs : Option Double) : Pass V V := do
  let race : Race V timeoutMs.isSome ← userCode (.handler claimed.command timeoutMs.isSome)
  beats claimed (input.leaseMs.getD defaultLeaseMs) race.beats
  raceResult claimed.command timeoutMs race.finish

/-! ## The completion path -/

/-- Settle the current attempt after an error. -/
def settleFailedAttempt (command : AttemptCommand V) (error : Thrown V) :
    Pass V (Option (StoredAttempt V)) :=
  if isAttemptTimeout error then
    workflowStore (.timeoutCurrentAttempt command.attemptId command.leaseToken error)
  else workflowStore (.failCurrentAttempt command.attemptId command.leaseToken error)

/-- The path of a failed attempt without a retry, up to the wake-up. -/
def failNodeFromAttempt (command : AttemptCommand V) (runKind : RunKind) (error : Thrown V) :
    Pass V Unit := do
  let _ ← workflowStore (.failNodeChild command.runId command.nodeName command.childKey error)
  if shouldCompleteNodeFromAttempt command.childKey then
    let _ ← workflowStore (.failNode command.runId command.nodeName error)
  match runKind with
  | .task =>
    let failed : Option (StoredRun V) ← workflowStore (.failRun command.runId error)
    wakeParentRun failed
  | .workflow => enqueueContinueRun command

/-- The handler threw or timed out: the part that both kinds of attempts share. -/
def completeFailedAttempt (claimed : Claimed (AttemptCommand V)) (runKind : RunKind)
    (retry : Option RetryPolicy) (error : Thrown V) : Pass V WorkerCommandResult := do
  let attempt ← settleFailedAttempt claimed.command error
  match attempt with
  | none => ackTerminalAttempt claimed
  | some attempt =>
    let retried ← retryAttemptCore claimed.command attempt retry
    if !retried then failNodeFromAttempt claimed.command runKind error
    ackTerminalAttempt claimed

/-- Wake the run of an attempt that is not a task run. -/
def completeNodeFromAttempt (claimed : Claimed (AttemptCommand V)) (output : V) :
    Pass V WorkerCommandResult := do
  let command := claimed.command
  if shouldCompleteNodeFromAttempt command.childKey then
    let _ ← workflowStore (.completeNode command.runId command.nodeName output)
  enqueueContinueRun command
  ackTerminalAttempt claimed

def completeTaskRun (claimed : Claimed (AttemptCommand V)) (output : V) :
    Pass V WorkerCommandResult := do
  let command := claimed.command
  let _ ← workflowStore (.completeNode command.runId command.nodeName output)
  let completed : Option (StoredRun V) ← workflowStore (.completeRun command.runId output)
  wakeParentRun completed
  ackTerminalAttempt claimed

/-- Settle the current attempt with its output and go on if it was settled. -/
def completeAttempt (claimed : Claimed (AttemptCommand V)) (output : V)
    (complete : Pass V WorkerCommandResult) : Pass V WorkerCommandResult := do
  let command := claimed.command
  let attempt : Option (StoredAttempt V) ←
    workflowStore (.completeCurrentAttempt command.attemptId command.leaseToken output)
  match attempt with
  | none => ackTerminalAttempt claimed
  | some _ => complete

/-- The `try` of both kinds of attempts: run the handler, then complete the attempt by what came
of it. -/
def completeByResult [JsRuntime V] (claimed : Claimed (AttemptCommand V)) (run : Pass V V)
    (runKind : RunKind) (retry : Option RetryPolicy)
    (complete : V → Pass V WorkerCommandResult) : Pass V WorkerCommandResult := do
  let result : Except (Thrown V) V ← tryCatch (Except.ok <$> run) fun error => pure (.error error)
  match result with
  | .ok output => completeAttempt claimed output (complete output)
  | .error error =>
    if isAttemptHeartbeatLeaseLost error || isAttemptShutdown error then throw error
    else if isAttemptCancellationObserved error then ackTerminalAttempt claimed
    else completeFailedAttempt claimed runKind retry error

/-- Give a command back that this worker has no implementation for. -/
def releaseUnroutable (claimed : Claimed (AttemptCommand V)) (message : String) :
    Pass V WorkerCommandResult := do
  executor (.releaseAttempt claimed { error := some (.error message), unroutable := true })
  return .released

/-- The child of the command in a snapshot of its run. -/
def storedChildOf (command : AttemptCommand V) (snapshot : Option (RunSnapshot V)) :
    Option (StoredNodeChild V) :=
  snapshot.bind fun snapshot => snapshot.children.find? fun child =>
    child.nodeName = command.nodeName ∧ child.childKey = command.childKey

/-- The attempt of the command in a snapshot of its run. -/
def storedAttemptOf (command : AttemptCommand V) (snapshot : Option (RunSnapshot V)) :
    Option (StoredAttempt V) :=
  snapshot.bind fun snapshot => snapshot.attempts.find? fun attempt =>
    attempt.id = command.attemptId

/-- The beginning of both kinds of attempts: `body` is reached with a fresh attempt of a run that
is not terminal. -/
def withFreshAttempt [JsRuntime V] (claimed : Claimed (AttemptCommand V))
    (body : RunSnapshot V → Pass V WorkerCommandResult) : Pass V WorkerCommandResult := do
  let command := claimed.command
  let snapshot : Option (RunSnapshot V) ← workflowStore (.loadRunSnapshot command.runId)
  let storedChild := storedChildOf command snapshot
  let storedAttempt := storedAttemptOf command snapshot
  if snapshot.any fun snapshot => isTerminalRunStatus snapshot.run.status then
    ackTerminalAttempt claimed
  else if !isFreshAttempt command storedChild storedAttempt then
    reconcileStaleAttempt claimed storedChild storedAttempt
  else
    match snapshot.filter fun snapshot => snapshot.run.workflowName = command.workflowName with
    | none =>
      releaseUnroutable claimed
        s!"Run [{command.runId}] workflow does not match command workflow [{command.workflowName}]"
    | some snapshot => body snapshot

/-! ## The registry -/

/-- `createWorkflowMap` and `createTaskMap` -/
def createImplementationMap {α : Type} (label : String) (nameOf : α → String) :
    List α → OrdMap String α → Pass V (OrdMap String α)
  | [], map => pure map
  | item :: items, map =>
    if (map.get? (nameOf item)).isSome then
      throw (.error s!"Duplicate {label} implementation [{nameOf item}]")
    else createImplementationMap label nameOf items (map.set (nameOf item) item)

/-- Building a registry performs nothing, and every implementation was given to it under its name. -/
theorem createImplementationMap_obeys {Q α : Type} {protocol : Program.Protocol PassOp.Ret Q}
    {q : Q} {label : String} {nameOf : α → String} {items : List α} {map : OrdMap String α}
    {P : String → α → Prop} (hmap : map.All P) (hitems : ∀ item ∈ items, P (nameOf item) item) :
    Program.Obeys protocol q
      (createImplementationMap label nameOf items map : Pass V (OrdMap String α))
      fun q' result => q' = q ∧ ∀ found, result = .ok found → found.All P := by
  induction items generalizing map with
  | nil =>
    refine Program.obeys_pure ⟨rfl, ?_⟩
    rintro _ ⟨⟩
    exact hmap
  | cons item items ih =>
    unfold createImplementationMap
    split
    · exact Program.obeys_throw ⟨rfl, nofun⟩
    · exact ih (hmap.set (hitems item List.mem_cons_self)) fun other hother =>
        hitems other (List.mem_cons_of_mem item hother)

def createWorkflowMap (workflows : List WorkflowImplementation) :
    Pass V (OrdMap String WorkflowImplementation) :=
  createImplementationMap "workflow" (fun workflow => workflow.workflow.name) workflows .empty

def createTaskMap (tasks : List TaskImplementation) : Pass V (OrdMap String TaskImplementation) :=
  createImplementationMap "task" (fun task => task.task.name) tasks .empty

/-! ## Task attempts -/

def runTaskHandler [JsRuntime V] (input : ExecutionWorkerInput)
    (claimed : Claimed (AttemptCommand V)) (timeout : Option String) (task : TaskDefinition) :
    Pass V V := do
  let output ← runWithAttemptHeartbeat input claimed (parseDurationMs (timeout.or task.timeout))
  decodeSchemaValue task.output output s!"task output [{task.name}]"

def runTaskAttempt [JsRuntime V] (input : ExecutionWorkerInput)
    (claimed : Claimed (AttemptCommand V)) : Pass V WorkerCommandResult :=
  match claimed.command.target with
  | .activity _ => throw (.error "Unsupported attempt command kind [activityAttempt]")
  | .task taskName timeout =>
    withFreshAttempt claimed fun snapshot => do
      let tasks ← createTaskMap input.tasks
      match tasks.get? taskName with
      | none => releaseUnroutable claimed s!"No registered task implementation [{taskName}]"
      | some task =>
        if snapshot.run.kind = .task then
          let _ ← workflowStore (.markRunRunning claimed.command.runId)
        completeByResult claimed (runTaskHandler input claimed timeout task.task)
          snapshot.run.kind task.task.retry fun output =>
          match snapshot.run.kind with
          | .task => completeTaskRun claimed output
          | .workflow => completeNodeFromAttempt claimed output

/-! ## Activity attempts -/

/-- `ActivityAttemptNode`: an activity node, or an activity among the cases of a node. -/
structure ActivityAttemptNode where
  activityName : String
  retry : Option RetryPolicy
deriving DecidableEq, Repr

def activityNodeOf : WorkflowNodeImplementation → Option ActivityAttemptNode
  | .activity node => some ⟨node.activityName, node.retry⟩
  | _ => none

def branchCasesOf : WorkflowNodeImplementation → Option (List (String × WorkflowCaseImplementation))
  | .branch node => some node.cases
  | _ => none

def parallelCasesOf :
    WorkflowNodeImplementation → Option (List (String × WorkflowCaseImplementation))
  | .parallel node => some node.cases
  | _ => none

/-- The first node of the kind that `read` accepts and of that name. -/
def findNode {α : Type} (workflow : WorkflowImplementation)
    (read : WorkflowNodeImplementation → Option α) (nodeName : String) : Option α :=
  workflow.nodes.findSome? fun node => if node.name = nodeName then read node else none

def activityCaseOf (cases : List (String × WorkflowCaseImplementation)) (key : String) :
    Option ActivityAttemptNode :=
  match cases.lookup key with
  | some ⟨.activity activityName, retry, _, _⟩ => some ⟨activityName, retry⟩
  | _ => none

def resolveActivityAttemptNode (workflow : WorkflowImplementation) (command : AttemptCommand V)
    (activityName : String) : Option ActivityAttemptNode :=
  let resolved := match parseChildKey command.childKey with
    | none => none
    | some .self => findNode workflow activityNodeOf command.nodeName
    | some (.case caseKey) =>
      (findNode workflow branchCasesOf command.nodeName).bind (activityCaseOf · caseKey)
    | some (.member memberKey) =>
      (findNode workflow parallelCasesOf command.nodeName).bind (activityCaseOf · memberKey)
  resolved.filter fun node => node.activityName = activityName

/-- The output schema of an activity declaration and its timeout. -/
structure ActivityDeclaration where
  output : Schema
  timeout : Option String
deriving DecidableEq, Repr

def resolveActivityAttemptCaseDeclaration (cases : List (String × BranchCaseDefinition))
    (childKey : String) : Option ActivityDeclaration :=
  match parseChildKey childKey with
  | some (.case key) | some (.member key) =>
    match cases.lookup key with
    | some (.activity _ output timeout) => some ⟨output, timeout⟩
    | _ => none
  | some .self | none => none

/-- The declaration behind `resolveActivityAttemptTimeoutMs` and
`resolveActivityAttemptOutputSchema`, with the label of its output. -/
def resolveActivityAttemptDeclaration (workflow : WorkflowImplementation)
    (command : AttemptCommand V) : Option (ActivityDeclaration × String) :=
  let path := s!"{workflow.workflow.name}.{command.nodeName}"
  match (workflow.workflow.nodes.find? fun node => node.name = command.nodeName).map
      WorkflowNode.declaration with
  | some (.activity _ output timeout) => some (⟨output, timeout⟩, s!"activity output [{path}]")
  | some (.branch cases) | some (.parallel cases) =>
    (resolveActivityAttemptCaseDeclaration cases command.childKey).map
      (·, s!"activity output [{path}.{command.childKey}]")
  | _ => none

def runActivityHandler [JsRuntime V] (input : ExecutionWorkerInput)
    (claimed : Claimed (AttemptCommand V)) (workflow : WorkflowImplementation) : Pass V V := do
  let declaration := resolveActivityAttemptDeclaration workflow claimed.command
  let output ← runWithAttemptHeartbeat input claimed
    (parseDurationMs (declaration.bind fun (declaration, _) => declaration.timeout))
  match declaration with
  | none => return output
  | some (declaration, label) => decodeSchemaValue declaration.output output label

def runActivityAttempt [JsRuntime V] (input : ExecutionWorkerInput)
    (claimed : Claimed (AttemptCommand V)) : Pass V WorkerCommandResult :=
  let command := claimed.command
  match command.target with
  | .task _ _ => throw (.error "Unsupported attempt command kind [taskAttempt]")
  | .activity activityName =>
    withFreshAttempt claimed fun snapshot => do
      let workflows ← createWorkflowMap input.workflows
      match workflows.get? command.workflowName with
      | none =>
        releaseUnroutable claimed
          s!"No registered workflow implementation [{command.workflowName}]"
      | some workflow =>
        match resolveActivityAttemptNode workflow command activityName with
        | none =>
          releaseUnroutable claimed ("No activity implementation for " ++
            s!"[{command.workflowName}.{command.nodeName}.{command.childKey}]")
        | some node =>
          completeByResult claimed (runActivityHandler input claimed workflow) snapshot.run.kind
            node.retry (completeNodeFromAttempt claimed)

/-! ## The driver -/

def activityNamesOf (cases : List (String × WorkflowCaseImplementation)) : List String :=
  cases.filterMap fun (_, case) =>
    match case.kind with
    | .activity activityName => some activityName
    | .task _ | .workflow _ => none

def collectWorkflowActivityNames (workflows : List WorkflowImplementation) : List String :=
  (workflows.flatMap fun workflow => workflow.nodes.flatMap fun
    | .activity node => [node.activityName]
    | .branch node => activityNamesOf node.cases
    | .parallel node => activityNamesOf node.cases
    | _ => []).eraseDups

namespace ExecutionWorkerInput

/-- What the worker claims. -/
def claim (input : ExecutionWorkerInput) : ExecutionWorkerClaim where
  workerId := input.workerId
  workflowNames := input.workflows.map fun workflow => workflow.workflow.name
  activityNames := some (input.activityNames.getD (collectWorkflowActivityNames input.workflows))
  taskNames := input.taskNames.getD (input.tasks.map fun task => task.task.name)
  leaseMs := input.leaseMs.getD defaultLeaseMs

def runAttempt [JsRuntime V] (input : ExecutionWorkerInput)
    (claimed : Claimed (AttemptCommand V)) : Pass V WorkerCommandResult :=
  match claimed.command.target with
  | .activity _ => runActivityAttempt input claimed
  | .task _ _ => runTaskAttempt input claimed

/-- `execute` of `executionDriver`: whether the command was processed. -/
def execute [JsRuntime V] (input : ExecutionWorkerInput) (claimed : Claimed (AttemptCommand V)) :
    Pass V Bool :=
  tryCatch
    (do
      let result ← input.runAttempt claimed
      return result = .processed)
    fun error => do
      if isStaleWorkflowCommandAck error || isAttemptHeartbeatLeaseLost error ||
          isAttemptShutdown error then
        executor (.releaseAttempt claimed {})
        return false
      else
        executor (.releaseAttempt claimed { error := some error })
        throw error

end ExecutionWorkerInput

end Neemata.Workflows
