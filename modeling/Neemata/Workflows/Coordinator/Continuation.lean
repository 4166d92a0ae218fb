import Neemata.Workflows.Coordinator.FanIn

/-!
# Coordinators at work

`coordinator/advance.ts` and `coordinator/continuation.ts`, and any number of coordinators on one
in-memory runtime: each claims a `continueRun` command and executes it one `await` at a time,
between the steps of the others and of everybody else. A coordinator can die at any of them, and two
of them can be at work on one run when the lease of the first has expired. The renewals of the lease
that `runWithRunLeaseRenewal` makes on a timer are steps of somebody else.
-/

namespace Neemata.Workflows

variable {V : Type}

section

variable [JsRuntime V]

/-! ## Advancing a run -/

/-- What the workflow returns, or what `finish` and the check of its output throw. -/
def finishWorkflow (ctx : AdvanceCtx V) : Pass V (Except (Thrown V) V) :=
  tryCatch
    (do
      let output : V ← userCode (.call ctx.workflow.finish ctx.args)
      match ctx.workflow.workflow.output with
      | none => return .ok output
      | some schema =>
        let output ← decodeWorkflowUserSchemaValue schema output
          s!"workflow output [{ctx.workflow.workflow.name}]"
        return .ok output)
    fun error => pure (.error error)

def finishRun (ctx : AdvanceCtx V) : Pass V AdvanceOutcome := do
  let output ← finishWorkflow ctx
  match output with
  | .error error => failRunAndWakeParent ctx.store ctx.run.id error
  | .ok output => completeRunAndWakeParent ctx.store ctx.run.id output
  return .terminal

/-- The dispatcher of a node of each kind. -/
def dispatchNode (advance : AdvanceCtx V → Pass V AdvanceOutcome) (ctx : AdvanceCtx V) :
    WorkflowNodeImplementation → Pass V AdvanceOutcome
  | .activity node => dispatchActivityNode ctx node
  | .task node => dispatchTaskNode advance ctx node
  | .workflow node => dispatchWorkflowNode advance ctx node
  | .branch node => dispatchBranchNode advance ctx node
  | .parallel node => dispatchParallelNode advance ctx node
  | .mapTask node => dispatchMapRunNode advance ctx node .task
  | .mapWorkflow node => dispatchMapRunNode advance ctx node .workflow

/-- The first node without an output. -/
def AdvanceCtx.nextNode? (ctx : AdvanceCtx V) : Option WorkflowNodeImplementation :=
  ctx.workflow.nodes.find? fun node => (ctx.outputs.get? node.name).isNone

/-- `advanceWorkflowRun`; an error of user code fails the node. Each level gives one more node an
output, and there are more `steps` than nodes. -/
def advanceWorkflowRun : (steps : Nat) → AdvanceCtx V → Pass V AdvanceOutcome
  | 0, _ => ExceptT.mk .halt
  | steps + 1, ctx =>
    match ctx.nextNode? with
    | none => finishRun ctx
    | some nextNode =>
      tryCatch (dispatchNode (advanceWorkflowRun steps) ctx nextNode) fun error =>
        match error with
        | .workflowUserCallback error => do
          failNodeAndRun ctx.store ctx.run.id nextNode.name error
          return .terminal
        | error => throw error

/-! ## Continuing a run -/

structure ContinueWorkflowRunInput where
  workflows : List WorkflowImplementation
  leaseMs : Option Nat := none
  depth : Nat

inductive ContinueWorkflowRunResult | processed | busy | ignored
deriving DecidableEq, Repr

/-- The outputs of the completed nodes of a snapshot. -/
def RunSnapshot.outputs (snapshot : RunSnapshot V) : Outputs V :=
  (snapshot.nodes.filter fun node => node.status = .completed).foldl
    (fun outputs node => outputs.set node.name (node.output.getD JsRuntime.undefined)) .empty

/-- A run whose nodes neither failed nor were cancelled. -/
def advanceSnapshot (store : WorkflowStore V) (depth : Nat) (workflow : WorkflowImplementation)
    (snapshot : RunSnapshot V) : Pass V ContinueWorkflowRunResult := do
  userCode .createContext
  let _ ← store (.markRunRunning snapshot.run.id)
  let outcome ← advanceWorkflowRun (workflow.nodes.length + 1)
    { store, workflow, run := snapshot.run, outputs := snapshot.outputs, depth }
  if outcome = .parked then
    let _ ← store (.markRunWaiting snapshot.run.id)
  return .processed

/-- The handler of `continueWorkflowRun`, under its lease. -/
def continueSnapshot (store : WorkflowStore V) (depth : Nat) (workflow : WorkflowImplementation)
    (snapshot : RunSnapshot V) : Pass V ContinueWorkflowRunResult := do
  let run := snapshot.run
  if run.status = .cancelling then
    cancelRunAndWakeParent store depth run.id
    return .processed
  else if isTerminalRunStatus run.status then
    wakeParentRun (some run)
    return .processed
  else
    match snapshot.nodes.find? fun node => node.status = .failed with
    | some failedNode =>
      cancelFailedFanInNodeChildren store depth workflow run.id failedNode
      failRunAndWakeParent store run.id
        (failedNode.error.elim (.error s!"Workflow node [{failedNode.name}] failed") .stored)
      return .processed
    | none =>
      if snapshot.nodes.any fun node => node.status = .cancelled then
        cancelRunAndWakeParent store depth run.id
        return .processed
      else advanceSnapshot store depth workflow snapshot

def continueLeasedRun (store : WorkflowStore V) (depth : Nat) (workflow : WorkflowImplementation)
    (command : ContinueRunCommand) : Pass V ContinueWorkflowRunResult := do
  let snapshot : Option (RunSnapshot V) ← store (.loadRunSnapshot command.runId)
  match snapshot with
  | none => return .ignored
  | some snapshot =>
    if snapshot.run.workflowName ≠ command.workflowName then return .ignored
    else continueSnapshot store depth workflow snapshot

/-- `try … finally` -/
def tryFinally {α : Type} (body : Pass V α) (finalizer : Pass V Unit) : Pass V α := do
  let result : Except (Thrown V) α ← tryCatch (Except.ok <$> body) fun error =>
    pure (.error error)
  finalizer
  match result with
  | .ok result => return result
  | .error error => throw error

def continueWorkflowRun (input : ContinueWorkflowRunInput) (command : ContinueRunCommand) :
    Pass V ContinueWorkflowRunResult := do
  let workflows ← createWorkflowMap input.workflows
  match workflows.get? command.workflowName with
  | none => return .ignored
  | some workflow =>
    let leaseMs := input.leaseMs.getD defaultLeaseMs
    let lease : Option RunLease ← workflowStore (.acquireRunLease command.runId leaseMs)
    match lease with
    | none => return .busy
    | some lease =>
      let store := createRunLeaseFencedStore workflowStore lease leaseMs
      tryFinally
        (tryCatch (continueLeasedRun store input.depth workflow command) fun error =>
          match error with
          | .staleRunLease => return .busy
          | error => throw error)
        (workflowStore (.releaseRunLease lease))

end

/-! ## Coordinators -/

/-- A `continueRun` command and what is left of the pass over its run. -/
structure Continuation (V : Type) where
  input : ContinueWorkflowRunInput
  command : ContinueRunCommand
  rest : Pass V ContinueWorkflowRunResult

structure Coordinators (V : Type) where
  mem : Mem V
  passes : String → Option (Continuation V)

/-- One step of a coordinator or of somebody else. A coordinator starts a pass with any command, as
a claimed one may be claimed again by another. -/
inductive CoordinatorMove (V : Type)
  | start (coordinator : String) (input : ContinueWorkflowRunInput) (command : ContinueRunCommand)
  | resume (coordinator : String) (user : UserCode V)
  | crash (coordinator : String)
  | other (op : Op V)

namespace Continuation

variable [JsRuntime V]

def step (pass : Continuation V) (user : UserCode V) (m : Mem V) :
    Pass V ContinueWorkflowRunResult × Mem V :=
  Program.step (PassOp.exec user) m pass.rest.run

/-- What is left after one await; a finished pass is gone. -/
def left (pass : Continuation V) (user : UserCode V) (m : Mem V) : Option (Continuation V) :=
  if Program.isSettled (pass.step user m).1.run then none
  else some { pass with rest := (pass.step user m).1 }

/-- The next await performs an operation, or the pass has ended. -/
theorem step_cases (pass : Continuation V) (user : UserCode V) (m : Mem V) :
    (∃ op next, pass.rest.run = .perform op next ∧
      pass.step user m = (next (op.exec user m).1, (op.exec user m).2)) ∨
    pass.left user m = none ∧ (pass.step user m).2 = m := by
  cases hrest : pass.rest.run with
  | pure | halt => refine .inr ⟨?_, ?_⟩ <;> simp only [left, step, hrest] <;> rfl
  | perform op next => exact .inl ⟨op, next, rfl, by simp only [step, hrest, Program.step]⟩

end Continuation

namespace Coordinators

variable [JsRuntime V]

def create (maxDeliveries : Option Int) : Coordinators V where
  mem := createInMemoryWorkflowRuntime maxDeliveries
  passes _ := none

def step (s : Coordinators V) : CoordinatorMove V → Coordinators V
  | .start coordinator input command =>
    match s.passes coordinator with
    | some _ => s
    | none =>
      { s with
        passes := Function.update s.passes coordinator
          (some ⟨input, command, continueWorkflowRun input command⟩) }
  | .resume coordinator user =>
    match s.passes coordinator with
    | none => s
    | some pass =>
      { mem := (pass.step user s.mem).2
        passes := Function.update s.passes coordinator (pass.left user s.mem) }
  | .crash coordinator => { s with passes := Function.update s.passes coordinator none }
  | .other op => { s with mem := s.mem.step op }

/-- The system of a runtime with the option `maxDeliveries` after a history. -/
def after (maxDeliveries : Option Int) (history : List (CoordinatorMove V)) : Coordinators V :=
  Trace.run step (create maxDeliveries) history

end Coordinators

end Neemata.Workflows
