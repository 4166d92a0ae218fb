import Neemata.Workflows.Coordinator.Sinks

/-!
# How a coordinator takes a node further

`coordinator/children.ts` and `coordinator/dispatch/*.ts`: one function for each kind of node. Each
starts what the node is missing, or looks at what has become of it and ends the node. A node that
ends well goes on with `advance`, the rest of the workflow.
-/

namespace Neemata.Workflows

variable {V : Type}

/-- What an advance pass left behind: commands of the run itself, nothing but child runs to wait
for, or a terminal run. -/
inductive AdvanceOutcome | local | parked | terminal
deriving DecidableEq, Repr

/-- `AdvanceCtx` less its executors and `advance`. `depth` bounds the recursion of
`cancelRunTree`. -/
structure AdvanceCtx (V : Type) where
  store : WorkflowStore V
  workflow : WorkflowImplementation
  run : StoredRun V
  outputs : Outputs V
  depth : Nat

namespace AdvanceCtx

def args (ctx : AdvanceCtx V) : CallbackArgs V where
  outputs := ctx.outputs
  workflowInput := ctx.run.input

def itemArgs (ctx : AdvanceCtx V) (item : Option V) (index : Nat) : CallbackArgs V :=
  { ctx.args with item := some (item, index) }

def withOutput (ctx : AdvanceCtx V) (nodeName : String) (output : V) : AdvanceCtx V :=
  { ctx with outputs := ctx.outputs.set nodeName output }

/-- The path of a node in the labels of errors. -/
def path (ctx : AdvanceCtx V) (nodeName : String) : String :=
  s!"{ctx.workflow.workflow.name}.{nodeName}"

/-- The input of a node without a stored one: what its callback gives, or the run's. -/
def callInput (ctx : AdvanceCtx V) (input : Option StoredCallback) : Pass V V :=
  match input with
  | none => pure ctx.run.input
  | some callback => runWorkflowUserCallback (userCode (.call callback ctx.args))

/-- The input of a node, for the nodes that take a stored one before it is decoded. -/
def resolveNodeInput (ctx : AdvanceCtx V) (existing : StoredNode V)
    (input : Option StoredCallback) : Pass V V :=
  match existing.input with
  | some stored => pure stored
  | none => ctx.callInput input

end AdvanceCtx

/-- `childRun.error ?? new Error(message)` -/
def StoredRun.errorOr (run : StoredRun V) (message : String) : Thrown V :=
  match run.error with
  | some error => .stored error
  | none => .error message

/-- `child.error ?? new Error(message)` -/
def StoredNodeChild.errorOr (child : StoredNodeChild V) (message : String) : Thrown V :=
  match child.error with
  | some error => .stored error
  | none => .error message

section Children

variable [JsRuntime V] (advance : AdvanceCtx V → Pass V AdvanceOutcome) (ctx : AdvanceCtx V)

/-- The parameters in which `dispatchChildTaskRun` and `dispatchChildWorkflow` agree. -/
structure ChildDispatch (V : Type) where
  nodeName : String
  childKey : String
  childName : String
  inputSchema : Schema
  inputLabel : String
  resolveNodeInput : Pass V V
  resolveIdempotencyKey : Pass V (Option V)

/-- A completed node hands its output on. -/
def completeNodeAndAdvance (nodeName : String) (output : V) : Pass V AdvanceOutcome := do
  let _ ← ctx.store (.completeNode ctx.run.id nodeName output)
  advance (ctx.withOutput nodeName output)

/-- What both kinds of children do with a terminal child run. -/
def settleChildRun (dispatch : ChildDispatch V) (childRun : StoredRun V) (failure : String) :
    Pass V AdvanceOutcome := do
  if childRun.status = .completed then
    let output := childRun.output.getD JsRuntime.undefined
    let _ ← ctx.store (.completeNodeChild ctx.run.id dispatch.nodeName dispatch.childKey output)
    completeNodeAndAdvance advance ctx dispatch.nodeName output
  else if childRun.status = .cancelled then
    cancelNodeAndRun ctx.store ctx.depth ctx.run.id dispatch.nodeName
    return .terminal
  else
    let error := childRun.errorOr failure
    let _ ← ctx.store (.failNodeChild ctx.run.id dispatch.nodeName dispatch.childKey error)
    failNodeAndRun ctx.store ctx.run.id dispatch.nodeName error
    return .terminal

/-- The common course of `dispatchChildTaskRun` and `dispatchChildWorkflow`: `redispatch` gives a
live child run its command again, `start` a new one its first. `loadRuns` finds a run under its own
id, so a loaded run has the id that the child is linked to. -/
def dispatchChildRun (dispatch : ChildDispatch V) (childKind : RunKind)
    (redispatch : StoredRun V → Pass V Unit) (start : StoredRun V → V → Option V → Pass V Unit)
    (failure : StoredRun V → String) : Pass V AdvanceOutcome := do
  let children : List (StoredNodeChild V) × List (StoredAttempt V) ←
    ctx.store (.loadNodeChildren ctx.run.id dispatch.nodeName)
  let child := children.1.find? fun candidate => candidate.childKey = dispatch.childKey
  match child.bind StoredNodeChild.childRunId with
  | some childRunId =>
    let childRuns : List (StoredRun V) ← ctx.store (.loadRuns [childRunId])
    match childRuns.head? with
    | none =>
      failMissingChildRun ctx.store ctx.run.id dispatch.nodeName childKind childRunId
      return .terminal
    | some childRun =>
      if isTerminalRunStatus childRun.status then
        settleChildRun advance ctx dispatch childRun (failure childRun)
      else
        redispatch childRun
        let _ ← ctx.store (.waitNode ctx.run.id dispatch.nodeName)
        return .parked
  | none =>
    let resolved ← dispatch.resolveNodeInput
    let nodeInput ← decodeWorkflowUserSchemaValue dispatch.inputSchema resolved dispatch.inputLabel
    let idempotencyKey ← dispatch.resolveIdempotencyKey
    let _ ← ctx.store (.setNodeInput ctx.run.id dispatch.nodeName nodeInput)
    let ensured : StoredNodeChild V × StoredRun V × Bool ← ctx.store (.ensureChildRun {
      runId := ctx.run.id
      nodeName := dispatch.nodeName
      childKey := dispatch.childKey
      childKind
      childName := dispatch.childName
      input := nodeInput
      rootRunId := ctx.run.rootRunId
      idempotencyKey })
    start ensured.2.1 nodeInput idempotencyKey
    let _ ← ctx.store (.waitNode ctx.run.id dispatch.nodeName)
    return .parked

/-- `childRun.input ?? fallback` -/
def StoredRun.inputOr (run : StoredRun V) (fallback : V) : V :=
  if JsRuntime.isNullish run.input then fallback else run.input

def dispatchChildTaskRun (dispatch : ChildDispatch V) (parentNode : StoredNode V)
    (timeout : Option String) : Pass V AdvanceOutcome :=
  dispatchChildRun advance ctx dispatch .task
    (fun childRun => dispatchTaskRunAttempt ctx.store dispatch.childName childRun.id
      (childRun.inputOr (parentNode.input.getD JsRuntime.undefined)) childRun.idempotencyKey
      timeout)
    (fun childRun nodeInput idempotencyKey =>
      dispatchTaskRunAttempt ctx.store dispatch.childName childRun.id nodeInput idempotencyKey
        timeout)
    fun childRun => s!"Child task run [{childRun.id}] failed"

def dispatchChildWorkflow (dispatch : ChildDispatch V) : Pass V AdvanceOutcome :=
  dispatchChildRun advance ctx dispatch .workflow
    (fun childRun => executor (.enqueue
      { runId := childRun.id, workflowName := childRun.workflowName } none))
    (fun childRun _ _ => executor (.enqueue
      { runId := childRun.id, workflowName := dispatch.childName } none))
    fun childRun => s!"Child workflow [{childRun.id}] {childRun.status.text}"

/-! ## Nodes with one child -/

/-- The activity of a child: its first attempt, or the current one again. Once the child has an
attempt the input and the idempotency callback are not asked again. -/
def dispatchActivityChild (activityName nodeName childKey : String) (nodeInput : V)
    (idempotencyKey : Pass V (Option V)) : Pass V Unit :=
  dispatchAttempt ctx.store (.activity activityName) ctx.workflow.workflow.name ctx.run.id nodeName
    childKey none false do
    let idempotencyKey ← idempotencyKey
    prepareAttempt ctx.store {
      runId := ctx.run.id
      nodeName
      childKey
      input := nodeInput
      idempotencyKey }

/-- `hasAttempt ? undefined : value` -/
def unlessAttempted {α : Type} (hasAttempt : Bool) (absent : α) (value : Pass V α) : Pass V α :=
  if hasAttempt then pure absent else value

/-- The stored input of an activity node, or the one its callback gives, which is stored. -/
def activityNodeInput (node : ActivityNodeImplementation) (existing : StoredNode V)
    (input : Schema) : Pass V V :=
  match existing.input with
  | some stored => pure stored
  | none => do
    let value ← ctx.callInput node.input
    let nodeInput ← decodeWorkflowUserSchemaValue input value
      s!"activity input [{ctx.path node.name}]"
    let _ ← ctx.store (.setNodeInput ctx.run.id node.name nodeInput)
    return nodeInput

def dispatchActivityNode (node : ActivityNodeImplementation) : Pass V AdvanceOutcome := do
  let existing : StoredNode V ←
    ctx.store (.createNode { runId := ctx.run.id, name := node.name, kind := .activity })
  if isTerminalNodeStatus existing.status then return .parked
  else
    let declaration ← getWorkflowNodeDeclaration ctx.workflow node.name
    match declaration with
    | .activity input _ _ =>
      let nodeInput ← activityNodeInput ctx node existing input
      let ensured : List (StoredNodeChild V) × Bool ← ctx.store (.ensureNodeChildren ctx.run.id
        node.name [{ childKey := SELF_CHILD_KEY, kind := .activity }])
      match ensured.1.head? with
      | none => throw (.error "Cannot read properties of undefined (reading 'attemptCount')")
      | some child =>
        dispatchActivityChild ctx node.activityName node.name SELF_CHILD_KEY nodeInput
          (unlessAttempted (child.attemptCount > 0) none
            (resolveIdempotency node.idempotency ctx.args))
        return .local
    | _ => throw (.error s!"Workflow node [{node.name}] is not an activity")

def dispatchTaskNode (node : RunnableNodeImplementation) : Pass V AdvanceOutcome := do
  let existing : StoredNode V ←
    ctx.store (.createNode { runId := ctx.run.id, name := node.name, kind := .task })
  if isTerminalNodeStatus existing.status then return .parked
  else
    let declaration ← getWorkflowNodeDeclaration ctx.workflow node.name
    match declaration with
    | .task task timeout =>
      let _ ← ctx.store (.ensureNodeChildren ctx.run.id node.name
        [{ childKey := SELF_CHILD_KEY, kind := .task }])
      dispatchChildTaskRun advance ctx {
        nodeName := node.name
        childKey := SELF_CHILD_KEY
        childName := node.target.name
        inputSchema := node.target.input
        inputLabel := s!"task input [{ctx.path node.name}]"
        resolveNodeInput := ctx.resolveNodeInput existing node.input
        resolveIdempotencyKey := resolveIdempotency node.idempotency ctx.args } existing
        (timeout.or task.timeout)
    | _ => throw (.error s!"Workflow node [{node.name}] is not a task")

def dispatchWorkflowNode (node : RunnableNodeImplementation) : Pass V AdvanceOutcome := do
  let existing : StoredNode V ←
    ctx.store (.createNode { runId := ctx.run.id, name := node.name, kind := .workflow })
  if isTerminalNodeStatus existing.status then return .parked
  else
    let _ ← ctx.store (.ensureNodeChildren ctx.run.id node.name
      [{ childKey := SELF_CHILD_KEY, kind := .workflow }])
    dispatchChildWorkflow advance ctx {
      nodeName := node.name
      childKey := SELF_CHILD_KEY
      childName := node.target.name
      inputSchema := node.target.input
      inputLabel := s!"workflow input [{ctx.path node.name}]"
      resolveNodeInput := ctx.resolveNodeInput existing node.input
      resolveIdempotencyKey := resolveIdempotency node.idempotency ctx.args }

/-! ## Branches -/

/-- The selected case of a branch whose child has not settled. -/
def dispatchSelectedCase (node : BranchNodeImplementation) (existing : StoredNode V)
    (caseKey : String) (selected : WorkflowCaseImplementation)
    (selectedDeclaration : BranchCaseDefinition) (child : StoredNodeChild V) :
    Pass V AdvanceOutcome :=
  let path := s!"{ctx.path node.name}.{caseKey}"
  let childKey := caseChildKey caseKey
  let dispatchTo (label : String) (target : RunnableDefinition) : ChildDispatch V := {
    nodeName := node.name
    childKey
    childName := target.name
    inputSchema := target.input
    inputLabel := s!"{label} input [{path}]"
    resolveNodeInput := ctx.resolveNodeInput existing selected.input
    resolveIdempotencyKey := resolveIdempotency selected.idempotency ctx.args }
  match selected.kind with
  | .workflow target => dispatchChildWorkflow advance ctx (dispatchTo "workflow" target)
  | .task target =>
    match selectedDeclaration with
    | .task timeout =>
      dispatchChildTaskRun advance ctx (dispatchTo "task" target) existing
        (timeout.or target.timeout)
    | _ => throw (.error s!"Branch case [{node.name}.{caseKey}] is not a task")
  | .activity activityName =>
    match selectedDeclaration with
    | .activity input _ _ => do
      let hasAttempt := decide (child.attemptCount > 0)
      let nodeInput ← unlessAttempted hasAttempt JsRuntime.undefined do
        let value ← ctx.callInput selected.input
        let nodeInput ← decodeWorkflowUserSchemaValue input value s!"activity input [{path}]"
        let _ ← ctx.store (.setNodeInput ctx.run.id node.name nodeInput)
        pure nodeInput
      dispatchActivityChild ctx activityName node.name childKey nodeInput
        (unlessAttempted hasAttempt none (resolveIdempotency selected.idempotency ctx.args))
      return .local
    | _ => throw (.error s!"Branch case [{node.name}.{caseKey}] is not an activity")

/-- A branch whose case is chosen. -/
def dispatchBranchCase (node : BranchNodeImplementation) (existing : StoredNode V)
    (caseKey : String) : Pass V AdvanceOutcome :=
  match node.cases.lookup caseKey with
  | none => do
    failNodeAndRun ctx.store ctx.run.id node.name
      (.error s!"Unknown branch case [{node.name}.{caseKey}]")
    return .terminal
  | some selected => do
    let declaration ← getWorkflowNodeDeclaration ctx.workflow node.name
    match declaration with
    | .branch cases =>
      match cases.lookup caseKey with
      | none => throw (.error s!"Missing branch case declaration [{node.name}.{caseKey}]")
      | some selectedDeclaration =>
        let ensured : List (StoredNodeChild V) × Bool ← ctx.store (.ensureNodeChildren ctx.run.id
          node.name [{ childKey := caseChildKey caseKey, kind := selected.kind.childKind }])
        match ensured.1.head? with
        | none => throw (.error "Cannot read properties of undefined (reading 'status')")
        | some child =>
          if child.status = .completed then
            completeNodeAndAdvance advance ctx node.name (child.output.getD JsRuntime.undefined)
          else if child.status = .failed then
            failNodeAndRun ctx.store ctx.run.id node.name
              (child.errorOr s!"Branch case [{node.name}.{caseKey}] failed")
            return .terminal
          else if child.status = .cancelled then
            cancelNodeAndRun ctx.store ctx.depth ctx.run.id node.name
            return .terminal
          else
            dispatchSelectedCase advance ctx node existing caseKey selected selectedDeclaration
              child
    | _ => throw (.error s!"Workflow node [{node.name}] is not a branch")

def dispatchBranchNode (node : BranchNodeImplementation) : Pass V AdvanceOutcome := do
  let existing : StoredNode V ←
    ctx.store (.createNode { runId := ctx.run.id, name := node.name, kind := .branch })
  if isTerminalNodeStatus existing.status then return .parked
  else
    match existing.selectedCase with
    | some caseKey => dispatchBranchCase advance ctx node existing caseKey
    | none =>
      let selected : Except (Thrown V) String ←
        tryCatch (Except.ok <$> userCode (.select node.select ctx.args)) fun error =>
          pure (.error error)
      match selected with
      | .error error =>
        failNodeAndRun ctx.store ctx.run.id node.name error
        return .terminal
      | .ok caseKey =>
        let _ ← ctx.store (.selectNodeCase ctx.run.id node.name caseKey)
        dispatchBranchCase advance ctx node existing caseKey

end Children

end Neemata.Workflows
