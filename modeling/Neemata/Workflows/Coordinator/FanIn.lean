import Neemata.Workflows.Coordinator.Dispatch

/-!
# Nodes with many children

`coordinator/dispatch/parallel.ts` and `coordinator/dispatch/map.ts`. A pass over such a node goes
through its children in order, with the child runs as they were read before; what it collects on
the way is a value of its own here.
-/

namespace Neemata.Workflows

variable {V : Type} [JsRuntime V] (advance : AdvanceCtx V → Pass V AdvanceOutcome)
  (ctx : AdvanceCtx V)

/-- The runs that the children are linked to. -/
def linkedRunIds (children : List (StoredNodeChild V)) : List String :=
  children.filterMap StoredNodeChild.childRunId

/-! ## Parallel members -/

/-- `outputs` and `hasLocalWork` of `dispatchParallelNode`. -/
structure ParallelProgress (V : Type) where
  outputs : OrdMap String V := .empty
  hasLocalWork : Bool := false

/-- The children and the child runs that a pass over a fan-in node works with. -/
structure FanIn (V : Type) where
  children : List (StoredNodeChild V)
  childRuns : List (StoredRun V)

namespace FanIn

def child? (fanIn : FanIn V) (childKey : String) : Option (StoredNodeChild V) :=
  fanIn.children.find? fun child => child.childKey = childKey

def run? (fanIn : FanIn V) (runId : String) : Option (StoredRun V) :=
  fanIn.childRuns.find? fun run => run.id = runId

end FanIn

section Parallel

variable (node : ParallelNodeImplementation) (cases : List (String × BranchCaseDefinition))

/-- `failMember` -/
def failMember (child : StoredNodeChild V) (error : Thrown V) : Pass V Unit := do
  let _ ← ctx.store (.failNodeChild ctx.run.id node.name child.childKey error)
  cancelNodeChildRunsAndCommands ctx.store ctx.depth ctx.run.id node.name
  failNodeAndRun ctx.store ctx.run.id node.name error

/-- The timeout of a task member: `declaration.cases[memberKey]?.timeout ?? target.timeout`. -/
def memberTimeout (memberKey : String) (target : RunnableDefinition) : Option String :=
  match cases.lookup memberKey with
  | some (.activity _ _ timeout) | some (.task timeout) => timeout.or target.timeout
  | some .workflow | none => target.timeout

/-- Start a live member run once more, or for the first time: `continueRun` or the task's
attempt. -/
def dispatchMemberRun (memberKey : String) (kind : RunKind) (target : RunnableDefinition)
    (runId workflowName : String) (taskInput : V) (idempotencyKey : Option V) : Pass V Unit :=
  match kind with
  | .workflow => executor (.enqueue { runId, workflowName } none)
  | .task => dispatchTaskRunAttempt ctx.store target.name runId taskInput idempotencyKey
      (memberTimeout cases memberKey target)

/-- The input of a member that has not started: decoded with its schema. -/
def memberInput (member : WorkflowCaseImplementation) (schema : Schema) (memberKey : String) :
    Pass V V := do
  let value ← ctx.callInput member.input
  decodeWorkflowUserSchemaValue schema value
    s!"{member.kind.text} input [{ctx.path node.name}.{memberKey}]"

/-- A workflow or task member that is neither completed, failed nor cancelled. `none` ends the
pass. -/
def dispatchRunMember (fanIn : FanIn V) (memberKey : String) (member : WorkflowCaseImplementation)
    (kind : RunKind) (target : RunnableDefinition) (child : StoredNodeChild V)
    (progress : ParallelProgress V) : Pass V (Option (ParallelProgress V)) :=
  let childKey := memberChildKey memberKey
  match child.childRunId with
  | some childRunId =>
    match fanIn.run? childRunId with
    | none => do
      failMissingChildRun ctx.store ctx.run.id node.name kind childRunId
      return none
    | some childRun =>
      if !isTerminalRunStatus childRun.status then do
        dispatchMemberRun ctx cases memberKey kind target childRun.id childRun.workflowName
          (childRun.inputOr ctx.run.input) childRun.idempotencyKey
        return some progress
      else if childRun.status = .completed then do
        let output := childRun.output.getD JsRuntime.undefined
        let _ ← ctx.store (.completeNodeChild ctx.run.id node.name childKey output)
        return some { progress with outputs := progress.outputs.set memberKey output }
      else if childRun.status = .cancelled then do
        cancelNodeAndRun ctx.store ctx.depth ctx.run.id node.name
        return none
      else do
        failMember ctx node child (childRun.errorOr
          s!"Parallel child {kind.text} run [{childRun.id}] {childRun.status.text}")
        return none
  | none => do
    let nodeInput ← memberInput ctx node member target.input memberKey
    let idempotencyKey ← resolveIdempotency member.idempotency ctx.args
    let created : StoredNodeChild V × StoredRun V × Bool ← ctx.store (.ensureChildRun {
      runId := ctx.run.id
      nodeName := node.name
      childKey
      childKind := kind
      childName := target.name
      input := nodeInput
      rootRunId := ctx.run.rootRunId
      idempotencyKey })
    dispatchMemberRun ctx cases memberKey kind target created.2.1.id target.name nodeInput
      idempotencyKey
    return some progress

def dispatchActivityMember (memberKey : String) (member : WorkflowCaseImplementation)
    (activityName : String) (child : StoredNodeChild V) (progress : ParallelProgress V) :
    Pass V (Option (ParallelProgress V)) :=
  match cases.lookup memberKey with
  | some (.activity input _ _) => do
    let hasAttempt := decide (child.attemptCount > 0)
    let nodeInput ← unlessAttempted hasAttempt JsRuntime.undefined
      (memberInput ctx node member input memberKey)
    let idempotencyKey ← unlessAttempted hasAttempt none
      (resolveIdempotency member.idempotency ctx.args)
    dispatchActivityChild ctx activityName node.name (memberChildKey memberKey) nodeInput
      (pure idempotencyKey)
    return some { progress with hasLocalWork := true }
  | _ => throw (.error s!"Parallel member [{node.name}.{memberKey}] is not an activity")

def dispatchMember (fanIn : FanIn V) (memberKey : String) (member : WorkflowCaseImplementation)
    (progress : ParallelProgress V) : Pass V (Option (ParallelProgress V)) :=
  match fanIn.child? (memberChildKey memberKey) with
  | none => throw (.error s!"Missing parallel member child [{node.name}.{memberKey}]")
  | some child =>
    if child.status = .completed then
      return some { progress with
        outputs := progress.outputs.set memberKey (child.output.getD JsRuntime.undefined) }
    else if child.status = .failed then do
      cancelNodeChildRunsAndCommands ctx.store ctx.depth ctx.run.id node.name
      failNodeAndRun ctx.store ctx.run.id node.name
        (child.errorOr s!"Parallel member [{node.name}.{memberKey}] failed")
      return none
    else if child.status = .cancelled then do
      cancelNodeAndRun ctx.store ctx.depth ctx.run.id node.name
      return none
    else
      match member.kind with
      | .workflow target =>
        dispatchRunMember ctx node cases fanIn memberKey member .workflow target child progress
      | .task target =>
        dispatchRunMember ctx node cases fanIn memberKey member .task target child progress
      | .activity activityName =>
        dispatchActivityMember ctx node cases memberKey member activityName child progress

def dispatchMembers (fanIn : FanIn V) : List (String × WorkflowCaseImplementation) →
    ParallelProgress V → Pass V (Option (ParallelProgress V))
  | [], progress => return some progress
  | (memberKey, member) :: members, progress => do
    let progress ← dispatchMember ctx node cases fanIn memberKey member progress
    match progress with
    | none => return none
    | some progress => dispatchMembers fanIn members progress

/-- What is left once every member was looked at. -/
def finishParallel (progress : ParallelProgress V) : Pass V AdvanceOutcome := do
  if progress.outputs.values.length = node.cases.length then
    completeNodeAndAdvance advance ctx node.name (JsRuntime.record progress.outputs.entries)
  else
    let _ ← ctx.store (.waitNode ctx.run.id node.name)
    return if progress.hasLocalWork then .local else .parked

/-- The members without a declaration. -/
def undeclaredMember? : Option String :=
  (node.cases.map Prod.fst).find? fun memberKey => (cases.lookup memberKey).isNone

def memberChildren : List (EnsureNodeChildInput V) :=
  node.cases.map fun (memberKey, member) =>
    { childKey := memberChildKey memberKey, kind := member.kind.childKind }

def dispatchParallelNode : Pass V AdvanceOutcome := do
  let existing : StoredNode V ←
    ctx.store (.createNode { runId := ctx.run.id, name := node.name, kind := .parallel })
  if isTerminalNodeStatus existing.status then return .parked
  else
    let declaration ← getWorkflowNodeDeclaration ctx.workflow node.name
    match declaration with
    | .parallel cases =>
      match undeclaredMember? node cases with
      | some memberKey =>
        throw (.error s!"Missing parallel member declaration [{node.name}.{memberKey}]")
      | none =>
        let ensured : List (StoredNodeChild V) × Bool ←
          ctx.store (.ensureNodeChildren ctx.run.id node.name (memberChildren node))
        let childRuns : List (StoredRun V) ← ctx.store (.loadRuns (linkedRunIds ensured.1))
        let progress ← dispatchMembers ctx node cases ⟨ensured.1, childRuns⟩ node.cases {}
        match progress with
        | none => return .terminal
        | some progress => finishParallel advance ctx node progress
    | _ => throw (.error s!"Workflow node [{node.name}] is not parallel")

end Parallel

/-! ## Map items -/

/-- `outputItems`, `activeChildren` and `startedChildren` of `dispatchMapRunNode`. The array can
have holes. -/
structure MapProgress (V : Type) where
  outputItems : List (Option V) := []
  activeChildren : Nat := 0
  startedChildren : Nat := 0

/-- `items[index] = item`, also beyond the end of the array. -/
def assignItem (items : List (Option V)) (index : Nat) (item : V) : List (Option V) :=
  (items ++ List.replicate (index + 1 - items.length) none).set index (some item)

/-- The entry of a child in the output of its map node. -/
def outputItem (child : StoredNodeChild V) (runId : String) (rest : List (String × V)) : V :=
  JsRuntime.record ([("item", child.item.getD JsRuntime.undefined),
    ("index", JsRuntime.number child.ordinal), ("runId", JsRuntime.text runId)] ++ rest)

def MapProgress.assign (progress : MapProgress V) (child : StoredNodeChild V) (runId : String)
    (rest : List (String × V)) : MapProgress V :=
  { progress with
    outputItems := assignItem progress.outputItems child.ordinal (outputItem child runId rest) }

section Map

variable (node : MapNodeImplementation) (childKind : RunKind) (timeout : Option String)

/-- `redispatchActiveChild` and the end of `startChild`. These, `failedChildError` and the kind of
the children are all that `dispatchMapTaskNode` and `dispatchMapWorkflowNode` differ in. -/
def dispatchItemRun (runId workflowName : String) (taskInput : V) (idempotencyKey : Option V) :
    Pass V Unit :=
  match childKind with
  | .workflow => executor (.enqueue { runId, workflowName } none)
  | .task =>
    dispatchTaskRunAttempt ctx.store node.target.name runId taskInput idempotencyKey timeout

/-- `failedChildError` -/
def failedChildError (childRun : StoredRun V) : Thrown V :=
  match childKind with
  | .task => childRun.errorOr s!"Mapped task run [{childRun.id}] failed"
  | .workflow => childRun.errorOr s!"Mapped child workflow [{childRun.id}] {childRun.status.text}"

def statusEntry (childRun : StoredRun V) : String × V :=
  ("status", JsRuntime.text childRun.status.text)

/-- A child with a run that has ended, in the modes that wait for it. `none` ends the pass. -/
def settleItem (child : StoredNodeChild V) (childRun : StoredRun V) (progress : MapProgress V) :
    Pass V (Option (MapProgress V)) := do
  if childRun.status = .completed then
    let output := childRun.output.getD JsRuntime.undefined
    let _ ← ctx.store (.completeNodeChild ctx.run.id node.name child.childKey output)
    return some (progress.assign child childRun.id
      ((if node.mode = .waitSettled then [statusEntry childRun] else []) ++ [("output", output)]))
  else if childRun.status = .cancelled ∧ node.mode ≠ .waitSettled then
    cancelNodeAndRun ctx.store ctx.depth ctx.run.id node.name
    return none
  else
    let error := failedChildError childKind childRun
    let _ ← ctx.store (.failNodeChild ctx.run.id node.name child.childKey error)
    if node.mode = .waitSettled then
      return some (progress.assign child childRun.id
        [statusEntry childRun, ("error", JsRuntime.ofStoredError (toStoredError error))])
    else
      cancelNodeChildRunsAndCommands ctx.store ctx.depth ctx.run.id node.name
      failNodeAndRun ctx.store ctx.run.id node.name error
      return none

/-- A child that is linked to a run. -/
def dispatchLinkedItem (fanIn : FanIn V) (child : StoredNodeChild V) (childRunId : String)
    (progress : MapProgress V) : Pass V (Option (MapProgress V)) :=
  match fanIn.run? childRunId with
  | none => do
    failMissingChildRun ctx.store ctx.run.id node.name childKind childRunId
    return none
  | some childRun =>
    if node.mode = .startOnly then
      return some (progress.assign child childRunId [statusEntry childRun])
    else if !isTerminalRunStatus childRun.status then do
      dispatchItemRun ctx node childKind timeout childRun.id childRun.workflowName
        (childRun.inputOr ctx.run.input) childRun.idempotencyKey
      return some { progress with activeChildren := progress.activeChildren + 1 }
    else settleItem ctx node childKind child childRun progress

/-- Whether a child without a run must wait for a later pass. -/
def isAtLimit (concurrency : Option Nat) (progress : MapProgress V) : Bool :=
  concurrency.any fun limit =>
    if node.mode = .startOnly then limit ≤ progress.startedChildren
    else limit ≤ progress.activeChildren

/-- A child without a run that may start. -/
def startItem (child : StoredNodeChild V) (progress : MapProgress V) : Pass V (MapProgress V) := do
  let args := ctx.itemArgs child.item child.ordinal
  let value ← runWorkflowUserCallback (userCode (.call node.input args))
  let nodeInput ← decodeWorkflowUserSchemaValue node.target.input value
    s!"{childKind.text} input [{ctx.path node.name}.{child.ordinal}]"
  let idempotencyKey ← resolveIdempotency node.idempotency args
  let ensured : StoredNodeChild V × StoredRun V × Bool ← ctx.store (.ensureChildRun {
    runId := ctx.run.id
    nodeName := node.name
    childKey := child.childKey
    childKind
    childName := node.target.name
    input := nodeInput
    rootRunId := ctx.run.rootRunId
    idempotencyKey })
  let childRun := ensured.2.1
  dispatchItemRun ctx node childKind timeout childRun.id node.target.name nodeInput idempotencyKey
  if node.mode = .startOnly then
    return { progress.assign child childRun.id [statusEntry childRun] with
      startedChildren := progress.startedChildren + 1 }
  else return { progress with activeChildren := progress.activeChildren + 1 }

def dispatchItem (fanIn : FanIn V) (concurrency : Option Nat) (child : StoredNodeChild V)
    (progress : MapProgress V) : Pass V (Option (MapProgress V)) :=
  match child.childRunId with
  | some childRunId => dispatchLinkedItem ctx node childKind timeout fanIn child childRunId progress
  | none =>
    if isAtLimit node concurrency progress then return some progress
    else some <$> startItem ctx node childKind timeout child progress

def dispatchItems (fanIn : FanIn V) (concurrency : Option Nat) : List (StoredNodeChild V) →
    MapProgress V → Pass V (Option (MapProgress V))
  | [], progress => return some progress
  | child :: children, progress => do
    let progress ← dispatchItem ctx node childKind timeout fanIn concurrency child progress
    match progress with
    | none => return none
    | some progress => dispatchItems fanIn concurrency children progress

/-- What is left once every child was looked at. -/
def finishMap (children : List (StoredNodeChild V)) (progress : MapProgress V) :
    Pass V AdvanceOutcome := do
  let completedItems := progress.outputItems.filterMap id
  if completedItems.length = children.length then
    completeNodeAndAdvance advance ctx node.name
      (JsRuntime.record [("items", JsRuntime.array completedItems)])
  else if node.mode = .startOnly ∧ progress.startedChildren > 0 then
    executor (.enqueue
      { runId := ctx.run.id, workflowName := ctx.workflow.workflow.name } none)
    let _ ← ctx.store (.waitNode ctx.run.id node.name)
    return .local
  else
    let _ ← ctx.store (.waitNode ctx.run.id node.name)
    return .parked

/-- The children of the node. The stored input of the node is the commit marker of its items, and
is written last. -/
def mapChildren (existing : StoredNode V) (item : Schema) : Pass V (List (StoredNodeChild V)) := do
  match existing.input with
  | some _ =>
    let loaded : List (StoredNodeChild V) × List (StoredAttempt V) ←
      ctx.store (.loadNodeChildren ctx.run.id node.name)
    return loaded.1
  | none =>
    let items : List V ← runWorkflowUserCallback (userCode (.items node.items ctx.args))
    let items ← decodeMapItems item items s!"map item [{ctx.path node.name}]"
    let ensured : List (StoredNodeChild V) × Bool ← ctx.store (.ensureNodeChildren ctx.run.id
      node.name (items.mapIdx fun index item => {
        childKey := itemChildKey index
        kind := match childKind with | .task => .task | .workflow => .workflow
        ordinal := some index
        item := some item }))
    let _ ← ctx.store (.setNodeInput ctx.run.id node.name (JsRuntime.array items))
    return ensured.1

/-- The node kind, the item schema and the timeout of a declaration of the right kind. -/
def mapDeclaration? : WorkflowNodeDeclaration → Option (Schema × Option String)
  | .mapTask task item _ timeout =>
    if childKind = .task then some (item, timeout.or task.timeout) else none
  | .mapWorkflow item _ => if childKind = .workflow then some (item, none) else none
  | _ => none

def mapKind : RunKind → WorkflowNodeKind
  | .task => .mapTask
  | .workflow => .mapWorkflow

def mapKindText : RunKind → String
  | .task => "mapTask"
  | .workflow => "mapWorkflow"

def dispatchMapRunNode : Pass V AdvanceOutcome := do
  let existing : StoredNode V ←
    ctx.store (.createNode { runId := ctx.run.id, name := node.name, kind := mapKind childKind })
  if isTerminalNodeStatus existing.status then return .parked
  else
    let declaration ← getWorkflowNodeDeclaration ctx.workflow node.name
    match mapDeclaration? childKind declaration with
    | none => throw (.error s!"Workflow node [{node.name}] is not a {mapKindText childKind}")
    | some (item, timeout) =>
      let children ← mapChildren ctx node childKind existing item
      let childRuns : List (StoredRun V) ← ctx.store (.loadRuns (linkedRunIds children))
      let concurrency ← mapConcurrencyLimit node
      let progress ← dispatchItems ctx node childKind timeout ⟨children, childRuns⟩ concurrency
        children {}
      match progress with
      | none => return .terminal
      | some progress => finishMap advance ctx node children progress

end Map

end Neemata.Workflows
