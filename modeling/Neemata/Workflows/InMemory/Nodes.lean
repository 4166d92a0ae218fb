import Neemata.Workflows.InMemory.Runs

/-!
# Nodes, children and attempts of the in-memory store

`createNode` to `loadNodeChildren` and the helpers `createChildAttempt` and
`fencedCurrentAttempt` of `runtime/in-memory.ts`.
-/

namespace Neemata.Workflows

variable {V : Type} [JsRuntime V]

namespace Mem

/-! ## Nodes -/

def createNode (m : Mem V) (input : CreateNodeInput) : StoredNode V × Mem V :=
  let key := nodeKey input.runId input.name
  match m.nodes.get? key with
  | some existing => (existing, m)
  | none =>
    let (date, m) := m.now
    let node : StoredNode V :=
      { runId := input.runId, name := input.name, kind := input.kind, status := .pending,
        input := none, output := none, error := none, selectedCase := none, version := 1,
        createdAt := date, updatedAt := date }
    (node, { m with nodes := m.nodes.set key node })

/-- Write a node back with its next version. -/
def updateNode (m : Mem V) (key : String) (node : StoredNode V)
    (change : StoredNode V → StoredNode V) : StoredNode V × Mem V :=
  let (date, m) := m.now
  let updated := { change node with version := node.version + 1, updatedAt := date }
  (updated, { m with nodes := m.nodes.set key updated })

def setNodeInput (m : Mem V) (runId nodeName : String) (input : V) :
    Except (Thrown V) (StoredNode V) × Mem V :=
  let key := nodeKey runId nodeName
  match m.nodes.get? key with
  | none => (.error (.error s!"Missing node [{runId}.{nodeName}]"), m)
  | some node =>
    if isTerminalNodeStatus node.status then (.ok node, m)
    else
      let (updated, m) := m.updateNode key node ({ · with input := some input })
      (.ok updated, m)

def selectNodeCase (m : Mem V) (runId nodeName caseKey : String) :
    Except (Thrown V) (Option (StoredNode V)) × Mem V :=
  let key := nodeKey runId nodeName
  match m.nodes.get? key with
  | none => (.ok none, m)
  | some node =>
    if isTerminalNodeStatus node.status ∨ node.selectedCase = some caseKey then (.ok (some node), m)
    else if node.selectedCase ≠ none then
      (.error (.error s!"Conflicting selected case for [{runId}.{nodeName}]"), m)
    else
      let (updated, m) := m.updateNode key node ({ · with selectedCase := some caseKey })
      (.ok (some updated), m)

/-- `completeNode`, `failNode` and `cancelNode`: change a node that is not terminal. -/
def settleNode (m : Mem V) (runId nodeName : String) (change : StoredNode V → StoredNode V) :
    Option (StoredNode V) × Mem V :=
  let key := nodeKey runId nodeName
  match m.nodes.get? key with
  | none => (none, m)
  | some node =>
    if isTerminalNodeStatus node.status then (some node, m)
    else
      let (updated, m) := m.updateNode key node change
      (some updated, m)

def completeNode (m : Mem V) (runId nodeName : String) (output : V) :
    Option (StoredNode V) × Mem V :=
  m.settleNode runId nodeName ({ · with status := .completed, output := some output })

def failNode (m : Mem V) (runId nodeName : String) (error : Thrown V) :
    Option (StoredNode V) × Mem V :=
  m.settleNode runId nodeName ({ · with status := .failed, error := some (toStoredError error) })

def cancelNode (m : Mem V) (runId nodeName : String) : Option (StoredNode V) × Mem V :=
  m.settleNode runId nodeName ({ · with status := .cancelled })

def waitNode (m : Mem V) (runId nodeName : String) : Option (StoredNode V) × Mem V :=
  let key := nodeKey runId nodeName
  match m.nodes.get? key with
  | none => (none, m)
  | some node =>
    if isTerminalNodeStatus node.status ∨ node.status = .waiting then (some node, m)
    else
      let (updated, m) := m.updateNode key node ({ · with status := .waiting })
      (some updated, m)

/-! ## Children -/

/-- Write a child back with its next version. -/
def updateChild (m : Mem V) (key : String) (child : StoredNodeChild V)
    (change : StoredNodeChild V → StoredNodeChild V) : StoredNodeChild V × Mem V :=
  let (date, m) := m.now
  let updated := { change child with version := child.version + 1, updatedAt := date }
  (updated, { m with children := m.children.set key updated })

/-- The child `ensureNodeChildren` stores for one entry of the batch. -/
def newChild (runId nodeName : String) (input : EnsureNodeChildInput V) (date : Nat) :
    StoredNodeChild V where
  runId := runId
  nodeName := nodeName
  childKey := input.childKey
  kind := input.kind
  status := .pending
  ordinal := input.ordinal.getD 0
  itemKey := input.itemKey
  item := input.item
  output := none
  error := none
  childRunId := none
  currentAttemptId := none
  attemptCount := 0
  version := 1
  createdAt := date
  updatedAt := date

def childMatchesInput (child : StoredNodeChild V) (input : EnsureNodeChildInput V) : Bool :=
  child.kind = input.kind &&
  child.ordinal = input.ordinal.getD 0 &&
  child.itemKey = input.itemKey &&
  sameOptionalValue child.item input.item

/-- Whether the stored children are the requested set. -/
def childrenMatch (m : Mem V) (runId nodeName : String) (inputs : List (EnsureNodeChildInput V)) :
    Bool :=
  (m.nodeChildren runId nodeName).length = inputs.length &&
  inputs.all fun input =>
    (m.children.get? (childKey runId nodeName input.childKey)).any (childMatchesInput · input)

/-- The node's child set: the stored one if it is the requested one (a conflict otherwise),
else one fresh record per entry. The flag says whether records were created. -/
def ensureNodeChildren (m : Mem V) (runId nodeName : String)
    (inputs : List (EnsureNodeChildInput V)) :
    Except (Thrown V) (List (StoredNodeChild V) × Bool) × Mem V :=
  match m.nodes.get? (nodeKey runId nodeName) with
  | none => (.error (.error s!"Missing node [{runId}.{nodeName}]"), m)
  | some _ =>
    let existing := m.nodeChildren runId nodeName
    if existing ≠ [] then
      if m.childrenMatch runId nodeName inputs then (.ok (sortedChildren existing, false), m)
      else (.error (.error s!"Conflicting node children [{runId}.{nodeName}]"), m)
    else
      let (date, m) := m.now
      let created := inputs.map (newChild runId nodeName · date)
      let children := created.foldl
        (fun children child => children.set (childKey runId nodeName child.childKey) child) m.children
      (.ok (sortedChildren created, true), { m with children })

/-- `completeNodeChild` and `failNodeChild`: change a child that is not terminal. -/
def settleNodeChild (m : Mem V) (runId nodeName key : String)
    (change : StoredNodeChild V → StoredNodeChild V) : Option (StoredNodeChild V) × Mem V :=
  let mapKey := childKey runId nodeName key
  match m.children.get? mapKey with
  | none => (none, m)
  | some child =>
    if isTerminalNodeStatus child.status then (some child, m)
    else
      let (updated, m) := m.updateChild mapKey child change
      (some updated, m)

def completeNodeChild (m : Mem V) (runId nodeName key : String) (output : V) :
    Option (StoredNodeChild V) × Mem V :=
  m.settleNodeChild runId nodeName key ({ · with status := .completed, output := some output })

def failNodeChild (m : Mem V) (runId nodeName key : String) (error : Thrown V) :
    Option (StoredNodeChild V) × Mem V :=
  m.settleNodeChild runId nodeName key
    ({ · with status := .failed, error := some (toStoredError error) })

/-- Cancel one node of the sweep. -/
def cancelSweptNode (runId : String) (m : Mem V) (node : StoredNode V) : Mem V :=
  if node.runId ≠ runId ∨ isTerminalNodeStatus node.status then m
  else (m.updateNode (nodeKey node.runId node.name) node ({ · with status := .cancelled })).2

/-- Cancel one child of the sweep. -/
def cancelSweptChild (runId : String) (m : Mem V) (child : StoredNodeChild V) : Mem V :=
  if child.runId ≠ runId ∨ isTerminalNodeStatus child.status then m
  else (m.updateChild (childKey child.runId child.nodeName child.childKey) child
    ({ · with status := .cancelled })).2

/-- Cancel every node and child of the run that is not terminal, in iteration order. -/
def cancelNonTerminalRunNodes (m : Mem V) (runId : String) : Mem V :=
  let m := m.nodes.values.foldl (cancelSweptNode runId) m
  m.children.values.foldl (cancelSweptChild runId) m

/-- The `createRunWithState` arguments of `ensureChildRun`. -/
def childRunInput (params : EnsureChildRunParams V) : CreateRunInput V where
  kind := some params.childKind
  name := some params.childName
  workflowName := params.childName
  taskName := if params.childKind = .task then some params.childName else none
  input := params.input
  parentRunId := some params.runId
  parentNodeName := some params.nodeName
  rootRunId := some params.rootRunId
  tags := params.tags
  idempotencyKey := params.idempotencyKey

/-- The child's run: the linked one if there is one (a conflict if it was started from other
arguments), else the run `createRunWithState` gives, linked to the child. -/
def ensureChildRun (m : Mem V) (params : EnsureChildRunParams V) :
    Except (Thrown V) (StoredNodeChild V × StoredRun V × Bool) × Mem V :=
  let key := childKey params.runId params.nodeName params.childKey
  let ref := childRef params.runId params.nodeName params.childKey
  match m.children.get? key with
  | none => (.error (.error s!"Missing node child [{ref}]"), m)
  | some child =>
    match child.childRunId with
    | some childRunId =>
      match m.runs.get? childRunId with
      | none => (.error (.error s!"Missing child run [{childRunId}]"), m)
      | some childRun =>
        if childRun.kind = params.childKind ∧ childRun.name = params.childName ∧
            sameValue childRun.input params.input ∧
            sameOptionalValue childRun.idempotencyKey params.idempotencyKey then
          (.ok (child, childRun, false), m)
        else (.error (.error s!"Conflicting child run [{ref}]"), m)
    | none =>
      if isTerminalNodeStatus child.status then
        (.error (.error s!"Terminal node child [{ref}] cannot start child run"), m)
      else
        match m.createRunWithState (childRunInput params) with
        | (.error error, m) => (.error error, m)
        | (.ok (childRun, _), m) =>
          let (linked, m) := m.updateChild key child
            ({ · with childRunId := some childRun.id, status := .running })
          (.ok (linked, childRun, true), m)

/-! ## Attempts -/

/-- The attempt `createChildAttempt` stores. -/
def newAttempt (child : StoredNodeChild V) (attemptId leaseToken : String) (input : V)
    (idempotencyKey : Option V) (date : Nat) : StoredAttempt V where
  id := attemptId
  runId := child.runId
  nodeName := child.nodeName
  childKey := child.childKey
  status := .started
  leaseToken := leaseToken
  attemptNumber := child.attemptCount + 1
  input := input
  idempotencyKey := idempotencyKey
  output := none
  error := none
  dispatchedAt := date
  completedAt := none

/-- The next attempt of a child: the child moves to `running` with the attempt as its current
one, and a node that may run mirrors it. -/
def createChildAttempt (m : Mem V) (child : StoredNodeChild V) (input : V)
    (idempotencyKey : Option V) : StoredAttempt V × Mem V :=
  let (attemptId, m) := m.id "attempt"
  let (leaseToken, m) := m.id "attempt-lease"
  let (date, m) := m.now
  let attempt := newAttempt child attemptId leaseToken input idempotencyKey date
  let m := { m with attempts := m.attempts.set attemptId attempt }
  let (_, m) := m.updateChild (childKey child.runId child.nodeName child.childKey) child
    ({ · with status := .running, currentAttemptId := some attemptId,
              attemptCount := child.attemptCount + 1 })
  let key := nodeKey child.runId child.nodeName
  match m.nodes.get? key with
  | none => (attempt, m)
  | some node =>
    if node.status = .running ∨ canTransition nodeTransitions node.status .running then
      (attempt, (m.updateNode key node ({ · with status := .running })).2)
    else (attempt, m)

def createAttempt (m : Mem V) (input : ChildAttemptParams V) :
    Except (Thrown V) (StoredAttempt V) × Mem V :=
  let ref := childRef input.runId input.nodeName input.childKey
  match m.children.get? (childKey input.runId input.nodeName input.childKey) with
  | none => (.error (.error s!"Missing node child [{ref}]"), m)
  | some child =>
    if isTerminalNodeStatus child.status then
      (.error (.error s!"Terminal node child [{ref}] cannot create attempt"), m)
    else
      let (attempt, m) := m.createChildAttempt child input.input input.idempotencyKey
      (.ok attempt, m)

/-- The attempt a child with attempts points at, else its attempt with the highest number. -/
def currentAttempt (m : Mem V) (child : StoredNodeChild V) : Option (StoredAttempt V) :=
  child.currentAttemptId.bind m.attempts.get? <|>
  ((m.attempts.values.filter fun attempt =>
      attempt.runId = child.runId ∧ attempt.nodeName = child.nodeName ∧
        attempt.childKey = child.childKey).insertionSort
    fun left right => right.attemptNumber ≤ left.attemptNumber).head?

/-- The child's first attempt, or its current one once it has attempts. The flag says whether
an attempt was created. -/
def ensureChildAttempt (m : Mem V) (params : ChildAttemptParams V) :
    Except (Thrown V) (StoredAttempt V × Bool) × Mem V :=
  let ref := childRef params.runId params.nodeName params.childKey
  match m.children.get? (childKey params.runId params.nodeName params.childKey) with
  | none => (.error (.error s!"Missing node child [{ref}]"), m)
  | some child =>
    if child.attemptCount > 0 then
      match m.currentAttempt child with
      | none => (.error (.error s!"Missing node child attempt [{ref}]"), m)
      | some current => (.ok (current, false), m)
    else if isTerminalNodeStatus child.status then
      (.error (.error s!"Terminal node child [{ref}] cannot create attempt"), m)
    else
      let (attempt, m) := m.createChildAttempt child params.input params.idempotencyKey
      (.ok (attempt, true), m)

/-- The attempt with its child if it may still be settled: the token matches, the attempt is
`started`, and its child is not terminal and points at it. -/
def fencedCurrentAttempt (m : Mem V) (attemptId leaseToken : String) :
    Option (StoredAttempt V × StoredNodeChild V) :=
  match m.attempts.get? attemptId with
  | none => none
  | some attempt =>
    if attempt.leaseToken ≠ leaseToken ∨ attempt.status ≠ .started then none
    else
      match m.children.get? (childKey attempt.runId attempt.nodeName attempt.childKey) with
      | none => none
      | some child =>
        if isTerminalNodeStatus child.status ∨ child.currentAttemptId ≠ some attemptId then none
        else some (attempt, child)

/-- Write a settled attempt back. -/
def updateAttempt (m : Mem V) (attemptId : String) (attempt : StoredAttempt V)
    (change : StoredAttempt V → StoredAttempt V) : StoredAttempt V × Mem V :=
  let (date, m) := m.now
  let updated := { change attempt with completedAt := some date }
  (updated, { m with attempts := m.attempts.set attemptId updated })

def completeCurrentAttempt (m : Mem V) (attemptId leaseToken : String) (output : V) :
    Option (StoredAttempt V) × Mem V :=
  match m.fencedCurrentAttempt attemptId leaseToken with
  | none => (none, m)
  | some (attempt, child) =>
    let (updated, m) := m.updateAttempt attemptId attempt
      ({ · with status := .completed, output := some output })
    let (_, m) := m.updateChild (childKey child.runId child.nodeName child.childKey) child
      ({ · with status := .completed, output := some output })
    (some updated, m)

/-- `failCurrentAttempt` and `timeoutCurrentAttempt`: settle the attempt, not its child. -/
def failCurrentAttemptAs (m : Mem V) (status : RuntimeAttemptStatus) (attemptId leaseToken : String)
    (error : Thrown V) : Option (StoredAttempt V) × Mem V :=
  match m.fencedCurrentAttempt attemptId leaseToken with
  | none => (none, m)
  | some (attempt, _) =>
    let (updated, m) := m.updateAttempt attemptId attempt
      ({ · with status, error := some (toStoredError error) })
    (some updated, m)

def failCurrentAttempt (m : Mem V) (attemptId leaseToken : String) (error : Thrown V) :
    Option (StoredAttempt V) × Mem V :=
  m.failCurrentAttemptAs .failed attemptId leaseToken error

def timeoutCurrentAttempt (m : Mem V) (attemptId leaseToken : String) (error : Thrown V) :
    Option (StoredAttempt V) × Mem V :=
  m.failCurrentAttemptAs .timedOut attemptId leaseToken error

/-! ## Reads -/

def loadRunSnapshot (m : Mem V) (runId : String) : Option (RunSnapshot V) :=
  (m.runs.get? runId).map fun run =>
    { run
      nodes := m.nodes.values.filter fun node => node.runId = runId
      children := m.children.values.filter fun child => child.runId = runId
      attempts := m.attempts.values.filter fun attempt => attempt.runId = runId }

def loadNodeChildren (m : Mem V) (runId nodeName : String) :
    List (StoredNodeChild V) × List (StoredAttempt V) :=
  (sortedChildren (m.nodeChildren runId nodeName),
    m.attempts.values.filter fun attempt => attempt.runId = runId ∧ attempt.nodeName = nodeName)

end Mem

end Neemata.Workflows
