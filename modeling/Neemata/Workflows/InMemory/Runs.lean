import Neemata.Workflows.InMemory.Mem

/-!
# Runs of the in-memory store

Creation with its idempotency and uniqueness checks, the status changes, run leases, and the two
deletion paths (`runtime/in-memory.ts`, `createRunWithState` to `releaseRunLease` and
`collectRunTreeIds` to `sweepDeadQueueItems`). An operation returns its result or what it throws,
together with the state it leaves behind.
-/

namespace Neemata.Workflows

variable {V : Type} [JsRuntime V]

def runnableName (input : CreateRunInput V) : String :=
  (input.name <|> input.taskName).getD input.workflowName

def runMatchesCreateInput (run : StoredRun V) (input : CreateRunInput V) : Bool :=
  run.kind = input.kind.getD .workflow &&
  run.name = runnableName input &&
  run.workflowName = input.workflowName &&
  run.taskName = input.taskName &&
  run.parentRunId = input.parentRunId &&
  run.parentNodeName = input.parentNodeName &&
  run.rootRunId = input.rootRunId.getD run.id &&
  sameValue run.input input.input

namespace Mem

/-- The index of unique keys of a scope. -/
def uniqueKeys (m : Mem V) : RunUniqueScope → OrdMap String String
  | .all => m.allUniqueRunKeys
  | .active => m.activeUniqueRunKeys

/-- The stored run that holds the key of `unique`, if any. -/
def conflictingRun (m : Mem V) (unique : ResolvedRunUnique V) : Option (StoredRun V) :=
  ((m.uniqueKeys unique.scope).get? (valueKey unique.key)).bind m.runs.get?

/-- The record `createRunWithState` stores for `input`. -/
def newRun (input : CreateRunInput V) (runId : String) (date : Nat) : StoredRun V where
  id := runId
  kind := input.kind.getD .workflow
  name := runnableName input
  workflowName := input.workflowName
  taskName := input.taskName
  status := .queued
  input := input.input
  output := none
  error := none
  parentRunId := input.parentRunId
  parentNodeName := input.parentNodeName
  rootRunId := input.rootRunId.getD runId
  tags := input.tags.getD []
  idempotencyKey := input.idempotencyKey
  unique := input.unique
  version := 1
  createdAt := date
  updatedAt := date

/-- Enter the run's key into the index of its scope. -/
def setUniqueKey (scope : RunUniqueScope) (unique : Option (ResolvedRunUnique V)) (runId : String)
    (index : OrdMap String String) : OrdMap String String :=
  match unique with
  | some unique => if unique.scope = scope then index.set (valueKey unique.key) runId else index
  | none => index

/-- Store a fresh run under a fresh id and index its keys. -/
def insertRun (m : Mem V) (input : CreateRunInput V) : StoredRun V × Mem V :=
  let (date, m) := m.now
  let (runId, m) := m.id "run"
  let run := newRun input runId date
  (run, { m with
    runs := m.runs.set run.id run
    runIdempotencyKeys := match input.idempotencyKey with
      | some key => m.runIdempotencyKeys.set (runIdempotencyKey key) run.id
      | none => m.runIdempotencyKeys
    activeUniqueRunKeys := setUniqueKey .active input.unique run.id m.activeUniqueRunKeys
    allUniqueRunKeys := setUniqueKey .all input.unique run.id m.allUniqueRunKeys })

/-- The run with the given idempotency key if there is one (a conflict if it was created from
other arguments), else the run that holds the unique key, else a fresh run. The flag says
whether a run was created. -/
def createRunWithState (m : Mem V) (input : CreateRunInput V) :
    Except (Thrown V) (StoredRun V × Bool) × Mem V :=
  match input.idempotencyKey.bind fun key =>
      m.runIdempotencyKeys.get? (runIdempotencyKey key) with
  | some existingRunId =>
    match (m.runs.get? existingRunId).filter (runMatchesCreateInput · input) with
    | some existing => (.ok (existing, false), m)
    | none => (.error (.error s!"Conflicting idempotent run [{input.workflowName}]"), m)
  | none =>
    match input.unique with
    | none => let (run, m) := m.insertRun input; (.ok (run, true), m)
    | some unique =>
      match m.conflictingRun unique with
      | some conflicting =>
        if unique.behavior = .join then (.ok (conflicting, false), m)
        else (.error (.workflowRunConflict conflicting.id conflicting.status unique.key
          unique.scope), m)
      | none => let (run, m) := m.insertRun input; (.ok (run, true), m)

def createRun (m : Mem V) (input : CreateRunInput V) : Except (Thrown V) (StoredRun V) × Mem V :=
  let (result, m) := m.createRunWithState input
  (result.map Prod.fst, m)

/-! ## Status changes -/

/-- The index without the active-scope key of a run, unless another run has taken it since. -/
def withoutActiveUniqueKey (run : StoredRun V) (index : OrdMap String String) :
    OrdMap String String :=
  match run.unique with
  | some unique =>
    if unique.scope = .active ∧ index.get? (valueKey unique.key) = some run.id then
      index.erase (valueKey unique.key)
    else index
  | none => index

def releaseActiveUniqueKey (m : Mem V) (run : StoredRun V) : Mem V :=
  { m with activeUniqueRunKeys := withoutActiveUniqueKey run m.activeUniqueRunKeys }

/-- Write a run back with its next version. -/
def updateRun (m : Mem V) (runId : String) (run : StoredRun V)
    (change : StoredRun V → StoredRun V) : StoredRun V × Mem V :=
  let (date, m) := m.now
  let updated := { change run with version := run.version + 1, updatedAt := date }
  (updated, { m with runs := m.runs.set runId updated })

/-- `markRunRunning` and `markRunWaiting`: move along the transition map or return the run. -/
def markRun (m : Mem V) (runId : String) (status : RuntimeRunStatus) :
    Option (StoredRun V) × Mem V :=
  match m.runs.get? runId with
  | none => (none, m)
  | some run =>
    if canTransition runTransitions run.status status then
      let (updated, m) := m.updateRun runId run ({ · with status })
      (some updated, m)
    else (some run, m)

def markRunRunning (m : Mem V) (runId : String) : Option (StoredRun V) × Mem V :=
  m.markRun runId .running

def markRunWaiting (m : Mem V) (runId : String) : Option (StoredRun V) × Mem V :=
  m.markRun runId .waiting

/-- `completeRun`, `failRun` and `cancelRun`: settle a run that is not terminal and free its
active-scope key. -/
def settleRun (m : Mem V) (runId : String) (change : StoredRun V → StoredRun V) :
    Option (StoredRun V) × Mem V :=
  match m.runs.get? runId with
  | none => (none, m)
  | some run =>
    if isTerminalRunStatus run.status then (some run, m)
    else
      let (updated, m) := m.updateRun runId run change
      (some updated, m.releaseActiveUniqueKey updated)

def completeRun (m : Mem V) (runId : String) (output : V) : Option (StoredRun V) × Mem V :=
  m.settleRun runId ({ · with status := .completed, output := some output })

def failRun (m : Mem V) (runId : String) (error : Thrown V) : Option (StoredRun V) × Mem V :=
  m.settleRun runId ({ · with status := .failed, error := some (toStoredError error) })

def cancelRun (m : Mem V) (runId : String) : Option (StoredRun V) × Mem V :=
  m.settleRun runId ({ · with status := .cancelled })

def requestRunCancellation (m : Mem V) (runId : String) : Option (StoredRun V) × Mem V :=
  match m.runs.get? runId with
  | none => (none, m)
  | some run =>
    if isTerminalRunStatus run.status ∨ run.status = .cancelling then (some run, m)
    else
      let (updated, m) := m.updateRun runId run ({ · with status := .cancelling })
      (some updated, m)

/-! ## Run leases -/

def acquireRunLease (m : Mem V) (runId : String) (leaseMs : Nat) : Option RunLease × Mem V :=
  let (date, m) := m.now
  if (m.runLeases.get? runId).any fun existing => existing.expiresAt > date then (none, m)
  else
    match m.runs.get? runId with
    | none => (none, m)
    | some run =>
      let (leaseToken, m) := m.id "run-lease"
      let lease : InMemoryRunLease :=
        { runId, leaseToken, version := run.version, expiresAt := date + leaseMs }
      (some lease.toRunLease, { m with runLeases := m.runLeases.set runId lease })

def renewRunLease (m : Mem V) (lease : RunLease) (leaseMs : Nat) : Option RunLease × Mem V :=
  match m.runLeases.get? lease.runId with
  | none => (none, m)
  | some existing =>
    if existing.leaseToken ≠ lease.leaseToken then (none, m)
    else
      let (date, m) := m.now
      let renewed := { existing with expiresAt := date + leaseMs }
      (some renewed.toRunLease, { m with runLeases := m.runLeases.set lease.runId renewed })

def releaseRunLease (m : Mem V) (lease : RunLease) : Mem V :=
  if (m.runLeases.get? lease.runId).any fun existing => existing.leaseToken = lease.leaseToken then
    { m with runLeases := m.runLeases.erase lease.runId }
  else m

/-! ## Deletion -/

/-- One round of a collection loop: add every run that `belongs` to the ids collected so far. -/
def collectRound (runs : List (StoredRun V)) (belongs : List String → StoredRun V → Bool)
    (ids : List String) : List String :=
  runs.foldl (fun ids run => if belongs ids run ∧ run.id ∉ ids then ids ++ [run.id] else ids) ids

/-- Rounds until one adds nothing. Every other round adds a run, so one round more than there
are runs is enough. -/
def collectRounds (runs : List (StoredRun V)) (belongs : List String → StoredRun V → Bool) :
    Nat → List String → List String
  | 0, ids => ids
  | rounds + 1, ids =>
    let ids' := collectRound runs belongs ids
    if ids'.length = ids.length then ids' else collectRounds runs belongs rounds ids'

/-- A run whose parent is collected. -/
def belongsToTree (ids : List String) (run : StoredRun V) : Bool :=
  run.parentRunId.any fun parent => parent ≠ "" && parent ∈ ids

/-- A run whose parent or root is collected. -/
def belongsToFamily (ids : List String) (run : StoredRun V) : Bool :=
  (run.parentRunId.any fun parent => decide (parent ∈ ids)) || run.rootRunId ∈ ids

def collectRunTreeIds (m : Mem V) (rootIds : List String) : List String :=
  collectRounds m.runs.values belongsToTree (m.runs.values.length + 1) rootIds.eraseDups

def collectRunDescendantIds (m : Mem V) (rootId : String) : List String :=
  collectRounds m.runs.values belongsToFamily (m.runs.values.length + 1) [rootId]

/-- Remove the runs `treeIds` with everything stored for them. -/
def deleteRunTrees (m : Mem V) (treeIds : List String) : Mem V :=
  if treeIds = [] then m else
  { m with
    runs := m.runs.filter fun runId _ => runId ∉ treeIds
    runLeases := m.runLeases.filter fun runId _ => runId ∉ treeIds
    runIdempotencyKeys := m.runIdempotencyKeys.filter fun _ runId => runId ∉ treeIds
    activeUniqueRunKeys := m.activeUniqueRunKeys.filter fun _ runId => runId ∉ treeIds
    allUniqueRunKeys := m.allUniqueRunKeys.filter fun _ runId => runId ∉ treeIds
    nodes := m.nodes.filter fun _ node => node.runId ∉ treeIds
    attempts := m.attempts.filter fun _ attempt => attempt.runId ∉ treeIds
    children := m.children.filter fun _ child =>
      child.runId ∉ treeIds ∧ ¬(child.childRunId.any fun childRunId => childRunId ∈ treeIds)
    continueRunCommands := m.continueRunCommands.filter fun item => item.payload.runId ∉ treeIds
    attemptCommands := m.attemptCommands.filter fun item => item.payload.runId ∉ treeIds
    claimedContinueRunCommands :=
      m.claimedContinueRunCommands.filter fun _ item => item.payload.runId ∉ treeIds
    claimedAttemptCommands :=
      m.claimedAttemptCommands.filter fun _ item => item.payload.runId ∉ treeIds }

def isSweepable {α : Type} (deadBefore : Nat) (item : QueueItem α) : Bool :=
  item.deadAt.any fun deadAt => deadAt < deadBefore

def sweepDeadCommands (m : Mem V) (deadBefore : Nat) : Mem V :=
  { m with
    continueRunCommands := m.continueRunCommands.filter fun item => !isSweepable deadBefore item
    attemptCommands := m.attemptCommands.filter fun item => !isSweepable deadBefore item }

def normalizePruneBatchSize : Option Int → Int
  | none => defaultPruneBatchSize
  | some batchSize => if batchSize < 1 then 0 else batchSize

def normalizePruneStatuses (statuses : Option (List TerminalRunStatus)) : List TerminalRunStatus :=
  ((statuses.getD defaultPruneStatuses).filter (· ∈ defaultPruneStatuses)).eraseDups

/-- The terminal roots a prune takes: oldest first, at most a batch. -/
def pruneRoots (m : Mem V) (params : PruneTerminalRunsParams) : List (StoredRun V) :=
  let statuses := normalizePruneStatuses params.statuses
  let expired := m.runs.values.filter fun run =>
    run.parentRunId = none ∧ run.status ∈ statuses.map TerminalRunStatus.toRunStatus ∧
      run.updatedAt < params.olderThan
  let sorted := expired.insertionSort fun left right =>
    left.updatedAt < right.updatedAt ∨ (left.updatedAt = right.updatedAt ∧
      JsRuntime.localeCompare V left.id right.id ≠ .gt)
  sorted.take (normalizePruneBatchSize params.batchSize).toNat

def pruneTerminalRuns (m : Mem V) (params : PruneTerminalRunsParams) : Nat × Mem V :=
  if normalizePruneBatchSize params.batchSize < 1 ∨ normalizePruneStatuses params.statuses = [] then
    (0, m.sweepDeadCommands params.olderThan)
  else
    let roots := m.pruneRoots params
    let treeIds := m.collectRunTreeIds (roots.map StoredRun.id)
    (roots.length, (m.deleteRunTrees treeIds).sweepDeadCommands params.olderThan)

def deleteRun (m : Mem V) (runId : String) : Except (Thrown V) Bool × Mem V :=
  match m.runs.get? runId with
  | none => (.ok false, m)
  | some run =>
    if run.parentRunId ≠ none then (.error (.error s!"Run [{runId}] is not a root run"), m)
    else
      let familyRunIds := m.collectRunDescendantIds runId
      if familyRunIds.any fun familyRunId =>
          (m.runs.get? familyRunId).all fun familyRun => !isTerminalRunStatus familyRun.status then
        (.error (.error s!"Run [{runId}] has non-terminal runs"), m)
      else (.ok true, m.deleteRunTrees familyRunIds)

/-! ## Reads -/

def loadRuns (m : Mem V) (runIds : List String) : List (StoredRun V) :=
  runIds.eraseDups.filterMap m.runs.get?

end Mem

end Neemata.Workflows
