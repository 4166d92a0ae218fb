import Neemata.Workflows.Status

/-!
# Stored records, commands and errors

The data model of `runtime/state.ts`, `runtime/store.ts`, `runtime/commands.ts` and
`runtime/errors.ts`. User data (`unknown` in the source) is a type parameter `V`; what the
JavaScript runtime does with such values is the class `JsRuntime`. Dates are milliseconds.
-/

namespace Neemata.Workflows

/-- A serialized error: name, message and cause (`StoredError`; the stack text is left out). -/
inductive StoredError
  | leaf (name : Option String) (message : String)
  | caused (name : Option String) (message : String) (cause : StoredError)
deriving DecidableEq, Repr

/-- What the runtime supplies for user values: the text `JSON.stringify` gives for the
key-sorted value, the `??` test, the serialization of a thrown value to a given depth, string
collation, `undefined`, and the literals the coordinator builds outputs from. -/
class JsRuntime (V : Type) where
  valueKey : V → String
  isNullish : V → Bool
  storedError : Nat → V → StoredError
  localeCompare : String → String → Ordering
  undefined : V
  array : List V → V
  record : List (String × V) → V
  text : String → V
  number : Nat → V
  ofStoredError : StoredError → V

inductive RunKind | workflow | task
deriving DecidableEq, Repr

inductive NodeChildKind | activity | task | workflow
deriving DecidableEq, Repr

inductive WorkflowNodeKind
  | activity | task | workflow | branch | parallel | mapTask | mapWorkflow
deriving DecidableEq, Repr

inductive RunUniqueScope | active | all
deriving DecidableEq, Repr

inductive RunUniqueBehavior | reject | join
deriving DecidableEq, Repr

structure ResolvedRunUnique (V : Type) where
  key : V
  scope : RunUniqueScope
  behavior : RunUniqueBehavior
deriving DecidableEq, Repr

def RunKind.text : RunKind → String
  | .workflow => "workflow"
  | .task => "task"

/-! ## Errors -/

/-- What a `throw` of the runtime or of user code can carry. `stored` is a serialized error that
is passed on as an error again, `user` whatever user code threw. -/
inductive Thrown (V : Type)
  | error (message : String)
  | errorWithCause (message : String) (cause : Thrown V)
  | workflowRunConflict (runId : String) (status : RuntimeRunStatus) (key : V)
      (scope : RunUniqueScope)
  | staleRunLease
  | workflowUserCallback (error : Thrown V)
  | workflowAttemptTimeout (message : String)
  | workflowAttemptCancellationObserved
  | workflowAttemptShutdown
  | stored (error : StoredError)
  | user (value : V)
deriving DecidableEq, Repr

def RunUniqueScope.text : RunUniqueScope → String
  | .active => "active"
  | .all => "all"

def maxStoredErrorCauseDepth : Nat := 5

variable {V : Type} [JsRuntime V]

/-- The `message` of a thrown value, `String(value)` where it is no `Error`. -/
def Thrown.message : Thrown V → String
  | .error message | .errorWithCause message _ | .workflowAttemptTimeout message => message
  | .workflowRunConflict runId _ _ scope =>
    s!"Run [{runId}] already holds unique key [scope: {scope.text}]"
  | .staleRunLease => "Stale workflow run lease"
  | .workflowUserCallback inner => inner.message
  | .workflowAttemptCancellationObserved => "observed cancellation"
  | .workflowAttemptShutdown => "interrupted by worker shutdown"
  | .stored (.leaf _ message) | .stored (.caused _ message _) => message
  | .user value =>
    match JsRuntime.storedError 0 value with
    | .leaf _ message | .caused _ message _ => message

/-- `serializeError` with the fallback of `toStoredError`: a serialized error is kept, a cause
chain is followed to the given depth. -/
def serializeError : Nat → Thrown V → StoredError
  | _, .error message => .leaf (some "Error") message
  | 0, .errorWithCause message _ => .leaf (some "Error") message
  | depth + 1, .errorWithCause message cause =>
    .caused (some "Error") message (serializeError depth cause)
  | _, .workflowRunConflict runId status key scope =>
    .leaf (some "WorkflowRunConflictError")
      (Thrown.workflowRunConflict runId status key scope : Thrown V).message
  | _, .staleRunLease => .leaf (some "StaleRunLeaseError") "Stale workflow run lease"
  | _, .workflowUserCallback error => .leaf (some "WorkflowUserCallbackError") error.message
  | _, .workflowAttemptTimeout message => .leaf (some "WorkflowAttemptTimeoutError") message
  | _, .workflowAttemptCancellationObserved =>
    .leaf (some "WorkflowAttemptCancellationObservedError") "observed cancellation"
  | _, .workflowAttemptShutdown =>
    .leaf (some "WorkflowAttemptShutdownError") "interrupted by worker shutdown"
  | _, .stored error => error
  | depth, .user value => JsRuntime.storedError depth value

def toStoredError (error : Thrown V) : StoredError :=
  serializeError maxStoredErrorCauseDepth error

/-- Recorded when a claim takes over an expired lease and no real error is stored yet. -/
def commandLeaseExpiredError : StoredError :=
  .leaf (some "Error") ("Workflow command lease expired without release — the worker likely " ++
    "crashed mid-delivery")

/-! ## Records -/

structure StoredRun (V : Type) where
  id : String
  kind : RunKind
  name : String
  workflowName : String
  taskName : Option String
  status : RuntimeRunStatus
  input : V
  output : Option V
  error : Option StoredError
  parentRunId : Option String
  parentNodeName : Option String
  rootRunId : String
  tags : List (String × String)
  idempotencyKey : Option V
  unique : Option (ResolvedRunUnique V)
  version : Nat
  createdAt : Nat
  updatedAt : Nat
deriving DecidableEq, Repr

structure StoredNode (V : Type) where
  runId : String
  name : String
  kind : WorkflowNodeKind
  status : RuntimeNodeStatus
  input : Option V
  output : Option V
  error : Option StoredError
  selectedCase : Option String
  version : Nat
  createdAt : Nat
  updatedAt : Nat
deriving DecidableEq, Repr

/-- One unit of a node's execution; its attempts are retries of it. -/
structure StoredNodeChild (V : Type) where
  runId : String
  nodeName : String
  childKey : String
  kind : NodeChildKind
  status : RuntimeNodeStatus
  ordinal : Nat
  itemKey : Option String
  item : Option V
  output : Option V
  error : Option StoredError
  childRunId : Option String
  currentAttemptId : Option String
  attemptCount : Nat
  version : Nat
  createdAt : Nat
  updatedAt : Nat
deriving DecidableEq, Repr

structure StoredAttempt (V : Type) where
  id : String
  runId : String
  nodeName : String
  childKey : String
  status : RuntimeAttemptStatus
  leaseToken : String
  attemptNumber : Nat
  input : V
  idempotencyKey : Option V
  output : Option V
  error : Option StoredError
  dispatchedAt : Nat
  completedAt : Option Nat
deriving DecidableEq, Repr

structure RunSnapshot (V : Type) where
  run : StoredRun V
  nodes : List (StoredNode V)
  children : List (StoredNodeChild V)
  attempts : List (StoredAttempt V)

/-! ## Arguments of the store operations -/

structure CreateRunInput (V : Type) where
  kind : Option RunKind := none
  name : Option String := none
  workflowName : String
  taskName : Option String := none
  input : V
  parentRunId : Option String := none
  parentNodeName : Option String := none
  rootRunId : Option String := none
  tags : Option (List (String × String)) := none
  idempotencyKey : Option V := none
  unique : Option (ResolvedRunUnique V) := none
deriving DecidableEq, Repr

structure CreateNodeInput where
  runId : String
  name : String
  kind : WorkflowNodeKind
deriving DecidableEq, Repr

structure EnsureNodeChildInput (V : Type) where
  childKey : String
  kind : NodeChildKind
  ordinal : Option Nat := none
  itemKey : Option String := none
  item : Option V := none
deriving DecidableEq, Repr

structure EnsureChildRunParams (V : Type) where
  runId : String
  nodeName : String
  childKey : String
  childKind : RunKind
  childName : String
  input : V
  rootRunId : String
  tags : Option (List (String × String)) := none
  idempotencyKey : Option V := none
deriving DecidableEq, Repr

/-- The common arguments of `createAttempt` and `ensureChildAttempt`. -/
structure ChildAttemptParams (V : Type) where
  runId : String
  nodeName : String
  childKey : String
  input : V
  idempotencyKey : Option V := none
deriving DecidableEq, Repr

inductive TerminalRunStatus | completed | cancelled | failed
deriving DecidableEq, Repr

def TerminalRunStatus.toRunStatus : TerminalRunStatus → RuntimeRunStatus
  | .completed => .completed
  | .cancelled => .cancelled
  | .failed => .failed

structure PruneTerminalRunsParams where
  olderThan : Nat
  statuses : Option (List TerminalRunStatus) := none
  batchSize : Option Int := none
deriving DecidableEq, Repr

structure RunLease where
  runId : String
  leaseToken : String
  version : Nat
deriving DecidableEq, Repr

/-! ## Commands -/

structure ContinueRunCommand where
  runId : String
  workflowName : String
deriving DecidableEq, Repr

/-- `ActivityAttemptCommand | TaskAttemptCommand`: the two differ in the name they carry and in
the task's timeout. -/
inductive AttemptTarget
  | activity (activityName : String)
  | task (taskName : String) (timeout : Option String)
deriving DecidableEq, Repr

structure AttemptCommand (V : Type) where
  target : AttemptTarget
  workflowName : String
  runId : String
  nodeName : String
  childKey : String
  attemptId : String
  leaseToken : String
  input : V
  idempotencyKey : Option V
deriving DecidableEq, Repr

/-- A claim as the worker holds it: the command's id, its payload and the lease token. -/
structure Claimed (α : Type) where
  id : String
  command : α
  leaseToken : String
deriving DecidableEq, Repr

structure RunCoordinationWorkerClaim where
  workerId : String
  workflowNames : List String
  leaseMs : Nat
deriving DecidableEq, Repr

structure ExecutionWorkerClaim where
  workerId : String
  workflowNames : List String
  activityNames : Option (List String)
  taskNames : List String
  leaseMs : Nat
deriving DecidableEq, Repr

/-- `CommandReleaseOptions`: the error of the delivery, and whether no implementation can
execute the command. -/
structure CommandReleaseOptions (V : Type) where
  error : Option (Thrown V) := none
  unroutable : Bool := false

end Neemata.Workflows
