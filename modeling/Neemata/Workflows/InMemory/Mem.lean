import Neemata.Lib.OrdMap
import Neemata.Workflows.State
import Mathlib.Data.List.Sort

/-!
# State of the in-memory runtime

The variables that `createInMemoryWorkflowRuntime` closes over (`runtime/in-memory.ts`), as one
record: the id counter, the monotone clock, the maps of stored records, the key indexes, the run
leases and the two command queues with their claimed commands. Wake listeners are left out: they
hold callbacks of other components and nothing here reads them.
-/

namespace Neemata.Workflows

structure InMemoryRunLease extends RunLease where
  expiresAt : Nat
deriving DecidableEq, Repr

structure QueueItem (α : Type) where
  id : String
  payload : α
  runAt : Option Nat
  deliveryCount : Nat
  lastError : Option StoredError
  deadAt : Option Nat
  reapedAt : Option Nat
  createdAt : Nat
deriving DecidableEq, Repr

structure ClaimedQueueItem (α : Type) extends QueueItem α where
  leaseToken : String
  leaseExpiresAt : Nat
deriving DecidableEq, Repr

def releaseBackoffMs : Nat := 50
def unroutableBackoffMs : Nat := 1000
def maxErrorBackoffMs : Nat := 300000
def defaultMaxDeliveries : Int := 20
def defaultPruneBatchSize : Int := 100
def defaultPruneStatuses : List TerminalRunStatus := [.completed, .cancelled, .failed]
def defaultLeaseMs : Nat := 30000

/-- The state of one in-memory runtime. `clock` is what `Date.now()` reads, which the runtime
does not control; `lastTimestamp` makes `now` strictly increasing whatever the clock does. -/
structure Mem (V : Type) where
  maxDeliveries : Int := defaultMaxDeliveries
  clock : Nat := 0
  nextId : Nat := 1
  lastTimestamp : Nat := 0
  runs : OrdMap String (StoredRun V) := .empty
  nodes : OrdMap String (StoredNode V) := .empty
  attempts : OrdMap String (StoredAttempt V) := .empty
  children : OrdMap String (StoredNodeChild V) := .empty
  runIdempotencyKeys : OrdMap String String := .empty
  activeUniqueRunKeys : OrdMap String String := .empty
  allUniqueRunKeys : OrdMap String String := .empty
  runLeases : OrdMap String InMemoryRunLease := .empty
  continueRunCommands : List (QueueItem ContinueRunCommand) := []
  attemptCommands : List (QueueItem (AttemptCommand V)) := []
  claimedContinueRunCommands : OrdMap String (ClaimedQueueItem ContinueRunCommand) := .empty
  claimedAttemptCommands : OrdMap String (ClaimedQueueItem (AttemptCommand V)) := .empty
deriving DecidableEq

/-- A fresh runtime; `maxDeliveries` is the only option. -/
def createInMemoryWorkflowRuntime {V : Type} (maxDeliveries : Option Int) : Mem V :=
  { maxDeliveries := maxDeliveries.getD defaultMaxDeliveries }

/-- The id with the given counter value. -/
def freshId (label : String) (n : Nat) : String := label ++ "-" ++ toString n

namespace Mem

variable {V : Type}

/-- The next id of a kind: the counter is shared by all kinds. -/
def id (m : Mem V) (label : String) : String × Mem V :=
  (freshId label m.nextId, { m with nextId := m.nextId + 1 })

def now (m : Mem V) : Nat × Mem V :=
  let current := max m.clock (m.lastTimestamp + 1)
  (current, { m with lastTimestamp := current })

end Mem

def nodeKey (runId nodeName : String) : String := runId ++ ":" ++ nodeName

def childKey (runId nodeName key : String) : String := runId ++ ":" ++ nodeName ++ ":" ++ key

def childRef (runId nodeName key : String) : String := runId ++ "." ++ nodeName ++ "." ++ key

section Values

variable {V : Type} [JsRuntime V]

def valueKey (value : V) : String := JsRuntime.valueKey value

def sameValue (left right : V) : Bool := valueKey left == valueKey right

def sameOptionalValue : Option V → Option V → Bool
  | none, none => true
  | some left, some right => sameValue left right
  | _, _ => false

def runIdempotencyKey (key : V) : String := valueKey key

/-- Children of a node in the order the store returns them: by ordinal, then by key. -/
def sortedChildren (rows : List (StoredNodeChild V)) : List (StoredNodeChild V) :=
  rows.insertionSort fun left right =>
    left.ordinal < right.ordinal ∨ (left.ordinal = right.ordinal ∧
      JsRuntime.localeCompare V left.childKey right.childKey ≠ .gt)

end Values

namespace Mem

variable {V : Type}

/-- The children stored for a node, found by their own fields. -/
def nodeChildren (m : Mem V) (runId nodeName : String) : List (StoredNodeChild V) :=
  m.children.values.filter fun child => child.runId = runId ∧ child.nodeName = nodeName

end Mem

end Neemata.Workflows
