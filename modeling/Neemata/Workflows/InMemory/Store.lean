import Neemata.Lib.Trace
import Neemata.Workflows.InMemory.Nodes
import Neemata.Workflows.InMemory.Queue

/-!
# Operations of the in-memory runtime

The operations of `WorkflowStore` (`runtime/store.ts`) and of the two executors as data, with
`Mem.exec` running one of them. A history of the runtime is a list of operations and of readings
of the wall clock, which may move by any amount and in both directions.
-/

namespace Neemata.Workflows

/-- The operations of `WorkflowStore`. Of the reads, those that the coordinator and the workers
use are kept. -/
inductive StoreOp (V : Type)
  | createRun (input : CreateRunInput V)
  | pruneTerminalRuns (params : PruneTerminalRunsParams)
  | deleteRun (runId : String)
  | markDeadCommandReaped (commandId : String)
  | requeueDeadCommand (commandId : String)
  | acquireRunLease (runId : String) (leaseMs : Nat)
  | renewRunLease (lease : RunLease) (leaseMs : Nat)
  | releaseRunLease (lease : RunLease)
  | loadRunSnapshot (runId : String)
  | loadRuns (runIds : List String)
  | createNode (input : CreateNodeInput)
  | setNodeInput (runId nodeName : String) (input : V)
  | selectNodeCase (runId nodeName caseKey : String)
  | ensureNodeChildren (runId nodeName : String) (children : List (EnsureNodeChildInput V))
  | ensureChildRun (params : EnsureChildRunParams V)
  | ensureChildAttempt (params : ChildAttemptParams V)
  | createAttempt (input : ChildAttemptParams V)
  | completeCurrentAttempt (attemptId leaseToken : String) (output : V)
  | failCurrentAttempt (attemptId leaseToken : String) (error : Thrown V)
  | timeoutCurrentAttempt (attemptId leaseToken : String) (error : Thrown V)
  | completeNodeChild (runId nodeName childKey : String) (output : V)
  | failNodeChild (runId nodeName childKey : String) (error : Thrown V)
  | loadNodeChildren (runId nodeName : String)
  | completeNode (runId nodeName : String) (output : V)
  | failNode (runId nodeName : String) (error : Thrown V)
  | waitNode (runId nodeName : String)
  | markRunRunning (runId : String)
  | markRunWaiting (runId : String)
  | completeRun (runId : String) (output : V)
  | failRun (runId : String) (error : Thrown V)
  | requestRunCancellation (runId : String)
  | cancelRun (runId : String)
  | cancelNode (runId nodeName : String)
  | cancelNonTerminalRunNodes (runId : String)

/-- The operations of `RunCoordinationExecutor` and `AttemptExecutor`. -/
inductive ExecutorOp (V : Type)
  | enqueue (command : ContinueRunCommand) (runAt : Option Nat)
  | claimContinue (worker : RunCoordinationWorkerClaim)
  | ackContinue (claim : Claimed ContinueRunCommand)
  | releaseContinue (claim : Claimed ContinueRunCommand) (options : CommandReleaseOptions V)
  | dispatch (command : AttemptCommand V) (runAt : Option Nat)
  | claimAttempt (worker : ExecutionWorkerClaim)
  | heartbeat (claim : Claimed (AttemptCommand V)) (leaseMs : Option Nat)
  | ackAttempt (claim : Claimed (AttemptCommand V))
  | releaseAttempt (claim : Claimed (AttemptCommand V)) (options : CommandReleaseOptions V)
  | deleteUnclaimed (runId : String)

variable {V : Type}

/-- What an operation returns when it does not throw. -/
def StoreOp.Ret : StoreOp V → Type
  | .createRun _ => StoredRun V
  | .pruneTerminalRuns _ => Nat
  | .deleteRun _ => Bool
  | .markDeadCommandReaped _ | .requeueDeadCommand _ | .releaseRunLease _ => Unit
  | .acquireRunLease _ _ | .renewRunLease _ _ => Option RunLease
  | .loadRunSnapshot _ => Option (RunSnapshot V)
  | .loadRuns _ => List (StoredRun V)
  | .createNode _ | .setNodeInput _ _ _ => StoredNode V
  | .ensureNodeChildren _ _ _ => List (StoredNodeChild V) × Bool
  | .ensureChildRun _ => StoredNodeChild V × StoredRun V × Bool
  | .ensureChildAttempt _ => StoredAttempt V × Bool
  | .createAttempt _ => StoredAttempt V
  | .completeCurrentAttempt _ _ _ | .failCurrentAttempt _ _ _ | .timeoutCurrentAttempt _ _ _ =>
    Option (StoredAttempt V)
  | .completeNodeChild _ _ _ _ | .failNodeChild _ _ _ _ => Option (StoredNodeChild V)
  | .loadNodeChildren _ _ => List (StoredNodeChild V) × List (StoredAttempt V)
  | .selectNodeCase _ _ _ | .completeNode _ _ _ | .failNode _ _ _ | .waitNode _ _
  | .cancelNode _ _ => Option (StoredNode V)
  | .markRunRunning _ | .markRunWaiting _ | .completeRun _ _ | .failRun _ _
  | .requestRunCancellation _ | .cancelRun _ => Option (StoredRun V)
  | .cancelNonTerminalRunNodes _ => Unit

def ExecutorOp.Ret : ExecutorOp V → Type
  | .enqueue _ _ | .ackContinue _ | .releaseContinue _ _ | .dispatch _ _ | .ackAttempt _
  | .releaseAttempt _ _ => Unit
  | .claimContinue _ => Option (Claimed ContinueRunCommand)
  | .claimAttempt _ => Option (Claimed (AttemptCommand V))
  | .heartbeat _ _ => RuntimeRunStatus
  | .deleteUnclaimed _ => Nat

variable [JsRuntime V]

namespace Mem

/-- An operation that does not throw. -/
def returning {ρ : Type} (result : ρ × Mem V) : Except (Thrown V) ρ × Mem V :=
  (.ok result.1, result.2)

/-- Run one store operation. -/
def execStore (m : Mem V) : (op : StoreOp V) → Except (Thrown V) op.Ret × Mem V
  | .createRun input => m.createRun input
  | .pruneTerminalRuns params => returning (m.pruneTerminalRuns params)
  | .deleteRun runId => m.deleteRun runId
  | .markDeadCommandReaped commandId => returning ((), m.markDeadCommandReaped commandId)
  | .requeueDeadCommand commandId => returning ((), m.requeueDeadCommand commandId)
  | .acquireRunLease runId leaseMs => returning (m.acquireRunLease runId leaseMs)
  | .renewRunLease lease leaseMs => returning (m.renewRunLease lease leaseMs)
  | .releaseRunLease lease => returning ((), m.releaseRunLease lease)
  | .loadRunSnapshot runId => returning (m.loadRunSnapshot runId, m)
  | .loadRuns runIds => returning (m.loadRuns runIds, m)
  | .createNode input => returning (m.createNode input)
  | .setNodeInput runId nodeName input => m.setNodeInput runId nodeName input
  | .selectNodeCase runId nodeName caseKey => m.selectNodeCase runId nodeName caseKey
  | .ensureNodeChildren runId nodeName children => m.ensureNodeChildren runId nodeName children
  | .ensureChildRun params => m.ensureChildRun params
  | .ensureChildAttempt params => m.ensureChildAttempt params
  | .createAttempt input => m.createAttempt input
  | .completeCurrentAttempt attemptId leaseToken output =>
    returning (m.completeCurrentAttempt attemptId leaseToken output)
  | .failCurrentAttempt attemptId leaseToken error =>
    returning (m.failCurrentAttempt attemptId leaseToken error)
  | .timeoutCurrentAttempt attemptId leaseToken error =>
    returning (m.timeoutCurrentAttempt attemptId leaseToken error)
  | .completeNodeChild runId nodeName key output =>
    returning (m.completeNodeChild runId nodeName key output)
  | .failNodeChild runId nodeName key error => returning (m.failNodeChild runId nodeName key error)
  | .loadNodeChildren runId nodeName => returning (m.loadNodeChildren runId nodeName, m)
  | .completeNode runId nodeName output => returning (m.completeNode runId nodeName output)
  | .failNode runId nodeName error => returning (m.failNode runId nodeName error)
  | .waitNode runId nodeName => returning (m.waitNode runId nodeName)
  | .markRunRunning runId => returning (m.markRunRunning runId)
  | .markRunWaiting runId => returning (m.markRunWaiting runId)
  | .completeRun runId output => returning (m.completeRun runId output)
  | .failRun runId error => returning (m.failRun runId error)
  | .requestRunCancellation runId => returning (m.requestRunCancellation runId)
  | .cancelRun runId => returning (m.cancelRun runId)
  | .cancelNode runId nodeName => returning (m.cancelNode runId nodeName)
  | .cancelNonTerminalRunNodes runId => returning ((), m.cancelNonTerminalRunNodes runId)

/-- Run one executor operation. -/
def execExecutor (m : Mem V) : (op : ExecutorOp V) → Except (Thrown V) op.Ret × Mem V
  | .enqueue command runAt => returning ((), m.enqueueContinue command runAt)
  | .claimContinue worker => returning (m.claimContinue worker)
  | .ackContinue claim => m.ackContinue claim
  | .releaseContinue claim options => returning ((), m.releaseContinue claim options)
  | .dispatch command runAt => returning ((), m.dispatchAttempt command runAt)
  | .claimAttempt worker => returning (m.claimAttempt worker)
  | .heartbeat claim leaseMs => m.heartbeat claim leaseMs
  | .ackAttempt claim => m.ackAttempt claim
  | .releaseAttempt claim options => returning ((), m.releaseAttempt claim options)
  | .deleteUnclaimed runId => returning (m.deleteUnclaimed runId)

end Mem

/-! ## Histories -/

/-- One entry of a history: an operation of the runtime, or the wall clock moves. -/
inductive Op (V : Type)
  | store (op : StoreOp V)
  | executor (op : ExecutorOp V)
  | clock (time : Nat)

def Op.Ret : Op V → Type
  | .store op => op.Ret
  | .executor op => op.Ret
  | .clock _ => Unit

namespace Mem

def exec (m : Mem V) : (op : Op V) → Except (Thrown V) op.Ret × Mem V
  | .store op => m.execStore op
  | .executor op => m.execExecutor op
  | .clock time => (.ok (), { m with clock := time })

/-- The state an operation leaves behind, also when it throws. -/
def step (m : Mem V) (op : Op V) : Mem V := (m.exec op).2

/-- The state after a history. -/
def run (m : Mem V) (history : List (Op V)) : Mem V := Trace.run step m history

/-- The state of a runtime with the option `maxDeliveries` after a history. -/
def after (maxDeliveries : Option Int) (history : List (Op V)) : Mem V :=
  (createInMemoryWorkflowRuntime maxDeliveries).run history

theorem after_append (maxDeliveries : Option Int) (history later : List (Op V)) :
    after maxDeliveries (history ++ later) = (after maxDeliveries history).run later :=
  Trace.run_append _ _ _

end Mem

end Neemata.Workflows
