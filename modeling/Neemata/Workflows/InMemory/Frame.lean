import Neemata.Workflows.InMemory.Store

/-!
# What the record operations leave alone

The operations on runs, nodes, children and attempts do not touch the rest of the runtime: the
queues, the run leases, the wall clock and the delivery budget (`Apparatus`). The exceptions are
the deletions, the two operations on dead commands and those on run leases.
-/

namespace Neemata.Workflows

/-- One command queue with its claimed commands. -/
structure CommandQueue (α : Type) where
  queued : List (QueueItem α)
  claimed : OrdMap String (ClaimedQueueItem α)

/-- The runtime without its records, their indexes and its counters. -/
@[ext]
structure Apparatus (V : Type) where
  maxDeliveries : Int
  clock : Nat
  runLeases : OrdMap String InMemoryRunLease
  continueQueue : CommandQueue ContinueRunCommand
  attemptQueue : CommandQueue (AttemptCommand V)

variable {V : Type}

/-- The store operations that only change records. -/
def StoreOp.isRecordOp : StoreOp V → Bool
  | .pruneTerminalRuns _ | .deleteRun _ | .markDeadCommandReaped _ | .requeueDeadCommand _
  | .acquireRunLease _ _ | .renewRunLease _ _ | .releaseRunLease _ => false
  | _ => true

/-- The store operations that may change a command. -/
def StoreOp.touchesQueues : StoreOp V → Bool
  | .pruneTerminalRuns _ | .deleteRun _ | .markDeadCommandReaped _ | .requeueDeadCommand _ => true
  | _ => false

namespace Mem

def continueQueue (m : Mem V) : CommandQueue ContinueRunCommand :=
  ⟨m.continueRunCommands, m.claimedContinueRunCommands⟩

def attemptQueue (m : Mem V) : CommandQueue (AttemptCommand V) :=
  ⟨m.attemptCommands, m.claimedAttemptCommands⟩

def apparatus (m : Mem V) : Apparatus V :=
  ⟨m.maxDeliveries, m.clock, m.runLeases, m.continueQueue, m.attemptQueue⟩

variable [JsRuntime V]

theorem createRunWithState_apparatus (m : Mem V) (input : CreateRunInput V) :
    (m.createRunWithState input).2.apparatus = m.apparatus := by
  unfold createRunWithState
  dsimp only
  repeat' split
  all_goals rfl

omit [JsRuntime V] in
theorem markRun_apparatus (m : Mem V) (runId : String) (status : RuntimeRunStatus) :
    (m.markRun runId status).2.apparatus = m.apparatus := by
  unfold markRun
  dsimp only
  repeat' split
  all_goals rfl

theorem settleRun_apparatus (m : Mem V) (runId : String) (change : StoredRun V → StoredRun V) :
    (m.settleRun runId change).2.apparatus = m.apparatus := by
  unfold settleRun
  dsimp only
  repeat' split
  all_goals rfl

omit [JsRuntime V] in
theorem settleNode_apparatus (m : Mem V) (runId nodeName : String)
    (change : StoredNode V → StoredNode V) :
    (m.settleNode runId nodeName change).2.apparatus = m.apparatus := by
  unfold settleNode
  dsimp only
  repeat' split
  all_goals rfl

omit [JsRuntime V] in
theorem settleNodeChild_apparatus (m : Mem V) (runId nodeName key : String)
    (change : StoredNodeChild V → StoredNodeChild V) :
    (m.settleNodeChild runId nodeName key change).2.apparatus = m.apparatus := by
  unfold settleNodeChild
  dsimp only
  repeat' split
  all_goals rfl

theorem ensureChildRun_apparatus (m : Mem V) (params : EnsureChildRunParams V) :
    (m.ensureChildRun params).2.apparatus = m.apparatus := by
  have hcreate := m.createRunWithState_apparatus (childRunInput params)
  unfold ensureChildRun
  dsimp only
  repeat' split
  all_goals first | rfl | (next h => rw [h] at hcreate; exact hcreate)

omit [JsRuntime V] in
theorem createChildAttempt_apparatus (m : Mem V) (child : StoredNodeChild V) (input : V)
    (idempotencyKey : Option V) :
    (m.createChildAttempt child input idempotencyKey).2.apparatus = m.apparatus := by
  unfold createChildAttempt
  dsimp only
  repeat' split
  all_goals rfl

theorem failCurrentAttemptAs_apparatus (m : Mem V) (status : RuntimeAttemptStatus)
    (attemptId leaseToken : String) (error : Thrown V) :
    (m.failCurrentAttemptAs status attemptId leaseToken error).2.apparatus = m.apparatus := by
  unfold failCurrentAttemptAs
  split <;> rfl

omit [JsRuntime V] in
theorem cancelNonTerminalRunNodes_apparatus (m : Mem V) (runId : String) :
    (m.cancelNonTerminalRunNodes runId).apparatus = m.apparatus := by
  unfold cancelNonTerminalRunNodes
  refine (Trace.run_frame (cancelSweptChild runId) apparatus (fun m child => ?_) _ _).trans
    (Trace.run_frame (cancelSweptNode runId) apparatus (fun m node => ?_) _ _)
  · unfold cancelSweptChild
    split <;> rfl
  · unfold cancelSweptNode
    split <;> rfl

/-- A record operation leaves the queues, the leases and the clock alone. -/
theorem execStore_apparatus (m : Mem V) {op : StoreOp V} (hop : op.isRecordOp = true) :
    (m.execStore op).2.apparatus = m.apparatus := by
  cases op with
  | pruneTerminalRuns | deleteRun | markDeadCommandReaped | requeueDeadCommand | acquireRunLease
  | renewRunLease | releaseRunLease => cases hop
  | loadRunSnapshot | loadRuns | loadNodeChildren => rfl
  | createRun input => exact m.createRunWithState_apparatus input
  | createNode input =>
    simp only [execStore, createNode, returning]
    split <;> rfl
  | setNodeInput runId nodeName input =>
    simp only [execStore, setNodeInput]
    repeat' split
    all_goals rfl
  | selectNodeCase runId nodeName caseKey =>
    simp only [execStore, selectNodeCase]
    repeat' split
    all_goals rfl
  | ensureNodeChildren runId nodeName children =>
    simp only [execStore, ensureNodeChildren]
    repeat' split
    all_goals rfl
  | ensureChildRun params => exact m.ensureChildRun_apparatus params
  | ensureChildAttempt params =>
    simp only [execStore, ensureChildAttempt]
    repeat' split
    all_goals first | rfl | exact m.createChildAttempt_apparatus _ _ _
  | createAttempt input =>
    simp only [execStore, createAttempt]
    repeat' split
    all_goals first | rfl | exact m.createChildAttempt_apparatus _ _ _
  | completeCurrentAttempt attemptId leaseToken output =>
    simp only [execStore, completeCurrentAttempt, returning]
    split <;> rfl
  | failCurrentAttempt attemptId leaseToken error =>
    exact m.failCurrentAttemptAs_apparatus .failed attemptId leaseToken error
  | timeoutCurrentAttempt attemptId leaseToken error =>
    exact m.failCurrentAttemptAs_apparatus .timedOut attemptId leaseToken error
  | completeNodeChild runId nodeName key output | failNodeChild runId nodeName key error =>
    exact m.settleNodeChild_apparatus runId nodeName key _
  | completeNode runId nodeName output | failNode runId nodeName error
  | cancelNode runId nodeName => exact m.settleNode_apparatus runId nodeName _
  | waitNode runId nodeName =>
    simp only [execStore, waitNode, returning]
    repeat' split
    all_goals rfl
  | markRunRunning runId => exact m.markRun_apparatus runId .running
  | markRunWaiting runId => exact m.markRun_apparatus runId .waiting
  | completeRun runId output | failRun runId error | cancelRun runId =>
    exact m.settleRun_apparatus runId _
  | requestRunCancellation runId =>
    simp only [execStore, requestRunCancellation, returning]
    repeat' split
    all_goals rfl
  | cancelNonTerminalRunNodes runId => exact m.cancelNonTerminalRunNodes_apparatus runId

/-- The run leases are apart from the queues. -/
theorem execStore_queues (m : Mem V) {op : StoreOp V} (hop : op.touchesQueues = false) :
    (m.execStore op).2.continueQueue = m.continueQueue ∧
      (m.execStore op).2.attemptQueue = m.attemptQueue := by
  cases hrecord : op.isRecordOp with
  | true =>
    have h := m.execStore_apparatus hrecord
    exact ⟨congrArg Apparatus.continueQueue h, congrArg Apparatus.attemptQueue h⟩
  | false =>
    cases op with
    | acquireRunLease runId leaseMs =>
      simp only [execStore, acquireRunLease, returning]
      repeat' split
      all_goals exact ⟨rfl, rfl⟩
    | renewRunLease lease leaseMs =>
      simp only [execStore, renewRunLease, returning]
      repeat' split
      all_goals exact ⟨rfl, rfl⟩
    | releaseRunLease lease =>
      simp only [execStore, releaseRunLease, returning]
      split <;> exact ⟨rfl, rfl⟩
    | pruneTerminalRuns | deleteRun | markDeadCommandReaped | requeueDeadCommand => cases hop
    | _ => cases hrecord

end Mem

end Neemata.Workflows
