import Neemata.Workflows.InMemory.Runs
import Mathlib.Algebra.Group.Nat.Defs

/-!
# Command queues of the in-memory runtime

The two executors of `runtime/in-memory.ts`. Their queues hold different payloads and share every
helper (`claimQueued` to `requeueDead`), so the helpers are generic in the payload; a helper that
reads the clock threads the state for it. A dead item stays in its queue and is skipped by claims.
-/

namespace Neemata.Workflows

variable {V : Type} [JsRuntime V] {α : Type}

/-! ## Helpers shared by the queues -/

def QueueItem.isDead (item : QueueItem α) : Bool := item.deadAt.isSome

/-- A release that does not say why it gives the command back. -/
def CommandReleaseOptions.isPlain (options : CommandReleaseOptions V) : Bool :=
  options.error.isNone && !options.unroutable

def earliestRunAt : Option Nat → Option Nat → Option Nat
  | some left, some right => some (if left ≤ right then left else right)
  | _, _ => none

/-- The position of the first matching item that is not dead or, given an order, of the first
least one. -/
def claimCandidate (queue : List (QueueItem α)) (isMatch : QueueItem α → Bool)
    (isLess : Option (QueueItem α → QueueItem α → Bool)) : Option (QueueItem α × Nat) :=
  match queue.zipIdx.filter fun (item, _) => !item.isDead && isMatch item with
  | [] => none
  | first :: rest =>
    match isLess with
    | none => some first
    | some isLess =>
      some (rest.foldl (fun best candidate =>
        if isLess candidate.1 best.1 then candidate else best) first)

/-- Take the candidate out of the queue. -/
def claimQueued (queue : List (QueueItem α)) (isMatch : QueueItem α → Bool)
    (isLess : Option (QueueItem α → QueueItem α → Bool)) :
    Option (QueueItem α × List (QueueItem α)) :=
  (claimCandidate queue isMatch isLess).map fun (item, index) => (item, queue.eraseIdx index)

/-- By due date, then by creation, then by id. -/
def compareAttemptCommands (left right : QueueItem (AttemptCommand V)) : Bool :=
  let leftRunAt := left.runAt.getD left.createdAt
  let rightRunAt := right.runAt.getD right.createdAt
  leftRunAt < rightRunAt || (leftRunAt = rightRunAt && (left.createdAt < right.createdAt ||
    (left.createdAt = right.createdAt && JsRuntime.localeCompare V left.id right.id = .lt)))

def matchesClaim (stored : Option (ClaimedQueueItem α)) (claim : Claimed α) : Bool :=
  stored.any fun item => item.leaseToken = claim.leaseToken

/-- The first dead item of that id, revived with its whole budget. -/
def requeueDead (queue : List (QueueItem α)) (commandId : String) :
    Option (List (QueueItem α)) :=
  match queue.findIdx? fun item => item.id = commandId && item.isDead with
  | none => none
  | some index =>
    some (queue.modify index fun item =>
      { item with runAt := none, deliveryCount := 0, lastError := none, deadAt := none,
                  reapedAt := none })

def markReaped (queue : List (QueueItem α)) (commandId : String) (date : Nat) :
    Option (List (QueueItem α)) :=
  match queue.findIdx? fun item => item.id = commandId && item.isDead && item.reapedAt.isNone with
  | none => none
  | some index => some (queue.modify index ({ · with reapedAt := some date }))

namespace Mem

def queueItem (m : Mem V) (itemId : String) (payload : α) (runAt : Option Nat) :
    QueueItem α × Mem V :=
  let (date, m) := m.now
  ({ id := itemId, payload, runAt, deliveryCount := 0, lastError := none, deadAt := none,
     reapedAt := none, createdAt := date }, m)

/-- Count one failed delivery; at the threshold the item is dead. -/
def countFailedDelivery (m : Mem V) (item : QueueItem α) (error : StoredError) :
    QueueItem α × Mem V :=
  let deliveryCount := item.deliveryCount + 1
  if (deliveryCount : Int) ≥ m.maxDeliveries then
    let (date, m) := m.now
    ({ item with deliveryCount, lastError := some error, deadAt := some date }, m)
  else ({ item with deliveryCount, lastError := some error }, m)

def unroutableError : Thrown V := .error "No implementation can execute this workflow command"

def releaseQueueItem (m : Mem V) (item : QueueItem α) (options : CommandReleaseOptions V) :
    QueueItem α × Mem V :=
  if options.isPlain then ({ item with runAt := some (m.clock + releaseBackoffMs) }, m)
  else
    let backoffBaseMs := if options.unroutable then unroutableBackoffMs else releaseBackoffMs
    let error := options.error.getD unroutableError
    let (counted, m) := m.countFailedDelivery item (toStoredError error)
    ({ counted with runAt := some (m.clock +
        min (2 ^ counted.deliveryCount * backoffBaseMs) maxErrorBackoffMs) }, m)

/-- Give one claimed item back if its lease has expired and the worker may deliver it: the
delivery died without a release, so it counts. -/
def reclaimOne (date : Nat) (eligible : α → Bool)
    (state : OrdMap String (ClaimedQueueItem α) × List (QueueItem α) × Mem V)
    (entry : String × ClaimedQueueItem α) :
    OrdMap String (ClaimedQueueItem α) × List (QueueItem α) × Mem V :=
  let (claimed, queue, m) := state
  let (key, item) := entry
  if item.leaseExpiresAt > date ∨ !eligible item.payload then state
  else
    let (released, m) :=
      m.countFailedDelivery item.toQueueItem (item.lastError.getD commandLeaseExpiredError)
    (claimed.erase key, queue ++ [released], m)

def reclaimExpiredLeases (m : Mem V) (claimed : OrdMap String (ClaimedQueueItem α))
    (queue : List (QueueItem α)) (eligible : α → Bool) :
    OrdMap String (ClaimedQueueItem α) × List (QueueItem α) × Mem V :=
  let (date, m) := m.now
  claimed.entries.foldl (reclaimOne date eligible) (claimed, queue, m)

/-! ## Commands of a run -/

def attemptCommandExists (m : Mem V) (attemptId : String) : Bool :=
  (m.attemptCommands.any fun item => item.payload.attemptId = attemptId) ||
  (m.claimedAttemptCommands.values.any fun item => item.payload.attemptId = attemptId)

/-- Wake a run: a live queued command of the run absorbs the new one, a dead one does not. -/
def enqueueContinue (m : Mem V) (command : ContinueRunCommand) (runAt : Option Nat) : Mem V :=
  match m.continueRunCommands.findIdx? fun item =>
      !item.isDead && item.payload.runId = command.runId with
  | none =>
    let (itemId, m) := m.id "continue"
    let (item, m) := m.queueItem itemId command runAt
    { m with continueRunCommands := m.continueRunCommands ++ [item] }
  | some index =>
    { m with continueRunCommands := m.continueRunCommands.modify index fun existing =>
        { existing with payload := command, runAt := earliestRunAt existing.runAt runAt } }

def requeueDeadCommand (m : Mem V) (commandId : String) : Mem V :=
  match requeueDead m.continueRunCommands commandId with
  | some continueRunCommands => { m with continueRunCommands }
  | none =>
    match requeueDead m.attemptCommands commandId with
    | some attemptCommands => { m with attemptCommands }
    | none => m

def markDeadCommandReaped (m : Mem V) (commandId : String) : Mem V :=
  let (date, ticked) := m.now
  match markReaped m.continueRunCommands commandId date with
  | some continueRunCommands => { ticked with continueRunCommands }
  | none =>
    match markReaped m.attemptCommands commandId date with
    | some attemptCommands => { ticked with attemptCommands }
    | none => m

/-! ## `runCoordinationExecutor` -/

def isEligibleContinue (worker : RunCoordinationWorkerClaim) (command : ContinueRunCommand) :
    Bool := command.workflowName ∈ worker.workflowNames

def isDue (date : Nat) (item : QueueItem α) : Bool := item.runAt.all fun runAt => runAt ≤ date

def claimContinue (m : Mem V) (worker : RunCoordinationWorkerClaim) :
    Option (Claimed ContinueRunCommand) × Mem V :=
  let (claimed, queue, m) := m.reclaimExpiredLeases m.claimedContinueRunCommands
    m.continueRunCommands (isEligibleContinue worker)
  let (date, m) := m.now
  let m := { m with claimedContinueRunCommands := claimed, continueRunCommands := queue }
  match claimQueued queue
      (fun queued => isEligibleContinue worker queued.payload && isDue date queued) none with
  | none => (none, m)
  | some (item, queue) =>
    let (leaseToken, m) := m.id "continue-lease"
    (some { id := item.id, command := item.payload, leaseToken },
      { m with
        continueRunCommands := queue
        claimedContinueRunCommands := claimed.set item.id
          { item with leaseToken, leaseExpiresAt := date + worker.leaseMs } })

def ackContinue (m : Mem V) (claim : Claimed ContinueRunCommand) :
    Except (Thrown V) Unit × Mem V :=
  if matchesClaim (m.claimedContinueRunCommands.get? claim.id) claim then
    (.ok (), { m with
      claimedContinueRunCommands := m.claimedContinueRunCommands.erase claim.id })
  else (.error (.error "Stale workflow command ack"), m)

def releaseContinue (m : Mem V) (claim : Claimed ContinueRunCommand)
    (options : CommandReleaseOptions V) : Mem V :=
  match m.claimedContinueRunCommands.get? claim.id with
  | none => m
  | some claimed =>
    if claimed.leaseToken ≠ claim.leaseToken then m
    else
      let (item, m) := m.releaseQueueItem claimed.toQueueItem options
      { m with
        claimedContinueRunCommands := m.claimedContinueRunCommands.erase claim.id
        continueRunCommands := m.continueRunCommands ++ [item] }

/-! ## `attemptExecutor` -/

def commandLabel : AttemptTarget → String
  | .activity _ => "activity-command"
  | .task _ _ => "task-command"

/-- `dispatchActivity` and `dispatchTask`: one command per attempt. -/
def dispatchAttempt (m : Mem V) (command : AttemptCommand V) (runAt : Option Nat) : Mem V :=
  if m.attemptCommandExists command.attemptId then m
  else
    let (itemId, m) := m.id (commandLabel command.target)
    let (item, m) := m.queueItem itemId command runAt
    { m with attemptCommands := m.attemptCommands ++ [item] }

def isEligibleAttempt (worker : ExecutionWorkerClaim) (command : AttemptCommand V) : Bool :=
  match command.target with
  | .task taskName _ => taskName ∈ worker.taskNames
  | .activity activityName =>
    command.workflowName ∈ worker.workflowNames &&
      worker.activityNames.all fun activityNames => activityName ∈ activityNames

def claimAttempt (m : Mem V) (worker : ExecutionWorkerClaim) :
    Option (Claimed (AttemptCommand V)) × Mem V :=
  let (claimed, queue, m) := m.reclaimExpiredLeases m.claimedAttemptCommands
    m.attemptCommands (isEligibleAttempt worker)
  let (date, m) := m.now
  let m := { m with claimedAttemptCommands := claimed, attemptCommands := queue }
  match claimQueued queue
      (fun queued => isDue date queued && isEligibleAttempt worker queued.payload)
      (some compareAttemptCommands) with
  | none => (none, m)
  | some (item, queue) =>
    let (leaseToken, m) := m.id "attempt-claim-lease"
    let (claimedAt, m) := m.now
    (some { id := item.id, command := item.payload, leaseToken },
      { m with
        attemptCommands := queue
        claimedAttemptCommands := claimed.set item.id
          { item with leaseToken, leaseExpiresAt := claimedAt + worker.leaseMs } })

/-- Extend the lease of a claimed attempt; the answer is the status of its run. -/
def heartbeat (m : Mem V) (claim : Claimed (AttemptCommand V)) (leaseMs : Option Nat) :
    Except (Thrown V) RuntimeRunStatus × Mem V :=
  match m.claimedAttemptCommands.get? claim.id with
  | none => (.error (.error "Workflow attempt heartbeat lease lost"), m)
  | some claimed =>
    if claimed.leaseToken ≠ claim.leaseToken then
      (.error (.error "Workflow attempt heartbeat lease lost"), m)
    else
      let (date, m) := m.now
      let extended := { claimed with leaseExpiresAt := date + leaseMs.getD defaultLeaseMs }
      (.ok (((m.runs.get? claim.command.runId).map StoredRun.status).getD .queued),
        { m with claimedAttemptCommands := m.claimedAttemptCommands.set claim.id extended })

def ackAttempt (m : Mem V) (claim : Claimed (AttemptCommand V)) :
    Except (Thrown V) Unit × Mem V :=
  if matchesClaim (m.claimedAttemptCommands.get? claim.id) claim then
    (.ok (), { m with claimedAttemptCommands := m.claimedAttemptCommands.erase claim.id })
  else (.error (.error "Stale workflow command ack"), m)

def releaseAttempt (m : Mem V) (claim : Claimed (AttemptCommand V))
    (options : CommandReleaseOptions V) : Mem V :=
  match m.claimedAttemptCommands.get? claim.id with
  | none => m
  | some claimed =>
    if claimed.leaseToken ≠ claim.leaseToken then m
    else
      let (item, m) := m.releaseQueueItem claimed.toQueueItem options
      { m with
        claimedAttemptCommands := m.claimedAttemptCommands.erase claim.id
        attemptCommands := m.attemptCommands ++ [item] }

def deleteUnclaimed (m : Mem V) (runId : String) : Nat × Mem V :=
  ((m.attemptCommands.filter fun item => item.payload.runId = runId).length,
    { m with attemptCommands := m.attemptCommands.filter fun item => item.payload.runId ≠ runId })

end Mem

end Neemata.Workflows
