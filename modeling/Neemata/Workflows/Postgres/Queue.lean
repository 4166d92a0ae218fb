import Neemata.Lib.Table
import Neemata.Lib.Trace
import Neemata.Workflows.InMemory.Sound
import Mathlib.Algebra.Group.Nat.Defs

/-!
# The command table of the Postgres adapter

The statements that `adapters/postgres/queue.ts`, `executor.ts` and `store-runs.ts` issue on
`workflow_commands`. Each statement is one atomic step; other workers may run between any two, and
a claim may find any rows locked (`SKIP LOCKED`). The partial unique index is
`workflow_commands_continue_dedup_idx` of `manifest.ts`.
-/

namespace Neemata.Workflows.Postgres

variable {V : Type}

/-! ## Rows -/

inductive CommandKind | continueRun | activity | task
deriving DecidableEq, Repr

inductive Payload (V : Type)
  | continueRun (command : ContinueRunCommand)
  | attempt (command : AttemptCommand V)
deriving DecidableEq, Repr

/-- A row of `workflow_commands`; nullable columns are options. -/
structure CommandRow (V : Type) where
  id : String
  kind : CommandKind
  runId : String
  workflowName : Option String := none
  taskName : Option String := none
  activityName : Option String := none
  nodeName : Option String := none
  attemptId : Option String := none
  payload : Payload V
  runAt : Nat
  priority : Int := 0
  leaseOwner : Option String := none
  leaseToken : Option String := none
  leaseExpiresAt : Option Nat := none
  deliveryCount : Nat := 0
  lastError : Option StoredError := none
  deadAt : Option Nat := none
  reapedAt : Option Nat := none
  createdAt : Nat
deriving DecidableEq, Repr

/-- `run_id WHERE kind = 'continue' AND lease_token IS NULL`. -/
def dedupEntry (row : CommandRow V) : Option String :=
  if row.kind = .continueRun ∧ row.leaseToken = none then some row.runId else none

abbrev CommandTable (V : Type) : Type := Table (CommandRow V) String String CommandRow.id dedupEntry

/-- `clock` is what `now()` reads in the next statement; `nextId` numbers the random ids. -/
structure Commands (V : Type) where
  maxDeliveries : Int
  clock : Nat
  nextId : Nat
  table : CommandTable V

inductive CommandError
  | uniqueViolation
  | error (message : String)
deriving DecidableEq, Repr

namespace Commands

def create (maxDeliveries : Option Int) : Commands V :=
  { maxDeliveries := maxDeliveries.getD defaultMaxDeliveries, clock := 0, nextId := 1,
    table := .empty }

/-- `randomUUID()`: an id that was not given out before. -/
def randomId (s : Commands V) : String × Commands V :=
  (freshId "uuid" s.nextId, { s with nextId := s.nextId + 1 })

/-- The state after a statement; a violated constraint undoes it. -/
def execute {ρ : Type} (s : Commands V) (table : Option (CommandTable V)) (result : ρ) :
    Except CommandError ρ × Commands V :=
  match table with
  | some table => (.ok result, { s with table })
  | none => (.error .uniqueViolation, s)

/-! ## `queue.ts` -/

def insertContinueCommand (s : Commands V) (command : ContinueRunCommand) (runAt : Option Nat) :
    Except CommandError Unit × Commands V :=
  let (id, s) := s.randomId
  let row : CommandRow V :=
    { id, kind := .continueRun, runId := command.runId, workflowName := some command.workflowName,
      payload := .continueRun command, runAt := runAt.getD s.clock, createdAt := s.clock }
  s.execute (s.table.upsert row fun existing =>
    { existing with
      runAt := min existing.runAt row.runAt, payload := row.payload,
      workflowName := row.workflowName }) ()

def atDeadLetterThreshold (s : Commands V) (row : CommandRow V) : Bool :=
  (row.deliveryCount : Int) + 1 ≥ s.maxDeliveries

/-- The row that a holder of the lease gives back. -/
def releasedRow [JsRuntime V] (s : Commands V) (options : CommandReleaseOptions V)
    (row : CommandRow V) : CommandRow V :=
  if options.isPlain then
    { row with
      leaseOwner := none, leaseToken := none, leaseExpiresAt := none,
      runAt := s.clock + releaseBackoffMs }
  else
    let backoffBaseMs := if options.unroutable then unroutableBackoffMs else releaseBackoffMs
    let error := options.error.getD Mem.unroutableError
    { row with
      leaseOwner := none, leaseToken := none, leaseExpiresAt := none,
      deliveryCount := row.deliveryCount + 1
      lastError := some (toStoredError error)
      deadAt := if s.atDeadLetterThreshold row then some s.clock else row.deadAt
      runAt := s.clock + min (2 ^ (row.deliveryCount + 1) * backoffBaseMs) maxErrorBackoffMs }

def isLeasedBy (commandId leaseToken : String) (row : CommandRow V) : Bool :=
  row.id = commandId && row.leaseToken = some leaseToken

def releaseCommand [JsRuntime V] (s : Commands V) (commandId leaseToken : String)
    (options : CommandReleaseOptions V) : Except CommandError Unit × Commands V :=
  s.execute (s.table.updateWhere (isLeasedBy commandId leaseToken) (s.releasedRow options)) ()

/-- `run_at <= now() AND (lease_token IS NULL OR lease_expires_at <= now()) AND dead_at IS NULL`;
a comparison with `NULL` does not hold. -/
def isClaimable (clock : Nat) (row : CommandRow V) : Bool :=
  decide (row.runAt ≤ clock) &&
  (row.leaseToken.isNone || row.leaseExpiresAt.any fun expires => expires ≤ clock) &&
  row.deadAt.isNone

/-- `ORDER BY priority DESC, run_at ASC, created_at ASC, id ASC`. -/
def claimsBefore (left right : CommandRow V) : Bool :=
  left.priority > right.priority || (left.priority = right.priority &&
    (left.runAt < right.runAt || (left.runAt = right.runAt &&
      (left.createdAt < right.createdAt || (left.createdAt = right.createdAt &&
        decide (left.id < right.id))))))

/-- The first row in claim order. -/
def firstRow : List (CommandRow V) → Option (CommandRow V)
  | [] => none
  | row :: rows => some (rows.foldl (fun best row => if claimsBefore row best then row else best) row)

/-- One probe per condition, then the first of their rows. -/
def candidate (s : Commands V) (conditions : List (CommandRow V → Bool)) (locked : List String) :
    Option (CommandRow V) :=
  firstRow (conditions.filterMap fun condition =>
    firstRow (s.table.rows.filter fun row =>
      isClaimable s.clock row && row.id ∉ locked && condition row))

/-- The candidate under its new lease; taking over an expired lease counts the delivery that died
with it. -/
def claimedRow (s : Commands V) (workerId leaseToken : String) (leaseMs : Nat)
    (row : CommandRow V) : CommandRow V :=
  let takeover := row.leaseToken.isSome
  { row with
    deliveryCount := row.deliveryCount + if takeover then 1 else 0
    lastError := if takeover && row.lastError.isNone then some commandLeaseExpiredError
      else row.lastError
    deadAt := if takeover && s.atDeadLetterThreshold row then some s.clock else row.deadAt
    leaseOwner := some workerId
    leaseToken := some leaseToken
    leaseExpiresAt := some (s.clock + leaseMs) }

/-- One claim statement, of the loop around it that goes on past dead-lettered rows: the row it
returns may be one. -/
def claimOnce (s : Commands V) (conditions : List (CommandRow V → Bool)) (workerId : String)
    (leaseMs : Nat) (locked : List String) :
    Except CommandError (Option (CommandRow V)) × Commands V :=
  let (leaseToken, s) := s.randomId
  match s.candidate conditions locked with
  | none => (.ok none, s)
  | some row =>
    s.execute (s.table.updateWhere (fun other => other.id = row.id)
      (s.claimedRow workerId leaseToken leaseMs)) (some (s.claimedRow workerId leaseToken leaseMs row))

def ackCommand (s : Commands V) (commandId leaseToken : String) :
    Except CommandError Unit × Commands V :=
  if s.table.rows.any (isLeasedBy commandId leaseToken) then
    (.ok (), { s with table := s.table.deleteWhere (isLeasedBy commandId leaseToken) })
  else (.error (.error "Stale workflow command ack"), s)

def continueCondition (workflowNames : List String) (row : CommandRow V) : Bool :=
  row.kind = .continueRun && row.workflowName.any fun name => name ∈ workflowNames

/-! ## `executor.ts` -/

/-- `dispatchActivity` and `dispatchTask`. -/
def dispatchAttempt (s : Commands V) (command : AttemptCommand V) (runAt : Option Nat) :
    Except CommandError Unit × Commands V :=
  let (id, s) := s.randomId
  if s.table.rows.any fun row => row.attemptId = some command.attemptId then (.ok (), s)
  else
    let row : CommandRow V :=
      { id
        kind := match command.target with
          | .activity _ => .activity
          | .task _ _ => .task
        runId := command.runId, workflowName := some command.workflowName
        activityName := match command.target with
          | .activity activityName => some activityName
          | .task _ _ => none
        taskName := match command.target with
          | .activity _ => none
          | .task taskName _ => some taskName
        nodeName := some command.nodeName, attemptId := some command.attemptId
        payload := .attempt command, runAt := runAt.getD s.clock, createdAt := s.clock }
    s.execute (s.table.insert row) ()

def heartbeat (s : Commands V) (commandId leaseToken : String) (leaseMs : Option Nat) :
    Except CommandError Unit × Commands V :=
  if s.table.rows.any (isLeasedBy commandId leaseToken) then
    s.execute (s.table.updateWhere (isLeasedBy commandId leaseToken) fun row =>
      { row with leaseExpiresAt := some (s.clock + leaseMs.getD defaultLeaseMs) }) ()
  else (.error (.error "Workflow attempt heartbeat lease lost"), s)

def deleteUnclaimed (s : Commands V) (runId : String) : Commands V :=
  { s with table := s.table.deleteWhere fun row =>
      row.runId = runId && row.kind ≠ .continueRun && row.leaseToken.isNone }

/-! ## `store-runs.ts` -/

def isDeadCommand (commandId : String) (row : CommandRow V) : Bool :=
  row.id = commandId && row.deadAt.isSome

def markDeadCommandReaped (s : Commands V) (commandId : String) :
    Except CommandError Unit × Commands V :=
  s.execute (s.table.updateWhere (fun row => isDeadCommand commandId row && row.reapedAt.isNone)
    ({ · with reapedAt := some s.clock })) ()

def requeuedRow (s : Commands V) (row : CommandRow V) : CommandRow V :=
  { row with
    deliveryCount := 0, lastError := none, deadAt := none, reapedAt := none
    leaseOwner := none, leaseToken := none, leaseExpiresAt := none, runAt := s.clock }

def requeueDeadCommand (s : Commands V) (commandId : String) :
    Except CommandError Unit × Commands V :=
  s.execute (s.table.updateWhere (isDeadCommand commandId) s.requeuedRow) ()

/-- The commands of deleted runs go with them. -/
def deleteCommandsOfRuns (s : Commands V) (runIds : List String) : Commands V :=
  { s with table := s.table.deleteWhere fun row => row.runId ∈ runIds }

/-- The sweep of a prune. -/
def sweepDeadCommands (s : Commands V) (olderThan : Nat) : Commands V :=
  { s with table := s.table.deleteWhere fun row => row.deadAt.any fun deadAt => deadAt < olderThan }

end Commands

/-! ## Histories -/

inductive CommandOp (V : Type)
  | insertContinueCommand (command : ContinueRunCommand) (runAt : Option Nat)
  | dispatchAttempt (command : AttemptCommand V) (runAt : Option Nat)
  | claimOnce (conditions : List (CommandRow V → Bool)) (workerId : String) (leaseMs : Nat)
      (locked : List String)
  | heartbeat (commandId leaseToken : String) (leaseMs : Option Nat)
  | ackCommand (commandId leaseToken : String)
  | releaseCommand (commandId leaseToken : String) (options : CommandReleaseOptions V)
  | deleteUnclaimed (runId : String)
  | markDeadCommandReaped (commandId : String)
  | requeueDeadCommand (commandId : String)
  | deleteCommandsOfRuns (runIds : List String)
  | sweepDeadCommands (olderThan : Nat)
  | clock (time : Nat)

namespace Commands

variable [JsRuntime V]

/-- Run one statement; its answer is kept where a theorem asks for it. -/
def exec (s : Commands V) : CommandOp V → Except CommandError Unit × Commands V
  | .insertContinueCommand command runAt => s.insertContinueCommand command runAt
  | .dispatchAttempt command runAt => s.dispatchAttempt command runAt
  | .claimOnce conditions workerId leaseMs locked =>
    let (result, s) := s.claimOnce conditions workerId leaseMs locked
    (result.map fun _ => (), s)
  | .heartbeat commandId leaseToken leaseMs => s.heartbeat commandId leaseToken leaseMs
  | .ackCommand commandId leaseToken => s.ackCommand commandId leaseToken
  | .releaseCommand commandId leaseToken options => s.releaseCommand commandId leaseToken options
  | .deleteUnclaimed runId => (.ok (), s.deleteUnclaimed runId)
  | .markDeadCommandReaped commandId => s.markDeadCommandReaped commandId
  | .requeueDeadCommand commandId => s.requeueDeadCommand commandId
  | .deleteCommandsOfRuns runIds => (.ok (), s.deleteCommandsOfRuns runIds)
  | .sweepDeadCommands olderThan => (.ok (), s.sweepDeadCommands olderThan)
  | .clock time => (.ok (), { s with clock := time })

def step (s : Commands V) (op : CommandOp V) : Commands V := (s.exec op).2

end Commands

end Neemata.Workflows.Postgres
