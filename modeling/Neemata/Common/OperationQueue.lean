import Neemata.Lib.Trace

/-!
# The operation queue

`OperationQueue` of `common/src/operation-queue.ts`. A step is a call of `run` or `waitIdle` or the
next thing that happens on its own (`tick`): a task is called, it settles, or a microtask of the
promises that hang on its result comes. Between two of them any calls may come.
-/

namespace Neemata.Common

inductive OperationQueueStrategy where
  | serial | latest
deriving DecidableEq

/-- The promise of an operation and its task. -/
inductive OperationStatus (ε ρ : Type) where
  | waiting
  | running
  | settled (outcome : Except ε ρ)
  /-- Rejected with `OperationSupersededError`. -/
  | superseded
deriving DecidableEq

inductive OperationStage where
  /-- No task has been called whose operation is not finished. -/
  | rest
  | running (id : Nat)
  /-- The result has settled; the `catch` comes next. -/
  | settled
  /-- The `finally` comes next. -/
  | caught
  /-- The next operation may be picked up in a later microtask. -/
  | finished
deriving DecidableEq

/-- An operation is its number in the order of the calls of `run`. `tail` are the operations that
hang on `tail`, `released` the calls of `waitIdle` that have been resumed, and `releases` and
`resolves` the values of `pending` when a call was resumed and when its promise resolved. -/
structure OperationQueue (ε ρ : Type) where
  strategy : OperationQueueStrategy := .serial
  tail : List Nat := []
  count : Int := 0
  runningLatest : Bool := false
  latestOperation : Option Nat := none
  idleWaiters : List Nat := []
  stage : OperationStage := .rest
  operations : List (OperationStatus ε ρ) := []
  /-- The operations whose task has been called, in order. -/
  started : List Nat := []
  waits : Nat := 0
  released : List Nat := []
  releases : List Int := []
  resolves : List Int := []
deriving DecidableEq

inductive OperationQueueEvent (ε ρ : Type) where
  | run
  | waitIdle
  /-- What happens next; a running task settles with the outcome. -/
  | tick (outcome : Except ε ρ)
  /-- The promise of a resumed `waitIdle` resolves. -/
  | resolveIdle (wait : Nat)
deriving DecidableEq

namespace OperationQueue

variable {ε ρ : Type}

def pending (q : OperationQueue ε ρ) : Int := q.count

def busy (q : OperationQueue ε ρ) : Bool := 0 < q.count

def finishOperation (q : OperationQueue ε ρ) : OperationQueue ε ρ :=
  let count := q.count - 1
  if 0 < count then { q with count }
  else { q with
    count
    idleWaiters := []
    released := q.released ++ q.idleWaiters
    releases := q.idleWaiters.map (fun _ => count) ++ q.releases }

/-- The task of an operation is called. -/
def call (q : OperationQueue ε ρ) (id : Nat) : OperationQueue ε ρ :=
  { q with
    stage := .running id
    operations := q.operations.set id .running
    started := q.started ++ [id] }

/-- A new operation is counted. -/
def submit (q : OperationQueue ε ρ) : OperationQueue ε ρ :=
  { q with count := q.count + 1, operations := q.operations ++ [.waiting] }

def runSerial (q : OperationQueue ε ρ) : OperationQueue ε ρ :=
  { q.submit with tail := q.tail ++ [q.operations.length] }

def supersede (q : OperationQueue ε ρ) (previous : Nat) : OperationQueue ε ρ :=
  { q with operations := q.operations.set previous .superseded }.finishOperation

def runLatest (q : OperationQueue ε ρ) : OperationQueue ε ρ :=
  let operation := q.operations.length
  if q.runningLatest then
    { match q.latestOperation with
      | some previous => q.submit.supersede previous
      | none => q.submit with
      latestOperation := some operation }
  else { q.submit with runningLatest := true }.call operation

def run (q : OperationQueue ε ρ) : OperationQueue ε ρ :=
  match q.strategy with
  | .latest => q.runLatest
  | .serial => q.runSerial

def waitIdle (q : OperationQueue ε ρ) : OperationQueue ε ρ :=
  if q.busy then { q with idleWaiters := q.idleWaiters ++ [q.waits], waits := q.waits + 1 }
  else { q with waits := q.waits + 1, resolves := q.pending :: q.resolves }

/-- The running task settles. -/
def settle (q : OperationQueue ε ρ) (id : Nat) (outcome : Except ε ρ) : OperationQueue ε ρ :=
  let settled := { q with operations := q.operations.set id (.settled outcome) }
  match q.strategy with
  | .serial => { settled with stage := .settled }
  | .latest => { settled.finishOperation with stage := .finished }

/-- The operation of the last task is finished. -/
def next (q : OperationQueue ε ρ) : OperationQueue ε ρ :=
  match q.strategy, q.latestOperation with
  | .serial, _ => { q with stage := .rest }
  | .latest, none => { q with stage := .rest, runningLatest := false }
  | .latest, some current => { q with latestOperation := none }.call current

def tick (q : OperationQueue ε ρ) (outcome : Except ε ρ) : OperationQueue ε ρ :=
  match q.stage with
  | .rest =>
    match q.tail with
    | [] => q
    | id :: tail => { q with tail }.call id
  | .running id => q.settle id outcome
  | .settled => { q with stage := .caught }
  | .caught => { q.finishOperation with stage := .finished }
  | .finished => q.next

def resolveIdle (q : OperationQueue ε ρ) (wait : Nat) : OperationQueue ε ρ :=
  if wait ∈ q.released then
    { q with released := q.released.erase wait, resolves := q.pending :: q.resolves }
  else q

def step (q : OperationQueue ε ρ) : OperationQueueEvent ε ρ → OperationQueue ε ρ
  | .run => q.run
  | .waitIdle => q.waitIdle
  | .tick outcome => q.tick outcome
  | .resolveIdle wait => q.resolveIdle wait

end OperationQueue

end Neemata.Common
