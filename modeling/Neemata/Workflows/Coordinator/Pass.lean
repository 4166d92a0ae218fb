import Neemata.Lib.Program
import Neemata.Workflows.Definition
import Neemata.Workflows.InMemory.Store

/-!
# Passes of the coordinator and of the workers

A pass is a program over the operations of the store and the executors and over the calls of user
functions. Every operation is one `await`: other parties can act between two of them, and a
process can die there. Here are the operations, the codec helpers (`coordinator/codec.ts`,
`coordinator/context.ts`) and the store behind a run lease (`createRunLeaseFencedStore`).
-/

namespace Neemata.Workflows

/-- Outputs of the completed nodes, by node name. -/
abbrev Outputs (V : Type) := OrdMap String V

/-- What a user function gets beside the dependency context: the outputs, the workflow's input
and, in a map node, the item with its index. -/
structure CallbackArgs (V : Type) where
  outputs : Outputs V
  workflowInput : V
  item : Option (Option V × Nat) := none

/-- How the race of an attempt ends: its handler settles, its timer fires if there is one, or the
worker shuts down. -/
inductive RaceEnd (V : Type) : (timed : Bool) → Type
  | returned {timed : Bool} (output : V) : RaceEnd V timed
  | threw {timed : Bool} (error : Thrown V) : RaceEnd V timed
  | timedOut : RaceEnd V true
  | shutdown {timed : Bool} : RaceEnd V timed

/-- The race of an attempt: the heartbeats that come before its end, and the end. -/
structure Race (V : Type) (timed : Bool) where
  beats : Nat
  finish : RaceEnd V timed

/-- The calls that leave the coordinator and the workers for user code. `handler` is the dependency
context and the handler of an attempt, racing with its timer. -/
inductive Callback (V : Type)
  | createContext
  | handler (command : AttemptCommand V) (timed : Bool)
  | decode (schema : Schema) (value : V)
  | call (callback : StoredCallback) (args : CallbackArgs V)
  | select (callback : StoredCallback) (args : CallbackArgs V)
  | items (callback : StoredCallback) (args : CallbackArgs V)

variable {V : Type}

def Callback.Ret : Callback V → Type
  | .createContext => Unit
  | .handler _ timed => Race V timed
  | .decode _ _ | .call _ _ => V
  | .select _ _ => String
  | .items _ _ => List V

inductive PassOp (V : Type)
  | store (op : StoreOp V)
  | executor (op : ExecutorOp V)
  | callback (call : Callback V)
  | dateNow

/-- Every operation returns or throws, but for reading the wall clock. -/
def PassOp.Ret : PassOp V → Type
  | .store op => Except (Thrown V) op.Ret
  | .executor op => Except (Thrown V) op.Ret
  | .callback call => Except (Thrown V) call.Ret
  | .dateNow => Nat

abbrev Pass (V α : Type) := ExceptT (Thrown V) (Program (PassOp.Ret (V := V))) α

/-- The behaviour of user code at one moment. -/
abbrev UserCode (V : Type) := (call : Callback V) → Except (Thrown V) call.Ret

/-- `WorkflowStore` as the coordinator holds it. -/
abbrev WorkflowStore (V : Type) := (op : StoreOp V) → Pass V op.Ret

def workflowStore : WorkflowStore V := fun op => ExceptT.mk (.perform (.store op) .pure)

def executor (op : ExecutorOp V) : Pass V op.Ret := ExceptT.mk (.perform (.executor op) .pure)

def userCode (call : Callback V) : Pass V call.Ret := ExceptT.mk (.perform (.callback call) .pure)

def dateNow : Pass V Nat := ExceptT.mk (.perform .dateNow fun now => .pure (.ok now))

/-- Perform one operation on the in-memory runtime. -/
def PassOp.exec [JsRuntime V] (user : UserCode V) (m : Mem V) :
    (op : PassOp V) → op.Ret × Mem V
  | .store op => m.execStore op
  | .executor op => m.execExecutor op
  | .callback call => (user call, m)
  | .dateNow => (m.clock, m)

/-! ## The store behind a run lease -/

/-- The operations that `createRunLeaseFencedStore` wraps; the others are passed through. -/
def StoreOp.isFenced : StoreOp V → Bool
  | .createRun _ | .createNode _ | .setNodeInput _ _ _ | .createAttempt _
  | .completeCurrentAttempt _ _ _ | .failCurrentAttempt _ _ _ | .completeNode _ _ _
  | .failNode _ _ _ | .markRunRunning _ | .markRunWaiting _ | .completeRun _ _ | .failRun _ _
  | .requestRunCancellation _ | .cancelRun _ | .cancelNode _ _ | .cancelNonTerminalRunNodes _
  | .ensureNodeChildren _ _ _ | .ensureChildRun _ | .ensureChildAttempt _ | .selectNodeCase _ _ _
  | .completeNodeChild _ _ _ _ | .failNodeChild _ _ _ _ | .waitNode _ _ => true
  | _ => false

/-- Renew the lease, then run the operation: two awaits. -/
def fence {α : Type} (store : WorkflowStore V) (lease : RunLease) (leaseMs : Nat)
    (operation : Pass V α) : Pass V α := do
  let renewedLease ← store (.renewRunLease lease leaseMs)
  match renewedLease with
  | none => throw .staleRunLease
  | some _ => operation

def createRunLeaseFencedStore (store : WorkflowStore V) (lease : RunLease) (leaseMs : Nat) :
    WorkflowStore V := fun op =>
  if op.isFenced then fence store lease leaseMs (store op) else store op

/-! ## User code -/

/-- What a thrown error of user code is wrapped in on its way through the coordinator. -/
def runWorkflowUserCallback {α : Type} (callback : Pass V α) : Pass V α :=
  tryCatch callback fun error => throw (.workflowUserCallback error)

def decodeSchemaValue (schema : Schema) (value : V) (label : String) : Pass V V :=
  tryCatch (userCode (.decode schema value)) fun error =>
    throw (.errorWithCause s!"Invalid {label}" error)

def decodeWorkflowUserSchemaValue (schema : Schema) (value : V) (label : String) : Pass V V :=
  runWorkflowUserCallback (decodeSchemaValue schema value label)

def decodeItems (itemSchema : Schema) (label : String) : Nat → List V → Pass V (List V)
  | _, [] => pure []
  | index, item :: items => do
    let item ← decodeSchemaValue itemSchema item s!"{label}.{index}"
    let items ← decodeItems itemSchema label (index + 1) items
    return item :: items

def decodeMapItems (itemSchema : Schema) (items : List V) (label : String) : Pass V (List V) :=
  runWorkflowUserCallback (decodeItems itemSchema label 0 items)

def getWorkflowNodeDeclaration (workflow : WorkflowImplementation) (nodeName : String) :
    Pass V WorkflowNodeDeclaration :=
  match workflow.workflow.nodes.find? fun candidate => candidate.name = nodeName with
  | none =>
    throw (.error s!"Missing workflow node declaration [{workflow.workflow.name}.{nodeName}]")
  | some node => pure node.declaration

def resolveIdempotency (idempotency : Idempotency) (args : CallbackArgs V) : Pass V (Option V) :=
  match idempotency with
  | .absent => pure none
  | .key callback => some <$> runWorkflowUserCallback (userCode (.call callback args))
  | .invalid => throw (.error "Invalid idempotency definition")

/-- The concurrency of a map node; without one there is no limit. -/
def mapConcurrencyLimit (node : MapNodeImplementation) : Pass V (Option Nat) :=
  match node.concurrency with
  | none => pure none
  | some concurrency =>
    if concurrency < 1 then throw (.error "Map node concurrency must be a positive integer")
    else pure (some concurrency.toNat)

/-! ## Child keys -/

def SELF_CHILD_KEY : String := "$self"

def caseChildKey (caseKey : String) : String := s!"case:{caseKey}"

def memberChildKey (memberKey : String) : String := s!"member:{memberKey}"

def itemChildKey (itemIndex : Nat) : String := s!"item:{itemIndex}"

end Neemata.Workflows
