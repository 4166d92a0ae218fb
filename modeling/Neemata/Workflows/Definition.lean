import Neemata.Lib.Binary64
import Neemata.Lib.OrdMap
import Neemata.Workflows.State

/-!
# Workflow definitions and implementations

What the coordinator and the workers read of a workflow: its declaration (`types/index.ts`, as the builder
of `contract/index.ts` makes it) and its implementation (`implement/index.ts`). User functions and
schemas are names here; running one is an operation of the coordinator.
-/

namespace Neemata.Workflows

/-- A `BoundaryType`; the coordinator only calls its `decode`. -/
structure Schema where
  name : String
deriving DecidableEq, Repr

/-- A function of the workflow's author. -/
structure StoredCallback where
  name : String
deriving DecidableEq, Repr

/-- The `idempotency` option of a node: a function or an object with one, or something else. -/
inductive Idempotency
  | absent
  | key (callback : StoredCallback)
  | invalid
deriving DecidableEq, Repr

inductive RetryBackoff | fixed | exponential
deriving DecidableEq, Repr

structure RetryPolicy where
  attempts : Binary64.Double
  backoff : Option RetryBackoff := none
  delay : Option String := none
deriving DecidableEq, Repr

/-- A task or workflow definition as another workflow refers to it. -/
structure RunnableDefinition where
  name : String
  input : Schema
  timeout : Option String := none
deriving DecidableEq, Repr

/-- A task definition as its worker reads it. -/
structure TaskDefinition extends RunnableDefinition where
  output : Schema
  retry : Option RetryPolicy := none
deriving DecidableEq, Repr

inductive MapRunMode | startOnly | waitAll | waitSettled
deriving DecidableEq, Repr

/-! ## Declarations -/

inductive BranchCaseDefinition
  | activity (input output : Schema) (timeout : Option String)
  | task (timeout : Option String)
  | workflow
deriving DecidableEq, Repr

inductive WorkflowNodeDeclaration
  | activity (input output : Schema) (timeout : Option String)
  | task (task : RunnableDefinition) (timeout : Option String)
  | workflow
  | branch (cases : List (String × BranchCaseDefinition))
  | parallel (cases : List (String × BranchCaseDefinition))
  | mapTask (task : RunnableDefinition) (item : Schema) (mode : MapRunMode)
      (timeout : Option String)
  | mapWorkflow (item : Schema) (mode : MapRunMode)
deriving DecidableEq, Repr

structure WorkflowNode where
  name : String
  declaration : WorkflowNodeDeclaration
deriving DecidableEq, Repr

/-- `nodeNamePattern`: an ASCII letter, `_` or `$`, then any number of these and of digits. -/
def isNodeName (name : String) : Bool :=
  match name.toList with
  | [] => false
  | first :: rest =>
    (first.isAlpha || first = '_' || first = '$') &&
      rest.all fun c => c.isAlphanum || c = '_' || c = '$'

/-- A workflow as its builder leaves it: `assertNodeName` has checked every node name. -/
structure WorkflowDefinition where
  name : String
  output : Option Schema := none
  nodes : List WorkflowNode
  named : ∀ node ∈ nodes, isNodeName node.name = true ∧ node.name ≠ "input" := by decide
  distinct : (nodes.map WorkflowNode.name).Nodup := by decide

/-! ## Implementations -/

structure TaskImplementation where
  task : TaskDefinition
deriving DecidableEq, Repr

structure ActivityNodeImplementation where
  name : String
  activityName : String
  retry : Option RetryPolicy := none
  input : Option StoredCallback := none
  idempotency : Idempotency := .absent
deriving DecidableEq, Repr

structure RunnableNodeImplementation where
  name : String
  target : RunnableDefinition
  input : Option StoredCallback := none
  idempotency : Idempotency := .absent
deriving DecidableEq, Repr

structure MapNodeImplementation where
  name : String
  target : RunnableDefinition
  mode : MapRunMode
  concurrency : Option Int := none
  items : StoredCallback
  input : StoredCallback
  idempotency : Idempotency := .absent
deriving DecidableEq, Repr

inductive WorkflowCaseKind
  | activity (activityName : String)
  | task (target : RunnableDefinition)
  | workflow (target : RunnableDefinition)
deriving DecidableEq, Repr

structure WorkflowCaseImplementation where
  kind : WorkflowCaseKind
  retry : Option RetryPolicy := none
  input : Option StoredCallback := none
  idempotency : Idempotency := .absent
deriving DecidableEq, Repr

/-- The cases in the order of `Object.entries`. -/
structure BranchNodeImplementation where
  name : String
  select : StoredCallback
  cases : List (String × WorkflowCaseImplementation)
deriving DecidableEq, Repr

structure ParallelNodeImplementation where
  name : String
  cases : List (String × WorkflowCaseImplementation)
deriving DecidableEq, Repr

inductive WorkflowNodeImplementation
  | activity (node : ActivityNodeImplementation)
  | task (node : RunnableNodeImplementation)
  | workflow (node : RunnableNodeImplementation)
  | branch (node : BranchNodeImplementation)
  | parallel (node : ParallelNodeImplementation)
  | mapTask (node : MapNodeImplementation)
  | mapWorkflow (node : MapNodeImplementation)
deriving DecidableEq, Repr

def WorkflowNodeImplementation.name : WorkflowNodeImplementation → String
  | .activity node => node.name
  | .task node | .workflow node => node.name
  | .branch node => node.name
  | .parallel node => node.name
  | .mapTask node | .mapWorkflow node => node.name

def WorkflowCaseKind.childKind : WorkflowCaseKind → NodeChildKind
  | .activity _ => .activity
  | .task _ => .task
  | .workflow _ => .workflow

def WorkflowCaseKind.text : WorkflowCaseKind → String
  | .activity _ => "activity"
  | .task _ => "task"
  | .workflow _ => "workflow"

def BranchCaseDefinition.childKind : BranchCaseDefinition → NodeChildKind
  | .activity .. => .activity
  | .task _ => .task
  | .workflow => .workflow

/-- `normalizeCases`: one case of the declared kind for each declared case. -/
def implementCases (cases : List (String × WorkflowCaseImplementation))
    (declared : List (String × BranchCaseDefinition)) : Bool :=
  cases.map (fun (key, case) => (key, case.kind.childKind)) =
    declared.map fun (key, case) => (key, case.childKind)

/-- The node is implemented under its own name by the method of its own kind. -/
def WorkflowNodeImplementation.implements (node : WorkflowNodeImplementation)
    (declared : WorkflowNode) : Bool :=
  node.name = declared.name &&
  match node, declared.declaration with
  | .activity _, .activity .. | .workflow _, .workflow => true
  | .task node, .task target _ => node.target = target
  | .branch node, .branch cases => implementCases node.cases cases
  | .parallel node, .parallel cases => implementCases node.cases cases
  | .mapTask node, .mapTask target _ mode _ => node.target = target ∧ node.mode = mode
  | .mapWorkflow node, .mapWorkflow _ mode => node.mode = mode
  | _, _ => false

/-- An implementation as the chain of `implementWorkflow` leaves it: one node after the other in
the declared order. -/
structure WorkflowImplementation where
  workflow : WorkflowDefinition
  nodes : List WorkflowNodeImplementation
  finish : StoredCallback
  implemented : List.Forall₂ (fun node declared => node.implements declared = true)
    nodes workflow.nodes := by decide

end Neemata.Workflows
