import Neemata.Workflows.Worker.Attempt

/-!
# Execution workers at work

Any number of execution workers on one in-memory runtime. A worker claims an attempt and executes
it one `await` at a time, between the steps of the others; it can die at any of them. Two workers
can hold the same command when the lease of the first has expired.
-/

namespace Neemata.Workflows

variable {V : Type}

/-- A claimed attempt and what is left of its execution. -/
structure Delivery (V : Type) where
  input : ExecutionWorkerInput
  claimed : Claimed (AttemptCommand V)
  rest : Pass V Bool

/-- `retries` lists the pairs of a failed attempt and the one created to retry it; no step reads
it. -/
structure Execution (V : Type) where
  mem : Mem V
  workers : String → Option (Delivery V)
  retries : List (String × String) := []

/-- One step of a worker or of somebody else. `resume` takes a worker one await further. -/
inductive ExecutionMove (V : Type)
  | claim (worker : String) (input : ExecutionWorkerInput)
  | resume (worker : String) (user : UserCode V)
  | crash (worker : String)
  | other (op : Op V)

namespace Delivery

def command (delivery : Delivery V) : AttemptCommand V := delivery.claimed.command

variable [JsRuntime V]

def step (delivery : Delivery V) (user : UserCode V) (m : Mem V) : Pass V Bool × Mem V :=
  Program.step (PassOp.exec user) m delivery.rest.run

/-- What is left after one await; a finished execution is gone. -/
def left (delivery : Delivery V) (user : UserCode V) (m : Mem V) : Option (Delivery V) :=
  if Program.isSettled (delivery.step user m).1.run then none
  else some { delivery with rest := (delivery.step user m).1 }

/-- The pair of the attempt of the command and the created one. -/
def retryPair (command : AttemptCommand V) :
    Except (Thrown V) (StoredAttempt V) → List (String × String)
  | .ok attempt => [(command.attemptId, attempt.id)]
  | .error _ => []

/-- The retry that the next await creates. -/
def retry (delivery : Delivery V) (m : Mem V) : List (String × String) :=
  match delivery.rest.run with
  | .perform (.store (.createAttempt params)) _ =>
    retryPair delivery.command (m.createAttempt params).1
  | _ => []

end Delivery

namespace Execution

def create (maxDeliveries : Option Int) : Execution V where
  mem := createInMemoryWorkflowRuntime maxDeliveries
  workers _ := none

variable [JsRuntime V]

/-- The worker takes its delivery one await further. -/
def resume (s : Execution V) (worker : String) (delivery : Delivery V) (user : UserCode V) :
    Execution V where
  mem := (delivery.step user s.mem).2
  workers := Function.update s.workers worker (delivery.left user s.mem)
  retries := s.retries ++ delivery.retry s.mem

/-- The delivery that a claim gives the worker. -/
def start (s : Execution V) (worker : String) (input : ExecutionWorkerInput)
    (claimed : Option (Claimed (AttemptCommand V))) : Execution V :=
  { s with
    workers := Function.update s.workers worker
      (claimed.map fun claimed => ⟨input, claimed, input.execute claimed⟩) }

def step (s : Execution V) (move : ExecutionMove V) : Execution V :=
  match move with
  | .claim worker input =>
    match s.workers worker with
    | some _ => s
    | none =>
      let (claimed, mem) := s.mem.claimAttempt input.claim
      start { s with mem } worker input claimed
  | .resume worker user =>
    match s.workers worker with
    | none => s
    | some delivery => s.resume worker delivery user
  | .crash worker => { s with workers := Function.update s.workers worker none }
  | .other op => { s with mem := s.mem.step op }

/-- The system of a runtime with the option `maxDeliveries` after a history. -/
def after (maxDeliveries : Option Int) (history : List (ExecutionMove V)) : Execution V :=
  Trace.run step (create maxDeliveries) history

end Execution

/-! ## Steps of a delivery -/

namespace Delivery

variable [JsRuntime V]

/-- The next await performs an operation, or the execution has ended. -/
theorem step_cases (delivery : Delivery V) (user : UserCode V) (m : Mem V) :
    (∃ op next, delivery.rest.run = .perform op next ∧
      delivery.step user m = (next (op.exec user m).1, (op.exec user m).2)) ∨
    delivery.left user m = none ∧ (delivery.step user m).2 = m ∧ delivery.retry m = [] := by
  cases hrest : delivery.rest.run with
  | pure | halt =>
    refine .inr ⟨?_, ?_, ?_⟩ <;> simp only [left, step, retry, hrest] <;> rfl
  | perform op next =>
    exact .inl ⟨op, next, rfl, by simp only [step, hrest, Program.step]⟩

end Delivery

end Neemata.Workflows
