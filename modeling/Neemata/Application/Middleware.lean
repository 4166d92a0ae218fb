import Neemata.Lib.Entries
import Neemata.Lib.Trace

/-!
# The middleware pipeline

`createProcedureHandler`, `resolveMiddlewares` and `handleGuards` of `application/src/api/api.ts`. The
calls of `handleProcedure` of one request share an iterator over the middlewares: the first call is
made by `call`, every other one by a `next`. An event is what runs between two awaits.
-/

namespace Neemata.Application

/-- The middlewares and guards of the application, of a router or of a procedure. -/
structure Layer (μ γ : Type) where
  middlewares : List μ := []
  guards : List γ := []

structure ProcedureApi (μ γ π ι : Type) where
  application : Layer μ γ
  /-- The routers around the procedure, the outermost first. -/
  path : List (Layer μ γ)
  procedure : Layer μ γ
  /-- `handleInput`; none where it throws. -/
  handleInput : π → Option ι

namespace ProcedureApi

variable {μ γ π ι : Type} (api : ProcedureApi μ γ π ι)

def resolveMiddlewares : List μ :=
  api.application.middlewares ++ api.path.flatMap (·.middlewares) ++ api.procedure.middlewares

def guards : List γ :=
  api.application.guards ++ api.path.flatMap (·.guards) ++ api.procedure.guards

end ProcedureApi

inductive Verdict where
  | passes
  /-- The guard returns false. -/
  | denies
  | throws
deriving DecidableEq

/-- Where a call of `handleProcedure` is. -/
inductive Stage (ι : Type) where
  /-- Awaits the middlewares. -/
  | entered
  /-- The handler of a middleware has been called. -/
  | middleware (index : Nat)
  /-- The payload is not decoded yet. -/
  | binding
  /-- So many guards have passed. -/
  | guarding (input : ι) (passed : Nat)
  /-- The handler of the procedure has been called. -/
  | handling
  | failed
deriving DecidableEq

structure HandleCall (π ι : Type) where
  /-- The call whose middleware has called `next`, with its argument. -/
  parent : Option (Nat × Option π) := none
  payload : π
  stage : Stage ι := .entered
deriving DecidableEq

inductive PipelineEntry (γ ι : Type) where
  | guard (call : Nat) (guard : γ) (input : ι) (verdict : Verdict)
  | handler (call : Nat) (input : ι)
deriving DecidableEq

structure Pipeline (γ π ι : Type) where
  /-- How many middlewares the iterator has returned. -/
  position : Nat := 0
  calls : List (HandleCall π ι)
  history : List (PipelineEntry γ ι) := []

inductive PipelineEvent (π : Type) where
  /-- The middleware of a call calls `next`, with a payload or without. -/
  | next (call : Nat) (payload : Option π)
  /-- A call takes the next middleware. -/
  | advance (call : Nat)
  | decode (call : Nat)
  /-- The next guard has been evaluated. -/
  | guard (call : Nat) (verdict : Verdict)
  /-- The dependencies of the handler are resolved, and it is called. -/
  | handle (call : Nat)
  /-- Something that a call awaits rejects. -/
  | fail (call : Nat)
deriving DecidableEq

namespace Pipeline

variable {μ γ π ι : Type} (api : ProcedureApi μ γ π ι) (s : Pipeline γ π ι)

/-- `handle(payload)` of `call`. -/
def start (payload : π) : Pipeline γ π ι where
  calls := [{ payload }]

def setStage (call : Nat) (stage : Stage ι) : Pipeline γ π ι :=
  { s with calls := s.calls.modify call fun c => { c with stage } }

def next (call : Nat) (payload : Option π) : Pipeline γ π ι :=
  match s.calls[call]? with
  | some ⟨_, current, .middleware _⟩ =>
    { s with
      calls := s.calls ++
        [{ parent := some (call, payload), payload := payload.getD current }] }
  | _ => s

def advance (call : Nat) : Pipeline γ π ι :=
  match s.calls[call]? with
  | some ⟨_, _, .entered⟩ =>
    if s.position < api.resolveMiddlewares.length then
      { s.setStage call (.middleware s.position) with position := s.position + 1 }
    else s.setStage call .binding
  | _ => s

def decode (call : Nat) : Pipeline γ π ι :=
  match s.calls[call]? with
  | some ⟨_, payload, .binding⟩ =>
    match api.handleInput payload with
    | some input => s.setStage call (.guarding input 0)
    | none => s.setStage call .failed
  | _ => s

/-- One turn of the loop of `handleGuards`. -/
def guard (call : Nat) (verdict : Verdict) : Pipeline γ π ι :=
  match s.calls[call]? with
  | some ⟨_, _, .guarding input passed⟩ =>
    match api.guards[passed]? with
    | some guard =>
      { s.setStage call
          (if verdict = .passes then .guarding input (passed + 1) else .failed) with
        history := s.history ++ [.guard call guard input verdict] }
    | none => s
  | _ => s

def handle (call : Nat) : Pipeline γ π ι :=
  match s.calls[call]? with
  | some ⟨_, _, .guarding input passed⟩ =>
    if passed = api.guards.length then
      { s.setStage call .handling with history := s.history ++ [.handler call input] }
    else s
  | _ => s

def fail (call : Nat) : Pipeline γ π ι :=
  match s.calls[call]? with
  | some ⟨_, _, .entered⟩ | some ⟨_, _, .binding⟩ | some ⟨_, _, .guarding _ _⟩ =>
    s.setStage call .failed
  | _ => s

def step (s : Pipeline γ π ι) : PipelineEvent π → Pipeline γ π ι
  | .next call payload => s.next call payload
  | .advance call => s.advance api call
  | .decode call => s.decode api call
  | .guard call verdict => s.guard api call verdict
  | .handle call => s.handle api call
  | .fail call => s.fail call

/-! ## Enforcement -/

/-- The `next` calls that lead to a call went through the middlewares with these indices and handed
down this payload. -/
inductive Chain (s : Pipeline γ π ι) (payload : π) : List Nat → π → Nat → Prop
  | start {call : Nat} {c : HandleCall π ι} (get : s.calls[call]? = some c)
      (first : c.parent = none) : Chain s payload [] payload call
  | next {indices : List Nat} {current : π} {parent call index : Nat} {c d : HandleCall π ι}
      {argument : Option π} (chain : Chain s payload indices current parent)
      (get : s.calls[parent]? = some d) (stage : d.stage = .middleware index)
      (get' : s.calls[call]? = some c) (next : c.parent = some (parent, argument)) :
    Chain s payload (indices ++ [index]) (argument.getD current) call

/-- The entry is of a guard evaluated for the call. -/
def isGuardOf (call : Nat) : PipelineEntry γ ι → Bool
  | .guard call' _ _ _ => call' = call
  | .handler _ _ => false

/-- Whenever the handler is called, the chain of `next` calls went through all middlewares once, in
their order, the input is the decoding of the payload handed down, and all guards have passed on
it. -/
structure Enforced (payload : π) : Prop where
  middlewares : ∀ call input, .handler call input ∈ s.history → ∃ current,
    Chain s payload (List.range api.resolveMiddlewares.length) current call ∧
      api.handleInput current = some input
  guards : ∀ before after call input, s.history = before ++ .handler call input :: after →
    before.filter (isGuardOf call) = api.guards.map (.guard call · input .passes)

/-- No middleware but the last one calls `next` a second time. -/
def Fits (s : Pipeline γ π ι) : PipelineEvent π → Prop
  | .next call _ =>
    match s.calls[call]? with
    | some ⟨_, _, .middleware index⟩ =>
      index + 1 = api.resolveMiddlewares.length ∨
        ∀ c ∈ s.calls, c.parent.map Prod.fst ≠ some call
    | _ => True
  | .advance _ | .decode _ | .guard _ _ | .handle _ | .fail _ => True

end Pipeline

end Neemata.Application
