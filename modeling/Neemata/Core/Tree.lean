import Neemata.Core.Container
import Neemata.Lib.Trace
import Mathlib.Data.Fintype.Card
import Mathlib.Logic.Function.Basic

/-!
# Resolution in a tree of containers

`resolveInjectable` and `createResolution` of `core/src/container.ts` over containers with parents,
whose provisions are fixed and where nothing is disposed. The synchronous part of a resolve goes from
one activation of `resolveInjectable` to the next (`tick`): the stack holds the creations whose
dependencies are being resolved, innermost first. Everything else, a further resolve included, comes
when the stack is empty. The clone of an inline injection is an injectable like any other.
-/

namespace Neemata.Core

/-- The containers of a tree; a parent has a smaller number. -/
structure Family (ι : Type) where
  scope : Nat → Position
  parent : Nat → Option Nat
  provisions : Nat → OrdMap ι (ProvisionEntry ι)
  rooted : ∀ c p, parent c = some p → p < c

inductive Value where
  | instance (handle : Nat)
  | provided (value : Nat)
  | undefined
deriving DecidableEq

inductive ResolutionError (ι : Type) where
  | disposing
  | circular (cycle : List ι)
  | invalidScope (dependant injectable : ι)
  | unprovided (injectable : ι) (path : List ι)
  | invalidType
  | stricterScope (injectable : ι) (path : List ι)
  /-- `create` or `pick` has thrown. -/
  | thrown
deriving DecidableEq

inductive Promise (ι : Type) where
  | fulfilled (value : Value)
  | rejected (error : ResolutionError ι)
  | resolution (resolution : Nat)
deriving DecidableEq

/-- `ResolutionRequest`. -/
structure Request (ι : Type) where
  dependant : Option ι := none
  optional : Bool := false
  chain : List ι := []
deriving DecidableEq

/-- A call of `resolveInjectable`. -/
structure Activation (ι : Type) where
  container : Nat
  injectable : ι
  request : Request ι := {}
deriving DecidableEq

/-- What one call of `resolveInjectable` comes to. -/
inductive Outcome (ι : Type) where
  | settle (promise : Promise ι)
  /-- The call ends with another call: along an alias or to the parent. -/
  | call (activation : Activation ι)
  | create
deriving DecidableEq

/-- A call of `createResolution` whose dependencies are being resolved; `chain` ends with its own
injectable. -/
structure Frame (ι : Type) where
  container : Nat
  injectable : ι
  chain : List ι
  todo : List (Dependency ι)
  promises : List (Promise ι) := []
deriving DecidableEq

inductive CreationPhase (ι : Type) where
  /-- Awaits the dependencies. -/
  | context
  /-- `create` has been called. -/
  | creating (context : List Value)
  /-- `pick` has thrown, and the dispose hook of the instance runs. -/
  | discarding
  /-- The resolution has settled; the `finally` callback has not run. -/
  | settled (result : Except (ResolutionError ι) Value)
  | cleared (result : Except (ResolutionError ι) Value)

structure TreeResolution (ι : Type) where
  container : Nat
  injectable : ι
  awaits : List (Promise ι)
  phase : CreationPhase ι := .context

/-- A created instance, with the resolved dependencies it was created from. -/
structure TreeHandle (ι : Type) where
  container : Nat
  injectable : ι
  context : List Value
deriving DecidableEq

/-- A call of `Container.resolve` that has returned its promise. -/
structure ResolveCall (ι : Type) where
  container : Nat
  injectable : ι
  promise : Promise ι
deriving DecidableEq

structure Tree (ι : Type) where
  containers : Nat → Container ι
  resolutions : List (TreeResolution ι) := []
  handles : List (TreeHandle ι) := []
  /-- The call of `Container.resolve` on the stack. -/
  caller : Option (Nat × ι) := none
  frames : List (Frame ι) := []
  current : Option (Activation ι) := none
  calls : List (ResolveCall ι) := []

inductive TreeEvent (ι : Type) where
  | resolve (container : Nat) (injectable : ι)
  | tick
  /-- The dependencies of a resolution have settled. -/
  | context (resolution : Nat)
  | create (resolution : Nat) (succeeds : Bool)
  /-- `create` returns and `pick` throws. -/
  | pickThrows (resolution : Nat)
  | discard (resolution : Nat)
  | clear (resolution : Nat)
deriving DecidableEq

def Family.tree {ι : Type} (family : Family ι) : Tree ι where
  containers c :=
    { scope := family.scope c, parent := family.parent c, provisions := family.provisions c }

/-- The result a resolution has settled with. -/
def CreationPhase.result? {ι : Type} : CreationPhase ι → Option (Except (ResolutionError ι) Value)
  | .settled result | .cleared result => some result
  | .context | .creating _ | .discarding => none

namespace Tree

variable {ι : Type} [DecidableEq ι] (injectables : Injectables ι) (t : Tree ι)

def modifyContainer (c : Nat) (f : Container ι → Container ι) : Tree ι :=
  { t with containers := Function.update t.containers c (f (t.containers c)) }

/-- `contains`, with as many ancestors as a container with the number can have. -/
def containsTo : Nat → Nat → ι → Bool
  | 0, _, _ => false
  | depth + 1, c, x =>
    (t.containers c).owns x ||
      match (t.containers c).parent with
      | some parent => containsTo depth parent x
      | none => false

def contains (c : Nat) (x : ι) : Bool := t.containsTo (c + 1) c x

/-- The parent a resolution is delegated to. -/
def delegate (c : Nat) (x : ι) : Option Nat :=
  match (t.containers c).parent with
  | some parent =>
    if !injectables.isTransient x && (t.contains parent x ||
        ((t.containers parent).satisfies injectables x &&
          (t.containers parent).scope.order < (t.containers c).scope.order)) then some parent
    else none
  | none => none

/-- The rejections of `resolveInjectable` before it looks at the provisions. -/
def guard (a : Activation ι) : Option (ResolutionError ι) :=
  if (t.containers a.container).disposing then some .disposing
  else if a.injectable ∈ a.request.chain then
    some (.circular (a.request.chain.drop (a.request.chain.idxOf a.injectable) ++ [a.injectable]))
  else
    match a.request.dependant with
    | some dependant =>
      if (injectables.effectiveScope dependant).order <
          (injectables.effectiveScope a.injectable).order then
        some (.invalidScope dependant a.injectable)
      else none
    | none => none

/-- `resolveInjectable` once the container owns the resolution. -/
def resolveOwned (a : Activation ι) : Outcome ι :=
  match (t.containers a.container).lookup injectables a.injectable a.request.optional with
  | .cached handle => .settle (.fulfilled (.instance handle))
  | .inflight resolution => .settle (.resolution resolution)
  | .undefined => .settle (.fulfilled .undefined)
  | .unprovided => .settle (.rejected (.unprovided a.injectable a.request.chain))
  | .invalidType => .settle (.rejected .invalidType)
  | .stricterScope => .settle (.rejected (.stricterScope a.injectable a.request.chain))
  | .create => .create

def resolveInjectable (a : Activation ι) : Tree ι × Outcome ι :=
  match t.guard injectables a with
  | some error => (t, .settle (.rejected error))
  | none =>
    match (t.containers a.container).provisions.get? a.injectable with
    | some (.value value) => (t, .settle (.fulfilled (.provided value)))
    | some (.aliasOf target) =>
      (t, .call { a with
        injectable := target
        request := { a.request with chain := a.request.chain ++ [a.injectable] } })
    | none =>
      match (injectables.definition a.injectable).kind with
      | .value value => (t, .settle (.fulfilled (.provided value)))
      | _ =>
        match t.delegate injectables a.container a.injectable with
        | some parent => (t, .call { a with container := parent })
        | none =>
          let t := t.modifyContainer a.container
            (·.recordDependant a.injectable a.request.dependant)
          (t, t.resolveOwned injectables a)

/-- A promise goes to the creation on top of the stack, or to the caller. -/
def deliver (promise : Promise ι) : Tree ι :=
  match t.frames with
  | frame :: frames =>
    { t with
      current := none
      frames := { frame with promises := frame.promises ++ [promise] } :: frames }
  | [] =>
    { t with
      current := none
      caller := none
      calls := t.calls ++ t.caller.toList.map fun (container, injectable) =>
        { container, injectable, promise } }

def activate (a : Activation ι) : Tree ι :=
  let (t, outcome) := t.resolveInjectable injectables a
  match outcome with
  | .settle promise => t.deliver promise
  | .call activation => { t with current := some activation }
  | .create =>
    { t with
      current := none
      frames :=
        { container := a.container
          injectable := a.injectable
          chain := a.request.chain ++ [a.injectable]
          todo := (injectables.definition a.injectable).dependencies } :: t.frames }

/-- `createResolution` has called `resolveInjectable` for every dependency: the resolution enters the
tables of the container. -/
def suspend (frame : Frame ι) (frames : List (Frame ι)) : Tree ι :=
  let resolution := t.resolutions.length
  let started := t.modifyContainer frame.container
    (·.start injectables frame.injectable resolution)
  deliver { started with
    frames
    resolutions := t.resolutions ++
      [{ container := frame.container, injectable := frame.injectable,
         awaits := frame.promises }] } (.resolution resolution)

def tick : Tree ι :=
  match t.current, t.frames with
  | some a, _ => t.activate injectables a
  | none, frame :: frames =>
    match frame.todo with
    | dependency :: todo =>
      { t with
        frames := { frame with todo } :: frames
        current := some
          { container := frame.container
            injectable := dependency.injectable
            request :=
              { dependant := some frame.injectable
                optional := dependency.optional
                chain := frame.chain } } }
    | [] => t.suspend injectables frame frames
  | none, [] => t

/-- Nothing is on the stack. -/
def isIdle : Bool := t.current.isNone && t.frames.isEmpty

def setPhase (resolution : Nat) (phase : CreationPhase ι) : Tree ι :=
  { t with resolutions := t.resolutions.modify resolution fun r => { r with phase } }

/-- The result a promise has settled with. -/
def result? : Promise ι → Option (Except (ResolutionError ι) Value)
  | .fulfilled value => some (.ok value)
  | .rejected error => some (.error error)
  | .resolution resolution => t.resolutions[resolution]?.bind (·.phase.result?)

/-- `Promise.all`: the first rejection, or all the values. -/
def all? (promises : List (Promise ι)) : Option (Except (ResolutionError ι) (List Value)) :=
  match promises with
  | [] => some (.ok [])
  | promise :: promises =>
    match t.result? promise, all? promises with
    | some (.error error), _ => some (.error error)
    | _, some (.error error) => some (.error error)
    | some (.ok value), some (.ok values) => some (.ok (value :: values))
    | _, none | none, _ => none

/-- The dependency context of a resolution has settled: `create` is called, or it fails. -/
def context (resolution : Nat) : Tree ι :=
  match t.resolutions[resolution]? with
  | some ⟨_, _, awaits, .context⟩ =>
    match t.all? awaits with
    | some (.ok context) => t.setPhase resolution (.creating context)
    | some (.error error) => t.setPhase resolution (.settled (.error error))
    | none => t
  | _ => t

def create (resolution : Nat) (succeeds : Bool) : Tree ι :=
  match t.resolutions[resolution]? with
  | some ⟨c, x, _, .creating context⟩ =>
    if succeeds then
      let handle := t.handles.length
      { (t.setPhase resolution (.settled (.ok (.instance handle)))).modifyContainer c
          (·.register injectables x handle) with
        handles := t.handles ++ [{ container := c, injectable := x, context }] }
    else t.setPhase resolution (.settled (.error .thrown))
  | _ => t

def pickThrows (resolution : Nat) : Tree ι :=
  match t.resolutions[resolution]? with
  | some ⟨_, _, _, .creating _⟩ => t.setPhase resolution .discarding
  | _ => t

def discard (resolution : Nat) : Tree ι :=
  match t.resolutions[resolution]? with
  | some ⟨_, _, _, .discarding⟩ => t.setPhase resolution (.settled (.error .thrown))
  | _ => t

/-- The `finally` callback. -/
def clear (resolution : Nat) : Tree ι :=
  match t.resolutions[resolution]? with
  | some ⟨c, x, _, .settled result⟩ =>
    (t.setPhase resolution (.cleared result)).modifyContainer c (·.clear x resolution)
  | _ => t

def step (t : Tree ι) : TreeEvent ι → Tree ι
  | .tick => t.tick injectables
  | .resolve c x =>
    if t.isIdle then
      { t with caller := some (c, x), current := some { container := c, injectable := x } }
    else t
  | .context resolution => if t.isIdle then t.context resolution else t
  | .create resolution succeeds =>
    if t.isIdle then t.create injectables resolution succeeds else t
  | .pickThrows resolution => if t.isIdle then t.pickThrows resolution else t
  | .discard resolution => if t.isIdle then t.discard resolution else t
  | .clear resolution => if t.isIdle then t.clear resolution else t

end Tree

end Neemata.Core
