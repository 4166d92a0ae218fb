import Neemata.Core.Container
import Neemata.Lib.Trace

/-!
# Disposal in one container

Resolutions and disposals of one container, interleaved at their await points. An event is what
runs between two awaits: the part of `resolveInjectable` that the container owns (what comes before
it, the provisions and the ancestors, touches none of its tables, and the dependencies of a new
resolution are resolved by events of their own), a step of `createResolution`, its `finally`
callback, a call of `dispose` and what a disposal does once the hooks it has called have settled.
The history says in what order instances are created, returned and disposed.
-/

namespace Neemata.Core

structure InstanceHandle (ι : Type) where
  injectable : ι
  /-- What `pick` has returned; none when it has thrown. -/
  publicInstance : Option Nat
deriving DecidableEq

inductive ResolutionPhase where
  /-- The dependencies are resolved, or `create` runs. -/
  | creating
  /-- `pick` has thrown, and the dispose hook of the instance runs. -/
  | discarding
  /-- `createResolution` has settled, with the handle it returns; the `finally` callback has not
  run. -/
  | settled (handle : Option Nat)
  | cleared
deriving DecidableEq

structure Resolution (ι : Type) where
  injectable : ι
  phase : ResolutionPhase := .creating
deriving DecidableEq

/-- A disposal that waits. -/
inductive Disposal (ι : Type) where
  /-- `disposeInjectableInstances`, called by the dispose function: for the hooks of an
  injectable. -/
  | instances (injectable : ι)
  /-- The dispose function of a transient instance: for the hook of a handle, with the matched
  handles that come next. -/
  | transients (handle : Nat) (rest : List Nat)
  /-- `Container.dispose`: for the resolutions in flight. -/
  | pending
  /-- `Container.dispose`: for the hooks of an injectable (none if it had no handles), with the rest
  of the order. -/
  | order (injectable : Option ι) (rest : List ι)
  | settled
deriving DecidableEq

inductive DisposalEntry where
  | started (resolution : Nat)
  | created (handle : Nat)
  /-- A resolution returns the instance. -/
  | returned (handle : Nat)
  /-- The disposal of the instance begins: its hook, if it has one, is called. -/
  | disposal (handle : Nat)
  /-- `Container.dispose` returns. -/
  | swept
deriving DecidableEq

structure DisposalState (ι : Type) where
  container : Container ι := {}
  handles : List (InstanceHandle ι) := []
  resolutions : List (Resolution ι) := []
  disposals : List (Disposal ι) := []
  history : List DisposalEntry := []

/-- How `create` and `pick` end. -/
inductive Creation where
  | throws
  | pickThrows
  | returns (publicInstance : Nat)
deriving DecidableEq

inductive DisposalEvent (ι : Type) where
  | resolve (injectable : ι) (dependant : Option ι) (optional : Bool)
  | create (resolution : Nat) (creation : Creation)
  /-- The hook of an instance whose `pick` has thrown has settled. -/
  | discard (resolution : Nat)
  | clear (resolution : Nat)
  /-- A call of the dispose function, with the public instance. -/
  | dispose (injectable : ι) (publicInstance : Option Nat)
  | disposeContainer
  /-- What a disposal waits for has settled; `fails`: a hook has thrown. -/
  | resume (disposal : Nat) (fails : Bool)
deriving DecidableEq

namespace DisposalState

variable {ι : Type} [DecidableEq ι] (injectables : Injectables ι) (s : DisposalState ι)

def resolve (x : ι) (dependant : Option ι) (optional : Bool) : DisposalState ι :=
  if s.container.disposing then s
  else
    let s := { s with container := s.container.recordDependant x dependant }
    match s.container.lookup injectables x optional with
    | .cached handle => { s with history := s.history ++ [.returned handle] }
    | .create =>
      { s with
        container := s.container.start injectables x s.resolutions.length
        resolutions := s.resolutions ++ [{ injectable := x }]
        history := s.history ++ [.started s.resolutions.length] }
    | .inflight _ | .undefined | .unprovided | .invalidType | .stricterScope => s

def setPhase (resolution : Nat) (phase : ResolutionPhase) : DisposalState ι :=
  { s with resolutions := s.resolutions.modify resolution fun r => { r with phase } }

def create (resolution : Nat) (creation : Creation) : DisposalState ι :=
  match s.resolutions[resolution]? with
  | some ⟨x, .creating⟩ =>
    let handle := s.handles.length
    match creation with
    | .throws => s.setPhase resolution (.settled none)
    | .pickThrows =>
      { s.setPhase resolution .discarding with
        handles := s.handles ++ [{ injectable := x, publicInstance := none }]
        history := s.history ++ [.created handle, .disposal handle] }
    | .returns value =>
      { s.setPhase resolution (.settled (some handle)) with
        handles := s.handles ++ [{ injectable := x, publicInstance := some value }]
        container := s.container.register injectables x handle
        history := s.history ++ [.created handle] }
  | _ => s

def discard (resolution : Nat) : DisposalState ι :=
  match s.resolutions[resolution]? with
  | some ⟨_, .discarding⟩ => s.setPhase resolution (.settled none)
  | _ => s

def clear (resolution : Nat) : DisposalState ι :=
  match s.resolutions[resolution]? with
  | some ⟨x, .settled handle⟩ =>
    { s.setPhase resolution .cleared with
      container := s.container.clear x resolution
      history := s.history ++ handle.toList.map .returned }
  | _ => s

/-- `disposeHandle` for each of the handles, up to the await of its hook. -/
def disposeHandles (handles : List Nat) : DisposalState ι :=
  { s with
    container := { s.container with
      transientHandles := s.container.transientHandles.filter (· ∉ handles) }
    history := s.history ++ handles.map .disposal }

def setDisposal (i : Nat) (disposal : Disposal ι) : DisposalState ι :=
  { s with disposals := s.disposals.set i disposal }

/-- The transient handles with a public instance. -/
def matched (value : Nat) : List Nat :=
  s.container.transientHandles.filter fun handle =>
    (s.handles[handle]?).any (·.publicInstance = some value)

/-- The loop of `Container.dispose` over the disposal order, up to its next await. -/
def sweep (i : Nat) (order : List ι) : DisposalState ι :=
  match order with
  | [] =>
    { s.setDisposal i .settled with
      container := s.container.reset
      history := s.history ++ [.swept] }
  | x :: rest =>
    match s.container.instances.get? x with
    | none => s.setDisposal i (.order none rest)
    | some handles => (s.disposeHandles handles).setDisposal i (.order (some x) rest)

/-- `Container.dispose` once it looks at `pending`. -/
def settlePending (i : Nat) : DisposalState ι :=
  if s.container.pending = [] then s.sweep i s.container.getDisposalOrder
  else s.setDisposal i .pending

def removeInstances (x : ι) : DisposalState ι :=
  { s with container := { s.container with instances := s.container.instances.erase x } }

/-- The loop of the dispose function over the matched handles, up to its next await. -/
def disposeMatched (i : Nat) (handles : List Nat) : DisposalState ι :=
  match handles with
  | [] => s.setDisposal i .settled
  | handle :: rest => (s.disposeHandles [handle]).setDisposal i (.transients handle rest)

def dispose (x : ι) (value : Option Nat) : DisposalState ι :=
  let i := s.disposals.length
  let s := { s with disposals := s.disposals ++ [.settled] }
  if injectables.isTransient x then
    match value with
    | none => s
    | some value => s.disposeMatched i (s.matched value)
  else
    match s.container.instances.get? x with
    | none => s
    | some handles => (s.disposeHandles handles).setDisposal i (.instances x)

def disposeContainer : DisposalState ι :=
  let i := s.disposals.length
  settlePending { s with
    disposals := s.disposals ++ [.settled]
    container := { s.container with disposing := true } } i

def resume (i : Nat) (fails : Bool) : DisposalState ι :=
  match s.disposals[i]? with
  | some (.instances x) => (s.removeInstances x).setDisposal i .settled
  | some (.transients handle rest) =>
    if fails then s.setDisposal i .settled
    else
      match s.handles[handle]? with
      | none => s
      | some entry =>
        disposeMatched { s with container := s.container.splice entry.injectable handle } i rest
  | some .pending => s.settlePending i
  | some (.order none rest) => s.sweep i rest
  | some (.order (some x) rest) => (s.removeInstances x).sweep i rest
  | some .settled | none => s

def step (s : DisposalState ι) : DisposalEvent ι → DisposalState ι
  | .resolve x dependant optional => s.resolve injectables x dependant optional
  | .create resolution creation => s.create injectables resolution creation
  | .discard resolution => s.discard resolution
  | .clear resolution => s.clear resolution
  | .dispose x value => s.dispose injectables x value
  | .disposeContainer => s.disposeContainer
  | .resume i fails => s.resume i fails

end DisposalState

/-! ## What holds of the history -/

/-- After the disposal of an instance has begun it is neither disposed nor returned. -/
def DisposalEntry.Fair (earlier later : DisposalEntry) : Prop :=
  ∀ handle, earlier = .disposal handle → later ≠ .disposal handle ∧ later ≠ .returned handle

instance : DecidableRel DisposalEntry.Fair := fun earlier later =>
  match earlier with
  | .disposal handle => decidable_of_iff (later ≠ .disposal handle ∧ later ≠ .returned handle)
      ⟨fun h _ heq => by cases heq; exact h, fun h => h handle rfl⟩
  | .started _ | .created _ | .returned _ | .swept => isTrue fun _ heq => by cases heq

/-- The last `Container.dispose` that has returned is final: no resolution has started since. -/
def Final (history : List DisposalEntry) : Prop :=
  ∃ before after, history = before ++ .swept :: after ∧ ∀ resolution, .started resolution ∉ after

namespace DisposalState

variable {ι : Type} [DecidableEq ι] (injectables : Injectables ι) (s : DisposalState ι)

/-- Every instance is disposed at most once and returned only before, and after a final
`Container.dispose` every instance with a dispose hook has been disposed. -/
structure DisposedOnce : Prop where
  once : s.history.Pairwise DisposalEntry.Fair
  all : Final s.history → ∀ handle entry, s.handles[handle]? = some entry →
    injectables.hasDispose entry.injectable → .disposal handle ∈ s.history

end DisposalState

end Neemata.Core
