import Neemata.Core.Injectable
import Neemata.Lib.SetIndex
import Neemata.Lib.PostOrder

/-!
# The container

The tables of `Container` of `core/src/container.ts` and the functions that read and write them. A
handle, a resolution and a container are named by their numbers.
-/

namespace Neemata.Core

inductive ProvisionEntry (ι : Type) where
  | value (value : Nat)
  | aliasOf (target : ι)
deriving DecidableEq

structure Container (ι : Type) where
  scope : Position := .global
  parent : Option Nat := none
  provisions : OrdMap ι (ProvisionEntry ι) := .empty
  instances : OrdMap ι (List Nat) := .empty
  transientHandles : List Nat := []
  resolving : OrdMap ι Nat := .empty
  pending : List Nat := []
  dependants : OrdMap ι (List ι) := .empty
  disposing : Bool := false

/-- What `resolveInjectable` finds in the container that owns the resolution. -/
inductive Owned where
  | cached (handle : Nat)
  | inflight (resolution : Nat)
  /-- An optional dependency that is not provided. -/
  | undefined
  | unprovided
  | invalidType
  | stricterScope
  | create
deriving DecidableEq

namespace Container

variable {ι : Type} [DecidableEq ι] (injectables : Injectables ι) (container : Container ι)

def has (x : ι) : Bool := (container.instances.get? x).isSome

def owns (x : ι) : Bool :=
  (container.provisions.get? x).isSome || (container.instances.get? x).isSome ||
    (container.resolving.get? x).isSome

def satisfies (x : ι) : Bool := (injectables.effectiveScope x).order ≤ container.scope.order

/-- The handles of an injectable. -/
def handlesOf (x : ι) : List Nat := (container.instances.get? x).getD []

/-- The edge from a dependency to the injectable it is resolved for. -/
def recordDependant (x : ι) (dependant : Option ι) : Container ι :=
  match dependant with
  | some dependant =>
    { container with dependants := SetIndex.track container.dependants x dependant }
  | none => container

/-- The rest of `resolveInjectable` once the container owns the resolution. -/
def lookup (x : ι) (optional : Bool) : Owned :=
  let isTransient := injectables.isTransient x
  match if isTransient then none else (container.handlesOf x).head? with
  | some handle => .cached handle
  | none =>
    match if isTransient then none else container.resolving.get? x with
    | some resolution => .inflight resolution
    | none =>
      match (injectables.definition x).kind with
      | .lazy => if optional then .undefined else .unprovided
      | .value _ => .invalidType
      | .factory _ => if container.satisfies injectables x then .create else .stricterScope

/-- A created resolution is entered in `pending` and, unless it is transient, in `resolving`. -/
def start (x : ι) (resolution : Nat) : Container ι :=
  { container with
    pending := container.pending ++ [resolution]
    resolving := if injectables.isTransient x then container.resolving
      else container.resolving.set x resolution }

/-- The `finally` callback of a resolution. -/
def clear (x : ι) (resolution : Nat) : Container ι :=
  { container with
    resolving := container.resolving.erase x
    pending := container.pending.erase resolution }

/-- A created instance is tracked, unless it is a transient without a dispose hook. -/
def register (x : ι) (handle : Nat) : Container ι :=
  if injectables.isTransient x then
    if injectables.hasDispose x then
      { container with
        instances := container.instances.set x (container.handlesOf x ++ [handle])
        transientHandles := container.transientHandles ++ [handle] }
    else container
  else { container with instances := container.instances.set x (container.handlesOf x ++ [handle]) }

/-- A disposed transient handle leaves the handles of its injectable. -/
def splice (x : ι) (handle : Nat) : Container ι :=
  match container.instances.get? x with
  | none => container
  | some handles =>
    let rest := handles.erase handle
    { container with
      instances := if rest = [] then container.instances.erase x
        else container.instances.set x rest }

def getDisposalOrder : List ι :=
  Walk.postOrder (fun x => (container.dependants.get? x).getD []) container.has
    container.instances.keys

/-- The tables after `dispose`. -/
def reset : Container ι :=
  { container with
    instances := .empty
    transientHandles := []
    resolving := .empty
    dependants := .empty
    disposing := false }

/-! ## What the handles are after each operation -/

section Handles

variable {container} (x y : ι) (handle : Nat)

theorem mem_handlesOf {handle : Nat} : handle ∈ container.handlesOf x ↔
    ∃ handles, container.instances.get? x = some handles ∧ handle ∈ handles := by
  unfold handlesOf
  cases container.instances.get? x with
  | none => simp
  | some handles => simp

theorem handlesOf_of_get? {x : ι} {handles : List Nat}
    (h : container.instances.get? x = some handles) : container.handlesOf x = handles := by
  rw [handlesOf, h]
  rfl

@[simp] theorem handlesOf_recordDependant (dependant : Option ι) :
    (container.recordDependant x dependant).handlesOf y = container.handlesOf y := by
  cases dependant <;> rfl

@[simp] theorem handlesOf_start (resolution : Nat) :
    (container.start injectables x resolution).handlesOf y = container.handlesOf y := rfl

/-- The instance is entered under its injectable. -/
def tracks (injectables : Injectables ι) (x : ι) : Prop :=
  injectables.isTransient x → injectables.hasDispose x

theorem handlesOf_register (htracks : tracks injectables x) :
    (container.register injectables x handle).handlesOf y =
      if y = x then container.handlesOf x ++ [handle] else container.handlesOf y := by
  unfold register
  split
  · next htransient =>
    rw [if_pos (htracks htransient)]
    simp only [handlesOf, OrdMap.get?_set]
    split <;> rfl
  · simp only [handlesOf, OrdMap.get?_set]
    split <;> rfl

theorem register_of_not_tracks (htracks : ¬ tracks injectables x) :
    container.register injectables x handle = container := by
  obtain ⟨htransient, hdispose⟩ := Classical.not_imp.mp htracks
  rw [register, if_pos htransient, if_neg hdispose]

theorem handlesOf_splice :
    (container.splice x handle).handlesOf y =
      if y = x then (container.handlesOf x).erase handle else container.handlesOf y := by
  unfold splice handlesOf
  cases hget : container.instances.get? x with
  | none =>
    dsimp only
    by_cases heq : y = x
    · simp [heq, hget]
    · simp [heq]
  | some handles =>
    dsimp only
    by_cases hempty : handles.erase handle = []
    · rw [if_pos hempty, OrdMap.get?_erase]
      by_cases heq : y = x
      · simp [heq, hempty]
      · simp [heq]
    · rw [if_neg hempty, OrdMap.get?_set]
      by_cases heq : y = x
      · simp [heq]
      · simp [heq]

variable (container) in
theorem register_frame : (container.register injectables x handle).pending = container.pending ∧
    (container.register injectables x handle).resolving = container.resolving ∧
    (container.register injectables x handle).disposing = container.disposing := by
  unfold register
  split
  · split <;> exact ⟨rfl, rfl, rfl⟩
  · exact ⟨rfl, rfl, rfl⟩

variable (container) in
theorem splice_frame : (container.splice x handle).pending = container.pending ∧
    (container.splice x handle).resolving = container.resolving ∧
    (container.splice x handle).disposing = container.disposing := by
  unfold splice
  split <;> exact ⟨rfl, rfl, rfl⟩

variable (container) in
/-- What `lookup` finds, and when. -/
inductive Found (optional : Bool) : Owned → Prop
  | cached {handle : Nat} (transient : ¬ injectables.isTransient x)
      (handles : (container.handlesOf x).head? = some handle) : Found optional (.cached handle)
  | inflight {resolution : Nat} (transient : ¬ injectables.isTransient x)
      (resolving : container.resolving.get? x = some resolution) :
    Found optional (.inflight resolution)
  | undefined (isOptional : optional = true) : Found optional .undefined
  | unprovided : Found optional .unprovided
  | invalidType : Found optional .invalidType
  | stricterScope : Found optional .stricterScope
  | create (fresh : ¬ injectables.isTransient x →
        container.handlesOf x = [] ∧ container.resolving.get? x = none)
      (factory : ∃ dispose, (injectables.definition x).kind = .factory dispose) :
    Found optional .create

variable (container) in
theorem found (optional : Bool) :
    Found injectables container x optional (container.lookup injectables x optional) := by
  unfold lookup
  dsimp only
  split
  · next handle hhandle =>
    split at hhandle
    · cases hhandle
    · next htransient => exact .cached htransient hhandle
  · next hhandle =>
    split
    · next resolution hresolution =>
      split at hresolution
      · cases hresolution
      · next htransient => exact .inflight htransient hresolution
    · next hresolution =>
      split
      · split
        · next hoptional => exact .undefined hoptional
        · exact .unprovided
      · exact .invalidType
      · next dispose hkind =>
        split
        · refine .create (fun htransient => ?_) ⟨dispose, hkind⟩
          rw [if_neg htransient] at hhandle hresolution
          exact ⟨List.head?_eq_none_iff.mp hhandle, hresolution⟩
        · exact .stricterScope

theorem mem_getDisposalOrder {x : ι} (h : container.handlesOf x ≠ []) :
    x ∈ container.getDisposalOrder := by
  cases hget : container.instances.get? x with
  | none => exact absurd (by rw [handlesOf, hget]; rfl) h
  | some handles =>
    refine Walk.mem_postOrder ?_ (by rw [has, hget]; rfl)
    exact Decidable.not_not.mp fun hkeys => by simp [OrdMap.get?_eq_none_iff.mpr hkeys] at hget

/-- No injectable is entered without a handle. -/
def NoEmpty (container : Container ι) : Prop := SetIndex.NoEmpty container.instances

theorem NoEmpty.register (h : container.NoEmpty) :
    (container.register injectables x handle).NoEmpty := by
  have hset : SetIndex.NoEmpty (container.instances.set x (container.handlesOf x ++ [handle])) := by
    intro y handles hget
    rw [OrdMap.get?_set] at hget
    split at hget
    · cases hget
      simp
    · exact h y handles hget
  unfold Container.register
  split
  · split
    · exact hset
    · exact h
  · exact hset

theorem NoEmpty.splice (h : container.NoEmpty) : (container.splice x handle).NoEmpty := by
  unfold Container.splice
  split
  · exact h
  · next handles hget =>
    intro y rest hrest
    dsimp only at hrest
    split at hrest
    · rw [OrdMap.get?_erase] at hrest
      split at hrest
      · cases hrest
      · exact h y rest hrest
    · next hne =>
      rw [OrdMap.get?_set] at hrest
      split at hrest
      · cases hrest
        exact hne
      · exact h y rest hrest

end Handles

end Container

end Neemata.Core
