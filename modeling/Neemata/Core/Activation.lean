import Neemata.Core.Tree
import Neemata.Lib.Entries

/-!
# What one activation can do

`activated` says once what a call of `resolveInjectable` comes to; everything that is proved about the
traversal of the dependencies goes through it.
-/

namespace Neemata.Core.Tree

variable {ι : Type} [DecidableEq ι] {injectables : Injectables ι} {t : Tree ι}

omit [DecidableEq ι] in
theorem containers_modifyContainer (c c' : Nat) (f : Container ι → Container ι) :
    (t.modifyContainer c f).containers c' =
      if c' = c then f (t.containers c) else t.containers c' := by
  simp only [modifyContainer, Function.update_apply]

omit [DecidableEq ι] in
theorem deliver_frame (promise : Promise ι) : (t.deliver promise).containers = t.containers ∧
    (t.deliver promise).resolutions = t.resolutions ∧ (t.deliver promise).handles = t.handles ∧
    (t.deliver promise).current = none := by
  unfold Tree.deliver
  split <;> exact ⟨rfl, rfl, rfl, rfl⟩

omit [DecidableEq ι] in
theorem frames_deliver (promise : Promise ι) : (t.deliver promise).frames =
    match t.frames with
    | frame :: frames => { frame with promises := frame.promises ++ [promise] } :: frames
    | [] => [] := by
  unfold Tree.deliver
  cases t.frames with
  | nil => rfl
  | cons frame frames => rfl

/-- The promise is for an instance that some container owns. -/
def IsOwned : Promise ι → Prop
  | .fulfilled (.instance _) | .resolution _ => True
  | .fulfilled (.provided _) | .fulfilled .undefined | .rejected _ => False

/-- Neither the guards nor the provisions nor an ancestor answers the activation. -/
structure Owns (injectables : Injectables ι) (t : Tree ι) (a : Activation ι) : Prop where
  guard : t.guard injectables a = none
  provision : (t.containers a.container).provisions.get? a.injectable = none
  kind : ∀ value, (injectables.definition a.injectable).kind ≠ .value value
  delegate : t.delegate injectables a.container a.injectable = none

/-- The tree with the edge of the activation. -/
def recorded (t : Tree ι) (a : Activation ι) : Tree ι :=
  t.modifyContainer a.container (·.recordDependant a.injectable a.request.dependant)

/-- The creation that an activation puts on the stack. -/
def Activation.frame (injectables : Injectables ι) (a : Activation ι) : Frame ι where
  container := a.container
  injectable := a.injectable
  chain := a.request.chain ++ [a.injectable]
  todo := (injectables.definition a.injectable).dependencies

/-- What an activation comes to. -/
inductive Activated (injectables : Injectables ι) (t : Tree ι) (a : Activation ι) : Tree ι → Prop
  | reject {error : ResolutionError ι} (guard : t.guard injectables a = some error) :
    Activated injectables t a (t.deliver (.rejected error))
  | provided {value : Nat} (guard : t.guard injectables a = none)
      (provision : (t.containers a.container).provisions.get? a.injectable = some (.value value)) :
    Activated injectables t a (t.deliver (.fulfilled (.provided value)))
  | aliasOf {target : ι} (guard : t.guard injectables a = none)
      (provision : (t.containers a.container).provisions.get? a.injectable = some (.aliasOf target)) :
    Activated injectables t a { t with
      current := some { a with
        injectable := target
        request := { a.request with chain := a.request.chain ++ [a.injectable] } } }
  | constant {value : Nat} (guard : t.guard injectables a = none)
      (provision : (t.containers a.container).provisions.get? a.injectable = none)
      (kind : (injectables.definition a.injectable).kind = .value value) :
    Activated injectables t a (t.deliver (.fulfilled (.provided value)))
  | delegate {parent : Nat} (guard : t.guard injectables a = none)
      (provision : (t.containers a.container).provisions.get? a.injectable = none)
      (kind : ∀ value, (injectables.definition a.injectable).kind ≠ .value value)
      (delegate : t.delegate injectables a.container a.injectable = some parent) :
    Activated injectables t a { t with current := some { a with container := parent } }
  | cached {handle : Nat} (owns : Owns injectables t a)
      (transient : ¬ injectables.isTransient a.injectable)
      (handles : ((t.containers a.container).handlesOf a.injectable).head? = some handle) :
    Activated injectables t a ((recorded t a).deliver (.fulfilled (.instance handle)))
  | inflight {resolution : Nat} (owns : Owns injectables t a)
      (transient : ¬ injectables.isTransient a.injectable)
      (resolving : (t.containers a.container).resolving.get? a.injectable = some resolution) :
    Activated injectables t a ((recorded t a).deliver (.resolution resolution))
  | unowned {promise : Promise ι} (owns : Owns injectables t a) (unowned : ¬ IsOwned promise)
      (optional : ∀ value, promise = .fulfilled value → a.request.optional) :
    Activated injectables t a ((recorded t a).deliver promise)
  | create (owns : Owns injectables t a)
      (fresh : ¬ injectables.isTransient a.injectable →
        (t.containers a.container).handlesOf a.injectable = [] ∧
        (t.containers a.container).resolving.get? a.injectable = none)
      (factory : ∃ dispose, (injectables.definition a.injectable).kind = .factory dispose) :
    Activated injectables t a { recorded t a with
      current := none
      frames := Activation.frame injectables a :: t.frames }

theorem recorded_containers (a : Activation ι) (c : Nat) : (recorded t a).containers c =
    if c = a.container then
      (t.containers a.container).recordDependant a.injectable a.request.dependant
    else t.containers c :=
  containers_modifyContainer a.container c (·.recordDependant a.injectable a.request.dependant)

theorem resolveInjectable_delegate {a : Activation ι} {parent : Nat}
    (guard : t.guard injectables a = none)
    (provision : (t.containers a.container).provisions.get? a.injectable = none)
    (kind : ∀ value, (injectables.definition a.injectable).kind ≠ .value value)
    (delegate : t.delegate injectables a.container a.injectable = some parent) :
    t.resolveInjectable injectables a = (t, .call { a with container := parent }) := by
  unfold resolveInjectable
  rw [guard]
  dsimp only
  rw [provision]
  dsimp only
  split
  · next value hkind => exact absurd hkind (kind value)
  · rw [delegate]

theorem Owns.resolveInjectable {a : Activation ι} (h : Owns injectables t a) :
    t.resolveInjectable injectables a =
      (recorded t a, (recorded t a).resolveOwned injectables a) := by
  unfold Tree.resolveInjectable
  rw [h.guard]
  dsimp only
  rw [h.provision]
  dsimp only
  split
  · next value hkind => exact absurd hkind (h.kind value)
  · rw [h.delegate]
    rfl

theorem Owns.activated {a : Activation ι} (h : Owns injectables t a) :
    Activated injectables t a (t.activate injectables a) := by
  have hfound := Container.found injectables ((recorded t a).containers a.container) a.injectable
    a.request.optional
  have hresolving : ((recorded t a).containers a.container).resolving =
      (t.containers a.container).resolving := by
    rw [recorded_containers, if_pos rfl]
    cases a.request.dependant <;> rfl
  have hhandles : ((recorded t a).containers a.container).handlesOf a.injectable =
      (t.containers a.container).handlesOf a.injectable := by
    rw [recorded_containers, if_pos rfl, Container.handlesOf_recordDependant]
  unfold activate
  rw [h.resolveInjectable]
  dsimp only
  unfold resolveOwned
  generalize ((recorded t a).containers a.container).lookup injectables a.injectable
    a.request.optional = owned at hfound ⊢
  cases hfound with
  | cached htransient hcached => exact .cached h htransient (hhandles ▸ hcached)
  | inflight htransient hinflight => exact .inflight h htransient (hresolving ▸ hinflight)
  | undefined hoptional => exact .unowned h id fun _ _ => hoptional
  | unprovided | invalidType | stricterScope => exact .unowned h id fun _ heq => by cases heq
  | create hfresh hfactory =>
    rw [hhandles, hresolving] at hfresh
    exact .create h hfresh hfactory

theorem activated (a : Activation ι) : Activated injectables t a (t.activate injectables a) := by
  cases hguard : t.guard injectables a with
  | some error =>
    simp only [activate, resolveInjectable, hguard]
    exact .reject hguard
  | none =>
    cases hprovision : (t.containers a.container).provisions.get? a.injectable with
    | some entry =>
      simp only [activate, resolveInjectable, hguard, hprovision]
      cases entry with
      | value value => exact .provided hguard hprovision
      | aliasOf target => exact .aliasOf hguard hprovision
    | none =>
      by_cases hvalue : ∃ value, (injectables.definition a.injectable).kind = .value value
      · obtain ⟨value, hkind⟩ := hvalue
        simp only [activate, resolveInjectable, hguard, hprovision, hkind]
        exact .constant hguard hprovision hkind
      · have hkind : ∀ value, (injectables.definition a.injectable).kind ≠ .value value :=
          fun value heq => hvalue ⟨value, heq⟩
        cases hdelegate : t.delegate injectables a.container a.injectable with
        | some parent =>
          rw [activate, resolveInjectable_delegate hguard hprovision hkind hdelegate]
          exact .delegate hguard hprovision hkind hdelegate
        | none => exact Owns.activated ⟨hguard, hprovision, hkind, hdelegate⟩

end Neemata.Core.Tree
