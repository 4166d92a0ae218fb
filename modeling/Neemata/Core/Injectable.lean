import Mathlib.Tactic.Common

/-!
# Injectables

The declared injectables of `core/src/injectables.ts`. A scope is a position in the order of the
scopes or the transient lifetime, which has no position. Dependency records are frozen when an
injectable is created, so the declared graph is acyclic: `Injectables` carries a rank that falls
along it.
-/

namespace Neemata.Core

/-- `Exclude<Scope, Scope.Transient>`. -/
inductive Position where
  | global
  | connection
  | call
deriving DecidableEq

/-- `ScopeOrder`. -/
def Position.order : Position → Nat
  | .global => 1
  | .connection => 2
  | .call => 3

inductive Scope where
  | position (position : Position)
  | transient
deriving DecidableEq

structure Dependency (ι : Type) where
  injectable : ι
  /-- `kOptionalDependency`. -/
  optional : Bool := false
deriving DecidableEq

/-- What makes an injectable lazy, a value or a factory. -/
inductive Kind where
  | lazy
  | value (value : Nat)
  | factory (dispose : Bool)
deriving DecidableEq

structure Definition (ι : Type) where
  scope : Scope
  dependencies : List (Dependency ι) := []
  kind : Kind

structure Injectables (ι : Type) where
  definition : ι → Definition ι
  rank : ι → Nat
  frozen : ∀ x, ∀ dependency ∈ (definition x).dependencies, rank dependency.injectable < rank x

namespace Injectables

variable {ι : Type} (injectables : Injectables ι)

def isTransient (x : ι) : Bool := (injectables.definition x).scope = .transient

/-- The injectable has a dispose hook. -/
def hasDispose (x : ι) : Bool := (injectables.definition x).kind = .factory true

/-- The positional scope of an injectable over dependencies no deeper than `depth`. -/
def effectiveScopeTo : Nat → ι → Position
  | depth, x =>
    let own := match (injectables.definition x).scope with
      | .position position => position
      | .transient => .global
    match depth with
    | 0 => own
    | depth + 1 =>
      (injectables.definition x).dependencies.foldl (fun scope dependency =>
        let dependencyScope := effectiveScopeTo depth dependency.injectable
        if scope.order < dependencyScope.order then dependencyScope else scope) own

/-- `getEffectiveInjectableScope`. -/
def effectiveScope (x : ι) : Position := injectables.effectiveScopeTo (injectables.rank x) x

end Injectables

end Neemata.Core
