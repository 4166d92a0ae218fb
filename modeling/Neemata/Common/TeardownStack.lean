import Neemata.Lib.Fallible

/-!
# Unwinding a stack of teardowns

`TeardownStack.unwind` of `common/src/lifecycle.ts`: the teardowns run in the reverse order of their
registration, all of them, and what they throw is returned. An invariant that is indexed by the
teardowns that are left is carried to the end by `ensures_unwind`.
-/

namespace Neemata.Common

open Fallible

variable {τ ε ε' σ : Type}

def thrown : Except ε Unit → List ε
  | .ok _ => []
  | .error error => [error]

/-- The teardowns, the next one first. -/
def unwindNext (run : τ → EStateM ε σ Unit) : List τ → EStateM ε' σ (List ε)
  | [] => pure []
  | teardown :: teardowns => do
    let result ← outcome (run teardown)
    let errors ← unwindNext run teardowns
    pure (thrown result ++ errors)

def unwind (run : τ → EStateM ε σ Unit) (teardowns : List τ) : EStateM ε' σ (List ε) :=
  unwindNext run teardowns.reverse

/-- Whether a teardown throws or not, the next one runs. -/
theorem ensures_unwind {run : τ → EStateM ε σ Unit} {P : List τ → σ → Prop} {error : ε' → σ → Prop}
    (hrun : ∀ teardown teardowns s, P (teardown :: teardowns) s →
      Ensures (run teardown) s (fun _ => P teardowns) (fun _ => P teardowns))
    {teardowns : List τ} {s : σ} (h : P teardowns.reverse s) :
    Ensures (unwind run teardowns) s (fun _ => P []) error := by
  have hnext (teardowns : List τ) : ∀ s, P teardowns s →
      Ensures (unwindNext run teardowns) s (fun _ => P []) error := by
    induction teardowns with
    | nil =>
      intro s h
      exact ensures_pure.mpr h
    | cons teardown teardowns ih =>
      intro s h
      refine ensures_bind.mpr (ensures_outcome.mpr ((hrun teardown teardowns s h).mono ?_ ?_))
      · exact fun _ s h => (ih s h).bind fun _ _ h => ensures_pure.mpr h
      · exact fun _ s h => (ih s h).bind fun _ _ h => ensures_pure.mpr h
  exact hnext _ s h

end Neemata.Common
