import Mathlib.Tactic.Common

/-!
# Stateful programs that throw

A program changes a state and returns or throws; what it has changed stays when it throws.
`Ensures x s ok error` says that `x`, run in the state `s`, returns in a state with `ok` or throws
in one with `error`.
-/

namespace Neemata.Fallible

variable {ε ε' σ α β : Type}

def Ensures (x : EStateM ε σ α) (s : σ) (ok : α → σ → Prop) (error : ε → σ → Prop) : Prop :=
  match x s with
  | .ok result s => ok result s
  | .error e s => error e s

variable {s : σ} {ok : α → σ → Prop} {error : ε → σ → Prop}

@[simp] theorem ensures_pure {result : α} :
    Ensures (pure result : EStateM ε σ α) s ok error ↔ ok result s := Iff.rfl

@[simp] theorem ensures_throw {e : ε} :
    Ensures (throw e : EStateM ε σ α) s ok error ↔ error e s := Iff.rfl

@[simp] theorem ensures_get {ok : σ → σ → Prop} :
    Ensures (get : EStateM ε σ σ) s ok error ↔ ok s s := Iff.rfl

@[simp] theorem ensures_modify {f : σ → σ} {ok : PUnit → σ → Prop} :
    Ensures (modify f : EStateM ε σ PUnit) s ok error ↔ ok ⟨⟩ (f s) := Iff.rfl

theorem Ensures.mono {x : EStateM ε σ α} {ok' : α → σ → Prop} {error' : ε → σ → Prop}
    (h : Ensures x s ok error) (hok : ∀ result s, ok result s → ok' result s)
    (herror : ∀ e s, error e s → error' e s) : Ensures x s ok' error' := by
  unfold Ensures at h ⊢
  split <;> simp_all

theorem Ensures.and {x : EStateM ε σ α} {ok' : α → σ → Prop} {error' : ε → σ → Prop}
    (h : Ensures x s ok error) (h' : Ensures x s ok' error') :
    Ensures x s (fun result s => ok result s ∧ ok' result s) (fun e s => error e s ∧ error' e s) := by
  unfold Ensures at h h' ⊢
  split <;> simp_all

/-- Programs in a row. -/
@[simp] theorem ensures_bind {x : EStateM ε σ α} {f : α → EStateM ε σ β} {ok : β → σ → Prop} :
    Ensures (x >>= f) s ok error ↔
      Ensures x s (fun result s => Ensures (f result) s ok error) error := by
  simp only [Ensures, bind, EStateM.bind]
  cases x s <;> rfl

theorem Ensures.bind {x : EStateM ε σ α} {f : α → EStateM ε σ β} {mid : α → σ → Prop}
    {ok : β → σ → Prop} (h : Ensures x s mid error)
    (hf : ∀ result s, mid result s → Ensures (f result) s ok error) :
    Ensures (x >>= f) s ok error :=
  ensures_bind.mpr (h.mono hf fun _ _ h => h)

/-- What is caught is handled in the state in which it was thrown. -/
theorem ensures_tryCatch {x : EStateM ε σ α} {handle : ε → EStateM ε σ α}
    {thrown : ε → σ → Prop} (h : Ensures x s ok thrown)
    (hhandle : ∀ e s, thrown e s → Ensures (handle e) s ok error) :
    Ensures (tryCatch x handle) s ok error := by
  unfold Ensures at h
  have hrun : (tryCatch x handle : EStateM ε σ α) s = match x s with
      | .ok result s => .ok result s
      | .error e s => handle e s := by
    simp only [MonadExcept.tryCatch, EStateM.tryCatch, tryCatchThe, MonadExceptOf.tryCatch]
    cases x s <;> rfl
  unfold Ensures
  rw [hrun]
  split at h
  · exact h
  · exact hhandle _ _ h

/-- What a program returns or throws. -/
def outcome (x : EStateM ε σ α) : EStateM ε' σ (Except ε α) := fun s =>
  match x s with
  | .ok result s => .ok (.ok result) s
  | .error e s => .ok (.error e) s

@[simp] theorem ensures_outcome {x : EStateM ε σ α} {ok : Except ε α → σ → Prop}
    {error : ε' → σ → Prop} : Ensures (outcome x) s ok error ↔
      Ensures x s (fun result => ok (.ok result)) (fun e => ok (.error e)) := by
  unfold Ensures outcome
  cases x s <;> rfl

/-- The state a program ends in. -/
def after (x : EStateM ε σ α) (s : σ) : σ :=
  match x s with
  | .ok _ s | .error _ s => s

theorem Ensures.after {x : EStateM ε σ α} {P : σ → Prop}
    (h : Ensures x s (fun _ => P) (fun _ => P)) : P (after x s) := by
  unfold Ensures at h
  unfold Fallible.after
  split <;> simp_all

end Neemata.Fallible
