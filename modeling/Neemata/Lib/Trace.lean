import Mathlib.Tactic.Common

/-!
# Runs of a deterministic step function

A run feeds a list of labels to a step function. An invariant of the step is an invariant of the
run (`run_inv`), and a reflexive and transitive relation between the states of one step holds
between the two ends of a run (`run_rel`); both under a condition on the labels.
-/

namespace Neemata.Trace

variable {σ α : Type*} {step : σ → α → σ}

/-- The state after the labels `l`. -/
def run (step : σ → α → σ) (s : σ) (l : List α) : σ := l.foldl step s

@[simp] theorem run_nil (s : σ) : run step s [] = s := rfl

@[simp] theorem run_cons (s : σ) (a : α) (l : List α) :
    run step s (a :: l) = run step (step s a) l := rfl

theorem run_append (s : σ) (l₁ l₂ : List α) :
    run step s (l₁ ++ l₂) = run step (run step s l₁) l₂ := List.foldl_append

/-- What no step changes, no run changes. -/
theorem run_frame {τ : Type*} (step : σ → α → σ) (proj : σ → τ)
    (h : ∀ s a, proj (step s a) = proj s) (s : σ) (l : List α) : proj (run step s l) = proj s := by
  induction l generalizing s with
  | nil => rfl
  | cons a l ih => rw [run_cons, ih, h]

variable {P : α → Prop} {I : σ → Prop}

theorem run_inv (step : σ → α → σ) (hstep : ∀ s a, P a → I s → I (step s a)) {s : σ}
    {l : List α} (hl : ∀ a ∈ l, P a) (hs : I s) : I (run step s l) := by
  induction l generalizing s with
  | nil => exact hs
  | cons a l ih =>
    have ha : P a := hl a List.mem_cons_self
    exact ih (fun b hb => hl b (List.mem_cons_of_mem a hb)) (hstep s a ha hs)

theorem run_rel (step : σ → α → σ) {R : σ → σ → Prop} (hrefl : ∀ s, R s s)
    (htrans : ∀ s₁ s₂ s₃, R s₁ s₂ → R s₂ s₃ → R s₁ s₃)
    (hinv : ∀ s a, P a → I s → I (step s a)) (hstep : ∀ s a, P a → I s → R s (step s a))
    {s : σ} {l : List α} (hl : ∀ a ∈ l, P a) (hs : I s) : R s (run step s l) := by
  induction l generalizing s with
  | nil => exact hrefl s
  | cons a l ih =>
    have ha : P a := hl a List.mem_cons_self
    have hrest := ih (fun b hb => hl b (List.mem_cons_of_mem a hb)) (hinv s a ha hs)
    exact htrans s (step s a) _ (hstep s a ha hs) hrest

/-! ## Runs whose labels fit the state they meet -/

/-- Every label of the run satisfies `C` in the state it is taken in. -/
def Admits (step : σ → α → σ) (C : σ → α → Prop) : σ → List α → Prop
  | _, [] => True
  | s, a :: l => C s a ∧ Admits step C (step s a) l

instance decidableAdmits (step : σ → α → σ) (C : σ → α → Prop) [∀ s a, Decidable (C s a)] :
    (s : σ) → (l : List α) → Decidable (Admits step C s l)
  | _, [] => isTrue trivial
  | s, a :: l =>
    have := decidableAdmits step C (step s a) l
    inferInstanceAs (Decidable (C s a ∧ Admits step C (step s a) l))

theorem admits_append {step : σ → α → σ} {C : σ → α → Prop} {s : σ} {l₁ l₂ : List α} :
    Admits step C s (l₁ ++ l₂) ↔ Admits step C s l₁ ∧ Admits step C (run step s l₁) l₂ := by
  induction l₁ generalizing s with
  | nil => exact (iff_of_eq (true_and _)).symm
  | cons a l₁ ih => exact (and_congr_right fun _ => ih).trans and_assoc.symm

/-- Conditions that agree on an invariant admit the same runs. -/
theorem admits_congr (step : σ → α → σ) {C D : σ → α → Prop} {I : σ → Prop}
    (hstep : ∀ s a, I s → I (step s a)) (h : ∀ s a, I s → (C s a ↔ D s a)) {s : σ} (hs : I s)
    (l : List α) : Admits step C s l ↔ Admits step D s l := by
  induction l generalizing s with
  | nil => exact Iff.rfl
  | cons a l ih => exact and_congr (h s a hs) (ih (hstep s a hs))

theorem run_inv_of_admits (step : σ → α → σ) {C : σ → α → Prop} {I : σ → Prop}
    (hstep : ∀ s a, C s a → I s → I (step s a)) {s : σ} {l : List α} (hl : Admits step C s l)
    (hs : I s) : I (run step s l) := by
  induction l generalizing s with
  | nil => exact hs
  | cons a l ih => exact ih hl.2 (hstep s a hl.1 hs)

/-- A condition that says of every step whether it keeps a property says of every run whether the
property holds all along. -/
theorem forall_prefix_iff_admits (step : σ → α → σ) {C : σ → α → Prop} {I K : σ → Prop}
    (hstep : ∀ s a, I s → I (step s a)) (hK : ∀ s a, I s → K s → (K (step s a) ↔ C s a)) {s : σ}
    (hs : I s) (hk : K s) (l : List α) :
    (∀ l', l' <+: l → K (run step s l')) ↔ Admits step C s l := by
  induction l generalizing s with
  | nil =>
    refine iff_of_true (fun l' h => ?_) trivial
    rw [List.prefix_nil.mp h]
    exact hk
  | cons a l ih =>
    constructor
    · intro h
      have ha : K (step s a) := h [a] (List.prefix_append [a] l)
      refine ⟨(hK s a hs hk).mp ha, (ih (hstep s a hs) ha).mp fun l' h' => ?_⟩
      exact h (a :: l') (List.cons_prefix_cons.mpr ⟨rfl, h'⟩)
    · rintro ⟨ha, hrest⟩ l' h'
      cases l' with
      | nil => exact hk
      | cons b l' =>
        obtain ⟨rfl, hl'⟩ := List.cons_prefix_cons.mp h'
        exact (ih (hstep s b hs) ((hK s b hs hk).mpr ha)).mpr hrest l' hl'

/-- An invariant that a condition keeps, and whose weakening the condition is needed for. -/
theorem forall_prefix_iff_admits_of_inv (step : σ → α → σ) {C : σ → α → Prop} {I K : σ → Prop}
    (hI : ∀ s, I s → K s) (hstep : ∀ s a, I s → C s a → I (step s a))
    (hC : ∀ s a, I s → K (step s a) → C s a) {s : σ} (hs : I s) (l : List α) :
    (∀ l', l' <+: l → K (run step s l')) ↔ Admits step C s l := by
  induction l generalizing s with
  | nil =>
    refine iff_of_true (fun l' h => ?_) trivial
    rw [List.prefix_nil.mp h]
    exact hI s hs
  | cons a l ih =>
    constructor
    · intro h
      have ha := hC s a hs (h [a] (List.prefix_append [a] l))
      refine ⟨ha, (ih (hstep s a hs ha)).mp fun l' h' => ?_⟩
      exact h (a :: l') (List.cons_prefix_cons.mpr ⟨rfl, h'⟩)
    · rintro ⟨ha, hrest⟩ l' h'
      cases l' with
      | nil => exact hI s hs
      | cons b l' =>
        obtain ⟨rfl, hl'⟩ := List.cons_prefix_cons.mp h'
        exact (ih (hstep s b hs ha)).mpr hrest l' hl'

/-! ## Runs that come to a goal -/

/-- How many steps of a run are awaited. -/
def awaited (step : σ → α → σ) (W : σ → α → Bool) : σ → List α → Nat
  | _, [] => 0
  | s, a :: l => (W s a).toNat + awaited step W (step s a) l

/-- Every awaited step of a run is paid for. -/
theorem awaited_le (step : σ → α → σ) {W : σ → α → Bool} {I : σ → Prop} {paid : σ → Nat}
    (hI : ∀ s a, I s → I (step s a))
    (hstep : ∀ s a, I s → paid s + (W s a).toNat ≤ paid (step s a)) {s : σ} (l : List α)
    (hs : I s) : paid s + awaited step W s l ≤ paid (run step s l) := by
  induction l generalizing s with
  | nil => exact Nat.le_refl _
  | cons a l ih =>
    have hfirst := hstep s a hs
    have hrest := ih (hI s a hs)
    rw [run_cons, awaited]
    omega

/-- A rank that no step raises and that each awaited step lowers bounds how many steps are awaited
before the goal. -/
theorem run_reaches (step : σ → α → σ) {P : α → Prop} {W : σ → α → Bool} {I G : σ → Prop}
    {rank : σ → Nat} (hG : ∀ s a, G s → G (step s a)) (hI : ∀ s a, P a → I s → I (step s a))
    (hstep : ∀ s a, P a → I s → ¬ G s →
      G (step s a) ∨ rank (step s a) + (W s a).toNat ≤ rank s)
    {s : σ} {l : List α} (hl : ∀ a ∈ l, P a) (hs : I s) :
    G (run step s l) ∨ rank (run step s l) + awaited step W s l ≤ rank s := by
  induction l generalizing s with
  | nil => exact .inr (Nat.le_refl _)
  | cons a l ih =>
    have hrest : ∀ b ∈ l, P b := fun b hb => hl b (List.mem_cons_of_mem a hb)
    have hfirst := hl a List.mem_cons_self
    have hgoal : G (step s a) → G (run step s (a :: l)) := fun hg =>
      run_inv step (P := fun _ => True) (s := step s a) (l := l) (fun s b _ h => hG s b h)
        (fun _ _ => trivial) hg
    by_cases hg : G s
    · exact .inl (hgoal (hG s a hg))
    rcases hstep s a hfirst hs hg with hg | hrank
    · exact .inl (hgoal hg)
    · rcases ih hrest (hI s a hfirst hs) with hg | hle
      · exact .inl hg
      · refine .inr ?_
        rw [run_cons, awaited]
        omega

/-! ## Runs that may fail -/

theorem foldlM_option_inv {f : σ → α → Option σ} (hf : ∀ s a s', I s → f s a = some s' → I s')
    {l : List α} {s s' : σ} (hs : I s) (h : l.foldlM f s = some s') : I s' := by
  induction l generalizing s with
  | nil =>
    obtain rfl : s = s' := Option.some.inj h
    exact hs
  | cons a l ih =>
    rw [List.foldlM_cons] at h
    obtain ⟨next, hnext, h⟩ := Option.bind_eq_some_iff.mp h
    exact ih (hf s a next hs hnext) h

/-- A loop whose steps succeed more often. -/
theorem foldlM_option_mono {f g : σ → α → Option σ}
    (hfg : ∀ s a s', f s a = some s' → g s a = some s') {l : List α} {s s' : σ}
    (h : l.foldlM f s = some s') : l.foldlM g s = some s' := by
  induction l generalizing s with
  | nil => exact h
  | cons a l ih =>
    rw [List.foldlM_cons] at h ⊢
    obtain ⟨next, hnext, h⟩ := Option.bind_eq_some_iff.mp h
    exact Option.bind_eq_some_iff.mpr ⟨next, hfg s a next hnext, ih h⟩

theorem foldlM_option_forall {f : σ → α → Option σ} {V : α → Prop}
    (hf : ∀ s a s', f s a = some s' → V a) {l : List α} {s s' : σ}
    (h : l.foldlM f s = some s') : ∀ a ∈ l, V a := by
  induction l generalizing s with
  | nil => exact fun _ h => by cases h
  | cons a l ih =>
    rw [List.foldlM_cons] at h
    obtain ⟨next, hnext, h⟩ := Option.bind_eq_some_iff.mp h
    exact List.forall_mem_cons.mpr ⟨hf s a next hnext, ih h⟩

/-- Each label adds its own. -/
theorem foldlM_option_adds {f : σ → α → Option σ} {Q : σ → Prop} {R : α → Prop}
    (hf : ∀ s a s', f s a = some s' → (Q s' ↔ Q s ∨ R a)) {l : List α} {s s' : σ}
    (h : l.foldlM f s = some s') : Q s' ↔ Q s ∨ ∃ a ∈ l, R a := by
  induction l generalizing s with
  | nil =>
    obtain rfl : s = s' := Option.some.inj h
    simp
  | cons a l ih =>
    rw [List.foldlM_cons] at h
    obtain ⟨next, hnext, h⟩ := Option.bind_eq_some_iff.mp h
    rw [ih h, hf s a next hnext, or_assoc]
    simp only [List.mem_cons, exists_eq_or_imp]

theorem forall_mem_of_mapM {β : Type*} {f : α → Option β} {Q : β → Prop}
    (hf : ∀ a b, f a = some b → Q b) {l : List α} {l' : List β} (h : l.mapM f = some l') :
    ∀ b ∈ l', Q b := by
  induction l generalizing l' with
  | nil =>
    cases h
    exact fun _ h => by cases h
  | cons a l ih =>
    rw [List.mapM_cons] at h
    obtain ⟨b, hb, h⟩ := Option.bind_eq_some_iff.mp h
    obtain ⟨rest, hrest, h⟩ := Option.bind_eq_some_iff.mp h
    cases h
    exact List.forall_mem_cons.mpr ⟨hf a b hb, ih hrest⟩

theorem mapM_eq_some {β : Type*} {f : α → Option β} {l : List α}
    (h : ∀ a ∈ l, (f a).isSome = true) : l.mapM f = some (l.filterMap f) := by
  induction l with
  | nil => rfl
  | cons a l ih =>
    obtain ⟨ha, hl⟩ := List.forall_mem_cons.mp h
    obtain ⟨b, hb⟩ := Option.isSome_iff_exists.mp ha
    rw [List.mapM_cons, hb, ih hl, List.filterMap_cons, hb]
    rfl

theorem mapM_eq_none {β : Type*} {f : α → Option β} {l : List α}
    (h : ¬ ∀ a ∈ l, (f a).isSome = true) : l.mapM f = none := by
  induction l with
  | nil => exact absurd (fun a ha => absurd ha List.not_mem_nil) h
  | cons a l ih =>
    rw [List.mapM_cons]
    cases hb : f a with
    | none => rfl
    | some b =>
      rw [ih fun hl => h (List.forall_mem_cons.mpr ⟨by rw [hb]; rfl, hl⟩)]
      rfl

end Neemata.Trace
