import Neemata.Lib.OrdMap

/-!
# Maps to non-empty sets

An index takes a key to the set of what is tracked under it. A key is entered with its first element
and dropped with its last one, so that no set in the index is empty.
-/

namespace Neemata

variable {κ α : Type} [DecidableEq κ] [DecidableEq α]

/-- A set, as the list of its elements in insertion order. -/
abbrev SetIndex (κ α : Type) [DecidableEq κ] := OrdMap κ (List α)

namespace SetIndex

/-- `x` is tracked under `k`. -/
def Tracks (index : SetIndex κ α) (k : κ) (x : α) : Prop := ∃ set, index.get? k = some set ∧ x ∈ set

def NoEmpty (index : SetIndex κ α) : Prop := ∀ k set, index.get? k = some set → set ≠ []

def track (index : SetIndex κ α) (k : κ) (x : α) : SetIndex κ α :=
  let set := (index.get? k).getD []
  index.set k (if x ∈ set then set else set ++ [x])

def untrack (index : SetIndex κ α) (k : κ) (x : α) : SetIndex κ α :=
  match index.get? k with
  | none => index
  | some set =>
    let rest := set.filter (· ≠ x)
    if rest = [] then index.erase k else index.set k rest

variable {index : SetIndex κ α}

omit [DecidableEq α] in
theorem not_tracks_empty (k : κ) (x : α) : ¬ Tracks (.empty : SetIndex κ α) k x := by
  rintro ⟨set, hget, _⟩
  cases hget

theorem tracks_track (k k' : κ) (x x' : α) :
    (index.track k x).Tracks k' x' ↔ (k' = k ∧ x' = x) ∨ index.Tracks k' x' := by
  have hmem : ∀ set : List α, x' ∈ (if x ∈ set then set else set ++ [x]) ↔ x' = x ∨ x' ∈ set := by
    intro set
    split
    · next hx => exact ⟨.inr, fun h => h.elim (fun heq => heq ▸ hx) id⟩
    · rw [List.mem_append, List.mem_singleton, or_comm]
  unfold Tracks track
  simp only [OrdMap.get?_set]
  by_cases hk : k' = k
  · subst hk
    simp only [if_true, Option.some.injEq, exists_eq_left', hmem, true_and]
    refine or_congr_right ?_
    cases index.get? k' with
    | none => simp
    | some set => simp
  · simp only [hk, if_false, false_and, false_or]

theorem noEmpty_track (H : index.NoEmpty) (k : κ) (x : α) : (index.track k x).NoEmpty := by
  intro k' set hget
  unfold track at hget
  rw [OrdMap.get?_set] at hget
  split at hget
  · cases hget
    split
    · next hx => exact List.ne_nil_of_mem hx
    · exact List.append_ne_nil_of_right_ne_nil _ (List.cons_ne_nil _ _)
  · exact H k' set hget

theorem tracks_untrack (k k' : κ) (x x' : α) :
    (index.untrack k x).Tracks k' x' ↔ index.Tracks k' x' ∧ ¬ (k' = k ∧ x' = x) := by
  unfold untrack
  cases hget : index.get? k with
  | none =>
    refine ⟨fun h => ⟨h, ?_⟩, And.left⟩
    rintro ⟨rfl, rfl⟩
    obtain ⟨set, hset, _⟩ := h
    rw [hget] at hset
    cases hset
  | some set =>
    have hrest : ∀ y, y ∈ set.filter (· ≠ x) ↔ y ∈ set ∧ y ≠ x := by simp
    by_cases hk : k' = k
    · subst hk
      simp only [true_and]
      have hold : index.Tracks k' x' ↔ x' ∈ set := by
        unfold Tracks
        rw [hget]
        simp
      rw [hold, ← ne_eq, ← hrest]
      split
      · next hempty =>
        rw [hempty]
        unfold Tracks
        simp [OrdMap.get?_erase]
      · unfold Tracks
        simp
    · simp only [hk, false_and, not_false_iff, and_true]
      split
      · unfold Tracks
        simp [OrdMap.get?_erase, hk]
      · unfold Tracks
        simp [OrdMap.get?_set, hk]

theorem noEmpty_untrack (H : index.NoEmpty) (k : κ) (x : α) : (index.untrack k x).NoEmpty := by
  unfold untrack
  split
  · exact H
  · intro k' set' hget'
    dsimp only at hget'
    split at hget'
    · rw [OrdMap.get?_erase] at hget'
      split at hget'
      · cases hget'
      · exact H k' set' hget'
    · next hrest =>
      rw [OrdMap.get?_set] at hget'
      split at hget'
      · cases hget'
        exact hrest
      · exact H k' set' hget'

omit [DecidableEq α] in
/-- A key under which nothing is tracked is not in the index. -/
theorem NoEmpty.get?_eq_none (H : index.NoEmpty) {k : κ} (h : ∀ x, ¬ index.Tracks k x) :
    index.get? k = none := by
  cases hget : index.get? k with
  | none => rfl
  | some set =>
    cases set with
    | nil => exact absurd rfl (H k [] hget)
    | cons x rest => exact absurd ⟨_, hget, List.mem_cons_self⟩ (h x)

end SetIndex

end Neemata
