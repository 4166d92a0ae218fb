import Mathlib.Data.List.Nodup
import Mathlib.Tactic.Common

/-!
# Texts with insertions

An edit puts a text in before the element at its offset. `insertAll` makes all edits of a list on a
text at once; edits at one offset follow each other in the order of the list. A text that is made of
two texts is edited part by part (`weave_append`).
-/

namespace Neemata.Insertions

universe u

variable {α : Type u}

structure Edit (α : Type u) where
  offset : Nat
  content : List α

/-- What the edits put in before the element at `i`. -/
def contents (edits : List (Edit α)) (i : Nat) : List α :=
  (edits.filter (·.offset = i)).flatMap (·.content)

/-- A text whose first element is at `i`, with `f j` before the element at `j`. -/
def weave (f : Nat → List α) : Nat → List α → List α
  | _, [] => []
  | i, a :: text => f i ++ a :: weave f (i + 1) text

def insertAll (edits : List (Edit α)) (text : List α) : List α :=
  weave (contents edits) 0 text ++ contents edits text.length

/-! ## Parts of a text -/

@[simp] theorem weave_nil (f : Nat → List α) (i : Nat) : weave f i [] = [] := rfl

@[simp] theorem weave_cons (f : Nat → List α) (i : Nat) (a : α) (text : List α) :
    weave f i (a :: text) = f i ++ a :: weave f (i + 1) text := rfl

theorem weave_append (f : Nat → List α) (i : Nat) (first second : List α) :
    weave f i (first ++ second) = weave f i first ++ weave f (i + first.length) second := by
  induction first generalizing i with
  | nil => rfl
  | cons a first ih =>
    rw [List.cons_append, weave_cons, ih, weave_cons, List.length_cons, List.append_assoc,
      List.cons_append, Nat.add_right_comm, Nat.add_assoc]

/-- A text is left as it is where nothing is put in. -/
theorem weave_eq_self {f : Nat → List α} {i : Nat} {text : List α}
    (h : ∀ j, i ≤ j → j < i + text.length → f j = []) : weave f i text = text := by
  induction text generalizing i with
  | nil => rfl
  | cons a text ih =>
    rw [List.length_cons] at h
    rw [weave_cons, h i (Nat.le_refl i) (by omega), ih fun j hj hlt => h j (by omega) (by omega),
      List.nil_append]

theorem weave_eq_append {f : Nat → List α} {i : Nat} {text : List α} (hne : text ≠ [])
    (h : ∀ j, i < j → j < i + text.length → f j = []) : weave f i text = f i ++ text := by
  cases text with
  | nil => exact absurd rfl hne
  | cons a text =>
    rw [List.length_cons] at h
    rw [weave_cons, weave_eq_self fun j hj hlt => h j (by omega) (by omega)]

/-! ## What stands at an offset -/

theorem contents_append (first second : List (Edit α)) (i : Nat) :
    contents (first ++ second) i = contents first i ++ contents second i := by
  rw [contents, List.filter_append, List.flatMap_append]
  rfl

theorem contents_eq_nil {edits : List (Edit α)} {i : Nat} (h : ∀ e ∈ edits, e.offset ≠ i) :
    contents edits i = [] := by
  have hfilter : edits.filter (·.offset = i) = [] :=
    List.filter_eq_nil_iff.mpr fun e he => by simpa using h e he
  rw [contents, hfilter]
  rfl

theorem contents_append_left {first second : List (Edit α)} {i : Nat}
    (h : ∀ e ∈ second, i < e.offset) : contents (first ++ second) i = contents first i := by
  rw [contents_append, contents_eq_nil fun e he => Nat.ne_of_gt (h e he), List.append_nil]

theorem contents_append_right {first second : List (Edit α)} {i : Nat}
    (h : ∀ e ∈ first, e.offset < i) : contents (first ++ second) i = contents second i := by
  rw [contents_append, contents_eq_nil fun e he => Nat.ne_of_lt (h e he), List.nil_append]

theorem contents_singleton (e : Edit α) : contents [e] e.offset = e.content := by
  simp [contents]

/-- Where no two edits share an offset, an edit alone says what stands there. -/
theorem contents_of_mem {edits : List (Edit α)} (hne : edits.Pairwise (·.offset ≠ ·.offset))
    {e : Edit α} (he : e ∈ edits) : contents edits e.offset = e.content := by
  obtain ⟨before, after, rfl⟩ := List.append_of_mem he
  rw [List.pairwise_append, List.pairwise_cons] at hne
  obtain ⟨-, ⟨hafter, -⟩, hbefore⟩ := hne
  have hfirst : contents before e.offset = [] :=
    contents_eq_nil fun b hb => hbefore b hb e List.mem_cons_self
  have hlast : contents after e.offset = [] := contents_eq_nil fun a ha => (hafter a ha).symm
  rw [← List.singleton_append, contents_append, contents_append, hfirst, hlast,
    contents_singleton, List.append_nil, List.nil_append]

/-- Two lists of the same edits put in the same, in whatever order they have them. -/
theorem contents_congr {edits edits' : List (Edit α)}
    (hne : edits.Pairwise (·.offset ≠ ·.offset)) (hne' : edits'.Pairwise (·.offset ≠ ·.offset))
    (hmem : ∀ e, e ∈ edits ↔ e ∈ edits') (i : Nat) : contents edits i = contents edits' i := by
  by_cases hi : ∃ e ∈ edits, e.offset = i
  · obtain ⟨e, he, rfl⟩ := hi
    rw [contents_of_mem hne he, contents_of_mem hne' ((hmem e).mp he)]
  · rw [contents_eq_nil fun e he heq => hi ⟨e, he, heq⟩,
      contents_eq_nil fun e he heq => hi ⟨e, (hmem e).mpr he, heq⟩]

theorem insertAll_nil (text : List α) : insertAll [] text = text := by
  have hnone : ∀ i, contents ([] : List (Edit α)) i = [] := fun _ => rfl
  rw [insertAll, weave_eq_self fun j _ _ => hnone j, hnone, List.append_nil]

end Neemata.Insertions
