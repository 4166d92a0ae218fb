import Mathlib.Data.List.Sort
import Mathlib.Order.Defs.LinearOrder

/-!
# Sorting by a comparator

What the language says of `sort`: the result is a permutation; if the comparator tells apart the
elements of different ranks, they stand in the order of their ranks; and the elements of a rank
within which it sees no difference keep their order. How the comparator answers within other ranks
is left open, and so is the order that comes of a comparator without ranks.
-/

namespace Neemata

variable {α : Type}

/-- The comparator tells elements of different ranks apart. -/
def Ranks {β : Type} [LinearOrder β] (cmp : α → α → Ordering) (rank : α → β) (l : List α) : Prop :=
  ∀ a ∈ l, ∀ b ∈ l, rank a < rank b → cmp a b = .lt ∧ cmp b a = .gt

/-- The comparator sees no difference within the rank. -/
def Ties {β : Type} (cmp : α → α → Ordering) (rank : α → β) (l : List α) (r : β) : Prop :=
  ∀ a ∈ l, ∀ b ∈ l, rank a = r → rank b = r → cmp a b = .eq

structure ArraySort (α : Type) where
  sort : (α → α → Ordering) → List α → List α
  perm : ∀ cmp l, (sort cmp l).Perm l
  sorted : ∀ {β : Type} [LinearOrder β] {cmp : α → α → Ordering} {rank : α → β} {l : List α},
    Ranks cmp rank l → (sort cmp l).Pairwise fun a b => rank a ≤ rank b
  stable : ∀ {β : Type} [LinearOrder β] {cmp : α → α → Ordering} {rank : α → β} {l : List α}
    (r : β), Ranks cmp rank l → Ties cmp rank l r →
      (sort cmp l).filter (fun a => rank a = r) = l.filter fun a => rank a = r

namespace ArraySort

variable {β : Type} [LinearOrder β] {cmp : α → α → Ordering} {rank : α → β} {l : List α}

theorem mem_sort (s : ArraySort α) {a : α} : a ∈ s.sort cmp l ↔ a ∈ l := (s.perm cmp l).mem_iff

/-! ## Insertion -/

def insert (cmp : α → α → Ordering) (a : α) : List α → List α
  | [] => [a]
  | b :: l => if cmp a b = .gt then b :: insert cmp a l else a :: b :: l

theorem insert_perm (cmp : α → α → Ordering) (a : α) (l : List α) :
    (insert cmp a l).Perm (a :: l) := by
  induction l with
  | nil => exact .refl _
  | cons b l ih =>
    rw [insert]
    split
    · exact (ih.cons b).trans (.swap a b l)
    · exact .refl _

theorem insert_sorted {a : α} (h : Ranks cmp rank (a :: l))
    (hl : l.Pairwise fun a b => rank a ≤ rank b) :
    (insert cmp a l).Pairwise fun a b => rank a ≤ rank b := by
  induction l with
  | nil => exact List.pairwise_singleton _ a
  | cons b l ih =>
    obtain ⟨hb, hl⟩ := List.pairwise_cons.mp hl
    rw [insert]
    split
    · rename_i hgt
      have hba : rank b ≤ rank a := by
        refine le_of_not_gt fun hlt => ?_
        have hcmp := (h a List.mem_cons_self b (by simp) hlt).1
        rw [hgt] at hcmp
        cases hcmp
      refine List.pairwise_cons.mpr ⟨fun c hc => ?_, ih (fun x hx y hy => ?_) hl⟩
      · rcases List.mem_cons.mp ((insert_perm cmp a l).mem_iff.mp hc) with rfl | hc
        · exact hba
        · exact hb c hc
      · refine h x ?_ y ?_ <;> simp at hx hy ⊢ <;> tauto
    · rename_i hngt
      have hab : rank a ≤ rank b := by
        refine le_of_not_gt fun hlt => hngt ?_
        exact (h b (by simp) a List.mem_cons_self hlt).2
      refine List.pairwise_cons.mpr ⟨fun c hc => ?_, List.pairwise_cons.mpr ⟨hb, hl⟩⟩
      rcases List.mem_cons.mp hc with rfl | hc
      · exact hab
      · exact hab.trans (hb c hc)

theorem filter_insert {a : α} {r : β} (h : Ties cmp rank (a :: l) r) :
    (insert cmp a l).filter (fun a => rank a = r) =
      (a :: l).filter fun a => rank a = r := by
  induction l with
  | nil => rfl
  | cons b l ih =>
    rw [insert]
    split
    · rename_i hgt
      have hsub : Ties cmp rank (a :: l) r := fun x hx y hy => by
        refine h x ?_ y ?_ <;> simp at hx hy ⊢ <;> tauto
      rw [List.filter_cons, ih hsub]
      by_cases ha : rank a = r
      · have hb : rank b ≠ r := fun hb => by
          have hcmp := h a List.mem_cons_self b (by simp) ha hb
          rw [hgt] at hcmp
          cases hcmp
        simp [ha, hb]
      · simp [List.filter_cons, ha]
    · rfl

def insertionSort (cmp : α → α → Ordering) : List α → List α
  | [] => []
  | a :: l => insert cmp a (insertionSort cmp l)

theorem insertionSort_perm (cmp : α → α → Ordering) (l : List α) :
    (insertionSort cmp l).Perm l := by
  induction l with
  | nil => exact .refl _
  | cons a l ih => exact (insert_perm cmp a _).trans (ih.cons a)

/-- A sort that does what the language asks for. -/
def byInsertion : ArraySort α where
  sort := insertionSort
  perm := insertionSort_perm
  sorted := by
    intro β _ cmp rank l h
    induction l with
    | nil => exact .nil
    | cons a l ih =>
      have hperm := (insertionSort_perm cmp l).cons a
      refine insert_sorted (fun x hx y hy => h x (hperm.mem_iff.mp hx) y (hperm.mem_iff.mp hy)) ?_
      exact ih fun x hx y hy => h x (List.mem_cons_of_mem a hx) y (List.mem_cons_of_mem a hy)
  stable := by
    intro β _ cmp rank l r h hties
    induction l with
    | nil => rfl
    | cons a l ih =>
      have hperm := (insertionSort_perm cmp l).cons a
      rw [insertionSort, filter_insert fun x hx y hy =>
        hties x (hperm.mem_iff.mp hx) y (hperm.mem_iff.mp hy)]
      have hl := ih (fun x hx y hy => h x (List.mem_cons_of_mem a hx) y (List.mem_cons_of_mem a hy))
        fun x hx y hy => hties x (List.mem_cons_of_mem a hx) y (List.mem_cons_of_mem a hy)
      rw [List.filter_cons, List.filter_cons, hl]

end ArraySort

end Neemata
