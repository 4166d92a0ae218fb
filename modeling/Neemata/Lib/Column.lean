import Mathlib.Data.List.Perm.Basic
import Mathlib.Data.List.InsertIdx

/-!
# Columns

A column of a list `l` without duplicates is a list `l.map f`: the value of a member of `l` stands
at the index of the member. Reading, writing and erasing at the index of a member are reading,
changing and forgetting the value of the member, and a count over the column changes with it.
-/

namespace Neemata.Column

variable {α β : Type*} [DecidableEq α] {l : List α} {x : α} {f g : α → β}

theorem getD_idxOf (hx : x ∈ l) (default : β) : (l.map f).getD (l.idxOf x) default = f x := by
  have hindex : l.idxOf x < l.length := List.idxOf_lt_length_iff.mpr hx
  simp [List.getD_eq_getElem?_getD, List.getElem?_eq_getElem hindex]

theorem set_idxOf (nodup : l.Nodup) {b : β} (hb : g x = b) (hother : ∀ y ≠ x, g y = f y) :
    (l.map f).set (l.idxOf x) b = l.map g := by
  induction l with
  | nil => rfl
  | cons a l ih =>
    rw [List.nodup_cons] at nodup
    by_cases heq : a = x
    · have hl : l.map f = l.map g :=
        List.map_congr_left fun y hy => (hother y fun h => nodup.1 (heq ▸ h ▸ hy)).symm
      simp [heq, hb, hl]
    · rw [List.idxOf_cons_ne l heq, List.map_cons, List.map_cons, List.set_cons_succ, ih nodup.2,
        hother a heq]

theorem eraseIdx_idxOf : (l.map f).eraseIdx (l.idxOf x) = (l.erase x).map f := by
  rw [← List.eraseIdx_idxOf_eq_erase, List.eraseIdx_map]

theorem countP_eq_add (p : α → Bool) (hx : x ∈ l) :
    l.countP p = (l.erase x).countP p + if p x then 1 else 0 := by
  rw [(List.perm_cons_erase hx).countP_eq, List.countP_cons]

/-- Two counts that can differ for one member. -/
theorem countP_erase_congr (nodup : l.Nodup) {p q : α → Bool} (hother : ∀ y ≠ x, q y = p y) :
    (l.erase x).countP q = (l.erase x).countP p := by
  refine List.countP_congr fun y hy => ?_
  rw [hother y (nodup.mem_erase_iff.mp hy).1]

end Neemata.Column
