import Mathlib.Data.List.Perm.Basic

/-!
# Lists of numbered entries

A list whose entries are named by their positions: one entry changes, or a new one comes at the end.
-/

namespace Neemata

variable {α : Type} {l : List α} {f : α → α} {i j k : Nat} {a b c : α}

/-! ## One entry changes -/

theorem getElem?_modify_eq_some (h : (l.modify i f)[j]? = some a) :
    ∃ old, l[j]? = some old ∧ a = if i = j then f old else old := by
  rw [List.getElem?_modify] at h
  obtain ⟨old, hold, rfl⟩ := Option.map_eq_some_iff.mp h
  refine ⟨old, hold, ?_⟩
  split <;> rfl

theorem getElem?_modify_cases (h : (l.modify i f)[j]? = some a) :
    (∃ old, j = i ∧ l[i]? = some old ∧ a = f old) ∨ j ≠ i ∧ l[j]? = some a := by
  obtain ⟨old, hold, rfl⟩ := getElem?_modify_eq_some h
  by_cases heq : i = j
  · subst heq
    exact .inl ⟨old, rfl, hold, if_pos rfl⟩
  · rw [if_neg heq]
    exact .inr ⟨Ne.symm heq, hold⟩

theorem mem_modify (h : a ∈ l.modify i f) : a ∈ l ∨ ∃ old, l[i]? = some old ∧ a = f old := by
  obtain ⟨j, hj⟩ := List.mem_iff_getElem?.mp h
  obtain ⟨old, -, hold, rfl⟩ | ⟨-, hold⟩ := getElem?_modify_cases hj
  · exact .inr ⟨old, hold, rfl⟩
  · exact .inl (List.mem_of_getElem? hold)

theorem getElem?_modify_self (h : l[i]? = some a) : (l.modify i f)[i]? = some (f a) := by
  rw [List.getElem?_modify_eq, h]
  rfl

theorem getElem?_modify_of_ne (h : j ≠ i) : (l.modify i f)[j]? = l[j]? :=
  List.getElem?_modify_ne _ _ (Ne.symm h)

/-- The change of one entry changes a count by that entry. -/
theorem countP_modify (p : α → Bool) (h : l[i]? = some a) :
    (l.modify i f).countP p + (if p a then 1 else 0) =
      l.countP p + if p (f a) then 1 else 0 := by
  induction l generalizing i with
  | nil => cases h
  | cons b l ih =>
    cases i with
    | zero =>
      cases h
      rw [List.modify_zero_cons, List.countP_cons, List.countP_cons]
      omega
    | succ i =>
      have hrest := ih (i := i) h
      rw [List.modify_succ_cons, List.countP_cons, List.countP_cons]
      omega

/-- A change that a projection does not see. -/
theorem filterMap_modify {β : Type} {g : α → Option β} (h : l[i]? = some a) (hg : g (f a) = g a) :
    (l.modify i f).filterMap g = l.filterMap g := by
  induction l generalizing i with
  | nil => cases h
  | cons b l ih =>
    cases i with
    | zero =>
      cases h
      rw [List.modify_zero_cons, List.filterMap_cons, List.filterMap_cons, hg]
    | succ i =>
      rw [List.modify_succ_cons, List.filterMap_cons, List.filterMap_cons, ih (i := i) h]

theorem getElem?_set_cases (h : l[i]? = some a) :
    (l.set i b)[j]? = some c ↔ i = j ∧ b = c ∨ i ≠ j ∧ l[j]? = some c := by
  obtain ⟨hi, -⟩ := List.getElem?_eq_some_iff.mp h
  rw [List.getElem?_set]
  by_cases hij : i = j
  · subst hij
    simp [hi]
  · simp [hij]

theorem countP_set (p : α → Bool) (h : l[i]? = some a) :
    (l.set i b).countP p + (if p a then 1 else 0) = l.countP p + if p b then 1 else 0 := by
  obtain ⟨hi, rfl⟩ := List.getElem?_eq_some_iff.mp h
  have hpos : p l[i] = true → 0 < l.countP p :=
    fun hp => List.countP_pos_iff.mpr ⟨l[i], List.getElem_mem hi, hp⟩
  rw [List.countP_set hi]
  by_cases hp : p l[i] = true
  · have := hpos hp
    simp only [hp, if_true]
    omega
  · simp [hp]

theorem any_modify {p : α → Bool} (h : ∀ a, p (f a) = p a) :
    (l.modify i f).any p = l.any p := by
  induction l generalizing i with
  | nil => rw [List.modify_nil]
  | cons a l ih =>
    cases i with
    | zero => rw [List.modify_zero_cons, List.any_cons, List.any_cons, h]
    | succ i => rw [List.modify_succ_cons, List.any_cons, List.any_cons, ih]

/-! ## An entry goes -/

theorem countP_eraseIdx (p : α → Bool) (h : l[i]? = some a) :
    (l.eraseIdx i).countP p + (if p a then 1 else 0) = l.countP p := by
  obtain ⟨hlt, rfl⟩ := List.getElem?_eq_some_iff.mp h
  rw [← (List.getElem_cons_eraseIdx_perm hlt).countP_eq p, List.countP_cons]

/-! ## A new entry -/

theorem getElem?_concat_iff : (l ++ [a])[k]? = some b ↔ l[k]? = some b ∨ k = l.length ∧ b = a := by
  rw [List.getElem?_append]
  split
  · next hlt =>
    refine ⟨.inl, fun h => h.elim id fun h => ?_⟩
    exact absurd h.1 (Nat.ne_of_lt hlt)
  · next hle =>
    rw [List.getElem?_singleton]
    have hnone : l[k]? = none := List.getElem?_eq_none (Nat.not_lt.mp hle)
    rw [hnone]
    split
    · next hzero =>
      have hk : k = l.length := by omega
      simp [hk, eq_comm]
    · next hzero =>
      have hk : k ≠ l.length := by omega
      simp [hk]

end Neemata
