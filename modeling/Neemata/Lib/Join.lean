import Mathlib.Data.List.Basic

/-!
# Strings joined by a separator

`a ++ "c" ++ b` determines `a` and `b` when the separator does not occur in `a`, and also when it
does not occur in `b`; decimal numerals are such a `b`.
-/

namespace Neemata

theorem append_cons_inj_left {α : Type*} {c : α} {a a' b b' : List α} (ha : c ∉ a)
    (ha' : c ∉ a') (h : a ++ c :: b = a' ++ c :: b') : a = a' ∧ b = b' := by
  induction a generalizing a' with
  | nil =>
    cases a' with
    | nil => exact ⟨rfl, (List.cons.inj h).2⟩
    | cons x a' => exact absurd ((List.cons.inj h).1 ▸ List.mem_cons_self) ha'
  | cons x a ih =>
    cases a' with
    | nil => exact absurd ((List.cons.inj h).1.symm ▸ List.mem_cons_self) ha
    | cons y a' =>
      obtain ⟨rfl, htail⟩ := List.cons.inj h
      obtain ⟨rfl, rfl⟩ := ih (fun hc => ha (List.mem_cons_of_mem _ hc))
        (fun hc => ha' (List.mem_cons_of_mem _ hc)) htail
      exact ⟨rfl, rfl⟩

theorem append_cons_inj_right {α : Type*} {c : α} {a a' b b' : List α} (hb : c ∉ b)
    (hb' : c ∉ b') (h : a ++ c :: b = a' ++ c :: b') : a = a' ∧ b = b' := by
  have hrev : b.reverse ++ c :: a.reverse = b'.reverse ++ c :: a'.reverse := by
    simpa using congrArg List.reverse h
  obtain ⟨hb, ha⟩ := append_cons_inj_left (by simpa using hb) (by simpa using hb') hrev
  exact ⟨List.reverse_injective ha, List.reverse_injective hb⟩

/-- The string does not hold the separator. -/
def Separate (c : Char) (s : String) : Prop := c ∉ s.toList

instance (c : Char) (s : String) : Decidable (Separate c s) :=
  inferInstanceAs (Decidable (c ∉ s.toList))

section Join

variable {c : Char} {a a' b b' : String}

private theorem toList_join (a b : String) :
    (a ++ String.singleton c ++ b).toList = a.toList ++ c :: b.toList := by
  simp [String.toList_append]

theorem join_inj_left (ha : Separate c a) (ha' : Separate c a')
    (h : a ++ String.singleton c ++ b = a' ++ String.singleton c ++ b') : a = a' ∧ b = b' := by
  have h := congrArg String.toList h
  rw [toList_join, toList_join] at h
  obtain ⟨ha, hb⟩ := append_cons_inj_left ha ha' h
  exact ⟨String.toList_inj.mp ha, String.toList_inj.mp hb⟩

theorem join_inj_right (hb : Separate c b) (hb' : Separate c b')
    (h : a ++ String.singleton c ++ b = a' ++ String.singleton c ++ b') : a = a' ∧ b = b' := by
  have h := congrArg String.toList h
  rw [toList_join, toList_join] at h
  obtain ⟨ha, hb⟩ := append_cons_inj_right hb hb' h
  exact ⟨String.toList_inj.mp ha, String.toList_inj.mp hb⟩

theorem Separate.append (ha : Separate c a) (hb : Separate c b) : Separate c (a ++ b) := by
  simp only [Separate, String.toList_append, List.mem_append, not_or]
  exact ⟨ha, hb⟩

end Join

/-! ## Numerals -/

theorem separate_toString {c : Char} (hc : c.isDigit = false) (n : Nat) :
    Separate c (toString n) := by
  intro hmem
  rw [Nat.toString_eq_repr, Nat.toList_repr] at hmem
  have hdigit := Nat.isDigit_of_mem_toDigits (by decide) (by decide) hmem
  rw [hc] at hdigit
  cases hdigit

theorem toString_nat_injective : Function.Injective (toString : Nat → String) := by
  intro i j h
  rw [Nat.toString_eq_repr, Nat.toString_eq_repr] at h
  have hdigits : Nat.toDigits 10 i = Nat.toDigits 10 j := by
    rw [← Nat.toList_repr, ← Nat.toList_repr, h]
  rw [← Nat.ofDigitChars_ten_toDigits (n := i), hdigits, Nat.ofDigitChars_ten_toDigits]

end Neemata
