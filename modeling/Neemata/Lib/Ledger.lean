import Mathlib.Data.Multiset.ZeroCons
import Mathlib.Data.Multiset.MapFold
import Mathlib.Data.Multiset.Filter
import Mathlib.Data.List.Perm.Basic

/-!
# Ledgers

A ledger is a multiset of entries with a key each. In one step every entry is carried over to one
entry that `R` relates it to, except that some leave or one enters (`Change`). When `R` keeps keys
and the entering key is fresh, a ledger never holds a key twice, and a key only disappears with an
entry that left.
-/

namespace Neemata.Ledger

variable {α κ : Type*} {R : α → α → Prop} {Leaves Enters : α → Prop} {s t : Multiset α}

inductive Change (R : α → α → Prop) (Leaves Enters : α → Prop) : Multiset α → Multiset α → Prop
  | leave {s t left : Multiset α} (carried : Multiset.Rel R s t) (leaves : ∀ a ∈ left, Leaves a) :
    Change R Leaves Enters (s + left) t
  | enter {s t : Multiset α} {a : α} (carried : Multiset.Rel R s t) (enters : Enters a) :
    Change R Leaves Enters s (a ::ₘ t)

/-! ## Carrying entries over -/

theorem rel_replace {a b : α} {r : Multiset α} (hab : R a b) (hrest : ∀ x ∈ r, R x x) :
    Multiset.Rel R (a ::ₘ r) (b ::ₘ r) :=
  .cons hab (Multiset.rel_refl_of_refl_on hrest)

theorem rel_coe {β : Type*} {Q : α → β → Prop} {l : List α} {l' : List β}
    (h : List.Forall₂ Q l l') : Multiset.Rel Q (l : Multiset α) (l' : Multiset β) := by
  induction h with
  | nil => exact .zero
  | cons hab _ ih => exact .cons hab ih

theorem rel_comp {Q : α → α → Prop} {u : Multiset α} (h : Multiset.Rel R s t)
    (h' : Multiset.Rel Q t u) : Multiset.Rel (fun a c => ∃ b, R a b ∧ Q b c) s u := by
  induction h generalizing u with
  | zero =>
    rw [Multiset.rel_zero_left] at h'
    rw [h']
    exact .zero
  | cons hab _ ih =>
    obtain ⟨c, u', hbc, hrest, rfl⟩ := Multiset.rel_cons_left.mp h'
    exact .cons ⟨_, hab, hbc⟩ (ih hrest)

theorem map_key_eq_of_rel {k : α → κ} (hkey : ∀ a b, R a b → k b = k a)
    (h : Multiset.Rel R s t) : t.map k = s.map k := by
  induction h with
  | zero => rfl
  | cons hab _ ih => rw [Multiset.map_cons, Multiset.map_cons, hkey _ _ hab, ih]

/-! ## Entries kept in a list -/

theorem coe_eraseIdx {l : List α} {i : Nat} {a : α} (h : l[i]? = some a) :
    (l : Multiset α) = a ::ₘ (l.eraseIdx i : Multiset α) := by
  obtain ⟨hi, rfl⟩ := List.getElem?_eq_some_iff.mp h
  exact (Multiset.coe_eq_coe.mpr (List.getElem_cons_eraseIdx_perm hi)).symm

theorem coe_modify {l : List α} {i : Nat} {a : α} (f : α → α) (h : l[i]? = some a) :
    (l.modify i f : Multiset α) = f a ::ₘ (l.eraseIdx i : Multiset α) := by
  have hget : (l.modify i f)[i]? = some (f a) := by simp [h]
  rw [coe_eraseIdx hget]
  congr 2
  exact List.eraseIdx_modify_of_eq f i l

/-! ## What a change keeps -/

theorem Change.carry (h : Multiset.Rel R s t) : Change R Leaves Enters s t := by
  have hleave : Change R Leaves Enters (s + 0) t := .leave h fun _ ha => absurd ha (by simp)
  rwa [Multiset.add_zero] at hleave

theorem Change.forward (h : Change R Leaves Enters s t) {a : α} (ha : a ∈ s) :
    (∃ b ∈ t, R a b) ∨ Leaves a := by
  cases h with
  | leave carried leaves =>
    obtain ha | ha := Multiset.mem_add.mp ha
    · exact .inl (Multiset.exists_mem_of_rel_of_mem carried ha)
    · exact .inr (leaves a ha)
  | enter carried _ =>
    obtain ⟨b, hb, hab⟩ := Multiset.exists_mem_of_rel_of_mem carried ha
    exact .inl ⟨b, Multiset.mem_cons_of_mem hb, hab⟩

theorem Change.backward (h : Change R Leaves Enters s t) {b : α} (hb : b ∈ t) :
    (∃ a ∈ s, R a b) ∨ Enters b := by
  have hback {s t : Multiset α} (h : Multiset.Rel R s t) (hb : b ∈ t) : ∃ a ∈ s, R a b :=
    Multiset.exists_mem_of_rel_of_mem (Multiset.rel_flip.mpr h) hb
  cases h with
  | leave carried _ =>
    obtain ⟨a, ha, hab⟩ := hback carried hb
    exact .inl ⟨a, Multiset.mem_add.mpr (.inl ha), hab⟩
  | enter carried enters =>
    obtain rfl | hb := Multiset.mem_cons.mp hb
    · exact .inr enters
    · exact .inl (hback carried hb)

theorem countP_eq_of_rel {p : α → Prop} [DecidablePred p] (hp : ∀ a b, R a b → (p b ↔ p a))
    (h : Multiset.Rel R s t) : t.countP p = s.countP p := by
  induction h with
  | zero => rfl
  | cons hab _ ih => simp only [Multiset.countP_cons, ih, hp _ _ hab]

/-- The entries of a kind that neither leave nor enter are counted as before. -/
theorem Change.countP_eq {p : α → Prop} [DecidablePred p] (h : Change R Leaves Enters s t)
    (hp : ∀ a b, R a b → (p b ↔ p a)) (hleaves : ∀ a, Leaves a → ¬ p a)
    (henters : ∀ a, ¬ Enters a) : t.countP p = s.countP p := by
  cases h with
  | leave carried leaves =>
    rw [Multiset.countP_add, countP_eq_of_rel hp carried,
      Multiset.countP_eq_zero.mpr fun a ha => hleaves a (leaves a ha), Nat.add_zero]
  | enter carried enters => exact absurd enters (henters _)

section Keys

variable {k : α → κ}

theorem Change.nodup (h : Change R Leaves Enters s t) (hkey : ∀ a b, R a b → k b = k a)
    (hfresh : ∀ a, Enters a → ∀ b ∈ s, k b ≠ k a) (hs : (s.map k).Nodup) :
    (t.map k).Nodup := by
  cases h with
  | leave carried _ =>
    rw [map_key_eq_of_rel hkey carried]
    rw [Multiset.map_add] at hs
    exact Multiset.nodup_of_le (Multiset.le_add_right _ _) hs
  | enter carried enters =>
    rw [Multiset.map_cons, map_key_eq_of_rel hkey carried, Multiset.nodup_cons]
    refine ⟨fun hmem => ?_, hs⟩
    obtain ⟨b, hb, hsame⟩ := Multiset.mem_map.mp hmem
    exact hfresh _ enters b hb hsame

/-- The entry with a key is unique. -/
theorem eq_of_key_eq (hs : (s.map k).Nodup) {a b : α} (ha : a ∈ s) (hb : b ∈ s)
    (h : k a = k b) : a = b :=
  Multiset.inj_on_of_nodup_map hs a ha b hb h

/-- A key leaves the ledger only with an entry that leaves. -/
theorem Change.leaves_of_notMem (h : Change R Leaves Enters s t)
    (hkey : ∀ a b, R a b → k b = k a) {a : α} (ha : a ∈ s) (hgone : k a ∉ t.map k) :
    Leaves a := by
  obtain ⟨b, hb, hab⟩ | hleaves := h.forward ha
  · exact absurd (Multiset.mem_map.mpr ⟨b, hb, hkey a b hab⟩) hgone
  · exact hleaves

/-- A key that was not in the ledger enters it. -/
theorem Change.enters_of_notMem (h : Change R Leaves Enters s t)
    (hkey : ∀ a b, R a b → k b = k a) {b : α} (hb : b ∈ t) (hnew : k b ∉ s.map k) :
    Enters b := by
  obtain ⟨a, ha, hab⟩ | henters := h.backward hb
  · exact absurd (Multiset.mem_map.mpr ⟨a, ha, (hkey a b hab).symm⟩) hnew
  · exact henters

end Keys

end Neemata.Ledger
