import Mathlib.Data.List.Nodup
import Mathlib.Data.List.Basic

/-!
# Insertion-ordered maps

The finite map of scripting languages: iteration follows the order of insertion, `set` on a
present key replaces the value in place and on an absent key appends, `erase` drops the entry.
An `OrdMap` carries the proof that no key occurs twice, so a lookup has one answer and iterating
over the values visits each key once (`mem_values_iff`).
-/

namespace Neemata

/-- An insertion-ordered finite map with distinct keys. -/
@[ext]
structure OrdMap (κ ν : Type) where
  entries : List (κ × ν)
  nodup : (entries.map Prod.fst).Nodup

namespace OrdMap

variable {κ ν : Type}

instance [DecidableEq κ] [DecidableEq ν] : DecidableEq (OrdMap κ ν) := fun a b =>
  decidable_of_iff (a.entries = b.entries) OrdMap.ext_iff.symm

/-- The map without entries. -/
def empty : OrdMap κ ν := ⟨[], List.nodup_nil⟩

instance : Inhabited (OrdMap κ ν) := ⟨empty⟩

def keys (m : OrdMap κ ν) : List κ := m.entries.map Prod.fst

/-- The values in insertion order. -/
def values (m : OrdMap κ ν) : List ν := m.entries.map Prod.snd

/-- Keep the entries that satisfy `p`. -/
def filter (p : κ → ν → Bool) (m : OrdMap κ ν) : OrdMap κ ν where
  entries := m.entries.filter fun e => p e.1 e.2
  nodup := m.nodup.sublist (List.filter_sublist.map _)

variable [DecidableEq κ]

def get? (m : OrdMap κ ν) (k : κ) : Option ν :=
  (m.entries.find? fun e => e.1 = k).map Prod.snd

/-- Drop the entry of `k`, if there is one. -/
def erase (m : OrdMap κ ν) (k : κ) : OrdMap κ ν := m.filter fun k' _ => k' ≠ k

private theorem map_fst_replace (l : List (κ × ν)) (k : κ) (v : ν) :
    (l.map fun e => if e.1 = k then (k, v) else e).map Prod.fst = l.map Prod.fst := by
  rw [List.map_map]
  refine List.map_congr_left fun e _ => ?_
  by_cases h : e.1 = k <;> simp [h]

/-- Replace the value of `k` in place, or append a new entry. -/
def set (m : OrdMap κ ν) (k : κ) (v : ν) : OrdMap κ ν :=
  if h : k ∈ m.keys then
    ⟨m.entries.map fun e => if e.1 = k then (k, v) else e, by
      rw [map_fst_replace]; exact m.nodup⟩
  else
    ⟨m.entries ++ [(k, v)], by
      rw [List.map_append, List.nodup_append]
      refine ⟨m.nodup, by simp, ?_⟩
      intro a ha b hb hab
      simp only [List.map_cons, List.map_nil, List.mem_singleton] at hb
      exact h (by rw [← hb, ← hab]; exact ha)⟩

/-! ## Lookups and membership -/

theorem get?_eq_some_iff {m : OrdMap κ ν} {k : κ} {v : ν} :
    m.get? k = some v ↔ (k, v) ∈ m.entries := by
  obtain ⟨l, hl⟩ := m
  simp only [get?]
  induction l with
  | nil => simp
  | cons e l ih =>
    simp only [List.map_cons, List.nodup_cons] at hl
    by_cases he : e.1 = k
    · rw [List.find?_cons_of_pos (by simpa using he)]
      simp only [Option.map_some, Option.some.injEq, List.mem_cons]
      constructor
      · rintro rfl; exact .inl (by rw [← he])
      · rintro (h | h)
        · rw [← h]
        · exact absurd (List.mem_map.mpr ⟨_, h, rfl⟩) (he ▸ hl.1)
    · rw [List.find?_cons_of_neg (by simpa using he), ih hl.2, List.mem_cons]
      constructor
      · exact .inr
      · rintro (h | h)
        · exact absurd (by rw [← h]) he
        · exact h

theorem get?_eq_none_iff {m : OrdMap κ ν} {k : κ} : m.get? k = none ↔ k ∉ m.keys := by
  rw [← not_iff_not, ← ne_eq, Option.ne_none_iff_exists', not_not]
  simp only [get?_eq_some_iff, keys, List.mem_map, Prod.exists, exists_and_right, exists_eq_right]

theorem mem_values_iff {m : OrdMap κ ν} {v : ν} : v ∈ m.values ↔ ∃ k, m.get? k = some v := by
  simp only [values, List.mem_map, Prod.exists, exists_eq_right, get?_eq_some_iff]

theorem mem_values_of_get? {m : OrdMap κ ν} {k : κ} {v : ν} (h : m.get? k = some v) :
    v ∈ m.values := mem_values_iff.mpr ⟨k, h⟩

@[simp] theorem get?_empty (k : κ) : (empty : OrdMap κ ν).get? k = none := rfl

theorem get?_set (m : OrdMap κ ν) (k k' : κ) (v : ν) :
    (m.set k v).get? k' = if k' = k then some v else m.get? k' := by
  apply Option.ext
  intro w
  rw [get?_eq_some_iff]
  unfold set
  split
  · next h =>
    obtain ⟨⟨k₀, u⟩, hu, rfl⟩ := List.mem_map.mp h
    simp only [List.mem_map, Prod.exists]
    constructor
    · rintro ⟨a, b, hab, he⟩
      by_cases ha : a = k₀
      · simp only [ha, if_true, Prod.mk.injEq] at he
        simp [he.1.symm, he.2]
      · simp only [ha, if_false, Prod.mk.injEq] at he
        obtain ⟨rfl, rfl⟩ := he
        simpa only [ha, if_false] using get?_eq_some_iff.mpr hab
    · intro hw
      by_cases hk : k' = k₀
      · subst hk
        simp only [if_true, Option.some.injEq] at hw
        exact ⟨k', u, hu, by simp [hw]⟩
      · rw [if_neg hk] at hw
        exact ⟨k', w, get?_eq_some_iff.mp hw, by simp [hk]⟩
  · next h =>
    simp only [List.mem_append, List.mem_singleton, Prod.mk.injEq]
    by_cases hk : k' = k
    · subst hk
      have : (k', w) ∉ m.entries := fun hm => h (List.mem_map.mpr ⟨_, hm, rfl⟩)
      simp [this, eq_comm]
    · simp [hk, get?_eq_some_iff]

@[simp] theorem get?_set_self (m : OrdMap κ ν) (k : κ) (v : ν) : (m.set k v).get? k = some v := by
  simp [get?_set]

theorem get?_set_of_ne {m : OrdMap κ ν} {k k' : κ} {v : ν} (h : k' ≠ k) :
    (m.set k v).get? k' = m.get? k' := by simp [get?_set, h]

/-- A map of the values of another stays one. -/
theorem entries_set_map {μ : Type} {f : ν → μ} {m : OrdMap κ ν} {m' : OrdMap κ μ}
    (h : m'.entries = m.entries.map (Prod.map id f)) (k : κ) (v : ν) :
    (m'.set k (f v)).entries = (m.set k v).entries.map (Prod.map id f) := by
  have hkeys : k ∈ m'.keys ↔ k ∈ m.keys := by
    rw [keys, keys, h, List.map_map]
    rfl
  by_cases hk : k ∈ m.keys
  · rw [set, dif_pos (hkeys.mpr hk), set, dif_pos hk]
    dsimp only
    rw [h, List.map_map, List.map_map]
    refine List.map_congr_left fun e _ => ?_
    by_cases he : e.1 = k <;> simp [he]
  · rw [set, dif_neg (mt hkeys.mp hk), set, dif_neg hk]
    dsimp only
    rw [h, List.map_append]
    rfl

theorem get?_filter (m : OrdMap κ ν) (p : κ → ν → Bool) (k : κ) :
    (m.filter p).get? k = (m.get? k).filter (p k) := by
  apply Option.ext
  intro w
  simp only [get?_eq_some_iff, filter, List.mem_filter, Option.filter_eq_some_iff]

omit [DecidableEq κ] in
theorem filter_eq_self {m : OrdMap κ ν} {p : κ → ν → Bool} (h : ∀ k v, p k v = true) :
    m.filter p = m :=
  OrdMap.ext (List.filter_eq_self.mpr fun e _ => h e.1 e.2)

omit [DecidableEq κ] in
theorem mem_values_filter {m : OrdMap κ ν} {p : ν → Bool} {v : ν} :
    v ∈ (m.filter fun _ v => p v).values ↔ v ∈ m.values ∧ p v := by
  simp only [values, filter, List.mem_map, List.mem_filter, Prod.exists, exists_eq_right]
  exact exists_and_right

theorem get?_erase (m : OrdMap κ ν) (k k' : κ) :
    (m.erase k).get? k' = if k' = k then none else m.get? k' := by
  rw [erase, get?_filter]
  by_cases h : k' = k
  · cases hg : m.get? k' <;> simp [h, Option.filter]
  · cases hg : m.get? k' <;> simp [h, Option.filter]

/-- Maps with the same lookups have the same values, in some order. -/
theorem values_perm_of_get?_eq {m m' : OrdMap κ ν} (h : ∀ k, m.get? k = m'.get? k) :
    m.values.Perm m'.values := by
  refine .map Prod.snd ((List.perm_ext_iff_of_nodup m.nodup.of_map m'.nodup.of_map).mpr ?_)
  rintro ⟨k, v⟩
  rw [← get?_eq_some_iff, ← get?_eq_some_iff, h]

theorem values_set_perm (m : OrdMap κ ν) (k : κ) (v : ν) :
    (m.set k v).values.Perm (v :: (m.erase k).values) := by
  have hsame : ∀ k', (m.set k v).get? k' = ((m.erase k).set k v).get? k' := by
    intro k'
    rw [get?_set, get?_set, get?_erase]
    split <;> rfl
  have hfresh : k ∉ (m.erase k).keys := by
    rw [← get?_eq_none_iff, get?_erase, if_pos rfl]
  have happend : ((m.erase k).set k v).values = (m.erase k).values ++ [v] := by
    simp [values, set, hfresh]
  exact (values_perm_of_get?_eq hsame).trans (happend ▸ List.perm_append_singleton _ _)

theorem values_set_perm_of_none {m : OrdMap κ ν} {k : κ} (v : ν) (h : m.get? k = none) :
    (m.set k v).values.Perm (v :: m.values) := by
  refine (m.values_set_perm k v).trans (.cons v (values_perm_of_get?_eq fun k' => ?_))
  rw [get?_erase]
  split
  · next hk => rw [hk, h]
  · rfl

theorem values_perm_erase {m : OrdMap κ ν} {k : κ} {v : ν} (h : m.get? k = some v) :
    m.values.Perm (v :: (m.erase k).values) := by
  refine (values_perm_of_get?_eq fun k' => ?_).trans (m.values_set_perm k v)
  rw [get?_set]
  split
  · next hk => rw [hk, h]
  · rfl

/-- The values after a write are the written one and values the map had before. -/
theorem mem_values_set {m : OrdMap κ ν} {k : κ} {v w : ν} (h : w ∈ (m.set k v).values) :
    w = v ∨ w ∈ m.values := by
  obtain ⟨k', hk'⟩ := mem_values_iff.mp h
  rw [get?_set] at hk'
  split at hk'
  · exact .inl (Option.some.inj hk').symm
  · exact .inr (mem_values_of_get? hk')

/-! ## Sweeps -/

/-- The entries of some keys have moved along `R`; the others are as they were. -/
def Swept (R : ν → ν → Prop) (before after : OrdMap κ ν) : Prop :=
  ∀ key, after.get? key = before.get? key ∨
    ∃ v v', before.get? key = some v ∧ after.get? key = some v' ∧ R v v'

theorem Swept.refl (R : ν → ν → Prop) (m : OrdMap κ ν) : Swept R m m := fun _ => .inl rfl

theorem Swept.set {R : ν → ν → Prop} {m : OrdMap κ ν} {k : κ} {v v' : ν}
    (get : m.get? k = some v) (h : R v v') : Swept R m (m.set k v') := by
  intro key
  by_cases hk : key = k
  · subst hk
    exact .inr ⟨v, v', get, get?_set_self m key v', h⟩
  · exact .inl (get?_set_of_ne hk)

theorem Swept.forward {R : ν → ν → Prop} {m m' : OrdMap κ ν} (h : Swept R m m') {k : κ} {v : ν}
    (get : m.get? k = some v) : ∃ v', m'.get? k = some v' ∧ (v' = v ∨ R v v') := by
  obtain he | ⟨before, after, hbefore, hafter, hR⟩ := h k
  · exact ⟨v, he.trans get, .inl rfl⟩
  · obtain rfl : before = v := Option.some.inj (hbefore.symm.trans get)
    exact ⟨after, hafter, .inr hR⟩

theorem Swept.backward {R : ν → ν → Prop} {m m' : OrdMap κ ν} (h : Swept R m m') {k : κ} {v' : ν}
    (get : m'.get? k = some v') : ∃ v, m.get? k = some v ∧ (v' = v ∨ R v v') := by
  obtain he | ⟨before, after, hbefore, hafter, hR⟩ := h k
  · exact ⟨v', he ▸ get, .inl rfl⟩
  · obtain rfl : after = v' := Option.some.inj (hafter.symm.trans get)
    exact ⟨before, hbefore, .inr hR⟩

theorem Swept.mono {R Q : ν → ν → Prop} {m m' : OrdMap κ ν} (h : Swept R m m')
    (hRQ : ∀ v v', R v v' → Q v v') : Swept Q m m' := fun k => (h k).imp_right
  fun ⟨v, v', hv, hv', hR⟩ => ⟨v, v', hv, hv', hRQ v v' hR⟩

/-- A loop over the values that rewrites at most the entry it visits is a sweep: the keys are
distinct, so no entry is visited twice. -/
theorem swept_foldl {σ : Type} (proj : σ → OrdMap κ ν) (key : ν → κ) {g : σ → ν → σ}
    {R : ν → ν → Prop}
    (hg : ∀ s v, (proj s).get? (key v) = some v →
      proj (g s v) = proj s ∨ ∃ v', R v v' ∧ proj (g s v) = (proj s).set (key v) v')
    {l : List ν} {s : σ} (hnodup : (l.map key).Nodup)
    (hget : ∀ v ∈ l, (proj s).get? (key v) = some v) :
    Swept R (proj s) (proj (l.foldl g s)) ∧
      ∀ k ∉ l.map key, (proj (l.foldl g s)).get? k = (proj s).get? k := by
  induction l generalizing s with
  | nil => exact ⟨Swept.refl R _, fun _ _ => rfl⟩
  | cons v l ih =>
    simp only [List.map_cons, List.nodup_cons] at hnodup
    have hv := hget v List.mem_cons_self
    have hframe : ∀ k ≠ key v, (proj (g s v)).get? k = (proj s).get? k := by
      intro k hk
      obtain h | ⟨v', -, h⟩ := hg s v hv
      · rw [h]
      · rw [h, get?_set_of_ne hk]
    obtain ⟨hsweep, hrest⟩ := ih hnodup.2 (s := g s v) (by
      intro w hw
      have hne : key w ≠ key v := fun he => hnodup.1 (he ▸ List.mem_map_of_mem hw)
      rw [hframe _ hne]
      exact hget w (List.mem_cons_of_mem v hw))
    refine ⟨fun k => ?_, fun k hk => ?_⟩
    · by_cases hk : k = key v
      · subst hk
        rw [List.foldl_cons, hrest _ hnodup.1]
        obtain h | ⟨v', hR, h⟩ := hg s v hv
        · exact .inl (by rw [h])
        · exact .inr ⟨v, v', hv, by rw [h, get?_set_self], hR⟩
      · rw [List.foldl_cons, ← hframe k hk]
        exact hsweep k
    · simp only [List.map_cons, List.mem_cons, not_or] at hk
      rw [List.foldl_cons, hrest k hk.2, hframe k hk.1]

/-- A map whose entries sit under the key of their own fields has values with distinct keys. -/
theorem nodup_map_values {m : OrdMap κ ν} {key : ν → κ}
    (h : ∀ {k v}, m.get? k = some v → key v = k) : (m.values.map key).Nodup := by
  have heq : m.values.map key = m.keys := by
    rw [values, keys, List.map_map]
    exact List.map_congr_left fun e he => h (get?_eq_some_iff.mpr he)
  rw [heq]
  exact m.nodup

/-! ## Properties of every entry -/

/-- Every entry satisfies `P`. -/
def All (P : κ → ν → Prop) (m : OrdMap κ ν) : Prop := ∀ k v, m.get? k = some v → P k v

variable {P Q : κ → ν → Prop} {m m' : OrdMap κ ν}

theorem All.empty : All P (empty : OrdMap κ ν) := by
  intro k v h
  cases h

theorem All.mono (h : All P m) (hPQ : ∀ k v, P k v → Q k v) : All Q m :=
  fun k v hget => hPQ k v (h k v hget)

theorem All.set (h : All P m) {k : κ} {v : ν} (hv : P k v) : All P (m.set k v) := by
  intro k' v' hget
  rw [get?_set] at hget
  split at hget
  · next hk =>
    subst hk
    obtain rfl := Option.some.inj hget
    exact hv
  · exact h k' v' hget

theorem All.filter (h : All P m) (p : κ → ν → Bool) : All P (m.filter p) := by
  intro k v hget
  rw [get?_filter, Option.filter_eq_some_iff] at hget
  exact h k v hget.1

theorem All.swept {R : ν → ν → Prop} (h : All P m) (hswept : Swept R m m')
    (hR : ∀ k v v', P k v → R v v' → P k v') : All P m' := by
  intro k v' hget
  obtain ⟨v, hbefore, rfl | hstep⟩ := hswept.backward hget
  · exact h k v' hbefore
  · exact hR k v v' (h k v hbefore) hstep

theorem All.foldl_set {key : ν → κ} {l : List ν} (h : All P m) (hl : ∀ v ∈ l, P (key v) v) :
    All P (l.foldl (fun m v => m.set (key v) v) m) := by
  induction l generalizing m with
  | nil => exact h
  | cons v l ih =>
    exact ih (h.set (hl v List.mem_cons_self)) fun w hw => hl w (List.mem_cons_of_mem v hw)

theorem get?_foldl_set_of_ne {key : ν → κ} {l : List ν} {k : κ} (h : ∀ v ∈ l, k ≠ key v) :
    (l.foldl (fun m v => m.set (key v) v) m).get? k = m.get? k := by
  induction l generalizing m with
  | nil => rfl
  | cons v l ih =>
    rw [List.foldl_cons, ih fun w hw => h w (List.mem_cons_of_mem v hw),
      get?_set_of_ne (h v List.mem_cons_self)]

/-! ## Evolution -/

/-- Every entry stays or moves along `R`; it may go only where `drop` holds. New keys may
appear. -/
def Evolves (R : ν → ν → Prop) (drop : Prop) (m m' : OrdMap κ ν) : Prop :=
  ∀ k v, m.get? k = some v →
    (drop ∧ m'.get? k = none) ∨ ∃ v', m'.get? k = some v' ∧ (v' = v ∨ R v v')

section Evolves

variable {R : ν → ν → Prop} {drop : Prop}

theorem Evolves.refl (R : ν → ν → Prop) (drop : Prop) (m : OrdMap κ ν) : Evolves R drop m m :=
  fun _ v hget => .inr ⟨v, hget, .inl rfl⟩

theorem Evolves.of_get?_eq (h : ∀ k v, m.get? k = some v → m'.get? k = some v) :
    Evolves R drop m m' := fun k v hget => .inr ⟨v, h k v hget, .inl rfl⟩

theorem Evolves.set {k : κ} {v v' : ν} (get : m.get? k = some v) (h : R v v') :
    Evolves R drop m (m.set k v') := by
  intro k' w hget
  by_cases hk : k' = k
  · subst hk
    obtain rfl : v = w := Option.some.inj (get.symm.trans hget)
    exact .inr ⟨v', get?_set_self m k' v', .inr h⟩
  · exact .inr ⟨w, by rw [get?_set_of_ne hk, hget], .inl rfl⟩

theorem Evolves.set_fresh {k : κ} {v : ν} (fresh : m.get? k = none) :
    Evolves R drop m (m.set k v) := by
  refine .of_get?_eq fun k' w hget => ?_
  have hk : k' ≠ k := by
    rintro rfl
    rw [fresh] at hget
    cases hget
  rw [get?_set_of_ne hk, hget]

theorem Evolves.swept (h : Swept R m m') : Evolves R drop m m' :=
  fun _ _ hget => .inr (h.forward hget)

theorem Evolves.filter (hdrop : drop) (p : κ → ν → Bool) : Evolves R drop m (m.filter p) := by
  intro k v hget
  rw [get?_filter, hget, Option.filter]
  split
  · exact .inr ⟨v, rfl, .inl rfl⟩
  · exact .inl ⟨hdrop, rfl⟩

end Evolves

end OrdMap

end Neemata
