import Neemata.Lib.OrdMap

/-!
# Secondary indexes

`Indexed keyOf index m`: the map `index` takes a secondary key to the primary key of the one entry
of `m` that has it. An exact index makes secondary keys unique, and it stays exact when an entry
is added under a free key, changed, released or removed together with its index entry.
-/

namespace Neemata

variable {κ κ' ν : Type} [DecidableEq κ] [DecidableEq κ']

/-- Enter the key of a new entry, if it has one. -/
def OrdMap.enter (index : OrdMap κ' κ) (key : Option κ') (id : κ) : OrdMap κ' κ :=
  match key with
  | some k => index.set k id
  | none => index

/-- Drop the key of an entry, if it has one. -/
def OrdMap.leave (index : OrdMap κ' κ) (key : Option κ') : OrdMap κ' κ :=
  match key with
  | some k => index.erase k
  | none => index

/-- `index` is the exact secondary index of `m` for the partial key `keyOf`. -/
def Indexed (keyOf : ν → Option κ') (index : OrdMap κ' κ) (m : OrdMap κ ν) : Prop :=
  ∀ k id, index.get? k = some id ↔ ∃ v, m.get? id = some v ∧ keyOf v = some k

namespace Indexed

variable {keyOf : ν → Option κ'} {index : OrdMap κ' κ} {m : OrdMap κ ν}

theorem empty : Indexed keyOf .empty (.empty : OrdMap κ ν) := by
  intro k id
  simp

/-- Two entries with one secondary key are the same entry. -/
theorem unique (h : Indexed keyOf index m) {id id' : κ} {v v' : ν} {k : κ'}
    (get : m.get? id = some v) (get' : m.get? id' = some v') (hk : keyOf v = some k)
    (hk' : keyOf v' = some k) : id = id' := by
  have hid := (h k id).mpr ⟨v, get, hk⟩
  have hid' := (h k id').mpr ⟨v', get', hk'⟩
  exact Option.some.inj (hid.symm.trans hid')

theorem insert (h : Indexed keyOf index m) {id : κ} {v : ν} (fresh : m.get? id = none)
    (free : ∀ k, keyOf v = some k → index.get? k = none) :
    Indexed keyOf (index.enter (keyOf v) id) (m.set id v) := by
  have hold {k id'} : (∃ w, (m.set id v).get? id' = some w ∧ keyOf w = some k) ↔
      (id' = id ∧ keyOf v = some k) ∨ ∃ w, m.get? id' = some w ∧ keyOf w = some k := by
    rw [OrdMap.get?_set]
    split
    · next heq =>
      subst heq
      simp [fresh]
    · next hne => simp [hne]
  intro k id'
  rw [hold, ← h k id']
  cases hv : keyOf v with
  | none => simp [OrdMap.enter]
  | some k₀ =>
    simp only [OrdMap.enter, OrdMap.get?_set, Option.some.injEq]
    split
    · next heq =>
      subst heq
      simp [free k hv, eq_comm]
    · next hne => simp [Ne.symm hne]

theorem update (h : Indexed keyOf index m) {id : κ} {v v' : ν} (get : m.get? id = some v)
    (same : keyOf v' = keyOf v) : Indexed keyOf index (m.set id v') := by
  intro k id'
  rw [h k id', OrdMap.get?_set]
  split
  · next heq =>
    subst heq
    simp [get, same]
  · rfl

/-- An entry gives up its key: the index entry goes if it is the entry's own. -/
theorem release (h : Indexed keyOf index m) {id : κ} {v v' : ν} (get : m.get? id = some v)
    (gone : keyOf v' = none) :
    Indexed keyOf (index.leave (keyOf v)) (m.set id v') := by
  have hold {k id'} : (∃ w, (m.set id v').get? id' = some w ∧ keyOf w = some k) ↔
      id' ≠ id ∧ ∃ w, m.get? id' = some w ∧ keyOf w = some k := by
    rw [OrdMap.get?_set]
    split
    · next heq => simp [heq, gone]
    · next hne => simp [hne]
  intro k id'
  rw [hold, ← h k id']
  have hother (hget : index.get? k = some id') : id' = id ↔ keyOf v = some k := by
    constructor
    · rintro rfl
      obtain ⟨w, hw, hkey⟩ := (h k id').mp hget
      obtain rfl := Option.some.inj (get.symm.trans hw)
      exact hkey
    · intro hv
      exact Option.some.inj (hget.symm.trans ((h k id).mpr ⟨v, get, hv⟩))
  cases hv : keyOf v with
  | none =>
    refine ⟨fun hget => ⟨fun he => ?_, hget⟩, And.right⟩
    rw [hother hget, hv] at he
    cases he
  | some k₀ =>
    simp only [OrdMap.leave, OrdMap.get?_erase]
    split
    · next heq =>
      subst heq
      simp only [reduceCtorEq, false_iff, not_and]
      exact fun hne hget => hne ((hother hget).mpr hv)
    · next hne =>
      refine ⟨fun hget => ⟨fun he => ?_, hget⟩, And.right⟩
      rw [hother hget, hv] at he
      exact hne (Option.some.inj he).symm

theorem filter (h : Indexed keyOf index m) (p : κ → Bool) :
    Indexed keyOf (index.filter fun _ id => p id) (m.filter fun id _ => p id) := by
  intro k id
  simp only [OrdMap.get?_filter, Option.filter_eq_some_iff, h k id]
  constructor
  · rintro ⟨⟨v, hget, hk⟩, hp⟩
    exact ⟨v, ⟨hget, hp⟩, hk⟩
  · rintro ⟨v, ⟨hget, hp⟩, hk⟩
    exact ⟨⟨v, hget, hk⟩, hp⟩

end Indexed

end Neemata
