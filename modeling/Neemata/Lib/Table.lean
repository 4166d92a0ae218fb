import Mathlib.Data.List.Nodup

/-!
# Tables with a primary key and a partial unique index

A table is a list of rows with distinct ids in which no two rows share an index entry; a row whose
`entry` is `none` is outside the index. A statement that would break a constraint fails
(`Table.commit`). An update of one row fails exactly when another row has the entry it moves to
(`updateWhere_eq_none_iff`); one that takes rows out of the index, or leaves their entries alone,
does not fail.
-/

namespace Neemata

variable {ρ ι κ : Type}

/-- No two rows share an index entry. -/
def UniqueEntries (id : ρ → ι) (entry : ρ → Option κ) (rows : List ρ) : Prop :=
  ∀ a ∈ rows, ∀ b ∈ rows, (entry a).isSome → entry a = entry b → id a = id b

instance [DecidableEq ι] [DecidableEq κ] (id : ρ → ι) (entry : ρ → Option κ) (rows : List ρ) :
    Decidable (UniqueEntries id entry rows) :=
  inferInstanceAs (Decidable (∀ a ∈ rows, ∀ b ∈ rows, (entry a).isSome → entry a = entry b →
    id a = id b))

structure Table (ρ ι κ : Type) (id : ρ → ι) (entry : ρ → Option κ) where
  rows : List ρ
  ids : (rows.map id).Nodup
  unique : UniqueEntries id entry rows

namespace Table

variable {id : ρ → ι} {entry : ρ → Option κ}

def empty : Table ρ ι κ id entry := ⟨[], List.nodup_nil, nofun⟩

/-- `DELETE ... WHERE p`. -/
def deleteWhere (t : Table ρ ι κ id entry) (p : ρ → Bool) : Table ρ ι κ id entry where
  rows := t.rows.filter fun row => !p row
  ids := t.ids.sublist (List.filter_sublist.map _)
  unique a ha b hb := t.unique a (List.mem_filter.mp ha).1 b (List.mem_filter.mp hb).1

theorem mem_deleteWhere {t : Table ρ ι κ id entry} {p : ρ → Bool} {row : ρ} :
    row ∈ (t.deleteWhere p).rows ↔ row ∈ t.rows ∧ p row = false := by
  simp [deleteWhere]

theorem eq_of_id_eq (t : Table ρ ι κ id entry) {a b : ρ} (ha : a ∈ t.rows) (hb : b ∈ t.rows)
    (h : id a = id b) : a = b :=
  List.inj_on_of_nodup_map t.ids ha hb h

/-- The row with an index entry is unique. -/
theorem eq_of_entry_eq (t : Table ρ ι κ id entry) {a b : ρ} (ha : a ∈ t.rows) (hb : b ∈ t.rows)
    (hsome : (entry a).isSome) (h : entry a = entry b) : a = b :=
  t.eq_of_id_eq ha hb (t.unique a ha b hb hsome h)

variable [DecidableEq ι] [DecidableEq κ]

/-! ## Statements -/

/-- The table with the given rows, if they satisfy the constraints. -/
def commit (id : ρ → ι) (entry : ρ → Option κ) (rows : List ρ) : Option (Table ρ ι κ id entry) :=
  if h : (rows.map id).Nodup ∧ UniqueEntries id entry rows then some ⟨rows, h.1, h.2⟩ else none

def insert (t : Table ρ ι κ id entry) (row : ρ) : Option (Table ρ ι κ id entry) :=
  commit id entry (t.rows ++ [row])

/-- `UPDATE ... SET f WHERE p`. -/
def updateWhere (t : Table ρ ι κ id entry) (p : ρ → Bool) (f : ρ → ρ) :
    Option (Table ρ ι κ id entry) :=
  commit id entry (t.rows.map fun row => if p row then f row else row)

/-- `INSERT ... ON CONFLICT DO UPDATE SET f`: a row that already has the index entry is updated
instead. -/
def upsert (t : Table ρ ι κ id entry) (row : ρ) (f : ρ → ρ) : Option (Table ρ ι κ id entry) :=
  let conflicts := fun existing => (entry row).isSome && decide (entry existing = entry row)
  if t.rows.any conflicts then t.updateWhere conflicts f else t.insert row

theorem commit_eq_some {rows : List ρ} {t : Table ρ ι κ id entry} :
    commit id entry rows = some t ↔ t.rows = rows := by
  unfold commit
  constructor
  · intro h
    split at h
    · exact congrArg Table.rows (Option.some.inj h).symm
    · cases h
  · rintro rfl
    exact dif_pos ⟨t.ids, t.unique⟩

theorem exists_commit {rows : List ρ} (hids : (rows.map id).Nodup)
    (hunique : UniqueEntries id entry rows) : ∃ t, commit id entry rows = some t :=
  ⟨⟨rows, hids, hunique⟩, commit_eq_some.mpr rfl⟩

/-! ## Updates -/

section Update

variable {t t' : Table ρ ι κ id entry} {p : ρ → Bool} {f : ρ → ρ}

theorem mem_updateWhere (h : t.updateWhere p f = some t') {row : ρ} :
    row ∈ t'.rows ↔ ∃ before ∈ t.rows, (if p before then f before else before) = row := by
  rw [commit_eq_some.mp h, List.mem_map]

theorem updateWhere_of_forall_false (h : ∀ row ∈ t.rows, p row = false) :
    t.updateWhere p f = some t := by
  refine commit_eq_some.mpr ?_
  have hsame : t.rows.map (fun row => if p row then f row else row) = t.rows.map fun row => row :=
    List.map_congr_left fun row hrow => by simp [h row hrow]
  rw [hsame, List.map_id']

omit [DecidableEq ι] [DecidableEq κ] in
private theorem map_ids (hid : ∀ row ∈ t.rows, p row = true → id (f row) = id row) :
    ((t.rows.map fun row => if p row then f row else row).map id).Nodup := by
  have hsame : (t.rows.map fun row => if p row then f row else row).map id = t.rows.map id := by
    rw [List.map_map]
    refine List.map_congr_left fun row hrow => ?_
    by_cases hp : p row = true
    · simp [hp, hid row hrow hp]
    · simp [hp]
  exact hsame ▸ t.ids

/-- An update that takes rows out of the index or leaves their entries alone succeeds. -/
theorem exists_updateWhere (hid : ∀ row ∈ t.rows, p row = true → id (f row) = id row)
    (hentry : ∀ row ∈ t.rows, p row = true → entry (f row) = none ∨ entry (f row) = entry row) :
    ∃ t', t.updateWhere p f = some t' := by
  refine exists_commit (map_ids hid) fun a' ha' b' hb' hsome hsame => ?_
  obtain ⟨a, ha, rfl⟩ := List.mem_map.mp ha'
  obtain ⟨b, hb, rfl⟩ := List.mem_map.mp hb'
  have hback {row : ρ} (hrow : row ∈ t.rows)
      (hin : (entry (if p row then f row else row)).isSome) :
      entry (if p row then f row else row) = entry row ∧
        id (if p row then f row else row) = id row := by
    split
    · next hp =>
      rw [if_pos hp] at hin
      refine ⟨(hentry row hrow hp).resolve_left fun hnone => ?_, hid row hrow hp⟩
      rw [hnone] at hin
      cases hin
    · exact ⟨rfl, rfl⟩
  obtain ⟨hea, hia⟩ := hback ha hsome
  obtain ⟨heb, hib⟩ := hback hb (hsame ▸ hsome)
  rw [hia, hib]
  exact t.unique a ha b hb (hea ▸ hsome) (hea.symm.trans (hsame.trans heb))

/-- An update of one row fails exactly when another row has the entry it moves to. -/
theorem updateWhere_eq_none_iff {row : ρ} (hrow : row ∈ t.rows)
    (hp : ∀ other ∈ t.rows, p other = true ↔ other = row) (hid : id (f row) = id row) :
    t.updateWhere p f = none ↔
      ∃ other ∈ t.rows, other ≠ row ∧ (entry (f row)).isSome ∧ entry other = entry (f row) := by
  have hself : p row = true := (hp row hrow).mpr rfl
  have hother {other : ρ} (hmem : other ∈ t.rows) (hne : other ≠ row) : p other = false := by
    simpa using mt (hp other hmem).mp hne
  constructor
  · intro hnone
    by_contra hfree
    simp only [not_exists, not_and] at hfree
    have hids := map_ids (t := t) (p := p) (f := f) fun other hmem htrue => by
      rw [(hp other hmem).mp htrue, hid]
    obtain ⟨t', ht'⟩ : ∃ t', commit id entry _ = some t' := exists_commit hids fun a' ha' b' hb' hsome hsame => by
      obtain ⟨a, ha, rfl⟩ := List.mem_map.mp ha'
      obtain ⟨b, hb, rfl⟩ := List.mem_map.mp hb'
      by_cases hra : a = row <;> by_cases hrb : b = row
      · rw [hra, hrb]
      · subst hra
        simp only [hself, hother hb hrb, if_true, Bool.false_eq_true, if_false] at hsome hsame
        exact absurd hsame.symm (hfree b hb hrb hsome)
      · subst hrb
        simp only [hself, hother ha hra, if_true, Bool.false_eq_true, if_false] at hsome hsame
        exact absurd hsame (hfree a ha hra (hsame ▸ hsome))
      · simp only [hother ha hra, hother hb hrb, Bool.false_eq_true, if_false] at hsome hsame ⊢
        exact t.unique a ha b hb hsome hsame
    exact absurd (hnone.symm.trans ht') (by simp)
  · rintro ⟨other, hmem, hne, hsome, hsame⟩
    rw [Option.eq_none_iff_forall_ne_some]
    intro t' ht'
    have hmoved : f row ∈ t'.rows := (mem_updateWhere ht').mpr ⟨row, hrow, by simp [hself]⟩
    have hkept : other ∈ t'.rows := (mem_updateWhere ht').mpr ⟨other, hmem, by
      simp [hother hmem hne]⟩
    have heq := t'.unique _ hmoved _ hkept hsome hsame.symm
    exact hne (t.eq_of_id_eq hmem hrow (heq.symm.trans hid))

/-- An upsert with a fresh id succeeds if the update keeps ids and entries. -/
theorem exists_upsert {row : ρ} (hfresh : ∀ existing ∈ t.rows, id existing ≠ id row)
    (hid : ∀ existing, id (f existing) = id existing)
    (hentry : ∀ existing, entry (f existing) = entry existing) :
    ∃ t', t.upsert row f = some t' := by
  unfold upsert
  dsimp only
  split
  · exact exists_updateWhere (fun existing _ _ => hid existing) fun existing _ _ =>
      .inr (hentry existing)
  · next hany =>
    have hfree : ∀ existing ∈ t.rows, (entry row).isSome → entry existing ≠ entry row := by
      simpa using hany
    refine exists_commit ?_ fun a ha b hb hsome hsame => ?_
    · rw [List.map_append, List.nodup_append]
      refine ⟨t.ids, List.nodup_singleton _, ?_⟩
      rintro _ ha _ hb rfl
      obtain ⟨existing, hmem, heq⟩ := List.mem_map.mp ha
      exact hfresh existing hmem (heq.trans (List.mem_singleton.mp hb))
    · obtain hma | hma := List.mem_append.mp ha <;> obtain hmb | hmb := List.mem_append.mp hb
      · exact t.unique a hma b hmb hsome hsame
      · obtain rfl := List.mem_singleton.mp hmb
        exact absurd hsame (hfree a hma (hsame ▸ hsome))
      · obtain rfl := List.mem_singleton.mp hma
        exact absurd hsame.symm (hfree b hmb hsome)
      · rw [List.mem_singleton.mp hma, List.mem_singleton.mp hmb]

end Update

end Table

end Neemata
