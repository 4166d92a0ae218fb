import Mathlib.Tactic.Common

/-!
# Pages of a list

A list is read page by page: a page goes from an offset to where it stops, and the next one begins
at its end, as long as that is not the end of the list. If every page goes on, the pages are finite
in number and make up the list (`cut_eq`).
-/

namespace Neemata.Pages

variable {α : Type*} (stop : Nat → Nat) (l : List α)

/-- `l.slice(start, end)` -/
def slice (start stop : Nat) : List α := (l.take stop).drop start

/-- The pages from an offset on; `none` stands for a reader that has given up. -/
def cut : Nat → Nat → Option (List (List α))
  | 0, _ => none
  | fuel + 1, offset =>
    let page := slice l offset (stop offset)
    let next := offset + page.length
    if next < l.length then (cut fuel next).map (page :: ·) else some [page]

variable {stop l}

theorem length_slice (start stop : Nat) :
    (slice l start stop).length = min stop l.length - start := by
  rw [slice, List.length_drop, List.length_take]

theorem slice_append_drop {start stop : Nat} (h : start ≤ min stop l.length) :
    slice l start stop ++ l.drop (start + (slice l start stop).length) = l.drop start := by
  have hend : start + (slice l start stop).length = min stop l.length := by
    rw [length_slice]
    omega
  have htake : l.take stop = l.take (min stop l.length) := by
    rcases Nat.le_total stop l.length with hle | hle
    · rw [Nat.min_eq_left hle]
    · rw [Nat.min_eq_right hle, List.take_length, List.take_of_length_le hle]
  have hlength : start ≤ (l.take (min stop l.length)).length := by
    rw [List.length_take]
    omega
  rw [hend, slice, htake, ← List.drop_append_of_le_length hlength, List.take_append_drop]

/-- The pages of a list whose pages go on: they make up the rest of the list, all but the last are
non-empty, and none is longer than its bound. -/
theorem cut_eq {bound : Nat} (hstop : ∀ n < l.length, n < stop n)
    (hbound : ∀ n < l.length, stop n ≤ n + bound) {offset : Nat} (hoffset : offset ≤ l.length) :
    ∃ pages : List (List α),
      (∀ fuel, l.length - offset < fuel → cut stop l fuel offset = some pages) ∧
      pages.flatten = l.drop offset ∧
      (∀ page ∈ pages.dropLast, page ≠ []) ∧ ∀ page ∈ pages, page.length ≤ bound := by
  induction hrest : l.length - offset using Nat.strongRecOn generalizing offset with
  | _ rest ih =>
    subst hrest
    have hlength := length_slice (l := l) offset (stop offset)
    have hsplit : offset < l.length → offset ≤ min (stop offset) l.length := fun h => by
      have hgoes := hstop offset h
      omega
    have hpage : (slice l offset (stop offset)).length ≤ bound := by
      rcases Nat.lt_or_ge offset l.length with h | h
      · have hle := hbound offset h
        omega
      · omega
    by_cases hnext : offset + (slice l offset (stop offset)).length < l.length
    · have hoffset' : offset < l.length := by omega
      have hgoes := hstop offset hoffset'
      have hne : slice l offset (stop offset) ≠ [] := List.ne_nil_of_length_pos (by omega)
      obtain ⟨pages, hcut, hflatten, hfull, hshort⟩ :=
        ih (l.length - (offset + (slice l offset (stop offset)).length)) (by omega)
          (Nat.le_of_lt hnext) rfl
      refine ⟨slice l offset (stop offset) :: pages, fun fuel hfuel => ?_, ?_, fun page h => ?_,
        List.forall_mem_cons.mpr ⟨hpage, hshort⟩⟩
      · obtain ⟨fuel, rfl⟩ := Nat.exists_eq_succ_of_ne_zero (Nat.ne_of_gt (Nat.zero_lt_of_lt hfuel))
        rw [cut]
        rw [if_pos hnext, hcut fuel (by omega)]
        rfl
      · rw [List.flatten_cons, hflatten, slice_append_drop (hsplit hoffset')]
      · cases pages with
        | nil => cases h
        | cons next pages =>
          rcases List.mem_cons.mp h with rfl | h
          · exact hne
          · exact hfull page h
    · refine ⟨[slice l offset (stop offset)], fun fuel hfuel => ?_, ?_, fun page h => ?_,
        List.forall_mem_singleton.mpr hpage⟩
      · obtain ⟨fuel, rfl⟩ := Nat.exists_eq_succ_of_ne_zero (Nat.ne_of_gt (Nat.zero_lt_of_lt hfuel))
        rw [cut]
        rw [if_neg hnext]
      · have hdrop : l.drop (offset + (slice l offset (stop offset)).length) = [] :=
          List.drop_eq_nil_of_le (by omega)
        rw [List.flatten_singleton]
        rcases Nat.lt_or_ge offset l.length with h | h
        · rw [← slice_append_drop (hsplit h), hdrop, List.append_nil]
        · rw [List.drop_eq_nil_of_le h]
          exact List.eq_nil_of_length_eq_zero (by omega)
      · cases h

end Neemata.Pages
