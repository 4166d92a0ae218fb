import Mathlib.Data.List.Nodup
import Mathlib.Data.List.Range
import Neemata.Lib.Trace

/-!
# Bounded concurrency

`runWithConcurrency` of `transports/src/json-rpc/server.ts`. The workers take the items one after
another and keep the results by their positions; an event is the end of one task. Tasks do not
reject.
-/

namespace Neemata.JsonRpc

structure Workers (R : Type) where
  cursor : Nat
  /-- The items whose task runs. -/
  running : List Nat
  results : List (Option R)
  /-- The items that `task` has been called with. -/
  ran : List Nat
deriving DecidableEq

namespace Workers

variable {R : Type}

def start (limit n : Nat) : Workers R where
  cursor := min limit n
  running := List.range (min limit n)
  results := List.replicate n none
  ran := List.range (min limit n)

/-- A worker takes the next item, if there is one. -/
def take (s : Workers R) : Workers R :=
  if s.cursor < s.results.length then
    { s with
      cursor := s.cursor + 1
      running := s.running ++ [s.cursor]
      ran := s.ran ++ [s.cursor] }
  else s

/-- The task of an item ends. -/
def finish (task : Nat → R) (s : Workers R) (i : Nat) : Workers R :=
  if i ∈ s.running then
    take { s with running := s.running.erase i, results := s.results.set i (some (task i)) }
  else s

variable {limit n : Nat} {task : Nat → R} {s : Workers R}

structure Inv (limit n : Nat) (task : Nat → R) (s : Workers R) : Prop where
  length : s.results.length = n
  cursor : s.cursor ≤ n
  bounded : s.running.length ≤ limit
  /-- Before the last item has been taken, no worker is idle. -/
  busy : s.cursor < n → s.running.length = min limit n
  ran : s.ran = List.range s.cursor
  nodup : s.running.Nodup
  taken : ∀ i ∈ s.running, i < s.cursor
  results : ∀ i < n, s.results[i]? =
    some (if i < s.cursor ∧ i ∉ s.running then some (task i) else none)

theorem inv_start (limit n : Nat) (task : Nat → R) : Inv limit n task (start limit n) where
  length := List.length_replicate
  cursor := Nat.min_le_right _ _
  bounded := by
    show (List.range _).length ≤ _
    rw [List.length_range]
    exact Nat.min_le_left _ _
  busy _ := List.length_range
  ran := rfl
  nodup := List.nodup_range
  taken i hi := List.mem_range.mp hi
  results i hi := by
    show (List.replicate n none)[i]? = _
    rw [List.getElem?_replicate_of_lt hi, if_neg]
    exact fun h => h.2 (List.mem_range.mpr h.1)

/-- The end of a task frees a worker, which takes the next item. -/
theorem Inv.finish (h : Inv limit n task s) (i : Nat) : Inv limit n task (s.finish task i) := by
  by_cases hi : i ∈ s.running
  swap
  · rw [Workers.finish, if_neg hi]
    exact h
  rw [Workers.finish, if_pos hi]
  have hlt := h.taken i hi
  have hin : i < n := Nat.lt_of_lt_of_le hlt h.cursor
  have herase : (s.running.erase i).length = s.running.length - 1 := List.length_erase_of_mem hi
  have hpos : 0 < s.running.length := List.length_pos_of_mem hi
  have hset : ∀ j < n, (s.results.set i (some (task i)))[j]? =
      some (if j < s.cursor ∧ j ∉ s.running.erase i then some (task j) else none) := by
    intro j hj
    by_cases heq : i = j
    · subst heq
      rw [List.getElem?_set_self (h.length ▸ hin), if_pos ⟨hlt, h.nodup.not_mem_erase⟩]
    · rw [List.getElem?_set_ne heq, h.results j hj]
      simp only [List.mem_erase_of_ne (Ne.symm heq)]
  unfold take
  split
  · next hnext =>
    rw [List.length_set, h.length] at hnext
    have hfull := h.busy hnext
    exact {
      length := (List.length_set).trans h.length
      cursor := hnext
      bounded := by
        have hle := h.bounded
        rw [List.length_append, herase, List.length_singleton]
        omega
      busy := fun _ => by
        rw [List.length_append, herase, List.length_singleton]
        omega
      ran := by
        show s.ran ++ [s.cursor] = List.range (s.cursor + 1)
        rw [h.ran, List.range_succ]
      nodup := by
        refine (List.nodup_append.mpr ⟨h.nodup.erase i, List.pairwise_singleton _ _, ?_⟩)
        intro j hj k hk heq
        have hlt := h.taken j (List.mem_of_mem_erase hj)
        rw [heq, List.mem_singleton.mp hk] at hlt
        exact Nat.lt_irrefl _ hlt
      taken := fun j hj => by
        rcases List.mem_append.mp hj with hj | hj
        · exact Nat.lt_succ_of_lt (h.taken j (List.mem_of_mem_erase hj))
        · rw [List.mem_singleton.mp hj]
          exact Nat.lt_succ_self _
      results := fun j hj => by
        show (s.results.set i (some (task i)))[j]? = _
        rw [hset j hj]
        congr 1
        by_cases heq : j = s.cursor
        · subst heq
          simp
        · have hcur : j < s.cursor + 1 ↔ j < s.cursor := by omega
          simp [hcur, heq] }
  · next hnext =>
    rw [List.length_set, h.length] at hnext
    exact {
      length := (List.length_set).trans h.length
      cursor := h.cursor
      bounded := by
        have hle := h.bounded
        rw [herase]
        omega
      busy := fun hlt => absurd hlt hnext
      ran := h.ran
      nodup := h.nodup.erase i
      taken := fun j hj => h.taken j (List.mem_of_mem_erase hj)
      results := hset }

theorem inv_run (limit n : Nat) (task : Nat → R) (l : List Nat) :
    Inv limit n task (Trace.run (finish task) (start limit n) l) :=
  Trace.run_inv (finish task) (P := fun _ => True) (I := Inv limit n task)
    (fun _ i _ h => h.finish i) (fun _ _ => trivial) (inv_start limit n task)

/-- Once no task runs, each has run once, and the results are all there. -/
theorem Inv.done (h : Inv limit n task s) (hlimit : 0 < limit) (hdone : s.running = []) :
    s.ran = List.range n ∧ s.results = (List.range n).map fun i => some (task i) := by
  have hcursor : s.cursor = n := by
    rcases Nat.lt_or_eq_of_le h.cursor with hlt | heq
    · have hbusy := h.busy hlt
      rw [hdone, List.length_nil] at hbusy
      omega
    · exact heq
  refine ⟨hcursor ▸ h.ran, List.ext_getElem? fun i => ?_⟩
  by_cases hi : i < n
  · rw [h.results i hi, hcursor, hdone, if_pos ⟨hi, List.not_mem_nil⟩]
    simp [hi]
  · rw [List.getElem?_eq_none (by rw [h.length]; omega),
      List.getElem?_eq_none (by rw [List.length_map, List.length_range]; omega)]

/-- The end of a task leaves fewer tasks to end. -/
theorem Inv.finish_lt (h : Inv limit n task s) {i : Nat} (hi : i ∈ s.running) :
    n - (s.finish task i).cursor + (s.finish task i).running.length <
      n - s.cursor + s.running.length := by
  have herase : (s.running.erase i).length = s.running.length - 1 := List.length_erase_of_mem hi
  have hpos : 0 < s.running.length := List.length_pos_of_mem hi
  rw [Workers.finish, if_pos hi, take]
  split
  · next hnext =>
    rw [List.length_set, h.length] at hnext
    dsimp only at hnext ⊢
    rw [List.length_append, herase, List.length_singleton]
    omega
  · dsimp only
    omega

/-- The tasks that are left can end one after another. -/
theorem Inv.exists_done (h : Inv limit n task s) :
    ∃ l, (Trace.run (Workers.finish task) s l).running = [] := by
  induction hleft : n - s.cursor + s.running.length using Nat.strong_induction_on generalizing s with
  | _ left ih =>
    cases hrunning : s.running with
    | nil => exact ⟨[], hrunning⟩
    | cons i rest =>
      have hi : i ∈ s.running := hrunning ▸ List.mem_cons_self
      obtain ⟨l, hl⟩ := ih _ (hleft ▸ h.finish_lt hi) (h.finish i) rfl
      exact ⟨i :: l, hl⟩

end Workers

end Neemata.JsonRpc
