import Neemata.Lib.Trace
import Mathlib.Data.Int.ModEq

/-!
# Ids from a counter that wraps

A counter gives the ids `0`, `1`, … and starts again from `0` at its period. Whether an id is that
of a live holder depends on how many ids were given since the holder took its own
(`fresh_iff_spaced`).
-/

namespace Neemata

/-- A live holder of an id. -/
structure Holder where
  id : Nat
  /-- The number of ids given before its own. -/
  ordinal : Nat
deriving DecidableEq

structure CyclicIds where
  counter : Nat := 0
  /-- The number of ids given. -/
  given : Nat := 0
  alive : List Holder := []
deriving DecidableEq

namespace CyclicIds

/-- The id given at a counter, and the counter after it. -/
def next (period counter : Nat) : Nat × Nat :=
  let id := if counter ≥ period then 0 else counter
  (id, id + 1)

/-- An id is given, by `next`. -/
def take (s : CyclicIds) (next : Nat → Nat × Nat) : CyclicIds where
  counter := (next s.counter).2
  given := s.given + 1
  alive := s.alive ++ [⟨(next s.counter).1, s.given⟩]

/-- The holder at a place goes. -/
def release (s : CyclicIds) (i : Nat) : CyclicIds := { s with alive := s.alive.eraseIdx i }

def releaseAll (s : CyclicIds) : CyclicIds := { s with alive := [] }

/-- The id to be given is that of no live holder. -/
def Fresh (s : CyclicIds) (next : Nat → Nat × Nat) : Prop :=
  ∀ holder ∈ s.alive, holder.id ≠ (next s.counter).1

/-- No live holder took its id a multiple of the period ago. -/
def Spaced (s : CyclicIds) (period : Nat) : Prop :=
  ∀ holder ∈ s.alive, ¬ period ∣ s.given - holder.ordinal

instance (s : CyclicIds) (next : Nat → Nat × Nat) : Decidable (s.Fresh next) :=
  inferInstanceAs (Decidable (∀ holder ∈ s.alive, _))

instance (s : CyclicIds) (period : Nat) : Decidable (s.Spaced period) :=
  inferInstanceAs (Decidable (∀ holder ∈ s.alive, _))

/-- The ids are the ordinals, up to the period. -/
structure Counted (period : Nat) (s : CyclicIds) : Prop where
  next : (next period s.counter).1 = s.given % period
  id : ∀ holder ∈ s.alive, holder.id = holder.ordinal % period
  le : ∀ holder ∈ s.alive, holder.ordinal ≤ s.given

variable {period : Nat} {s : CyclicIds}

theorem counted_new (hpos : 0 < period) : Counted period {} where
  next := by
    rw [CyclicIds.next, if_neg (Nat.not_le.mpr hpos), Nat.zero_mod]
  id _ h := by cases h
  le _ h := by cases h

theorem fst_next_succ {n : Nat} (hpos : 0 < period) :
    (next period (n % period + 1)).1 = (n + 1) % period := by
  have hlt : n % period < period := Nat.mod_lt n hpos
  unfold next
  dsimp only
  rcases Nat.lt_or_ge (n % period + 1) period with h | h
  · rw [if_neg (Nat.not_le.mpr h), Nat.add_mod, Nat.mod_eq_of_lt (a := 1) (by omega),
      Nat.mod_eq_of_lt h]
  · have heq : n % period + 1 = period := by omega
    rw [if_pos h, ← Nat.mod_add_mod, heq, Nat.mod_self]

theorem Counted.take (H : s.Counted period) (hpos : 0 < period) :
    (s.take (CyclicIds.next period)).Counted period where
  next := by
    have hcounter : (s.take (CyclicIds.next period)).counter = s.given % period + 1 :=
      congrArg (· + 1) H.next
    rw [hcounter]
    exact fst_next_succ hpos
  id holder h := by
    rcases List.mem_append.mp h with h | h
    · exact H.id holder h
    · cases List.mem_singleton.mp h
      exact H.next
  le holder h := by
    rcases List.mem_append.mp h with h | h
    · exact Nat.le_succ_of_le (H.le holder h)
    · cases List.mem_singleton.mp h
      exact Nat.le_succ _

theorem Counted.release (H : s.Counted period) (i : Nat) : (s.release i).Counted period where
  next := H.next
  id holder h := H.id holder (List.mem_of_mem_eraseIdx h)
  le holder h := H.le holder (List.mem_of_mem_eraseIdx h)

theorem Counted.releaseAll (H : s.Counted period) : s.releaseAll.Counted period where
  next := H.next
  id _ h := by cases h
  le _ h := by cases h

theorem fresh_iff_spaced (H : s.Counted period) : s.Fresh (next period) ↔ s.Spaced period := by
  refine forall₂_congr fun holder h => not_congr ?_
  rw [H.id holder h, H.next]
  exact Nat.modEq_iff_dvd' (H.le holder h)

end CyclicIds

end Neemata
