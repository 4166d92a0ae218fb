import Mathlib.Data.List.DropRight
import Mathlib.Tactic.Common

/-!
# Texts as UTF-16 code units

A string of the language is the list of its code units. `firstIndex` is where a text first occurs
in another one; `trim` drops the white space at both ends.
-/

namespace Neemata.CodeUnits

abbrev Text := List UInt16

/-- The code unit of a character below U+10000. -/
def unit (c : Char) : UInt16 := c.toNat.toUInt16

/-- The text of a literal that has only such characters. -/
def units (literal : String) : Text := literal.toList.map unit

def lf : UInt16 := 10

def cr : UInt16 := 13

/-- White space and line terminators. -/
def isSpace (u : UInt16) : Bool :=
  (9 ≤ u && u ≤ 13) || u == 32 || u == 0xA0 || u == 0x1680 || (0x2000 ≤ u && u ≤ 0x200A) ||
    u == 0x2028 || u == 0x2029 || u == 0x202F || u == 0x205F || u == 0x3000 || u == 0xFEFF

def trim (text : Text) : Text := (text.dropWhile isSpace).rdropWhile isSpace

@[simp] theorem trim_nil : trim [] = [] := rfl

/-- A text with something else than white space is not trimmed to nothing. -/
theorem trim_ne_nil {text : Text} {u : UInt16} (hu : u ∈ text) (hspace : isSpace u = false) :
    trim text ≠ [] := by
  intro h
  have hall : ∀ v ∈ text.dropWhile isSpace, isSpace v = true := List.rdropWhile_eq_nil_iff.mp h
  have hmem : u ∈ text.dropWhile isSpace := by
    rw [← List.takeWhile_append_dropWhile (p := isSpace) (l := text), List.mem_append] at hu
    refine hu.resolve_left fun htake => ?_
    rw [List.mem_takeWhile_imp htake] at hspace
    cases hspace
  rw [hall u hmem] at hspace
  cases hspace

/-! ## The first occurrence of a text -/

section

variable {α : Type} [DecidableEq α]

def firstIndex (search : List α) : List α → Option Nat
  | [] => if search = [] then some 0 else none
  | a :: rest => if search <+: a :: rest then some 0 else (firstIndex search rest).map (· + 1)

theorem firstIndex_spec {search text : List α} {i : Nat} (h : firstIndex search text = some i) :
    search <+: text.drop i ∧ ∀ j < i, ¬ search <+: text.drop j := by
  induction text generalizing i with
  | nil =>
    rw [firstIndex] at h
    split at h
    · rename_i hs
      cases h
      exact ⟨by rw [hs]; exact List.nil_prefix, fun j hj => absurd hj (Nat.not_lt_zero j)⟩
    · cases h
  | cons a rest ih =>
    rw [firstIndex] at h
    split at h
    · rename_i hp
      cases h
      exact ⟨hp, fun j hj => absurd hj (Nat.not_lt_zero j)⟩
    · rename_i hp
      obtain ⟨k, hk, rfl⟩ := Option.map_eq_some_iff.mp h
      obtain ⟨hat, hbefore⟩ := ih hk
      refine ⟨hat, fun j hj => ?_⟩
      cases j with
      | zero => exact hp
      | succ j => exact hbefore j (Nat.lt_of_succ_lt_succ hj)

theorem firstIndex_none {search text : List α} (h : firstIndex search text = none) (j : Nat) :
    ¬ search <+: text.drop j := by
  induction text generalizing j with
  | nil =>
    rw [firstIndex] at h
    split at h
    · cases h
    · rename_i hs
      rw [List.drop_nil]
      exact fun hp => hs (List.prefix_nil.mp hp)
  | cons a rest ih =>
    rw [firstIndex] at h
    split at h
    · cases h
    · rename_i hp
      cases j with
      | zero => exact hp
      | succ j => exact ih (Option.map_eq_none_iff.mp h) j

/-- Where the first occurrence of one element is, and what stands before and after it. -/
theorem firstIndex_singleton {a : α} {text : List α} {i : Nat}
    (h : firstIndex [a] text = some i) :
    i < text.length ∧ a ∉ text.take i ∧ text.drop i = a :: text.drop (i + 1) := by
  obtain ⟨⟨rest, hrest⟩, hbefore⟩ := firstIndex_spec h
  have hdrop : text.drop i = a :: rest := hrest.symm
  have hi : i < text.length := by
    by_contra hge
    rw [List.drop_eq_nil_of_le (Nat.le_of_not_lt hge)] at hdrop
    cases hdrop
  refine ⟨hi, fun hmem => ?_, ?_⟩
  · obtain ⟨j, hj, hget⟩ := List.mem_iff_getElem.mp hmem
    rw [List.length_take] at hj
    rw [List.getElem_take] at hget
    refine hbefore j (by omega) ?_
    rw [List.drop_eq_getElem_cons (by omega), hget]
    exact ⟨_, rfl⟩
  · have htail := congrArg List.tail hdrop
    rw [List.tail_drop] at htail
    rw [hdrop, htail]
    rfl

theorem not_mem_of_firstIndex_none {a : α} {text : List α} (h : firstIndex [a] text = none) :
    a ∉ text := by
  intro hmem
  obtain ⟨j, hj, hget⟩ := List.mem_iff_getElem.mp hmem
  refine firstIndex_none h j ?_
  rw [List.drop_eq_getElem_cons hj, hget]
  exact ⟨_, rfl⟩

end

/-- The first index of `search` in the source that is not below `fromIndex`. -/
def indexOf (source search : Text) (fromIndex : Nat) : Option Nat :=
  (firstIndex search (source.drop fromIndex)).map (fromIndex + ·)

end Neemata.CodeUnits
