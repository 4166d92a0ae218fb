import Neemata.Lib.CodeUnits
import Mathlib.Data.List.GetD
import Mathlib.Data.List.Nodup

/-!
# Base64

Bytes as digits of six bits, with the two alphabets; the standard encoding is filled up with `=`.
No two byte strings have the same digits (`bytes_sextets`).
-/

namespace Neemata.Base64

open CodeUnits

/-- The groups of six bits, the last one filled up with zeros. -/
def sextets : List UInt8 → List (Fin 64)
  | [] => []
  | [a] => [.ofNat 64 (a.toNat / 4), .ofNat 64 (a.toNat % 4 * 16)]
  | [a, b] =>
    [.ofNat 64 (a.toNat / 4), .ofNat 64 (a.toNat % 4 * 16 + b.toNat / 16),
      .ofNat 64 (b.toNat % 16 * 4)]
  | a :: b :: c :: rest =>
    .ofNat 64 (a.toNat / 4) :: .ofNat 64 (a.toNat % 4 * 16 + b.toNat / 16) ::
      .ofNat 64 (b.toNat % 16 * 4 + c.toNat / 64) :: .ofNat 64 (c.toNat % 64) :: sextets rest

def bytes : List (Fin 64) → List UInt8
  | x :: y :: z :: w :: rest =>
    .ofNat (x.val * 4 + y.val / 16) :: .ofNat (y.val % 16 * 16 + z.val / 4) ::
      .ofNat (z.val % 4 * 64 + w.val) :: bytes rest
  | [x, y, z] => [.ofNat (x.val * 4 + y.val / 16), .ofNat (y.val % 16 * 16 + z.val / 4)]
  | [x, y] => [.ofNat (x.val * 4 + y.val / 16)]
  | _ => []

theorem ofNat_eq {b : UInt8} {n : Nat} (h : n = b.toNat) : UInt8.ofNat n = b := by
  rw [h, UInt8.ofNat_toNat]

theorem bytes_sextets (l : List UInt8) : bytes (sextets l) = l := by
  induction l using sextets.induct with
  | case1 => rfl
  | case2 a =>
    have ha := a.toNat_lt
    simp only [sextets, bytes, Fin.ofNat]
    rw [ofNat_eq (b := a) (by omega)]
  | case3 a b =>
    have ha := a.toNat_lt
    have hb := b.toNat_lt
    simp only [sextets, bytes, Fin.ofNat]
    rw [ofNat_eq (b := a) (by omega), ofNat_eq (b := b) (by omega)]
  | case4 a b c rest ih =>
    have ha := a.toNat_lt
    have hb := b.toNat_lt
    have hc := c.toNat_lt
    simp only [sextets, bytes, Fin.ofNat]
    rw [ofNat_eq (b := a) (by omega), ofNat_eq (b := b) (by omega), ofNat_eq (b := c) (by omega),
      ih]

theorem sextets_injective : Function.Injective sextets :=
  Function.LeftInverse.injective bytes_sextets

theorem sextets_ne_nil {l : List UInt8} (h : l ≠ []) : sextets l ≠ [] := by
  intro hnil
  have hback := bytes_sextets l
  rw [hnil] at hback
  exact h hback.symm

def letters : String := "ABCDEFGHIJKLMNOPQRSTUVWXYZabcdefghijklmnopqrstuvwxyz0123456789"

def standard : Text := units (letters ++ "+/")

def urlSafe : Text := units (letters ++ "-_")

def digit (alphabet : Text) (s : Fin 64) : UInt16 := alphabet.getD s.val 0

theorem digit_mem {alphabet : Text} (h : alphabet.length = 64) (s : Fin 64) :
    digit alphabet s ∈ alphabet := by
  have hs : s.val < alphabet.length := by rw [h]; exact s.isLt
  rw [digit, List.getD_eq_getElem _ _ hs]
  exact List.getElem_mem hs

/-- `toString('base64')` -/
def encode (l : List UInt8) : Text :=
  (sextets l).map (digit standard) ++ List.replicate ((3 - l.length % 3) % 3) (unit '=')

/-- `toString('base64url')` -/
def encodeUrl (l : List UInt8) : Text := (sextets l).map (digit urlSafe)

theorem encode_ne_nil {l : List UInt8} (h : l ≠ []) : encode l ≠ [] := by
  intro hnil
  exact sextets_ne_nil h (List.map_eq_nil_iff.mp (List.append_eq_nil_iff.mp hnil).1)

theorem length_standard : standard.length = 64 := by decide

theorem length_urlSafe : urlSafe.length = 64 := by decide

theorem mem_encode {l : List UInt8} {u : UInt16} (h : u ∈ encode l) :
    u ∈ standard ∨ u = unit '=' := by
  rcases List.mem_append.mp h with hdigit | hpad
  · obtain ⟨s, -, rfl⟩ := List.mem_map.mp hdigit
    exact .inl (digit_mem length_standard s)
  · exact .inr (List.eq_of_mem_replicate hpad)

/-- Distinct letters stand for distinct digits. -/
theorem digit_injective {alphabet : Text} (hlength : alphabet.length = 64)
    (hnodup : alphabet.Nodup) : Function.Injective (digit alphabet) := by
  intro s t h
  have hs : s.val < alphabet.length := by rw [hlength]; exact s.isLt
  have ht : t.val < alphabet.length := by rw [hlength]; exact t.isLt
  rw [digit, digit, List.getD_eq_getElem _ _ hs, List.getD_eq_getElem _ _ ht] at h
  exact Fin.ext ((List.Nodup.getElem_inj_iff hnodup).mp h)

theorem nodup_urlSafe : urlSafe.Nodup := by decide +kernel

theorem encodeUrl_injective : Function.Injective encodeUrl := fun _ _ h =>
  sextets_injective ((digit_injective length_urlSafe nodup_urlSafe).list_map h)

theorem mem_encodeUrl {l : List UInt8} {u : UInt16} (h : u ∈ encodeUrl l) : u ∈ urlSafe := by
  obtain ⟨s, -, rfl⟩ := List.mem_map.mp h
  exact digit_mem length_urlSafe s

end Neemata.Base64
