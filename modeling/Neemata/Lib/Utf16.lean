import Neemata.Lib.CodeUnits

/-!
# UTF-16

The characters of a text. A surrogate without its partner is read as `U+FFFD`, as it is where a
text is made well formed or written in UTF-8.
-/

namespace Neemata.Utf16

open CodeUnits

def isHigh (u : UInt16) : Bool := 0xD800 ≤ u && u < 0xDC00

def isLow (u : UInt16) : Bool := 0xDC00 ≤ u && u < 0xE000

def replacement : Char := '\uFFFD'

/-- The character of two surrogates. -/
def pair (high low : UInt16) : Char :=
  Char.ofNat (0x10000 + (high.toNat - 0xD800) * 0x400 + (low.toNat - 0xDC00))

/-- The character of a unit that is no part of a pair. -/
def single (u : UInt16) : Char :=
  if isHigh u || isLow u then replacement else Char.ofNat u.toNat

def decode : Text → List Char
  | [] => []
  | [u] => [single u]
  | u :: v :: text =>
    if isHigh u && isLow v then pair u v :: decode text else single u :: decode (v :: text)

theorem decode_cons {u : UInt16} (hu : isHigh u = false) (text : Text) :
    decode (u :: text) = single u :: decode text := by
  cases text with
  | nil => rfl
  | cons v text => rw [decode, hu, Bool.false_and, if_neg Bool.false_ne_true]

/-- A text begins with a unit of its own or with a pair. -/
theorem decode_cons_cases (u : UInt16) (text : Text) :
    decode (u :: text) = single u :: decode text ∨
      ∃ v rest, isHigh u = true ∧ isLow v = true ∧
        decode (u :: text) = pair u v :: decode rest := by
  cases text with
  | nil => exact .inl rfl
  | cons v rest =>
    rw [decode]
    split
    · next h =>
      obtain ⟨hu, hv⟩ := Bool.and_eq_true_iff.mp h
      exact .inr ⟨v, rest, hu, hv, rfl⟩
    · exact .inl rfl

/-! ## Texts of ASCII -/

theorem toNat_ofNat {n : Nat} (h : n.isValidChar) : (Char.ofNat n).toNat = n := by
  rw [Char.ofNat, dif_pos h]
  rfl

theorem toNat_pair {u v : UInt16} (hu : isHigh u = true) (hv : isLow v = true) :
    128 ≤ (pair u v).toNat := by
  have hhigh : 0xD800 ≤ u.toNat ∧ u.toNat < 0xDC00 := by
    simpa [isHigh, UInt16.le_iff_toNat_le, UInt16.lt_iff_toNat_lt] using hu
  have hlow : 0xDC00 ≤ v.toNat ∧ v.toNat < 0xE000 := by
    simpa [isLow, UInt16.le_iff_toNat_le, UInt16.lt_iff_toNat_lt] using hv
  rw [pair, toNat_ofNat (.inr ⟨by omega, by omega⟩)]
  omega

theorem toNat_single {u : UInt16} (h : (single u).toNat < 128) : (single u).toNat = u.toNat := by
  rw [single] at h ⊢
  split at h
  · exact absurd h (by decide)
  · next hsurrogate =>
    rw [if_neg hsurrogate]
    have hlt := u.toNat_lt
    simp [isHigh, isLow, UInt16.le_iff_toNat_le, UInt16.lt_iff_toNat_lt] at hsurrogate
    refine toNat_ofNat ?_
    by_cases hle : u.toNat < 0xD800
    · exact .inl hle
    · exact .inr ⟨by omega, by omega⟩

theorem single_ascii {u : UInt16} (h : u.toNat < 128) :
    isHigh u = false ∧ (single u).toNat = u.toNat := by
  have hhigh : isHigh u = false := by
    simp [isHigh, UInt16.le_iff_toNat_le]
    omega
  have hlow : isLow u = false := by
    simp [isLow, UInt16.le_iff_toNat_le]
    omega
  refine ⟨hhigh, ?_⟩
  rw [single, hhigh, hlow, Bool.or_false, if_neg Bool.false_ne_true]
  exact toNat_ofNat (.inl (by omega))

/-- A text of ASCII is the only one of its characters. -/
theorem eq_of_decode_eq {a b : Text} (hascii : ∀ u ∈ a, u.toNat < 128)
    (h : decode a = decode b) : a = b := by
  induction a generalizing b with
  | nil =>
    cases b with
    | nil => rfl
    | cons v b =>
      rcases decode_cons_cases v b with hb | ⟨_, _, -, -, hb⟩
      · rw [hb] at h
        cases h
      · rw [hb] at h
        cases h
  | cons u a ih =>
    obtain ⟨hu, ha⟩ := List.forall_mem_cons.mp hascii
    obtain ⟨hhigh, hsingle⟩ := single_ascii hu
    rw [decode_cons hhigh] at h
    cases b with
    | nil => cases h
    | cons v b =>
      rcases decode_cons_cases v b with hb | ⟨w, rest, hv, hw, hb⟩
      · rw [hb] at h
        obtain ⟨hhead, hrest⟩ := List.cons.inj h
        have huv : u.toNat = v.toNat := by
          rw [← hsingle, hhead, toNat_single (hhead ▸ hsingle.trans_lt hu)]
        rw [UInt16.toNat_inj.mp huv, ih ha hrest]
      · rw [hb] at h
        have hpair := toNat_pair hv hw
        rw [← (List.cons.inj h).1, hsingle] at hpair
        omega

end Neemata.Utf16
