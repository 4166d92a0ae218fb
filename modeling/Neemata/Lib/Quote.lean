import Neemata.Lib.Utf16

/-!
# String literals

`stringify` is `JSON.stringify` on a string. What it writes is a string literal of the language, and
`unquote` reads the string back from it (`unquote_stringify`).
-/

namespace Neemata.Quote

open CodeUnits Utf16

def quoteMark : UInt16 := 34

def backslash : UInt16 := 92

/-! ## Writing -/

def hexDigit (n : Nat) : UInt16 := (if n < 10 then 48 + n else 87 + n).toUInt16

def unicodeEscape (u : UInt16) : Text :=
  [backslash, unit 'u', hexDigit (u.toNat / 4096 % 16), hexDigit (u.toNat / 256 % 16),
    hexDigit (u.toNat / 16 % 16), hexDigit (u.toNat % 16)]

/-- `QuoteJSONString` on a unit that is no half of a pair. -/
def quoteUnit (u : UInt16) : Text :=
  if u = 8 then [backslash, unit 'b']
  else if u = 9 then [backslash, unit 't']
  else if u = 10 then [backslash, unit 'n']
  else if u = 12 then [backslash, unit 'f']
  else if u = 13 then [backslash, unit 'r']
  else if u = quoteMark then [backslash, quoteMark]
  else if u = backslash then [backslash, backslash]
  else if u < 32 || isHigh u || isLow u then unicodeEscape u
  else [u]

def quoteUnits : Text → Text
  | [] => []
  | [u] => quoteUnit u
  | u :: v :: rest =>
    if isHigh u && isLow v then u :: v :: quoteUnits rest else quoteUnit u ++ quoteUnits (v :: rest)

def stringify (text : Text) : Text := quoteMark :: (quoteUnits text ++ [quoteMark])

/-! ## Reading -/

def hexValue (u : UInt16) : Option Nat :=
  if 48 ≤ u ∧ u ≤ 57 then some (u.toNat - 48)
  else if 97 ≤ u ∧ u ≤ 102 then some (u.toNat - 87)
  else if 65 ≤ u ∧ u ≤ 70 then some (u.toNat - 55)
  else none

/-- The unit that a single character behind a backslash stands for. -/
def unescape (u : UInt16) : Option UInt16 :=
  if u = unit 'b' then some 8
  else if u = unit 't' then some 9
  else if u = unit 'n' then some 10
  else if u = unit 'v' then some 11
  else if u = unit 'f' then some 12
  else if u = unit 'r' then some 13
  else if u = quoteMark ∨ u = 39 ∨ u = backslash then some u
  else none

/-- The string up to the closing quotation mark. Line breaks and the escapes that `stringify` does
not write are not read. -/
def unquoteUnits : Text → Option Text
  | [] => none
  | [u] => if u = quoteMark then some [] else none
  | u :: v :: rest =>
    if u = quoteMark ∨ u = lf ∨ u = cr then none
    else if u = backslash then
      if v = unit 'u' then
        match rest with
        | a :: b :: c :: d :: rest =>
          match hexValue a, hexValue b, hexValue c, hexValue d with
          | some a, some b, some c, some d =>
            (unquoteUnits rest).map ((4096 * a + 256 * b + 16 * c + d).toUInt16 :: ·)
          | _, _, _, _ => none
        | _ => none
      else
        match unescape v with
        | some v => (unquoteUnits rest).map (v :: ·)
        | none => none
    else (unquoteUnits (v :: rest)).map (u :: ·)

def unquote : Text → Option Text
  | u :: text => if u = quoteMark then unquoteUnits text else none
  | [] => none

/-! ## What was written is read -/

theorem hexValue_hexDigit : ∀ n < 16, hexValue (hexDigit n) = some n := by decide

theorem unquoteUnits_unicodeEscape (u : UInt16) (rest : Text) :
    unquoteUnits (unicodeEscape u ++ rest) = (unquoteUnits rest).map (u :: ·) := by
  have hcode : (4096 * (u.toNat / 4096 % 16) + 256 * (u.toNat / 256 % 16) +
      16 * (u.toNat / 16 % 16) + u.toNat % 16).toUInt16 = u := by
    have hlt := u.toNat_lt
    have hsum : 4096 * (u.toNat / 4096 % 16) + 256 * (u.toNat / 256 % 16) +
        16 * (u.toNat / 16 % 16) + u.toNat % 16 = u.toNat := by omega
    rw [hsum]
    exact UInt16.ofNat_toNat
  simp only [unicodeEscape, List.cons_append, List.nil_append]
  rw [unquoteUnits, if_neg (by decide), if_pos rfl, if_pos rfl]
  simp only [hexValue_hexDigit _ (Nat.mod_lt _ (by decide : 0 < 16)), hcode]

theorem unquoteUnits_escape {u v : UInt16} (hv : v ≠ unit 'u') (h : unescape v = some u)
    (rest : Text) : unquoteUnits (backslash :: v :: rest) = (unquoteUnits rest).map (u :: ·) := by
  rw [unquoteUnits.eq_def]
  dsimp only
  rw [if_neg (by decide), if_pos rfl, if_neg hv, h]

theorem unquoteUnits_cons {u : UInt16} {rest : Text} (hrest : rest ≠ []) (hquote : u ≠ quoteMark)
    (hlf : u ≠ lf) (hcr : u ≠ cr) (hslash : u ≠ backslash) :
    unquoteUnits (u :: rest) = (unquoteUnits rest).map (u :: ·) := by
  cases rest with
  | nil => exact absurd rfl hrest
  | cons v rest =>
    rw [unquoteUnits.eq_def]
    dsimp only
    rw [if_neg (by simp [hquote, hlf, hcr]), if_neg hslash]

theorem unquoteUnits_quoteUnit (u : UInt16) {rest : Text} (hrest : rest ≠ []) :
    unquoteUnits (quoteUnit u ++ rest) = (unquoteUnits rest).map (u :: ·) := by
  unfold quoteUnit
  split
  · next h => subst h; exact unquoteUnits_escape (by decide) (by decide) rest
  split
  · next h => subst h; exact unquoteUnits_escape (by decide) (by decide) rest
  split
  · next h => subst h; exact unquoteUnits_escape (by decide) (by decide) rest
  split
  · next h => subst h; exact unquoteUnits_escape (by decide) (by decide) rest
  split
  · next h => subst h; exact unquoteUnits_escape (by decide) (by decide) rest
  split
  · next h => subst h; exact unquoteUnits_escape (by decide) (by decide) rest
  split
  · next h => subst h; exact unquoteUnits_escape (by decide) (by decide) rest
  split
  · exact unquoteUnits_unicodeEscape u rest
  · next _ _ hlf _ hcr hquote hslash _ => exact unquoteUnits_cons hrest hquote hlf hcr hslash

theorem isHigh_ne {u v : UInt16} (hu : isHigh u = true) (hv : isHigh v = false) : u ≠ v := by
  rintro rfl
  rw [hu] at hv
  cases hv

theorem isLow_ne {u v : UInt16} (hu : isLow u = true) (hv : isLow v = false) : u ≠ v := by
  rintro rfl
  rw [hu] at hv
  cases hv

theorem unquoteUnits_quoteUnits : ∀ text : Text,
    unquoteUnits (quoteUnits text ++ [quoteMark]) = some text
  | [] => rfl
  | [u] => by
    rw [quoteUnits, unquoteUnits_quoteUnit u (List.cons_ne_nil _ _)]
    rfl
  | u :: v :: rest => by
    rw [quoteUnits]
    split
    · next h =>
      obtain ⟨hu, hv⟩ := Bool.and_eq_true_iff.mp h
      rw [List.cons_append, List.cons_append,
        unquoteUnits_cons (List.cons_ne_nil _ _) (isHigh_ne hu rfl) (isHigh_ne hu rfl)
          (isHigh_ne hu rfl) (isHigh_ne hu rfl),
        unquoteUnits_cons (by simp) (isLow_ne hv rfl) (isLow_ne hv rfl) (isLow_ne hv rfl)
          (isLow_ne hv rfl), unquoteUnits_quoteUnits rest]
      rfl
    · rw [List.append_assoc, unquoteUnits_quoteUnit u (by simp),
        unquoteUnits_quoteUnits (v :: rest)]
      rfl

theorem unquote_stringify (text : Text) : unquote (stringify text) = some text := by
  rw [stringify, unquote, if_pos rfl]
  exact unquoteUnits_quoteUnits text

end Neemata.Quote
