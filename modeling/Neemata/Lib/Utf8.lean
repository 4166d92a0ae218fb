import Mathlib.Tactic.Common

/-!
# UTF-8 text and its lenient decoder

`encode` writes the UTF-8 bytes of a text. `decode` reads any bytes: what is not a character
becomes U+FFFD, one for each maximal prefix of an encoding that goes wrong. On the bytes of a text
it gives the text back.
-/

namespace Neemata.Utf8

def encode (text : List Char) : List UInt8 := text.flatMap String.utf8EncodeChar

@[simp] theorem encode_nil : encode [] = [] := rfl

theorem encode_cons (c : Char) (text : List Char) :
    encode (c :: text) = String.utf8EncodeChar c ++ encode text := rfl

def replacement : Char := '\uFFFD'

/-- The number of continuation bytes after a lead byte, and what the first of them lies between:
the bounds leave out overlong forms, surrogates and what is above U+10FFFF. -/
def continuation (lead : UInt8) : Nat × UInt8 × UInt8 :=
  if 0xC2 ≤ lead ∧ lead ≤ 0xDF then (1, 0x80, 0xBF)
  else if lead = 0xE0 then (2, 0xA0, 0xBF)
  else if lead = 0xED then (2, 0x80, 0x9F)
  else if 0xE1 ≤ lead ∧ lead ≤ 0xEF then (2, 0x80, 0xBF)
  else if lead = 0xF0 then (3, 0x90, 0xBF)
  else if lead = 0xF4 then (3, 0x80, 0x8F)
  else if 0xF1 ≤ lead ∧ lead ≤ 0xF3 then (3, 0x80, 0xBF)
  else (0, 0, 0)

/-- How many bytes at the head make up the ill-formed sequence there. -/
def illFormedLength : List UInt8 → Nat
  | [] => 0
  | lead :: rest =>
    match continuation lead, rest with
    | (0, _, _), _ | _, [] => 1
    | (more, low, high), first :: rest =>
      if low ≤ first ∧ first ≤ high then
        2 + ((rest.take (more - 1)).takeWhile fun b => 0x80 ≤ b ∧ b ≤ 0xBF).length
      else 1

/-- The character at the head of the bytes, and the number of bytes read for it. -/
def decodeChar (bytes : List UInt8) : Char × Nat :=
  match bytes.toByteArray.utf8DecodeChar? 0 with
  | some c => (c, c.utf8Size)
  | none => (replacement, illFormedLength bytes)

/-- `fuel` bounds the number of characters; there are no more than bytes. -/
def decodeUpTo : Nat → List UInt8 → List Char
  | 0, _ | _, [] => []
  | fuel + 1, bytes => (decodeChar bytes).1 :: decodeUpTo fuel (bytes.drop (decodeChar bytes).2)

def decode (bytes : List UInt8) : List Char := decodeUpTo bytes.length bytes

theorem decodeChar_encode (c : Char) (rest : List UInt8) :
    decodeChar (String.utf8EncodeChar c ++ rest) = (c, c.utf8Size) := by
  have hdecode := ByteArray.utf8DecodeChar?_utf8EncodeChar_append (b := rest.toByteArray) (c := c)
  rw [← List.toByteArray_append] at hdecode
  simp only [decodeChar, hdecode]

theorem decodeUpTo_encode {fuel : Nat} (text : List Char) (hfuel : (encode text).length ≤ fuel) :
    decodeUpTo fuel (encode text) = text := by
  induction text generalizing fuel with
  | nil => cases fuel <;> rfl
  | cons c text ih =>
    have hpos : 0 < c.utf8Size := c.utf8Size_pos
    rw [encode_cons, List.length_append, String.length_utf8EncodeChar] at hfuel
    obtain ⟨fuel, rfl⟩ : ∃ k, fuel = k + 1 := ⟨fuel - 1, by omega⟩
    have hcons : encode (c :: text) ≠ [] := by
      intro h
      have hlength := congrArg List.length h
      rw [encode_cons, List.length_append, String.length_utf8EncodeChar, List.length_nil] at hlength
      omega
    have hdrop : (encode (c :: text)).drop c.utf8Size = encode text := by
      rw [encode_cons, ← String.length_utf8EncodeChar c, List.drop_left]
    have hstep : decodeUpTo (fuel + 1) (encode (c :: text)) =
        c :: decodeUpTo fuel ((encode (c :: text)).drop c.utf8Size) := by
      rw [decodeUpTo.eq_3 _ _ hcons, encode_cons, decodeChar_encode]
    rw [hstep, hdrop, ih (by omega)]

/-- A text is read back from its bytes. -/
theorem decode_encode (text : List Char) : decode (encode text) = text :=
  decodeUpTo_encode text (Nat.le_refl _)

end Neemata.Utf8
