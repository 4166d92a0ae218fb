import Neemata.Neem.BuildGraph

/-!
# Names as parts of a path

`sanitizePathPart` keeps of a name the words of letters, digits, dots and underscores in it, and
joins them with hyphens (`sanitizePathPart_eq_iff`). The directory of a start entry tells names
apart that differ as sequences of characters (`toRuntimeStartDirName_eq_iff`).
-/

namespace Neemata.Neem

open CodeUnits PosixPath

/-- The words of a name, which is the word `item` if it has none. -/
def nameWords (name : Text) : List Text :=
  let words := Words.words isWordUnit name
  if words = [] then [units "item"] else words

theorem isWordUnit_hyphen : isWordUnit hyphen = false := by decide

theorem isWordUnit_slash : isWordUnit slash = false := by decide

theorem isWordUnit_range {u : UInt16} (h : isWordUnit u = true) :
    46 ≤ u.toNat ∧ u.toNat ≤ 122 := by
  have hunits : unit 'a' = 97 ∧ unit 'z' = 122 ∧ unit 'A' = 65 ∧ unit 'Z' = 90 ∧
      unit '0' = 48 ∧ unit '9' = 57 ∧ unit '.' = 46 ∧ unit '_' = 95 := by decide
  obtain ⟨h1, h2, h3, h4, h5, h6, h7, h8⟩ := hunits
  simp [isWordUnit, h1, h2, h3, h4, h5, h6, h7, h8, UInt16.le_iff_toNat_le,
    ← UInt16.toNat_inj] at h
  omega

theorem not_word_of_space (u : UInt16) (h : isSpace u = true) : isWordUnit u = false := by
  by_contra hword
  have hrange := isWordUnit_range (by simpa using hword)
  simp [isSpace, UInt16.le_iff_toNat_le, ← UInt16.toNat_inj] at h
  omega

theorem words_trim (name : Text) :
    Words.words isWordUnit (trim name) = Words.words isWordUnit name := by
  rw [trim, Words.words_rdropWhile not_word_of_space, Words.words_dropWhile not_word_of_space]

/-- `value.trim().replace(/[^a-zA-Z0-9._-]/g, '-')` -/
def replaced (name : Text) : Text :=
  (trim name).map fun u => if isWordUnit u || u == hyphen then u else hyphen

theorem words_replaced (name : Text) :
    Words.words isWordUnit (replaced name) = Words.words isWordUnit name := by
  rw [← words_trim name, replaced, Words.words, Words.words, Words.cut_map]
  · intro u hu
    rw [hu, Bool.true_or, if_pos rfl]
  · intro u hu
    split
    · exact hu
    · exact isWordUnit_hyphen

theorem mem_replaced {name : Text} {u : UInt16} (h : u ∈ replaced name) :
    isWordUnit u = true ∨ u = hyphen := by
  obtain ⟨v, -, rfl⟩ := List.mem_map.mp h
  split
  · next hv => simpa using hv
  · exact .inr rfl

theorem sanitizePathPart_def (name : Text) :
    sanitizePathPart name = if Words.squeeze hyphen (replaced name) = [] then units "item"
      else Words.squeeze hyphen (replaced name) := rfl

theorem squeeze_replaced (name : Text) :
    Words.squeeze hyphen (replaced name) = Words.join hyphen (Words.words isWordUnit name) := by
  rw [Words.squeeze_eq isWordUnit_hyphen fun u => mem_replaced, words_replaced]

theorem sanitizePathPart_eq (name : Text) :
    sanitizePathPart name = Words.join hyphen (nameWords name) := by
  rw [sanitizePathPart_def, nameWords]
  by_cases hnone : Words.words isWordUnit name = []
  · rw [if_pos hnone, squeeze_replaced, hnone]
    rfl
  · have hsome : Words.squeeze hyphen (replaced name) ≠ [] := by
      intro hnil
      have hwords := Words.words_squeeze isWordUnit_hyphen (replaced name)
      rw [hnil, words_replaced] at hwords
      exact hnone hwords.symm
    rw [if_neg hnone, if_neg hsome, squeeze_replaced]

theorem words_sanitizePathPart (name : Text) :
    Words.words isWordUnit (sanitizePathPart name) = nameWords name := by
  rw [sanitizePathPart_eq, nameWords]
  by_cases hnone : Words.words isWordUnit name = []
  · rw [if_pos hnone]
    decide
  · rw [if_neg hnone, ← squeeze_replaced, Words.words_squeeze isWordUnit_hyphen, words_replaced]

/-- The part of a path is that of the words and of nothing else. -/
theorem sanitizePathPart_eq_iff (a b : Text) :
    sanitizePathPart a = sanitizePathPart b ↔ nameWords a = nameWords b := by
  constructor
  · intro h
    rw [← words_sanitizePathPart, h, words_sanitizePathPart]
  · intro h
    rw [sanitizePathPart_eq, h, sanitizePathPart_eq]

/-- A part that is a word. -/
theorem sanitizePathPart_eq_word {word : Text} (hword : Words.words isWordUnit word = [word])
    (name : Text) : sanitizePathPart name = word ↔ nameWords name = [word] := by
  constructor
  · intro h
    rw [← words_sanitizePathPart, h, hword]
  · intro h
    rw [sanitizePathPart_eq, h]
    exact List.append_nil word

theorem mem_sanitizePathPart {name : Text} {u : UInt16} (h : u ∈ sanitizePathPart name) :
    isWordUnit u = true ∨ u = hyphen := by
  rw [sanitizePathPart_def] at h
  split at h
  · have hitem : (units "item").all isWordUnit = true := by decide
    exact .inl (List.all_eq_true.mp hitem u h)
  · exact mem_replaced (Words.mem_of_mem_squeeze h)

theorem sanitizePathPart_ne_nil (name : Text) : sanitizePathPart name ≠ [] := by
  rw [sanitizePathPart_def]
  split
  · decide
  · assumption

theorem slash_notMem_sanitizePathPart (name : Text) : slash ∉ sanitizePathPart name := by
  intro h
  rcases mem_sanitizePathPart h with hword | hhyphen
  · rw [isWordUnit_slash] at hword
    cases hword
  · exact absurd hhyphen (by decide)

/-! ## Start entries -/

theorem isSafeUnit_range {u : UInt16} (h : isSafeUnit u = true) :
    u.toNat < 123 ∧ u.toNat ≠ 46 ∧ u.toNat ≠ 47 := by
  have hunits : unit 'a' = 97 ∧ unit 'z' = 122 ∧ unit 'A' = 65 ∧ unit 'Z' = 90 ∧
      unit '0' = 48 ∧ unit '9' = 57 ∧ unit '_' = 95 ∧ hyphen = 45 := by decide
  obtain ⟨h1, h2, h3, h4, h5, h6, h7, h8⟩ := hunits
  simp [isSafeUnit, h1, h2, h3, h4, h5, h6, h7, h8, UInt16.le_iff_toNat_le,
    ← UInt16.toNat_inj] at h
  omega

theorem isSafe_iff {name : Text} :
    isSafe name = true ↔ name ≠ [] ∧ ∀ u ∈ name, isSafeUnit u = true := by
  rw [isSafe, Bool.and_eq_true, List.all_eq_true]
  simp

/-- The tilde keeps the encoded names apart from the others. -/
theorem ne_of_isSafe {name : Text} (h : isSafe name = true) (rest : Text) :
    name ≠ unit '~' :: rest := by
  rintro rfl
  have htilde := (isSafe_iff.mp h).2 (unit '~') List.mem_cons_self
  exact absurd htilde (by decide)

theorem eq_of_isSafe {a b : Text} (h : isSafe a = true)
    (heq : Utf16.decode a = Utf16.decode b) : a = b :=
  Utf16.eq_of_decode_eq (fun u hu =>
    (isSafeUnit_range ((isSafe_iff.mp h).2 u hu)).1.trans (by decide)) heq

theorem toRuntimeStartDirName_eq_iff (a b : Text) :
    toRuntimeStartDirName a = toRuntimeStartDirName b ↔ Utf16.decode a = Utf16.decode b := by
  rw [toRuntimeStartDirName, toRuntimeStartDirName]
  cases ha : isSafe a with
  | true =>
    cases hb : isSafe b with
    | true => exact ⟨fun h => congrArg _ h, eq_of_isSafe ha⟩
    | false =>
      refine iff_of_false (ne_of_isSafe ha _) fun h => ?_
      rw [← eq_of_isSafe ha h, ha] at hb
      cases hb
  | false =>
    cases hb : isSafe b with
    | true =>
      refine iff_of_false (ne_of_isSafe hb _).symm fun h => ?_
      rw [← eq_of_isSafe hb h.symm, hb] at ha
      cases ha
    | false =>
      constructor
      · intro h
        have hbytes := Base64.encodeUrl_injective (List.cons.inj h).2
        rw [← Utf8.decode_encode (Utf16.decode a), hbytes, Utf8.decode_encode]
      · intro h
        rw [h]
        rfl

theorem plain_toRuntimeStartDirName (name : Text) : Plain (toRuntimeStartDirName name) := by
  rw [toRuntimeStartDirName]
  split
  · next hsafe =>
    obtain ⟨hne, hunits⟩ := isSafe_iff.mp hsafe
    have hdot : unit '.' ∉ name := fun h => (isSafeUnit_range (hunits _ h)).2.1 (by decide)
    refine ⟨hne, ?_, ?_, fun h => (isSafeUnit_range (hunits _ h)).2.2 (by decide)⟩
    · rintro rfl
      exact hdot (by decide)
    · rintro rfl
      exact hdot (by decide)
  · have hhead : unit '~' ≠ unit '.' := by decide
    refine ⟨List.cons_ne_nil _ _, fun h => hhead (List.cons.inj h).1,
      fun h => hhead (List.cons.inj h).1, fun h => ?_⟩
    rcases List.mem_cons.mp h with htilde | hdigit
    · exact absurd htilde (by decide)
    · exact absurd (Base64.mem_encodeUrl hdigit) (by decide)

end Neemata.Neem
