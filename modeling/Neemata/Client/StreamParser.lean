import Neemata.Lib.Base64
import Neemata.Lib.Framing

/-!
# The event stream parser

`HttpStreamParser` keeps the text that has not become an event yet (`pending`) and scans it for the
blank lines that end events. Its index arithmetic is that of the source; `emitEventDataFrame_eq`
says what it takes from a frame, and `parse_eq` that it takes off the frames of `eventFraming`.
-/

namespace Neemata.HttpStreamParser

open CodeUnits

/-! ## The functions of the source -/

/-- Index and length of the first event separator from `fromIndex` on. -/
def findNextEventSeparator (source : Text) (fromIndex : Nat) : Option (Nat × Nat) :=
  match indexOf source [lf, lf] fromIndex, indexOf source [cr, lf, cr, lf] fromIndex with
  | none, none => none
  | none, some crlfIndex => some (crlfIndex, 4)
  | some lfIndex, none => some (lfIndex, 2)
  | some lfIndex, some crlfIndex =>
    if lfIndex < crlfIndex then some (lfIndex, 2) else some (crlfIndex, 4)

/-- Where the line from `lineStart` on ends, which is not after `stop`. -/
def lineEnd (source : Text) (lineStart stop : Nat) : Nat :=
  match indexOf source [lf] lineStart with
  | none => stop
  | some i => if i > stop then stop else i

/-- The end of the line without a carriage return. -/
def contentEnd (source : Text) (lineStart lineEnd : Nat) : Nat :=
  if lineEnd > lineStart ∧ source[lineEnd - 1]? = some cr then lineEnd - 1 else lineEnd

/-- The index of the first character that is no blank. -/
def skipBlanks (source : Text) (dataStart contentEnd : Nat) : Nat :=
  if dataStart < contentEnd then
    if source[dataStart]? = some 32 ∨ source[dataStart]? = some 9 then
      skipBlanks source (dataStart + 1) contentEnd
    else dataStart
  else dataStart
termination_by contentEnd - dataStart

def slice (source : Text) (start stop : Nat) : Text := (source.take stop).drop start

/-- The value of a `data:` line. -/
def dataChunk (source : Text) (lineStart contentEnd : Nat) : List Text :=
  if contentEnd - lineStart ≥ 5 ∧ source[lineStart]? = some 100 ∧
      source[lineStart + 1]? = some 97 ∧ source[lineStart + 2]? = some 116 ∧
      source[lineStart + 3]? = some 97 ∧ source[lineStart + 4]? = some 58 then
    [slice source (skipBlanks source (lineStart + 5) contentEnd) contentEnd]
  else []

theorem le_lineEnd (source : Text) {lineStart stop : Nat} (h : lineStart ≤ stop) :
    lineStart ≤ lineEnd source lineStart stop := by
  rw [lineEnd, indexOf]
  cases firstIndex [lf] (source.drop lineStart) with
  | none => exact h
  | some k =>
    show lineStart ≤ if lineStart + k > stop then stop else lineStart + k
    split
    · exact h
    · exact Nat.le_add_right lineStart k

/-- The loop over the lines of a frame. -/
def dataChunks (source : Text) (lineStart stop : Nat) : List Text :=
  if _h : lineStart ≤ stop then
    dataChunk source lineStart (contentEnd source lineStart (lineEnd source lineStart stop)) ++
      if _hend : lineEnd source lineStart stop ≥ stop then []
      else dataChunks source (lineEnd source lineStart stop + 1) stop
  else []
termination_by stop + 1 - lineStart
decreasing_by
  have hle := le_lineEnd source _h
  omega

/-- The data of an event, if it has any. -/
def emitted (chunks : List Text) : List Text :=
  if chunks.length = 0 then []
  else if ([lf].intercalate chunks).length > 0 then [[lf].intercalate chunks] else []

def emitEventDataFrame (source : Text) (start stop : Nat) : List Text :=
  emitted (dataChunks source start stop)

/-! ## Separators -/

/-- An event separator of `length` at the head. -/
def Separated (text : Text) (length : Nat) : Prop :=
  (length = 2 ∧ [lf, lf] <+: text) ∨ (length = 4 ∧ [cr, lf, cr, lf] <+: text)

/-- Both separators cannot start at one place. -/
theorem not_both {text : Text} (hlf : [lf, lf] <+: text) : ¬ [cr, lf, cr, lf] <+: text := by
  rintro ⟨rest, hcrlf⟩
  obtain ⟨rest', hlf⟩ := hlf
  rw [← hcrlf] at hlf
  cases hlf

theorem findNextEventSeparator_spec {source : Text} {i length : Nat}
    (h : findNextEventSeparator source 0 = some (i, length)) :
    Separated (source.drop i) length ∧ ∀ j < i, ∀ l, ¬ Separated (source.drop j) l := by
  simp only [findNextEventSeparator, indexOf, List.drop_zero, Nat.zero_add, Option.map_id'] at h
  cases hlf : firstIndex [lf, lf] source with
  | none =>
    have hnolf := firstIndex_none hlf
    cases hcrlf : firstIndex [cr, lf, cr, lf] source with
    | none => rw [hlf, hcrlf] at h; cases h
    | some b =>
      rw [hlf, hcrlf] at h
      cases h
      obtain ⟨hat, hbefore⟩ := firstIndex_spec hcrlf
      refine ⟨.inr ⟨rfl, hat⟩, fun j hj l hsep => ?_⟩
      rcases hsep with ⟨-, hp⟩ | ⟨-, hp⟩
      · exact hnolf j hp
      · exact hbefore j hj hp
  | some a =>
    obtain ⟨hatlf, hbeforelf⟩ := firstIndex_spec hlf
    cases hcrlf : firstIndex [cr, lf, cr, lf] source with
    | none =>
      rw [hlf, hcrlf] at h
      cases h
      refine ⟨.inl ⟨rfl, hatlf⟩, fun j hj l hsep => ?_⟩
      rcases hsep with ⟨-, hp⟩ | ⟨-, hp⟩
      · exact hbeforelf j hj hp
      · exact firstIndex_none hcrlf j hp
    | some b =>
      obtain ⟨hatcrlf, hbeforecrlf⟩ := firstIndex_spec hcrlf
      rw [hlf, hcrlf] at h
      dsimp only at h
      by_cases hlt : a < b
      · rw [if_pos hlt] at h
        cases h
        refine ⟨.inl ⟨rfl, hatlf⟩, fun j hj l hsep => ?_⟩
        rcases hsep with ⟨-, hp⟩ | ⟨-, hp⟩
        · exact hbeforelf j hj hp
        · exact hbeforecrlf j (Nat.lt_trans hj hlt) hp
      · rw [if_neg hlt] at h
        cases h
        refine ⟨.inr ⟨rfl, hatcrlf⟩, fun j hj l hsep => ?_⟩
        rcases hsep with ⟨-, hp⟩ | ⟨-, hp⟩
        · exact hbeforelf j (Nat.lt_of_lt_of_le hj (Nat.le_of_not_lt hlt)) hp
        · exact hbeforecrlf j hj hp

theorem findNextEventSeparator_none {source : Text}
    (h : findNextEventSeparator source 0 = none) (j l : Nat) : ¬ Separated (source.drop j) l := by
  simp only [findNextEventSeparator, indexOf, List.drop_zero, Nat.zero_add, Option.map_id'] at h
  cases hlf : firstIndex [lf, lf] source with
  | none =>
    cases hcrlf : firstIndex [cr, lf, cr, lf] source with
    | none =>
      rintro (⟨-, hp⟩ | ⟨-, hp⟩)
      · exact firstIndex_none hlf j hp
      · exact firstIndex_none hcrlf j hp
    | some b => rw [hlf, hcrlf] at h; cases h
  | some a =>
    cases hcrlf : firstIndex [cr, lf, cr, lf] source with
    | none => rw [hlf, hcrlf] at h; cases h
    | some b =>
      rw [hlf, hcrlf] at h
      dsimp only at h
      by_cases hlt : a < b
      · rw [if_pos hlt] at h; cases h
      · rw [if_neg hlt] at h; cases h

theorem Separated.unique {text : Text} {l l' : Nat} (h : Separated text l)
    (h' : Separated text l') : l = l' := by
  rcases h with ⟨rfl, hp⟩ | ⟨rfl, hp⟩ <;> rcases h' with ⟨rfl, hp'⟩ | ⟨rfl, hp'⟩
  · rfl
  · exact absurd hp' (not_both hp)
  · exact absurd hp (not_both hp')
  · rfl

/-- The separator found is the one before which there is no other. -/
theorem findNextEventSeparator_eq_some {source : Text} {i length : Nat}
    (hat : Separated (source.drop i) length)
    (hbefore : ∀ j < i, ∀ l, ¬ Separated (source.drop j) l) :
    findNextEventSeparator source 0 = some (i, length) := by
  cases h : findNextEventSeparator source 0 with
  | none => exact absurd hat (findNextEventSeparator_none h i length)
  | some found =>
    obtain ⟨k, l⟩ := found
    obtain ⟨hk, hkbefore⟩ := findNextEventSeparator_spec h
    rcases Nat.lt_trichotomy i k with hlt | rfl | hgt
    · exact absurd hat (hkbefore i hlt length)
    · rw [hk.unique hat]
    · exact absurd hk (hbefore k hgt l)

theorem findNextEventSeparator_eq_none {source : Text}
    (h : ∀ j l, ¬ Separated (source.drop j) l) : findNextEventSeparator source 0 = none := by
  cases hi : findNextEventSeparator source 0 with
  | none => rfl
  | some found => exact absurd (findNextEventSeparator_spec hi).1 (h found.1 found.2)

/-- A search from further on is one in what stands there. -/
theorem findNextEventSeparator_drop (source : Text) (fromIndex : Nat) :
    findNextEventSeparator source fromIndex =
      (findNextEventSeparator (source.drop fromIndex) 0).map fun found =>
        (fromIndex + found.1, found.2) := by
  simp only [findNextEventSeparator, indexOf, List.drop_zero, Nat.zero_add, Option.map_id']
  cases firstIndex [lf, lf] (source.drop fromIndex) with
  | none => cases firstIndex [cr, lf, cr, lf] (source.drop fromIndex) <;> rfl
  | some a =>
    cases firstIndex [cr, lf, cr, lf] (source.drop fromIndex) with
    | none => rfl
    | some b =>
      simp only [Option.map_some]
      by_cases hlt : a < b
      · rw [if_pos hlt, if_pos (by omega)]; rfl
      · rw [if_neg hlt, if_neg (by omega)]; rfl

theorem Separated.le_length {text : Text} {l : Nat} (h : Separated text l) :
    0 < l ∧ l ≤ text.length := by
  rcases h with ⟨rfl, hp⟩ | ⟨rfl, hp⟩
  · exact ⟨by omega, hp.length_le⟩
  · exact ⟨by omega, hp.length_le⟩

theorem separator_bounds {source : Text} {i l : Nat}
    (h : findNextEventSeparator source 0 = some (i, l)) : 0 < l ∧ i + l ≤ source.length := by
  obtain ⟨hpos, hle⟩ := (findNextEventSeparator_spec h).1.le_length
  rw [List.length_drop] at hle
  exact ⟨hpos, by omega⟩

/-- A separator that is there stays the first one when more text comes. -/
theorem findNextEventSeparator_append {source : Text} {i l : Nat} (more : Text)
    (h : findNextEventSeparator source 0 = some (i, l)) :
    findNextEventSeparator (source ++ more) 0 = some (i, l) := by
  obtain ⟨hat, hbefore⟩ := findNextEventSeparator_spec h
  obtain ⟨hpos, hbound⟩ := separator_bounds h
  refine findNextEventSeparator_eq_some ?_ fun j hj l' hsep => ?_
  · rw [List.drop_append_of_le_length (by omega)]
    rcases hat with ⟨rfl, hp⟩ | ⟨rfl, hp⟩
    · exact .inl ⟨rfl, hp.trans (List.prefix_append _ _)⟩
    · exact .inr ⟨rfl, hp.trans (List.prefix_append _ _)⟩
  · rw [List.drop_append_of_le_length (by omega)] at hsep
    have hwithin : ∀ {s : Text}, s.length ≤ source.length - j →
        s <+: source.drop j ++ more → s <+: source.drop j := by
      intro s hs hp
      refine List.prefix_of_prefix_length_le hp (List.prefix_append _ _) ?_
      rw [List.length_drop]
      exact hs
    rcases hsep with ⟨rfl, hp⟩ | ⟨rfl, hp⟩
    · refine hbefore j hj 2 (.inl ⟨rfl, hwithin ?_ hp⟩)
      show 2 ≤ source.length - j
      omega
    · by_cases hfit : 4 ≤ source.length - j
      · exact hbefore j hj 4 (.inr ⟨rfl, hwithin hfit hp⟩)
      · -- the one that comes later would lie over the one that was found
        rcases hat with ⟨rfl, hat⟩ | ⟨rfl, -⟩
        · obtain rfl : i = j + 1 := by omega
          obtain ⟨rest, hrest⟩ := hat
          obtain ⟨rest', hrest'⟩ := hp
          have hlt : j < source.length := by omega
          rw [List.drop_eq_getElem_cons hlt, ← hrest] at hrest'
          have hthird : some cr = some lf := congrArg (fun text => text[2]?) hrest'
          exact absurd hthird (by decide)
        · omega

/-! ## The loop over the events -/

/-- The loop of `parse`: what is emitted, and where the last event ends. -/
def parseFrom (pending : Text) (cursor : Nat) : List Text × Nat :=
  match _h : findNextEventSeparator pending cursor with
  | none => ([], cursor)
  | some (index, length) =>
    (emitEventDataFrame pending cursor index ++ (parseFrom pending (index + length)).1,
      (parseFrom pending (index + length)).2)
termination_by pending.length - cursor
decreasing_by
  rw [findNextEventSeparator_drop] at _h
  obtain ⟨⟨i, l⟩, hfound, heq⟩ := Option.map_eq_some_iff.mp _h
  obtain ⟨rfl, rfl⟩ := Prod.mk.inj heq
  obtain ⟨hpos, hbound⟩ := separator_bounds hfound
  rw [List.length_drop] at hbound
  omega

def parse (pending : Text) : List Text × Text :=
  ((parseFrom pending 0).1,
    if (parseFrom pending 0).2 = 0 then pending else pending.drop (parseFrom pending 0).2)

/-- What is emitted for a chunk, and the next `pending`. -/
def push (pending chunk : Text) : List Text × Text := parse (pending ++ chunk)

def malformed : String := "Malformed stream response frame"

def finish (pending : Text) : List Text × Except String Unit :=
  ((parse pending).1,
    if (trim (parse pending).2).length > 0 then .error malformed else .ok ())

def pushAll (pending : Text) : List Text → List Text × Text
  | [] => ([], pending)
  | chunk :: chunks =>
    ((push pending chunk).1 ++ (pushAll (push pending chunk).2 chunks).1,
      (pushAll (push pending chunk).2 chunks).2)

/-- `push` for each piece, then `finish`. -/
def read (pieces : List Text) : List Text × Except String Unit :=
  ((pushAll [] pieces).1 ++ (finish (pushAll [] pieces).2).1, (finish (pushAll [] pieces).2).2)

/-! ## What a frame says -/

/-- A line without the carriage return at its end. -/
def chomp (line : Text) : Text := if line.getLast? = some cr then line.dropLast else line

def isBlank (u : UInt16) : Bool := u == 32 || u == 9

/-- The value of a line whose field is `data`. -/
def dataValue (line : Text) : Option Text :=
  if units "data:" <+: line then some ((line.drop 5).dropWhile isBlank) else none

/-- The values of the `data` lines of a frame, in order. -/
def frameData (frame : Text) : List Text :=
  (frame.splitOn lf).flatMap fun line => (dataValue (chomp line)).toList

theorem length_slice {source : Text} {a b : Nat} (hb : b ≤ source.length) :
    (slice source a b).length = b - a := by
  rw [slice, List.length_drop, List.length_take, Nat.min_eq_left hb]

theorem getElem?_slice (source : Text) (a b k : Nat) :
    (slice source a b)[k]? = if a + k < b then source[a + k]? else none := by
  rw [slice, List.getElem?_drop, List.getElem?_take]

theorem slice_cons {source : Text} {a b : Nat} (hab : a < b) (hb : b ≤ source.length) :
    slice source a b = source[a] :: slice source (a + 1) b := by
  have ha : a < (source.take b).length := by rw [List.length_take]; omega
  rw [slice, List.drop_eq_getElem_cons ha, List.getElem_take]
  rfl

theorem slice_self (source : Text) (a : Nat) : slice source a a = [] := by
  rw [slice, List.drop_eq_nil_of_le (List.length_take_le a source)]

/-- A slice is cut in two. -/
theorem slice_append {source : Text} {a m b : Nat} (ham : a ≤ m) (hmb : m ≤ b)
    (hb : b ≤ source.length) : slice source a b = slice source a m ++ slice source m b := by
  have htake : source.take m = (source.take b).take m := by
    rw [List.take_take, Nat.min_eq_left hmb]
  have hlength : a ≤ ((source.take b).take m).length := by
    rw [List.length_take, List.length_take]
    omega
  rw [slice, slice, slice, htake, ← List.drop_append_of_le_length hlength,
    List.take_append_drop]

theorem contentEnd_spec {source : Text} {a b : Nat} (hab : a ≤ b) (hb : b ≤ source.length) :
    a ≤ contentEnd source a b ∧ contentEnd source a b ≤ b ∧
      slice source a (contentEnd source a b) = chomp (slice source a b) := by
  by_cases hlt : a < b
  · have hlast : (slice source a b).getLast? = source[b - 1]? := by
      rw [List.getLast?_eq_getElem?, length_slice hb, getElem?_slice, if_pos (by omega)]
      congr 1
      omega
    have hinit : (slice source a b).dropLast = slice source a (b - 1) := by
      rw [List.dropLast_eq_take, length_slice hb, slice, slice, List.take_drop, List.take_take]
      congr 2
      omega
    by_cases hcr : source[b - 1]? = some cr
    · rw [contentEnd, if_pos ⟨hlt, hcr⟩, chomp, hlast, if_pos hcr, hinit]
      exact ⟨by omega, by omega, rfl⟩
    · rw [contentEnd, if_neg (fun h => hcr h.2), chomp, hlast, if_neg hcr]
      exact ⟨hab, Nat.le_refl b, rfl⟩
  · obtain rfl : a = b := by omega
    rw [contentEnd, if_neg (fun h => hlt h.1), slice_self]
    exact ⟨Nat.le_refl a, Nat.le_refl a, rfl⟩

theorem slice_skipBlanks {source : Text} {a b : Nat} (hab : a ≤ b) (hb : b ≤ source.length) :
    slice source (skipBlanks source a b) b = (slice source a b).dropWhile isBlank := by
  induction a using skipBlanks.induct source b with
  | case1 a hlt hblank ih =>
    rw [skipBlanks, if_pos hlt, if_pos hblank, ih (by omega), slice_cons hlt hb,
      List.dropWhile_cons, if_pos]
    rw [List.getElem?_eq_getElem (by omega), Option.some.injEq, Option.some.injEq] at hblank
    rw [isBlank, Bool.or_eq_true, beq_iff_eq, beq_iff_eq]
    exact hblank
  | case2 a hlt hblank =>
    rw [skipBlanks, if_pos hlt, if_neg hblank, slice_cons hlt hb, List.dropWhile_cons,
      if_neg]
    rw [List.getElem?_eq_getElem (by omega), Option.some.injEq, Option.some.injEq] at hblank
    rw [isBlank, Bool.or_eq_true, beq_iff_eq, beq_iff_eq]
    exact hblank
  | case3 a hge =>
    obtain rfl : a = b := by omega
    rw [skipBlanks, if_neg hge, slice_self]
    rfl

theorem data_prefix_iff {source : Text} {a b : Nat} (hb : b ≤ source.length) :
    units "data:" <+: slice source a b ↔
      b - a ≥ 5 ∧ source[a]? = some 100 ∧ source[a + 1]? = some 97 ∧
        source[a + 2]? = some 116 ∧ source[a + 3]? = some 97 ∧ source[a + 4]? = some 58 := by
  have hdata : units "data:" = [100, 97, 116, 97, 58] := by decide
  rw [hdata]
  constructor
  · intro h
    have hlength := h.length_le
    rw [length_slice hb] at hlength
    have hat : ∀ k (hk : k < 5), source[a + k]? = some ([100, 97, 116, 97, 58] : Text)[k] := by
      intro k hk
      have hget := List.prefix_iff_getElem?.mp h k hk
      rwa [getElem?_slice, if_pos (show a + k < b from by simp at hlength; omega)] at hget
    exact ⟨hlength, hat 0 (by omega), hat 1 (by omega), hat 2 (by omega), hat 3 (by omega),
      hat 4 (by omega)⟩
  · rintro ⟨hlength, h0, h1, h2, h3, h4⟩
    refine List.prefix_iff_getElem?.mpr fun k hk => ?_
    have hk5 : k < 5 := hk
    rw [getElem?_slice, if_pos (show a + k < b from by omega)]
    obtain rfl | rfl | rfl | rfl | rfl : k = 0 ∨ k = 1 ∨ k = 2 ∨ k = 3 ∨ k = 4 := by omega
    · exact h0
    · exact h1
    · exact h2
    · exact h3
    · exact h4

theorem drop_slice {source : Text} (a b k : Nat) :
    (slice source a b).drop k = slice source (a + k) b := by
  rw [slice, slice, List.drop_drop]

theorem dataChunk_eq {source : Text} {a b : Nat} (hb : b ≤ source.length) :
    dataChunk source a b = (dataValue (slice source a b)).toList := by
  rw [dataChunk, dataValue]
  by_cases h : units "data:" <+: slice source a b
  · have hfive := ((data_prefix_iff hb).mp h).1
    rw [if_pos ((data_prefix_iff hb).mp h), if_pos h, drop_slice,
      slice_skipBlanks (by omega) hb]
    rfl
  · rw [if_neg (fun hdata => h ((data_prefix_iff hb).mpr hdata)), if_neg h]
    rfl

/-- The end of the line that starts at `a`, within the frame that ends at `stop`. -/
theorem lineEnd_cases {source : Text} {a stop : Nat} (ha : a ≤ stop) (hs : stop ≤ source.length) :
    (lineEnd source a stop = stop ∧ lf ∉ slice source a stop) ∨
      ∃ e, a ≤ e ∧ e < stop ∧ lineEnd source a stop = e ∧ lf ∉ slice source a e ∧
        slice source e stop = lf :: slice source (e + 1) stop := by
  have hslice : slice source a stop = (source.drop a).take (stop - a) := by
    rw [slice, List.drop_take]
  rw [lineEnd, indexOf]
  cases h : firstIndex [lf] (source.drop a) with
  | none =>
    refine .inl ⟨rfl, fun hmem => not_mem_of_firstIndex_none h ?_⟩
    rw [hslice] at hmem
    exact List.mem_of_mem_take hmem
  | some k =>
    obtain ⟨hk, hbefore, hcons⟩ := firstIndex_singleton h
    rw [List.length_drop] at hk
    show ((if a + k > stop then stop else a + k) = stop ∧ _) ∨ ∃ e, _
    by_cases hle : stop ≤ a + k
    · refine .inl ⟨by split <;> omega, fun hmem => hbefore ?_⟩
      rw [hslice] at hmem
      exact (List.take_subset_take_left _ (show stop - a ≤ k by omega)) hmem
    · have hlt : a + k < stop := Nat.lt_of_not_le hle
      refine .inr ⟨a + k, Nat.le_add_right a k, hlt, if_neg (Nat.not_lt_of_lt hlt), ?_, ?_⟩
      · rw [slice, List.drop_take, Nat.add_sub_cancel_left]
        exact hbefore
      · rw [slice_cons (by omega) hs]
        rw [List.drop_drop, List.drop_eq_getElem_cons (by omega)] at hcons
        rw [(List.cons.inj hcons).1]

/-- The loop over the lines reads the frame. -/
theorem dataChunks_eq {source : Text} {a stop : Nat} (ha : a ≤ stop)
    (hs : stop ≤ source.length) : dataChunks source a stop = frameData (slice source a stop) := by
  induction a using dataChunks.induct source stop with
  | case1 a hle ih =>
    obtain ⟨hend, hno⟩ | ⟨e, hae, hes, hend, hno, hcons⟩ := lineEnd_cases hle hs
    · obtain ⟨hfrom, hto, hline⟩ := contentEnd_spec hle hs
      rw [dataChunks, dif_pos hle, hend, dif_pos (Nat.le_refl stop), List.append_nil,
        dataChunk_eq (Nat.le_trans hto hs), hline, frameData, List.splitOn_eq_singleton hno]
      simp only [List.flatMap_cons, List.flatMap_nil, List.append_nil]
    · have hes' : e ≤ source.length := Nat.le_trans (Nat.le_of_lt hes) hs
      obtain ⟨hfrom, hto, hline⟩ := contentEnd_spec hae hes'
      rw [dataChunks, dif_pos hle, hend, dif_neg (Nat.not_le_of_lt hes),
        dataChunk_eq (Nat.le_trans hto hes'), hline]
      rw [hend] at ih
      rw [ih (Nat.not_le_of_lt hes) hes, slice_append hae (Nat.le_of_lt hes) hs, hcons, frameData,
        frameData, List.splitOn_append_cons_self_of_not_mem hno, List.flatMap_cons]
  | case2 a hgt => exact absurd ha hgt

/-- What is emitted for a frame. -/
def eventData (frame : Text) : List Text := emitted (frameData frame)

theorem emitEventDataFrame_eq {source : Text} {start stop : Nat} (hle : start ≤ stop)
    (hs : stop ≤ source.length) :
    emitEventDataFrame source start stop = eventData (slice source start stop) := by
  rw [emitEventDataFrame, dataChunks_eq hle hs, eventData]

/-! ## The parser takes off frames -/

/-- An event ends at the first separator. -/
def eventFraming : Framing UInt16 where
  next text := (findNextEventSeparator text 0).map fun found =>
    (text.take found.1, text.drop (found.1 + found.2))
  shrinks := by
    intro text frame rest h
    obtain ⟨⟨i, l⟩, hfound, heq⟩ := Option.map_eq_some_iff.mp h
    obtain ⟨-, rfl⟩ := Prod.mk.inj heq
    obtain ⟨hpos, hbound⟩ := separator_bounds hfound
    rw [List.length_drop]
    show text.length - (i + l) < text.length
    omega
  stable := by
    intro text frame rest more h
    obtain ⟨⟨i, l⟩, hfound, heq⟩ := Option.map_eq_some_iff.mp h
    obtain ⟨rfl, rfl⟩ := Prod.mk.inj heq
    obtain ⟨-, hbound⟩ := separator_bounds hfound
    rw [findNextEventSeparator_append more hfound, Option.map_some,
      List.take_append_of_le_length (by omega), List.drop_append_of_le_length hbound]

theorem eventFraming_next {text : Text} {i l : Nat}
    (h : findNextEventSeparator text 0 = some (i, l)) :
    eventFraming.next text = some (text.take i, text.drop (i + l)) := by
  show (findNextEventSeparator text 0).map _ = _
  rw [h]
  rfl

theorem eventFraming_next_none {text : Text} (h : findNextEventSeparator text 0 = none) :
    eventFraming.next text = none := by
  show (findNextEventSeparator text 0).map _ = _
  rw [h]
  rfl

theorem parseFrom_eq (pending : Text) (cursor : Nat) :
    (parseFrom pending cursor).1 =
        (eventFraming.frames (pending.drop cursor)).1.flatMap eventData ∧
      pending.drop (parseFrom pending cursor).2 =
        (eventFraming.frames (pending.drop cursor)).2 := by
  induction cursor using parseFrom.induct pending with
  | case1 cursor h =>
    have hnone : findNextEventSeparator (pending.drop cursor) 0 = none := by
      rw [findNextEventSeparator_drop] at h
      exact Option.map_eq_none_iff.mp h
    have hparse : parseFrom pending cursor = ([], cursor) := by
      rw [parseFrom]
      split
      · rfl
      · rename_i hsome
        rw [h] at hsome
        cases hsome
    rw [hparse, Framing.frames_of_none (eventFraming_next_none hnone)]
    exact ⟨rfl, rfl⟩
  | case2 cursor index length h ih =>
    obtain ⟨⟨i, l⟩, hfound, heq⟩ := Option.map_eq_some_iff.mp
      ((findNextEventSeparator_drop pending cursor).symm.trans h)
    obtain ⟨rfl, rfl⟩ := Prod.mk.inj heq
    obtain ⟨hpos, hbound⟩ := separator_bounds hfound
    rw [List.length_drop] at hbound
    have hparse : parseFrom pending cursor =
        (emitEventDataFrame pending cursor (cursor + i) ++ (parseFrom pending (cursor + i + l)).1,
          (parseFrom pending (cursor + i + l)).2) := by
      rw [parseFrom]
      split
      · rename_i hnone
        rw [h] at hnone
        cases hnone
      · rename_i hsome
        rw [h] at hsome
        cases hsome
        rfl
    have hframe : slice pending cursor (cursor + i) = (pending.drop cursor).take i := by
      rw [slice, List.drop_take, Nat.add_sub_cancel_left]
    have hrest : (pending.drop cursor).drop (i + l) = pending.drop (cursor + i + l) := by
      rw [List.drop_drop, Nat.add_assoc]
    rw [hparse, Framing.frames_of_some (eventFraming_next hfound), hrest,
      emitEventDataFrame_eq (Nat.le_add_right cursor i) (by omega), hframe]
    exact ⟨by rw [ih.1, List.flatMap_cons], ih.2⟩

theorem parse_eq (pending : Text) :
    parse pending = ((eventFraming.frames pending).1.flatMap eventData,
      (eventFraming.frames pending).2) := by
  obtain ⟨hevents, hleft⟩ := parseFrom_eq pending 0
  rw [List.drop_zero] at hevents hleft
  rw [parse, hevents]
  congr 1
  split
  · rename_i hzero
    rw [hzero, List.drop_zero] at hleft
    exact hleft
  · exact hleft

theorem pushAll_eq (pending : Text) (chunks : List Text) :
    pushAll pending chunks = ((eventFraming.feed pending chunks).1.flatMap eventData,
      (eventFraming.feed pending chunks).2) := by
  induction chunks generalizing pending with
  | nil => rfl
  | cons chunk chunks ih =>
    rw [pushAll, push, parse_eq, ih, Framing.feed, List.flatMap_append]

/-- What the events and the outcome are is a matter of the whole text. -/
theorem read_eq (pieces : List Text) :
    read pieces = ((eventFraming.frames pieces.flatten).1.flatMap eventData,
      if (trim (eventFraming.frames pieces.flatten).2).length > 0 then .error malformed
      else .ok ()) := by
  have hnil : eventFraming.frames [] = ([], []) := Framing.frames_of_none rfl
  have hfeed : eventFraming.feed [] pieces = eventFraming.frames pieces.flatten := by
    rw [eventFraming.feed_eq hnil, List.nil_append]
  rw [read, finish, pushAll_eq, hfeed, parse_eq, eventFraming.frames_leftover]
  simp only [List.flatMap_nil, List.append_nil]

end Neemata.HttpStreamParser
