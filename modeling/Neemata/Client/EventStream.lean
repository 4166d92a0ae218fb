import Neemata.Client.StreamParser

/-!
# Event streams between server and client

The server writes each encoded chunk as one event (`event`). The client's parser gives the chunks
back, however the text was cut on its way, and reports a text that ends within an event.
-/

namespace Neemata.HttpStreamParser

open CodeUnits

/-- The line of an event. -/
def dataLine (chunk : List UInt8) : Text := units "data: " ++ Base64.encode chunk

/-- What the server enqueues for an encoded chunk. -/
def event (chunk : List UInt8) : Text := dataLine chunk ++ units "\n\n"

def eventStream (chunks : List (List UInt8)) : Text := chunks.flatMap event

theorem event_eq (chunk : List UInt8) : event chunk = dataLine chunk ++ [lf, lf] := rfl

theorem eventStream_cons (chunk : List UInt8) (chunks : List (List UInt8)) :
    eventStream (chunk :: chunks) = event chunk ++ eventStream chunks := List.flatMap_cons

theorem standard_plain {u : UInt16} (hu : u ∈ Base64.standard) :
    u ≠ lf ∧ u ≠ cr ∧ isBlank u = false ∧ isSpace u = false := by
  have hall : Base64.standard.all
      (fun v => v ≠ lf ∧ v ≠ cr ∧ isBlank v = false ∧ isSpace v = false) = true := by decide
  exact of_decide_eq_true (List.all_eq_true.mp hall u hu)

theorem encode_plain {chunk : List UInt8} {u : UInt16} (hu : u ∈ Base64.encode chunk) :
    u ≠ lf ∧ u ≠ cr ∧ isBlank u = false ∧ isSpace u = false := by
  rcases Base64.mem_encode hu with hdigit | rfl
  · exact standard_plain hdigit
  · decide

theorem dataLine_plain {chunk : List UInt8} {u : UInt16} (hu : u ∈ dataLine chunk) :
    u ≠ lf ∧ u ≠ cr := by
  rcases List.mem_append.mp hu with hfield | hdata
  · have hall : (units "data: ").all (fun v => v ≠ lf ∧ v ≠ cr) = true := by decide
    exact of_decide_eq_true (List.all_eq_true.mp hall u hfield)
  · exact ⟨(encode_plain hdata).1, (encode_plain hdata).2.1⟩

theorem chomp_plain {line : Text} (h : cr ∉ line) : chomp line = line := by
  rw [chomp, if_neg]
  intro hlast
  exact h (List.mem_of_getLast? hlast)

/-- The parser finds the encoded chunk in its line. -/
theorem eventData_dataLine {chunk : List UInt8} (h : chunk ≠ []) :
    eventData (dataLine chunk) = [Base64.encode chunk] := by
  have hlf : lf ∉ dataLine chunk := fun hmem => (dataLine_plain hmem).1 rfl
  have hcr : cr ∉ dataLine chunk := fun hmem => (dataLine_plain hmem).2 rfl
  have hfield : units "data:" <+: dataLine chunk := by
    have hsplit : units "data: " = units "data:" ++ units " " := by decide
    rw [dataLine, hsplit, List.append_assoc]
    exact List.prefix_append _ _
  have hdrop : (dataLine chunk).drop 5 = 32 :: Base64.encode chunk := rfl
  have hblank : (Base64.encode chunk).dropWhile isBlank = Base64.encode chunk := by
    cases hencode : Base64.encode chunk with
    | nil => rfl
    | cons u rest =>
      have hu : u ∈ Base64.encode chunk := by rw [hencode]; exact List.mem_cons_self
      rw [List.dropWhile_cons, (encode_plain hu).2.2.1]
      rfl
  have hvalue : dataValue (dataLine chunk) = some (Base64.encode chunk) := by
    rw [dataValue, if_pos hfield, hdrop, List.dropWhile_cons]
    exact congrArg some hblank
  have hdata : frameData (dataLine chunk) = [Base64.encode chunk] := by
    rw [frameData, List.splitOn_eq_singleton hlf, List.flatMap_singleton, chomp_plain hcr, hvalue]
    rfl
  have hlength : 0 < (Base64.encode chunk).length :=
    List.length_pos_of_ne_nil (Base64.encode_ne_nil h)
  have hone : ¬ [Base64.encode chunk].length = 0 := Nat.one_ne_zero
  rw [eventData, hdata, emitted, if_neg hone, List.intercalate_singleton, if_pos hlength]

/-- In a text without line ends but the last two there is no other separator. -/
theorem eventFraming_next_event (chunk : List UInt8) (rest : Text) :
    eventFraming.next (event chunk ++ rest) = some (dataLine chunk, rest) := by
  have hwhole : event chunk ++ rest = dataLine chunk ++ (lf :: lf :: rest) := by
    rw [event_eq, List.append_assoc]
    rfl
  have hfound : findNextEventSeparator (event chunk ++ rest) 0 =
      some ((dataLine chunk).length, 2) := by
    rw [hwhole]
    refine findNextEventSeparator_eq_some ?_ fun j hj l hsep => ?_
    · rw [List.drop_left]
      exact .inl ⟨rfl, ⟨rest, rfl⟩⟩
    · rw [List.drop_append_of_le_length (Nat.le_of_lt hj), List.drop_eq_getElem_cons hj] at hsep
      obtain ⟨hnolf, hnocr⟩ := dataLine_plain (List.getElem_mem hj)
      rcases hsep with ⟨-, ⟨more, hp⟩⟩ | ⟨-, ⟨more, hp⟩⟩
      · exact hnolf (List.cons.inj hp).1.symm
      · exact hnocr (List.cons.inj hp).1.symm
  rw [eventFraming_next hfound, hwhole, List.take_left, ← List.drop_drop, List.drop_left]
  rfl

/-- A text that ends within an event has no separator. -/
theorem eventFraming_next_cut {chunk : List UInt8} {part : Text}
    (hp : part <+: dataLine chunk ++ [lf]) : eventFraming.next part = none := by
  refine eventFraming_next_none (findNextEventSeparator_eq_none fun j l hsep => ?_)
  obtain ⟨more, hmore⟩ := hp
  have hat : ∀ (k : Nat) (u : UInt16), part[k]? = some u →
      (dataLine chunk ++ [lf])[k]? = some u := by
    intro k u hk
    obtain ⟨hlt, -⟩ := List.getElem?_eq_some_iff.mp hk
    rw [← hmore, List.getElem?_append_left hlt]
    exact hk
  have hhead : ∀ {u v : UInt16} {rest : Text}, u :: v :: rest = part.drop j →
      part[j]? = some u ∧ part[j + 1]? = some v := by
    intro u v rest h
    have h0 : (part.drop j)[0]? = some u := by rw [← h]; rfl
    have h1 : (part.drop j)[1]? = some v := by rw [← h]; rfl
    rw [List.getElem?_drop] at h0 h1
    exact ⟨h0, h1⟩
  rcases hsep with ⟨-, ⟨rest, hrest⟩⟩ | ⟨-, ⟨rest, hrest⟩⟩
  · obtain ⟨h0, h1⟩ := hhead hrest
    have hlast := hat _ _ h1
    have hj : j < (dataLine chunk).length := by
      obtain ⟨hlt, -⟩ := List.getElem?_eq_some_iff.mp hlast
      rw [List.length_append] at hlt
      have hone : [lf].length = 1 := rfl
      omega
    have hfirst := hat _ _ h0
    rw [List.getElem?_append_left hj] at hfirst
    exact (dataLine_plain (List.mem_of_getElem? hfirst)).1 rfl
  · obtain ⟨h0, -⟩ := hhead hrest
    rcases List.mem_append.mp (List.mem_of_getElem? (hat _ _ h0)) with hline | hend
    · exact (dataLine_plain hline).2 rfl
    · exact absurd (List.mem_singleton.mp hend) (by decide)

theorem frames_eventStream (chunks : List (List UInt8)) (part : Text) :
    eventFraming.frames (eventStream chunks ++ part) =
      (chunks.map dataLine ++ (eventFraming.frames part).1, (eventFraming.frames part).2) := by
  induction chunks with
  | nil => rfl
  | cons chunk chunks ih =>
    rw [eventStream_cons, List.append_assoc,
      Framing.frames_of_some (eventFraming_next_event chunk _), ih]
    rfl

theorem flatMap_eventData {chunks : List (List UInt8)} (h : ∀ chunk ∈ chunks, chunk ≠ []) :
    (chunks.map dataLine).flatMap eventData = chunks.map Base64.encode := by
  induction chunks with
  | nil => rfl
  | cons chunk chunks ih =>
    obtain ⟨hchunk, hrest⟩ := List.forall_mem_cons.mp h
    rw [List.map_cons, List.flatMap_cons, eventData_dataLine hchunk, ih hrest]
    rfl

theorem read_eventStream {chunks : List (List UInt8)} (h : ∀ chunk ∈ chunks, chunk ≠ [])
    {pieces : List Text} (hpieces : pieces.flatten = eventStream chunks) :
    read pieces = (chunks.map Base64.encode, .ok ()) := by
  have hnil : eventFraming.frames [] = ([], []) := Framing.frames_of_none rfl
  have hframes := frames_eventStream chunks []
  rw [List.append_nil, hnil, List.append_nil] at hframes
  rw [read_eq, hpieces, hframes, flatMap_eventData h]
  rfl

/-- Where a text that ends within an event ends. -/
theorem take_eventStream {chunks : List (List UInt8)} {cut : Nat}
    (hcut : cut < (eventStream chunks).length)
    (hboundary : ∀ k, cut ≠ (eventStream (chunks.take k)).length) :
    ∃ k chunk part, chunks[k]? = some chunk ∧
      (eventStream chunks).take cut = eventStream (chunks.take k) ++ part ∧
      part ≠ [] ∧ part <+: event chunk ∧ part.length < (event chunk).length := by
  induction chunks generalizing cut with
  | nil => exact absurd hcut (Nat.not_lt_zero cut)
  | cons chunk chunks ih =>
    rw [eventStream_cons] at hcut ⊢
    rw [List.length_append] at hcut
    rcases Nat.lt_trichotomy cut (event chunk).length with hlt | heq | hgt
    · have hzero : cut ≠ 0 := hboundary 0
      refine ⟨0, chunk, (event chunk).take cut, rfl, ?_, ?_, List.take_prefix _ _, ?_⟩
      · rw [List.take_append_of_le_length (Nat.le_of_lt hlt)]
        rfl
      · intro hnil
        have hlength := congrArg List.length hnil
        rw [List.length_take, List.length_nil] at hlength
        omega
      · rw [List.length_take]
        omega
    · have hone := hboundary 1
      rw [List.take_succ_cons, List.take_zero, eventStream_cons] at hone
      exact absurd (by rw [heq]; simp [eventStream]) hone
    · have hrest : ∀ k, cut - (event chunk).length ≠ (eventStream (chunks.take k)).length := by
        intro k hk
        have hnext := hboundary (k + 1)
        rw [List.take_succ_cons, eventStream_cons, List.length_append] at hnext
        omega
      obtain ⟨k, c, part, hk, htake, hpart⟩ := ih (by omega) hrest
      refine ⟨k + 1, c, part, hk, ?_, hpart⟩
      rw [List.take_append, htake, List.take_of_length_le (Nat.le_of_lt hgt), List.take_succ_cons,
        eventStream_cons, List.append_assoc]

theorem read_cut {chunks : List (List UInt8)} (h : ∀ chunk ∈ chunks, chunk ≠ [])
    {chunk : List UInt8} {part : Text} (hne : part ≠ []) (hp : part <+: event chunk)
    (hlt : part.length < (event chunk).length) {pieces : List Text}
    (hpieces : pieces.flatten = eventStream chunks ++ part) :
    read pieces = (chunks.map Base64.encode, .error malformed) := by
  have hline : part <+: dataLine chunk ++ [lf] := by
    refine List.prefix_of_prefix_length_le hp ⟨[lf], ?_⟩ ?_
    · rw [event_eq, List.append_assoc]
      rfl
    · rw [event_eq, List.length_append] at hlt
      rw [List.length_append]
      have htwo : [lf, lf].length = 2 := rfl
      have hone : [lf].length = 1 := rfl
      omega
  have hcut : eventFraming.frames part = ([], part) :=
    Framing.frames_of_none (eventFraming_next_cut hline)
  have hmem : unit 'd' ∈ part := by
    obtain ⟨more, hmore⟩ := hp
    cases part with
    | nil => exact absurd rfl hne
    | cons u rest =>
      have hu : u = unit 'd' := (List.cons.inj hmore).1
      rw [hu]
      exact List.mem_cons_self
  have hleft : 0 < (trim part).length :=
    List.length_pos_of_ne_nil (trim_ne_nil hmem (by decide))
  rw [read_eq, hpieces, frames_eventStream, hcut, List.append_nil, flatMap_eventData h,
    if_pos hleft]

/-- The parser gives back what the server wrote. A text that ends within an event gives the events
before and an error; and no text gives other events when it is cut in another way. -/
theorem read_fragmented :
    (∀ chunks : List (List UInt8), (∀ chunk ∈ chunks, chunk ≠ []) →
      ∀ pieces : List Text, pieces.flatten = eventStream chunks →
        read pieces = (chunks.map Base64.encode, .ok ())) ∧
    (∀ chunks : List (List UInt8), (∀ chunk ∈ chunks, chunk ≠ []) →
      ∀ cut < (eventStream chunks).length,
        (∀ k, cut ≠ (eventStream (chunks.take k)).length) →
        ∃ k < chunks.length, (eventStream (chunks.take k)).length < cut ∧
          cut < (eventStream (chunks.take (k + 1))).length ∧
          ∀ pieces : List Text, pieces.flatten = (eventStream chunks).take cut →
            read pieces = ((chunks.take k).map Base64.encode, .error malformed)) ∧
    ∀ pieces pieces' : List Text, pieces.flatten = pieces'.flatten →
      read pieces = read pieces' := by
  refine ⟨fun chunks h pieces => read_eventStream h, fun chunks h cut hcut hboundary => ?_,
    fun pieces pieces' h => by rw [read_eq, read_eq, h]⟩
  obtain ⟨k, chunk, part, hk, htake, hne, hp, hlt⟩ := take_eventStream hcut hboundary
  obtain ⟨hklt, -⟩ := List.getElem?_eq_some_iff.mp hk
  have hlength : (eventStream (chunks.take k) ++ part).length = cut := by
    rw [← htake, List.length_take]
    exact Nat.min_eq_left (Nat.le_of_lt hcut)
  have hnext : eventStream (chunks.take (k + 1)) = eventStream (chunks.take k) ++ event chunk := by
    rw [List.take_add_one, hk, eventStream, List.flatMap_append]
    exact congrArg _ (List.append_nil _)
  have hpos := List.length_pos_of_ne_nil hne
  rw [List.length_append] at hlength
  refine ⟨k, hklt, by omega, by rw [hnext, List.length_append]; omega, fun pieces hpieces => ?_⟩
  exact read_cut (fun c hc => h c (List.mem_of_mem_take hc)) hne hp hlt (hpieces.trans htake)

/-- Two events cut within a separator. -/
theorem read_fragmented_pieces :
    read [units "da", units "ta: AQID
", units "
data: /w==
", units "
"] =
      ([units "AQID", units "/w=="], .ok ()) :=
  read_fragmented.1 [[1, 2, 3], [255]] (by decide) _ (by decide)

end Neemata.HttpStreamParser
