import Neemata.Http.UwsBody

/-!
# Response bodies that arrive

`Intact` is what a body stream owes to its response in every state. The chunked stream keeps it as
long as the native response takes whole chunks; the stream of fixed length is not told of an abort,
and its drain handler stays that of the first chunk that met backpressure (`intact_iff`).
-/

namespace Neemata.Http.UwsBody

/-! ## What should hold -/

structure FixedStream.Intact (totalSize : Nat) (s : FixedStream) : Prop where
  wire : s.res.wire <+: s.given
  atMost : s.res.wire.length ≤ totalSize
  read : s.pump = .reading → s.res.wire = s.given
  /-- A drain event offers what is missing. -/
  resumes : ∀ c, s.pump = .awaiting c →
    s.res.handler = some c ∧ s.res.wire ++ c.remaining s.res.wire.length = s.given
  complete : s.pump = .settled → s.res.aborted = false → s.res.wire = s.given.take totalSize
  short : s.pump = .settled → s.res.aborted = false → s.res.wire.length < totalSize →
    s.res.closed = true
  quiet : ∀ w ∈ s.res.atAbort, s.res.wire = w
  settles : s.res.aborted = true → s.pump = .settled

structure ChunkedStream.Intact (s : ChunkedStream) : Prop where
  wire : s.res.wire = s.given
  resumes : s.pump = .waiting → s.res.handler = some () ∧ s.wakeWritable = true
  complete : s.pump = .settled → s.res.aborted = false →
    s.res.ended = true ∨ s.res.closed = true
  quiet : ∀ w ∈ s.res.atAbort, s.res.wire = w
  settles : s.res.aborted = true → s.pump = .settled

/-! ## When it does -/

/-- A native response that takes no byte past the content length, a second chunk that meets no
backpressure, and no abort before the pump has settled. -/
def FixedStream.Fits (totalSize : Nat) (s : FixedStream) : BodyEvent → Prop
  | .chunk value answer => s.pump = .reading → value ≠ [] →
    s.res.wire.length + (value.take answer.taken).length ≤ totalSize ∧
    (s.res.handler = none ∨ answer.accepts value = true ∨
      s.res.wire.length + (value.take answer.taken).length = totalSize)
  | .drain answer => ∀ c ∈ s.res.handler, s.res.aborted = false →
    s.res.wire.length + ((c.remaining s.res.wire.length).take answer.taken).length ≤ totalSize
  | .abort => s.res.aborted = true ∨ s.pump = .settled
  | .done | .failed => True

/-- A native response that takes the chunk as a whole. -/
def ChunkedStream.Fits (s : ChunkedStream) : BodyEvent → Prop
  | .chunk value answer => s.pump = .reading → value.length ≤ answer.taken
  | _ => True

/-! ## The chunked stream -/

structure ChunkedStream.Inv (s : ChunkedStream) : Prop extends s.Intact where
  wakes : s.wakeWritable = true ↔ s.pump = .waiting
  cancels : s.cancelBody = true ↔ s.pump ≠ .settled
  fresh : s.res.aborted = false → s.res.atAbort = none

namespace ChunkedStream

theorem inv_start (aborted : Bool) : (start aborted).Inv := by
  cases aborted <;>
    exact {
      wire := rfl
      resumes := by decide
      complete := by decide
      quiet := by decide
      settles := by decide
      wakes := by decide
      cancels := by decide
      fresh := by decide }

variable {s : ChunkedStream}

theorem Inv.running (h : s.Inv) (hp : s.pump ≠ .settled) : s.res.aborted = false := by
  cases haborted : s.res.aborted with
  | false => rfl
  | true => exact absurd (h.settles haborted) hp

/-- Between two steps of a pump that goes on, everything that has been read is on the wire. -/
theorem inv_loop (hwire : s.res.wire = s.given) (haborted : s.res.aborted = false)
    (hwake : s.wakeWritable = false) (hcancel : s.cancelBody = true)
    (hfresh : s.res.atAbort = none) : s.loop.Inv := by
  rw [loop, if_neg (by simp [haborted])]
  exact {
    wire := hwire
    resumes := nofun
    complete := nofun
    quiet := fun w hw => by
      rw [hfresh] at hw
      cases hw
    settles := fun h => by
      rw [haborted] at h
      cases h
    wakes := by simp [hwake]
    cancels := by simp [hcancel]
    fresh := fun _ => hfresh }

theorem inv_waitWritable (hwire : s.res.wire = s.given) (haborted : s.res.aborted = false)
    (hcancel : s.cancelBody = true) (hfresh : s.res.atAbort = none) : s.waitWritable.Inv where
  wire := hwire
  resumes _ := ⟨rfl, rfl⟩
  complete := nofun
  quiet w hw := by
    have hnone : w ∈ s.res.atAbort := hw
    rw [hfresh] at hnone
    cases hnone
  settles h := by
    have haborted' : s.res.aborted = true := h
    rw [haborted] at haborted'
    cases haborted'
  wakes := iff_of_true rfl rfl
  cancels := iff_of_true hcancel nofun
  fresh _ := hfresh

/-- A pump that is left leaves the wire as it is. -/
theorem inv_settle {res : UwsResponse Unit} (hwire : res.wire = s.given)
    (hwake : s.wakeWritable = false)
    (hcomplete : res.aborted = false → res.ended = true ∨ res.closed = true)
    (hquiet : ∀ w ∈ res.atAbort, res.wire = w) (hfresh : res.aborted = false → res.atAbort = none) :
    ({ s.settle with res := res } : ChunkedStream).Inv where
  wire := hwire
  resumes := nofun
  complete _ := hcomplete
  quiet := hquiet
  settles _ := rfl
  wakes := by simp [settle, hwake]
  cancels := by simp [settle]
  fresh := hfresh

theorem Inv.step_chunk (h : s.Inv) (value : List UInt8) (answer : Answer)
    (hfits : s.Fits (.chunk value answer)) : (s.step (.chunk value answer)).Inv := by
  by_cases hp : s.pump = .reading
  swap
  · rw [step, if_neg hp]
    exact h
  have haborted : s.res.aborted = false := h.running (by simp [hp])
  have hwake : s.wakeWritable = false := by
    simpa [hp] using h.wakes
  have hcancel : s.cancelBody = true := h.cancels.mpr (by simp [hp])
  have hput : (s.res.put value answer).wire = s.given ++ value := by
    rw [UwsResponse.put, h.wire, List.take_of_length_le (hfits hp)]
  rw [step, if_pos hp]
  dsimp only
  split
  · next hnil => exact inv_loop (by simp [hnil, h.wire]) haborted hwake hcancel (h.fresh haborted)
  · split
    · exact inv_loop hput haborted hwake hcancel (h.fresh haborted)
    · exact inv_waitWritable hput haborted hcancel (h.fresh haborted)

/-- An abort ends the read or the wait. -/
theorem Inv.step_abort (h : s.Inv) :
    (wake { s with res := s.res.abort }).cancel.Inv := by
  have hquiet : ∀ w ∈ s.res.abort.atAbort, s.res.abort.wire = w := fun w hw => Option.some.inj hw
  cases hp : s.pump with
  | reading =>
    have hwake : s.wakeWritable = false := by simpa [hp] using h.wakes
    have hcancel : s.cancelBody = true := h.cancels.mpr (by simp [hp])
    rw [wake, if_neg (by simp [hwake]), cancel, if_pos (by simp [hcancel])]
    exact inv_settle (s := { s with res := s.res.abort }) h.wire hwake nofun hquiet nofun
  | waiting =>
    have hwake : s.wakeWritable = true := h.wakes.mpr hp
    rw [wake, if_pos hwake]
    dsimp only
    rw [if_pos (show s.res.abort.aborted = true from rfl), cancel, if_neg (by simp [settle])]
    exact inv_settle (s := { s with res := s.res.abort, wakeWritable := false }) h.wire rfl
      nofun hquiet nofun
  | settled =>
    have hwake : s.wakeWritable = false := by simpa [hp] using h.wakes
    have hcancel : s.cancelBody = false := by simpa [hp] using h.cancels
    rw [wake, if_neg (by simp [hwake]), cancel, if_neg (by simp [hcancel])]
    exact {
      wire := h.wire
      resumes := nofun
      complete := nofun
      quiet := hquiet
      settles := fun _ => rfl
      wakes := by simp [hwake]
      cancels := by simp [hcancel]
      fresh := nofun }

theorem Inv.step (h : s.Inv) (e : BodyEvent) (hfits : s.Fits e) : (s.step e).Inv := by
  cases e with
  | chunk value answer => exact h.step_chunk value answer hfits
  | done =>
    rw [ChunkedStream.step]
    split
    · next hp =>
      have haborted := h.running (by simp [hp])
      exact inv_settle h.wire (by simpa [hp] using h.wakes)
        (fun _ => .inl (by simp [UwsResponse.finish, haborted])) h.quiet h.fresh
    · exact h
  | failed =>
    rw [ChunkedStream.step]
    split
    · next hp =>
      have haborted := h.running (by simp [hp])
      exact inv_settle h.wire (by simpa [hp] using h.wakes)
        (fun _ => .inr (by simp [UwsResponse.close, haborted])) h.quiet h.fresh
    · exact h
  | drain answer =>
    rw [ChunkedStream.step]
    split
    · exact h
    · rw [wake]
      split
      · next hwake =>
        have hp := h.wakes.mp hwake
        have haborted := h.running (by simp [hp])
        dsimp only
        rw [if_neg (by simp [haborted])]
        exact inv_loop h.wire haborted rfl (h.cancels.mpr (by simp [hp])) (h.fresh haborted)
      · exact h
  | abort =>
    rw [ChunkedStream.step]
    split
    · exact h
    · exact h.step_abort

theorem loop_res (s : ChunkedStream) : s.loop.res = s.res ∧ s.loop.given = s.given := by
  rw [loop]
  split <;> exact ⟨rfl, rfl⟩

theorem step_chunk_wire (hp : s.pump = .reading) (value : List UInt8) (answer : Answer) :
    (s.step (.chunk value answer)).res.wire = s.res.wire ++ value.take answer.taken ∧
      (s.step (.chunk value answer)).given = s.given ++ value := by
  rw [step, if_pos hp]
  dsimp only
  split
  · next hnil =>
    rw [(loop_res _).1, (loop_res _).2, hnil, List.take_nil, List.append_nil, List.append_nil]
    exact ⟨rfl, rfl⟩
  · split
    · rw [(loop_res _).1, (loop_res _).2]
      exact ⟨rfl, rfl⟩
    · exact ⟨rfl, rfl⟩

/-- A chunk of which the native response takes a part only is not on the wire. -/
theorem fits_of_intact (h : s.Inv) (e : BodyEvent) (hintact : (s.step e).Intact) : s.Fits e := by
  cases e with
  | chunk value answer =>
    intro hp
    obtain ⟨hwire, hgiven⟩ := step_chunk_wire hp value answer
    have hsame := hintact.wire
    rw [hwire, hgiven, h.wire] at hsame
    have hlength := congrArg List.length (List.append_cancel_left hsame)
    rw [List.length_take] at hlength
    omega
  | done | failed | drain | abort => trivial

end ChunkedStream

/-! ## The stream of fixed length -/

/-- The bytes of a chunk stand where the chunk began. -/
structure FixedStream.Located (s : FixedStream) (c : FixedChunk) (before after : List UInt8) :
    Prop where
  given : s.given = before ++ c.chunk ++ after
  offset : before.length = c.chunkOffset
  begun : c.chunkOffset ≤ s.res.wire.length
  promise : c.promise < s.chunks

structure FixedStream.Inv (totalSize : Nat) (s : FixedStream) : Prop
    extends s.Intact totalSize where
  located : ∀ c ∈ s.res.handler, ∃ before after, Located s c before after
  awaited : ∀ c, s.pump = .awaiting c → ∃ before, Located s c before []
  unfinished : s.pump ≠ .settled → s.res.wire.length < totalSize
  fresh : s.res.aborted = false → s.res.atAbort = none

namespace FixedStream

variable {totalSize : Nat} {s : FixedStream}

theorem inv_start (totalSize : Nat) (aborted : Bool) : (start totalSize aborted).Inv totalSize := by
  rw [start]
  split
  · next hzero =>
    subst hzero
    cases aborted <;>
      exact {
        wire := List.nil_prefix
        atMost := Nat.le_refl _
        read := nofun
        resumes := nofun
        complete := fun _ _ => rfl
        short := fun _ _ h => absurd h (Nat.lt_irrefl _)
        quiet := by decide
        settles := fun _ => rfl
        located := nofun
        awaited := nofun
        unfinished := fun h => absurd rfl h
        fresh := by decide }
  · next hzero =>
    have hpos : 0 < totalSize := Nat.pos_of_ne_zero hzero
    have hnever : ∀ aborted, (loop { res := .initial _ aborted } false).pump = .settled →
        (loop { res := .initial _ aborted } false).res.aborted = false → False := by decide
    cases aborted <;>
      exact {
        wire := List.nil_prefix
        atMost := Nat.zero_le _
        read := fun _ => rfl
        resumes := nofun
        complete := fun h h' => (hnever _ h h').elim
        short := fun h h' => (hnever _ h h').elim
        quiet := by decide
        settles := by decide
        located := nofun
        awaited := nofun
        unfinished := fun _ => hpos
        fresh := by decide }

theorem remaining_eq (c : FixedChunk) (offset : Nat) :
    c.remaining offset = c.chunk.drop (offset - c.chunkOffset) := by
  rw [FixedChunk.remaining]
  split
  · rfl
  · next h => rw [Nat.sub_eq_zero_of_le (Nat.le_of_not_lt h), List.drop_zero]

/-- Up to the end of its chunk, a drain event offers what is not on the wire. -/
theorem remaining_exact {c : FixedChunk} {before after : List UInt8}
    (hlocated : Located s c before after) (hwire : s.res.wire <+: s.given)
    (hlength : s.res.wire.length ≤ (before ++ c.chunk).length) :
    s.res.wire ++ c.remaining s.res.wire.length = before ++ c.chunk := by
  have hbegun := hlocated.begun
  have htake : s.res.wire = before ++ c.chunk.take (s.res.wire.length - c.chunkOffset) := by
    have hprefix := List.prefix_iff_eq_take.mp hwire
    rw [hlocated.given, List.take_append_of_le_length hlength, List.take_append,
      hlocated.offset, List.take_of_length_le (hlocated.offset ▸ hbegun)] at hprefix
    exact hprefix
  rw [remaining_eq]
  generalize s.res.wire.length - c.chunkOffset = k at htake ⊢
  rw [htake, List.append_assoc, List.take_append_drop]

/-- What a drain event offers continues what is on the wire. -/
theorem remaining_continues {c : FixedChunk} {before after : List UInt8}
    (hlocated : Located s c before after) (hwire : s.res.wire <+: s.given) :
    s.res.wire ++ c.remaining s.res.wire.length <+: s.given := by
  by_cases hlength : s.res.wire.length ≤ (before ++ c.chunk).length
  · rw [remaining_exact hlocated hwire hlength, hlocated.given]
    exact List.prefix_append _ _
  · have hnil : c.remaining s.res.wire.length = [] := by
      have hoffset := hlocated.offset
      rw [List.length_append] at hlength
      rw [remaining_eq, List.drop_eq_nil_iff]
      omega
    rw [hnil, List.append_nil]
    exact hwire

theorem Located.mono {s s' : FixedStream} {c : FixedChunk} {before after : List UInt8}
    (h : Located s c before after) (hgiven : s'.given = s.given)
    (hwire : s.res.wire.length ≤ s'.res.wire.length) (hchunks : s.chunks ≤ s'.chunks) :
    Located s' c before after where
  given := hgiven.trans h.given
  offset := h.offset
  begun := Nat.le_trans h.begun hwire
  promise := Nat.lt_of_lt_of_le h.promise hchunks

/-- A response that differs in nothing that matters to the pump. -/
theorem Inv.of_res (h : s.Inv totalSize) {res : UwsResponse FixedChunk}
    (hwire : res.wire = s.res.wire) (haborted : res.aborted = s.res.aborted)
    (hhandler : res.handler = s.res.handler) (hclosed : res.closed = s.res.closed)
    (hat : res.atAbort = s.res.atAbort) : ({ s with res := res } : FixedStream).Inv totalSize := by
  have hmono : ∀ {c before after}, Located s c before after →
      Located { s with res := res } c before after := fun hlocated =>
    hlocated.mono rfl (Nat.le_of_eq (congrArg List.length hwire).symm) (Nat.le_refl _)
  exact {
    wire := hwire ▸ h.wire
    atMost := hwire ▸ h.atMost
    read := fun hp => hwire.trans (h.read hp)
    resumes := fun c hp => by
      show res.handler = some c ∧ res.wire ++ c.remaining res.wire.length = s.given
      rw [hhandler, hwire]
      exact h.resumes c hp
    complete := fun hp ha => hwire.trans (h.complete hp (haborted ▸ ha))
    short := fun hp ha hlt => hclosed.trans (h.short hp (haborted ▸ ha) (hwire ▸ hlt))
    quiet := fun w hw => hwire.trans (h.quiet w (hat ▸ hw))
    settles := fun ha => h.settles (haborted ▸ ha)
    located := fun c hc => by
      obtain ⟨before, after, hlocated⟩ := h.located c (hhandler ▸ hc)
      exact ⟨before, after, hmono hlocated⟩
    awaited := fun c hp => by
      obtain ⟨before, hlocated⟩ := h.awaited c hp
      exact ⟨before, hmono hlocated⟩
    unfinished := fun hp => hwire ▸ h.unfinished hp
    fresh := fun ha => hat.trans (h.fresh (haborted ▸ ha)) }

/-- The calls whose handler is registered. -/
def HandlerLocated (s : FixedStream) : Prop :=
  ∀ c ∈ s.res.handler, ∃ before after, Located s c before after

/-- A response that is not aborted owes nothing to an abort. -/
theorem quiet_of_fresh (hat : s.res.atAbort = none) : ∀ w ∈ s.res.atAbort, s.res.wire = w := by
  intro w hw
  rw [hat] at hw
  cases hw

theorem inv_reading (haborted : s.res.aborted = false) (hat : s.res.atAbort = none)
    (hp : s.pump = .reading) (hwire : s.res.wire = s.given)
    (hlt : s.res.wire.length < totalSize) (hlocated : s.HandlerLocated) : s.Inv totalSize where
  wire := hwire ▸ List.prefix_rfl
  atMost := Nat.le_of_lt hlt
  read _ := hwire
  resumes _ h := absurd (hp.symm.trans h) nofun
  complete h := absurd (hp.symm.trans h) nofun
  short h := absurd (hp.symm.trans h) nofun
  quiet := quiet_of_fresh hat
  settles h := absurd (haborted.symm.trans h) Bool.false_ne_true
  located := hlocated
  awaited _ h := absurd (hp.symm.trans h) nofun
  unfinished _ := hlt
  fresh _ := hat

theorem inv_awaiting {c : FixedChunk} {before : List UInt8} (haborted : s.res.aborted = false)
    (hat : s.res.atAbort = none) (hp : s.pump = .awaiting c) (hwire : s.res.wire <+: s.given)
    (hlt : s.res.wire.length < totalSize) (hhandler : s.res.handler = some c)
    (hlocated : Located s c before []) : s.Inv totalSize where
  wire := hwire
  atMost := Nat.le_of_lt hlt
  read h := absurd (hp.symm.trans h) nofun
  resumes c' hc' := by
    obtain rfl : c = c' := FixedPump.awaiting.inj (hp.symm.trans hc')
    have hgiven : s.given = before ++ c.chunk := by rw [hlocated.given, List.append_nil]
    exact ⟨hhandler,
      (remaining_exact hlocated hwire (hgiven ▸ hwire.length_le)).trans hgiven.symm⟩
  complete h := absurd (hp.symm.trans h) nofun
  short h := absurd (hp.symm.trans h) nofun
  quiet := quiet_of_fresh hat
  settles h := absurd (haborted.symm.trans h) Bool.false_ne_true
  located c' hc' := by
    obtain rfl : c = c' := Option.some.inj (hhandler.symm.trans hc')
    exact ⟨before, [], hlocated⟩
  awaited c' hc' := by
    obtain rfl : c = c' := FixedPump.awaiting.inj (hp.symm.trans hc')
    exact ⟨before, hlocated⟩
  unfinished _ := hlt
  fresh _ := hat

theorem inv_responded (hat : s.res.atAbort = none) (hp : s.pump = .settled)
    (hwire : s.res.wire <+: s.given) (htotal : s.res.wire.length = totalSize)
    (hlocated : s.HandlerLocated) : s.Inv totalSize where
  wire := hwire
  atMost := Nat.le_of_eq htotal
  read h := absurd (hp.symm.trans h) nofun
  resumes _ h := absurd (hp.symm.trans h) nofun
  complete _ _ := htotal ▸ List.prefix_iff_eq_take.mp hwire
  short _ _ hlt := absurd htotal (Nat.ne_of_lt hlt)
  quiet := quiet_of_fresh hat
  settles _ := hp
  located := hlocated
  awaited _ h := absurd (hp.symm.trans h) nofun
  unfinished h := absurd hp h
  fresh _ := hat

/-- The chunk of the call that the pump awaits is offered to the native response. -/
theorem inv_write {c : FixedChunk} {before : List UInt8} {answer : Answer}
    (haborted : s.res.aborted = false) (hat : s.res.atAbort = none) (hp : s.pump = .awaiting c)
    (hlocated : Located s c before []) (hwire : s.res.wire <+: s.given)
    (hhandler : s.HandlerLocated)
    (hfits : s.res.wire.length +
      ((c.remaining s.res.wire.length).take answer.taken).length ≤ totalSize)
    (hfirst : s.res.handler = none ∨ s.res.handler = some c ∨
      answer.accepts (c.remaining s.res.wire.length) = true ∨
      s.res.wire.length + ((c.remaining s.res.wire.length).take answer.taken).length =
        totalSize) :
    (s.write totalSize c s.res.wire.length answer).Inv totalSize := by
  have hgiven : s.given = before ++ c.chunk := by rw [hlocated.given, List.append_nil]
  have hexact : s.res.wire ++ c.remaining s.res.wire.length = s.given :=
    (remaining_exact hlocated hwire (hgiven ▸ hwire.length_le)).trans hgiven.symm
  rw [write, if_neg (by simp [haborted])]
  dsimp only
  generalize c.remaining s.res.wire.length = r at hexact hfits hfirst ⊢
  have hput : (s.res.put r answer).wire = s.res.wire ++ r.take answer.taken := rfl
  have hlength : (s.res.put r answer).wire.length =
      s.res.wire.length + (r.take answer.taken).length := by rw [hput, List.length_append]
  have hprefix : (s.res.put r answer).wire <+: s.given := by
    rw [hput, ← hexact]
    exact (List.prefix_append_right_inj _).mpr (List.take_prefix _ _)
  have hmono : ∀ {s' : FixedStream} {c' before after}, s'.given = s.given →
      s'.res.wire = (s.res.put r answer).wire → s'.chunks = s.chunks →
      Located s c' before after → Located s' c' before after := by
    intro s' c' before after hg hw hc h
    refine h.mono hg ?_ (Nat.le_of_eq hc.symm)
    rw [hw, hlength]
    exact Nat.le_add_right _ _
  have hhandlers : ∀ {s' : FixedStream}, s'.given = s.given →
      s'.res.wire = (s.res.put r answer).wire → s'.chunks = s.chunks →
      s'.res.handler = s.res.handler → s'.HandlerLocated := by
    intro s' hg hw hc hh c' hc'
    obtain ⟨before', after', h⟩ := hhandler c' (hh ▸ hc')
    exact ⟨before', after', hmono hg hw hc h⟩
  by_cases hdone : (s.res.put r answer).wire.length = totalSize
  · rw [decide_eq_true hdone, Bool.true_or, if_pos rfl, if_pos hp, loop, if_pos rfl]
    exact inv_responded hat rfl hprefix hdone (hhandlers rfl rfl rfl rfl)
  have hlt : (s.res.put r answer).wire.length < totalSize :=
    Nat.lt_of_le_of_ne (hlength ▸ hfits) hdone
  by_cases hok : answer.accepts r = true
  · have hall : (s.res.put r answer).wire = s.given := by
      have htaken : r.length ≤ answer.taken := by simpa using (Bool.and_eq_true_iff.mp hok).2
      rw [hput, List.take_of_length_le htaken, hexact]
    rw [decide_eq_false hdone, hok, Bool.or_true, if_pos rfl, if_pos hp, loop,
      if_neg Bool.false_ne_true, if_neg (by simp [UwsResponse.put, haborted])]
    exact inv_reading haborted hat rfl hall hlt (hhandlers rfl rfl rfl rfl)
  · have hown : some (s.res.handler.getD c) = some c := by
      rcases hfirst with hnone | hsome | haccepts | htotal
      · rw [hnone]
        rfl
      · rw [hsome]
        rfl
      · exact absurd haccepts hok
      · exact absurd (hlength.trans htotal) hdone
    rw [decide_eq_false hdone, Bool.false_or, if_neg hok]
    exact inv_awaiting haborted hat hp hprefix hlt hown (hmono rfl rfl rfl hlocated)

/-- The handler of a call that has been answered has nothing left that could be taken. -/
theorem Inv.taken_eq_nil (h : s.Inv totalSize) {c : FixedChunk} {taken : Nat}
    (hc : s.res.handler = some c) (hp : s.pump ≠ .awaiting c) (haborted : s.res.aborted = false)
    (hfits : s.res.wire.length +
      ((c.remaining s.res.wire.length).take taken).length ≤ totalSize) :
    (c.remaining s.res.wire.length).take taken = [] := by
  obtain ⟨before, after, hlocated⟩ := h.located c hc
  have hgiven := (remaining_continues hlocated h.wire).length_le
  rw [List.length_append] at hgiven
  rw [List.length_take] at hfits
  refine List.eq_nil_of_length_eq_zero ?_
  rw [List.length_take]
  cases hpump : s.pump with
  | reading =>
    have hwire := congrArg List.length (h.read hpump)
    omega
  | awaiting c' =>
    have hsome := (h.resumes c' hpump).1
    rw [hc] at hsome
    cases hsome
    exact absurd hpump hp
  | settled =>
    have hwire := congrArg List.length (h.complete hpump haborted)
    rw [List.length_take] at hwire
    omega

theorem Inv.write_answered (h : s.Inv totalSize) {c : FixedChunk} {answer : Answer}
    (hc : s.res.handler = some c) (hp : s.pump ≠ .awaiting c) (hfits : s.res.aborted = false →
      s.res.wire.length + ((c.remaining s.res.wire.length).take answer.taken).length ≤ totalSize) :
    (s.write totalSize c s.res.wire.length answer).Inv totalSize := by
  cases haborted : s.res.aborted with
  | true =>
    rw [write, if_pos haborted, if_neg hp]
    exact h
  | false =>
    have hput : (s.res.put (c.remaining s.res.wire.length) answer).wire = s.res.wire := by
      rw [UwsResponse.put, h.taken_eq_nil hc hp haborted (hfits haborted), List.append_nil]
    rw [write, if_neg (by simp [haborted])]
    dsimp only
    split
    · exact h.of_res hput rfl rfl rfl rfl
    · refine h.of_res hput rfl ?_ rfl rfl
      show some (s.res.handler.getD c) = s.res.handler
      rw [hc]
      rfl

theorem Inv.running (h : s.Inv totalSize) (hp : s.pump ≠ .settled) : s.res.aborted = false := by
  cases haborted : s.res.aborted with
  | false => rfl
  | true => exact absurd (h.settles haborted) hp

/-- The body ends, or fails, before it is complete. -/
theorem Inv.fail (h : s.Inv totalSize) (hp : s.pump = .reading) : s.fail.Inv totalSize := by
  have haborted := h.running (by simp [hp])
  have hwire := h.read hp
  exact { h with
    read := nofun
    resumes := nofun
    complete := fun _ _ => by
      show s.res.wire = s.given.take totalSize
      rw [← hwire, List.take_of_length_le h.atMost]
    short := fun _ _ _ => by simp [FixedStream.fail, UwsResponse.close, haborted]
    settles := fun _ => rfl
    located := fun c hc => by
      obtain ⟨before, after, hlocated⟩ := h.located c hc
      exact ⟨before, after, hlocated.mono rfl (Nat.le_refl _) (Nat.le_refl _)⟩
    awaited := nofun
    unfinished := fun hne => absurd rfl hne }

/-- What has been located stays where it is when more is read. -/
theorem Located.read {c : FixedChunk} {before after value : List UInt8}
    (h : Located s c before after) {s' : FixedStream} (hgiven : s'.given = s.given ++ value)
    (hres : s'.res = s.res) (hchunks : s.chunks ≤ s'.chunks) :
    Located s' c before (after ++ value) where
  given := by rw [hgiven, h.given, List.append_assoc]
  offset := h.offset
  begun := hres ▸ h.begun
  promise := Nat.lt_of_lt_of_le h.promise hchunks

theorem Inv.step_chunk (h : s.Inv totalSize) (hp : s.pump = .reading) (value : List UInt8)
    (answer : Answer) (hfits : s.Fits totalSize (.chunk value answer)) :
    (s.step totalSize (.chunk value answer)).Inv totalSize := by
  have haborted := h.running (by simp [hp])
  have hlt := h.unfinished (by simp [hp])
  have hwire := h.read hp
  have hhandler : ∀ {s' : FixedStream}, s'.given = s.given ++ value → s'.res = s.res →
      s.chunks ≤ s'.chunks → s'.HandlerLocated := by
    intro s' hgiven hres hchunks c hc
    obtain ⟨before, after, hlocated⟩ := h.located c (hres ▸ hc)
    exact ⟨before, after ++ value, hlocated.read hgiven hres hchunks⟩
  rw [FixedStream.step, if_pos hp]
  dsimp only
  split
  · next hnil =>
    rw [loop, if_neg Bool.false_ne_true, if_neg (by simp [haborted])]
    exact inv_reading haborted (h.fresh haborted) rfl (by simp [hnil, hwire]) hlt
      (hhandler rfl rfl (Nat.le_refl _))
  · next hne =>
    have hremaining : FixedChunk.remaining ⟨value, s.res.wire.length, s.chunks⟩
        s.res.wire.length = value := by
      rw [remaining_eq, Nat.sub_self, List.drop_zero]
    obtain ⟨hmost, hfirst⟩ := hfits hp hne
    have hlocated : Located { s with
        given := s.given ++ value
        pump := .awaiting ⟨value, s.res.wire.length, s.chunks⟩
        chunks := s.chunks + 1 } ⟨value, s.res.wire.length, s.chunks⟩ s.given [] := {
      given := by rw [List.append_nil]
      offset := congrArg List.length hwire.symm
      begun := Nat.le_refl _
      promise := Nat.lt_succ_self _ }
    refine inv_write haborted (h.fresh haborted) rfl hlocated ?_
      (hhandler rfl rfl (Nat.le_succ _)) ?_ ?_
    · exact hwire ▸ List.prefix_append _ _
    · rw [hremaining]
      exact hmost
    · rw [hremaining]
      rcases hfirst with hnone | haccepts | htotal
      · exact .inl hnone
      · exact .inr (.inr (.inl haccepts))
      · exact .inr (.inr (.inr htotal))

theorem Inv.step (h : s.Inv totalSize) (e : BodyEvent) (hfits : s.Fits totalSize e) :
    (s.step totalSize e).Inv totalSize := by
  cases e with
  | chunk value answer =>
    by_cases hp : s.pump = .reading
    · exact h.step_chunk hp value answer hfits
    · rw [FixedStream.step, if_neg hp]
      exact h
  | done | failed =>
    rw [FixedStream.step]
    split
    · next hp => exact h.fail hp
    · exact h
  | drain answer =>
    rw [FixedStream.step]
    split
    · exact h
    · next c hc =>
      by_cases hp : s.pump = .awaiting c
      · have haborted := h.running (by simp [hp])
        obtain ⟨before, hlocated⟩ := h.awaited c hp
        exact inv_write haborted (h.fresh haborted) hp hlocated h.wire h.located
          (hfits c hc haborted) (.inr (.inl hc))
      · exact h.write_answered hc hp (hfits c hc)
  | abort =>
    rw [FixedStream.step]
    split
    · exact h
    · next haborted =>
      have hp := hfits.resolve_left haborted
      exact { h with
        complete := nofun
        short := nofun
        quiet := fun w hw => Option.some.inj hw
        settles := fun _ => hp
        located := fun c hc => by
          obtain ⟨before, after, hlocated⟩ := h.located c hc
          exact ⟨before, after, hlocated.mono rfl (Nat.le_refl _) (Nat.le_refl _)⟩
        awaited := fun c hc => absurd (hp.symm.trans hc) nofun
        fresh := nofun }

/-! ## What goes wrong otherwise -/

theorem loop_res (s : FixedStream) (responded : Bool) : (s.loop responded).res = s.res := by
  rw [loop]
  split
  · rfl
  · split <;> rfl

theorem write_wire (haborted : s.res.aborted = false) (c : FixedChunk) (offset : Nat)
    (answer : Answer) : (s.write totalSize c offset answer).res.wire =
      s.res.wire ++ (c.remaining offset).take answer.taken := by
  rw [write, if_neg (by simp [haborted])]
  dsimp only
  split
  · split
    · rw [loop_res]
      rfl
    · rfl
  · rfl

theorem write_waits (haborted : s.res.aborted = false) {c : FixedChunk} (hp : s.pump = .awaiting c)
    {offset : Nat} {answer : Answer} (hok : answer.accepts (c.remaining offset) = false)
    (hdone : (s.write totalSize c offset answer).res.wire.length ≠ totalSize) :
    (s.write totalSize c offset answer).pump = .awaiting c ∧
      (s.write totalSize c offset answer).res.handler = some (s.res.handler.getD c) := by
  rw [write_wire haborted] at hdone
  have hput : (s.res.put (c.remaining offset) answer).wire.length ≠ totalSize := hdone
  rw [write, if_neg (by simp [haborted])]
  dsimp only
  rw [decide_eq_false hput, hok, Bool.or_self, if_neg Bool.false_ne_true]
  exact ⟨hp, rfl⟩

/-- The call of `handleFixedChunk` for a chunk that is read. -/
def call (s : FixedStream) (value : List UInt8) : FixedChunk :=
  ⟨value, s.res.wire.length, s.chunks⟩

theorem remaining_call (value : List UInt8) :
    (s.call value).remaining s.res.wire.length = value := by
  rw [remaining_eq, call, Nat.sub_self, List.drop_zero]

theorem step_chunk_eq (hp : s.pump = .reading) {value : List UInt8} (hne : value ≠ [])
    (answer : Answer) : s.step totalSize (.chunk value answer) =
      write totalSize { s with
        given := s.given ++ value
        pump := .awaiting (s.call value)
        chunks := s.chunks + 1 } (s.call value) s.res.wire.length answer := by
  rw [FixedStream.step, if_pos hp]
  dsimp only
  rw [if_neg hne]
  rfl

/-- A second chunk that meets backpressure is never told of a drain. -/
theorem fits_of_intact (h : s.Inv totalSize) (e : BodyEvent)
    (hintact : (s.step totalSize e).Intact totalSize) : s.Fits totalSize e := by
  cases e with
  | chunk value answer =>
    intro hp hne
    have haborted := h.running (by simp [hp])
    rw [step_chunk_eq hp hne] at hintact
    generalize hs' : ({ s with
      given := s.given ++ value
      pump := .awaiting (s.call value)
      chunks := s.chunks + 1 } : FixedStream) = s' at hintact
    have hres : s'.res = s.res := hs' ▸ rfl
    have haborted' : s'.res.aborted = false := hres ▸ haborted
    have hwire : (write totalSize s' (s.call value) s.res.wire.length answer).res.wire.length =
        s.res.wire.length + (value.take answer.taken).length := by
      rw [write_wire haborted', remaining_call, List.length_append, hres]
    have hmost := hintact.atMost
    rw [hwire] at hmost
    refine ⟨hmost, or_iff_not_imp_left.mpr fun hsome => or_iff_not_imp_left.mpr fun hok => ?_⟩
    by_contra htotal
    obtain ⟨c, hc⟩ := Option.ne_none_iff_exists'.mp hsome
    obtain ⟨hawaits, hhandler⟩ := write_waits haborted' (c := s.call value) (hs' ▸ rfl)
      (by rw [remaining_call]; simpa using hok) (hwire ▸ htotal)
    have hown := (hintact.resumes _ hawaits).1
    rw [hhandler, hres, hc] at hown
    obtain ⟨before, after, hlocated⟩ := h.located c hc
    have hpromise := hlocated.promise
    rw [show c = s.call value from Option.some.inj hown] at hpromise
    exact Nat.lt_irrefl _ hpromise
  | done | failed => trivial
  | drain answer =>
    intro c hc haborted
    have hmost := hintact.atMost
    rw [FixedStream.step, hc] at hmost
    dsimp only at hmost
    rw [write_wire haborted, List.length_append] at hmost
    exact hmost
  | abort =>
    by_contra hfits
    obtain ⟨haborted, hp⟩ := not_or.mp hfits
    have hsettles := hintact.settles
    rw [FixedStream.step, if_neg haborted] at hsettles
    exact hp (hsettles rfl)

end FixedStream

/-! ## Runs -/

/-- In a run each state is intact exactly if every event fits the state it meets. -/
theorem intact_iff (totalSize : Nat) (aborted : Bool) (l : List BodyEvent) :
    ((∀ l', l' <+: l → (Trace.run (FixedStream.step totalSize)
        (FixedStream.start totalSize aborted) l').Intact totalSize) ↔
      Trace.Admits (FixedStream.step totalSize) (FixedStream.Fits totalSize)
        (FixedStream.start totalSize aborted) l) ∧
    ((∀ l', l' <+: l → (Trace.run ChunkedStream.step
        (ChunkedStream.start aborted) l').Intact) ↔
      Trace.Admits ChunkedStream.step ChunkedStream.Fits (ChunkedStream.start aborted) l) :=
  ⟨Trace.forall_prefix_iff_admits_of_inv (FixedStream.step totalSize) (fun _ h => h.toIntact)
      (fun _ e h => h.step e) (fun _ e h => FixedStream.fits_of_intact h e)
      (FixedStream.inv_start totalSize aborted) l,
    Trace.forall_prefix_iff_admits_of_inv ChunkedStream.step (fun _ h => h.toIntact)
      (fun _ e h => h.step e) (fun _ e h => ChunkedStream.fits_of_intact h e)
      (ChunkedStream.inv_start aborted) l⟩

/-- The second chunk waits for a drain event that calls the handler of the first one, and an abort
leaves a read pending. -/
theorem not_intact_second :
    (¬ (Trace.run (FixedStream.step 2) (FixedStream.start 2 false) [.chunk [1] ⟨0, false⟩,
      .drain ⟨1, true⟩, .chunk [2] ⟨0, false⟩, .drain ⟨1, true⟩]).Intact 2) ∧
    ¬ (Trace.run (FixedStream.step 2) (FixedStream.start 2 false) [.abort]).Intact 2 :=
  ⟨fun h => absurd (h.resumes ⟨[2], 1, 1⟩ (by decide)).1 (by decide),
    fun h => absurd (h.settles (by decide)) (by decide)⟩

end Neemata.Http.UwsBody
