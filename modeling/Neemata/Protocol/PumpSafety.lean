import Neemata.Protocol.ServerStream

/-!
# What the pump emits

Whatever the order of grants, source events and destroys, and whatever the sink's callbacks call,
the sink is handed a prefix of the source's bytes within the credit that was granted, and one
terminal callback at most, after which there is nothing.
-/

namespace Neemata.Protocol

@[simp] theorem emitted_append (left right : List SinkCall) :
    emitted (left ++ right) = emitted left ++ emitted right := by
  induction left with
  | nil => rfl
  | cons call left ih =>
    cases call with
    | chunk bytes => rw [List.cons_append, emitted, emitted, ih, List.append_assoc]
    | «end» | error => rw [List.cons_append, emitted, emitted, ih]

/-- No terminal callback so far. -/
def Chunks (calls : List SinkCall) : Prop := ∀ call ∈ calls, ∃ bytes, call = .chunk bytes

/-- At most one terminal callback, and nothing after it. -/
def Terminated (calls : List SinkCall) : Prop :=
  Chunks calls ∨ ∃ front terminal, calls = front ++ [terminal] ∧ Chunks front

theorem Chunks.append {calls : List SinkCall} (H : Chunks calls) (bytes : List UInt8) :
    Chunks (calls ++ [.chunk bytes]) := by
  intro call hmem
  rcases List.mem_append.mp hmem with hmem | hmem
  · exact H call hmem
  · exact ⟨bytes, List.mem_singleton.mp hmem⟩

theorem Source.flatten_push (source : Source) (chunk : List UInt8) :
    (source.push chunk).buffer.flatten = source.buffer.flatten ++ chunk := by
  unfold Source.push
  split
  · simp
  · split
    · next h => rw [h, List.append_nil]
    · simp

namespace ProtocolServerStream

theorem finished_pump (s : ProtocolServerStream) : s.pump.finished = s.finished := by
  unfold pump
  split <;> rfl

theorem credits_pump (s : ProtocolServerStream) : s.pump.credits = s.credits := by
  unfold pump
  split <;> rfl

/-- What a grant to a live stream can do. -/
theorem grant_cases {s : ProtocolServerStream} (hlive : s.finished = false) (size : Int) :
    (size ≤ 0 ∧ s.grant size = (true, s)) ∨
    (0 < size ∧ s.grant size = (false, s)) ∨
    (0 < size ∧ s.grant size = (true, fail { s with granted := true })) ∨
    (0 < size ∧ s.credits + size ≤ MAX_STREAM_CREDITS ∧
      s.grant size = (true, pump { s with granted := true, credits := s.credits + size })) := by
  rw [grant, if_neg (by rw [hlive]; exact Bool.false_ne_true)]
  split
  · next hsize => exact .inl ⟨hsize, rfl⟩
  · next hsize =>
    rw [Int.not_le] at hsize
    split
    · exact .inr (.inl ⟨hsize, rfl⟩)
    · next hcap =>
      dsimp only
      split
      · exact .inr (.inr (.inl ⟨hsize, rfl⟩))
      · exact .inr (.inr (.inr ⟨hsize, Int.not_lt.mp hcap, rfl⟩))

theorem credits_fail (s : ProtocolServerStream) : s.fail.credits = s.credits := by
  unfold fail
  split <;> rfl

variable {s : ProtocolServerStream} (h : s.finished = true)
include h

/-! A finished stream takes no notice of what comes. -/

theorem pump_of_finished : s.pump = s := if_pos (.inr (.inl h))

theorem fail_of_finished : s.fail = s := if_pos h

theorem grant_of_finished (size : Int) : s.grant size = (true, s) := if_pos h

theorem onError_of_finished : s.onError = s := by
  rw [onError, if_neg (fun hearly => hearly.2 h), fail_of_finished h]

theorem iterate_of_finished : s.iterate = { s with pumping := false } := if_pos h

end ProtocolServerStream

namespace StreamRun

/-- The stream has not finished. -/
structure Live (r : StreamRun) : Prop where
  bytes : emitted r.stream.sink ++ r.stream.buffered.getD [] ++ r.stream.source.buffer.flatten =
    r.bytes
  credits : r.stream.credits + (emitted r.stream.sink).length = r.accepted
  credits_nonneg : 0 ≤ r.stream.credits
  credits_le : r.stream.credits ≤ MAX_STREAM_CREDITS
  credited : r.credited = r.accepted
  chunks : Chunks r.stream.sink
  ended : r.stream.sourceEnded = true →
    r.stream.source.ended = true ∧ r.stream.source.buffer = []
  granted : r.stream.granted = true → 0 < r.accepted
  pumping : r.stream.pumping = true → r.stream.granted = true
  silent : r.stream.granted = false → r.stream.sink = []

/-- What stays once it has. -/
structure Finished (r : StreamRun) : Prop where
  bytes : emitted r.stream.sink <+: r.bytes
  credits : r.stream.credits + (emitted r.stream.sink).length = r.credited
  credits_nonneg : 0 ≤ r.stream.credits
  credits_le : r.stream.credits ≤ MAX_STREAM_CREDITS
  credited : r.credited ≤ r.accepted
  terminated : Terminated r.stream.sink
  ended : .end ∈ r.stream.sink → r.stream.source.ended = true ∧ emitted r.stream.sink = r.bytes
  prompted : r.stream.sink ≠ [] → 0 < r.accepted ∨ r.destroyedWithError = true

def Inv (r : StreamRun) : Prop :=
  (r.stream.finished = false → r.Live) ∧ (r.stream.finished = true → r.Finished)

theorem inv_start (objectMode : Bool) : (start objectMode).Inv := by
  refine ⟨fun _ => ?_, fun h => nomatch h⟩
  exact {
    bytes := rfl
    credits := rfl
    credits_nonneg := Int.le_refl 0
    credits_le := Int.natCast_nonneg _
    credited := rfl
    chunks := fun _ h => nomatch h
    ended := fun h => nomatch h
    granted := fun h => nomatch h
    pumping := fun h => nomatch h
    silent := fun _ => rfl }

theorem Inv.of_live {r : StreamRun} (H : r.Live) (hlive : r.stream.finished = false) : r.Inv :=
  ⟨fun _ => H, fun h => nomatch hlive.symm.trans h⟩

theorem Inv.of_finished {r : StreamRun} (H : r.Finished) (hfinished : r.stream.finished = true) :
    r.Inv :=
  ⟨fun h => (nomatch hfinished.symm.trans h), fun _ => H⟩

variable {r : StreamRun}

/-! ## A live stream -/

namespace Live

/-- What has been emitted is a prefix, and within the grants. -/
theorem finished (H : r.Live) : emitted r.stream.sink <+: r.bytes :=
  ⟨_, (List.append_assoc _ _ _).symm.trans H.bytes⟩

/-- The loop is entered or not; nothing else changes. -/
theorem pump (H : r.Live) : Live { r with stream := r.stream.pump } := by
  unfold ProtocolServerStream.pump
  split
  · exact H
  · next h =>
    rw [not_or, not_or, not_not] at h
    exact { H with pumping := fun _ => h.2.2 }

/-- A failure ends the stream with `sink.error`. -/
theorem fail (H : r.Live) (hlive : r.stream.finished = false) (granted : Bool) (accepted : Nat)
    (destroyedWithError : Bool) (haccepted : r.accepted ≤ accepted)
    (hprompted : 0 < accepted ∨ destroyedWithError = true) :
    Inv { r with
      stream := ProtocolServerStream.fail { r.stream with granted }
      accepted, destroyedWithError } := by
  have hcredits := H.credits
  have hcredited := H.credited
  have hsame : emitted (r.stream.sink ++ [.error]) = emitted r.stream.sink := by
    rw [emitted_append]
    exact List.append_nil _
  rw [ProtocolServerStream.fail, if_neg (by rw [hlive]; exact Bool.false_ne_true)]
  refine Inv.of_finished ?_ rfl
  exact {
    bytes := by dsimp only; rw [hsame]; exact H.finished
    credits := by dsimp only; rw [hsame]; omega
    credits_nonneg := H.credits_nonneg
    credits_le := H.credits_le
    credited := by dsimp only; omega
    terminated := .inr ⟨_, _, rfl, H.chunks⟩
    ended := by
      intro hmem
      rcases List.mem_append.mp hmem with hmem | hmem
      · obtain ⟨bytes, h⟩ := H.chunks _ hmem
        cases h
      · cases List.mem_singleton.mp hmem
    prompted := fun _ => hprompted }

/-- Once everything has been read and handed on, the stream ends with `sink.end`. -/
theorem finish (H : r.Live) (hlive : r.stream.finished = false)
    (hended : r.stream.source.ended = true) (hbuffer : r.stream.source.buffer = [])
    (hbuffered : r.stream.buffered = none) (hgranted : r.stream.granted = true) :
    Inv { r with stream := { r.stream.finish with pumping := false } } := by
  have hcredits := H.credits
  have hcredited := H.credited
  have hsame : emitted (r.stream.sink ++ [.end]) = emitted r.stream.sink := by
    rw [emitted_append]
    exact List.append_nil _
  have hbytes := H.bytes
  rw [hbuffer, hbuffered, Option.getD_none, List.flatten_nil, List.append_nil,
    List.append_nil] at hbytes
  rw [ProtocolServerStream.finish, if_neg (by rw [hlive]; exact Bool.false_ne_true)]
  refine Inv.of_finished ?_ rfl
  exact {
    bytes := by dsimp only; rw [hsame]; exact H.finished
    credits := by dsimp only; rw [hsame]; omega
    credits_nonneg := H.credits_nonneg
    credits_le := H.credits_le
    credited := Nat.le_of_eq H.credited
    terminated := .inr ⟨_, _, rfl, H.chunks⟩
    ended := fun _ => ⟨hended, by dsimp only; rw [hsame]; exact hbytes⟩
    prompted := fun _ => .inl (H.granted hgranted) }

/-- A chunk goes to the sink as far as the credit reaches. -/
theorem emit (H : r.Live) (hlive : r.stream.finished = false)
    (hpumping : r.stream.pumping = true) {chunk : List UInt8}
    {buffer : List (List UInt8)}
    (hbytes : emitted r.stream.sink ++ chunk ++ buffer.flatten = r.bytes)
    (hended : r.stream.sourceEnded = true → r.stream.source.ended = true ∧ buffer = []) :
    Inv { r with
      stream := ProtocolServerStream.emit
        { r.stream with source := { r.stream.source with buffer } } chunk } := by
  have hcredits := H.credits
  have hnonneg := H.credits_nonneg
  have hle := H.credits_le
  have hgranted := H.pumping hpumping
  have hsilent : r.stream.granted = false → False := fun h => nomatch hgranted.symm.trans h
  unfold ProtocolServerStream.emit
  dsimp only
  split
  · refine Inv.of_live { H with bytes := ?_, ended := hended, pumping := fun h => nomatch h } hlive
    exact hbytes
  split
  · next hpos hlong =>
    have hout : emitted (r.stream.sink ++ [.chunk (chunk.take r.stream.credits.toNat)]) =
        emitted r.stream.sink ++ chunk.take r.stream.credits.toNat := by
      rw [emitted_append]
      exact congrArg _ (List.append_nil _)
    have htake : (chunk.take r.stream.credits.toNat).length = r.stream.credits.toNat := by
      rw [List.length_take]
      omega
    refine Inv.of_live { H with
      bytes := ?_, credits := ?_, credits_nonneg := ?_, credits_le := ?_
      chunks := H.chunks.append _, ended := hended, silent := fun h => (hsilent h).elim } hlive
    · dsimp only
      rw [hout, Option.getD_some, List.append_assoc (emitted r.stream.sink),
        List.take_append_drop]
      exact hbytes
    · dsimp only
      rw [hout, List.length_append, htake]
      omega
    · dsimp only
      omega
    · dsimp only
      omega
  · next hpos hshort =>
    have hout : emitted (r.stream.sink ++ [.chunk chunk]) = emitted r.stream.sink ++ chunk := by
      rw [emitted_append]
      exact congrArg _ (List.append_nil _)
    refine Inv.of_live { H with
      bytes := ?_, credits := ?_, credits_nonneg := ?_, credits_le := ?_
      chunks := H.chunks.append _, ended := hended, silent := fun h => (hsilent h).elim } hlive
    · dsimp only
      rw [hout, Option.getD_none, List.append_nil]
      exact hbytes
    · dsimp only
      rw [hout, List.length_append]
      omega
    · dsimp only
      omega
    · dsimp only
      omega

theorem iterate (H : r.Live) (hlive : r.stream.finished = false)
    (hpumping : r.stream.pumping = true) :
    Inv { r with stream := r.stream.iterate } := by
  have hbytes := H.bytes
  have hgranted := H.pumping hpumping
  have hstop : Inv { r with stream := { r.stream with pumping := false } } :=
    Inv.of_live { H with pumping := fun h => nomatch h } hlive
  unfold ProtocolServerStream.iterate
  rw [if_neg (by rw [hlive]; exact Bool.false_ne_true)]
  cases hbuffered : r.stream.buffered with
  | some chunk =>
    rw [hbuffered] at hbytes
    exact H.emit hlive hpumping hbytes H.ended
  | none =>
    rw [hbuffered, Option.getD_none, List.append_nil] at hbytes
    dsimp only at hstop ⊢
    rw [hbuffered] at hstop
    split
    · split
      · next h => exact H.finish hlive (H.ended h.1).1 h.2 hbuffered hgranted
      · exact hstop
    · cases hbuffer : r.stream.source.buffer with
      | nil =>
        dsimp only
        split
        · next h => exact H.finish hlive (H.ended h).1 hbuffer hbuffered hgranted
        · exact hstop
      | cons chunk rest =>
        rw [hbuffer, List.flatten_cons, ← List.append_assoc] at hbytes
        refine H.emit hlive hpumping hbytes fun h => ?_
        have hempty := (H.ended h).2
        rw [hbuffer] at hempty
        cases hempty

theorem grant (H : r.Live) (hlive : r.stream.finished = false) (size : Int) :
    (r.step (.grant size)).Inv := by
  have hcredits := H.credits
  have hnonneg := H.credits_nonneg
  have hcredited := H.credited
  rcases ProtocolServerStream.grant_cases hlive size with
    ⟨hsize, h⟩ | ⟨hsize, h⟩ | ⟨hsize, h⟩ | ⟨hsize, hcap, h⟩
  · have hzero : size.toNat = 0 := by omega
    rw [StreamRun.step, h]
    simp only [if_true, hzero, Nat.add_zero, Int.sub_self, Int.toNat_zero]
    exact Inv.of_live H hlive
  · rw [StreamRun.step, h]
    simp only [Bool.false_eq_true, if_false, Int.sub_self, Int.toNat_zero, Nat.add_zero]
    exact Inv.of_live H hlive
  · -- the error that was held back comes out now
    rw [StreamRun.step, h]
    dsimp only
    rw [ProtocolServerStream.credits_fail, Int.sub_self]
    exact H.fail hlive true _ _ (Nat.le_add_right _ _) (.inl (by rw [if_pos rfl]; omega))
  · rw [StreamRun.step, h]
    dsimp only
    have hsame : (r.stream.credits + size - r.stream.credits).toNat = size.toNat := by
      rw [Int.add_comm, Int.add_sub_cancel]
    rw [ProtocolServerStream.credits_pump, if_pos rfl, hsame]
    have hadded : Live { r with
        stream := { r.stream with granted := true, credits := r.stream.credits + size }
        accepted := r.accepted + size.toNat
        credited := r.credited + size.toNat } :=
      { H with
        credits := by dsimp only; omega
        credits_nonneg := by dsimp only; omega
        credits_le := hcap
        credited := by dsimp only; omega
        granted := fun _ => by dsimp only; omega
        pumping := fun _ => rfl
        silent := fun h => nomatch h }
    exact Inv.of_live hadded.pump ((ProtocolServerStream.finished_pump _).trans hlive)

theorem destroy (H : r.Live) (hlive : r.stream.finished = false) (error : Bool) :
    (r.step (.destroy error)).Inv := by
  have hcredits := H.credits
  have hcredited := H.credited
  change Inv { r with
    stream := r.stream.destroy error
    destroyedWithError := r.destroyedWithError || error }
  rw [ProtocolServerStream.destroy]
  cases error with
  | true => exact H.fail hlive r.stream.granted _ _ (Nat.le_refl _) (.inr (Bool.or_true _))
  | false =>
    rw [if_neg Bool.false_ne_true]
    refine Inv.of_finished ?_ rfl
    exact {
      bytes := H.finished
      credits := by dsimp only; omega
      credits_nonneg := H.credits_nonneg
      credits_le := H.credits_le
      credited := Nat.le_of_eq H.credited
      terminated := .inl H.chunks
      ended := by
        intro hmem
        obtain ⟨bytes, h⟩ := H.chunks _ hmem
        cases h
      prompted := by
        intro hne
        cases hgranted : r.stream.granted with
        | true => exact .inl (H.granted hgranted)
        | false => exact absurd (H.silent hgranted) hne }

theorem step (H : r.Live) (hlive : r.stream.finished = false) (event : StreamEvent) :
    (r.step event).Inv := by
  cases event with
  | push chunk =>
    change Inv (if r.stream.source.takes then _ else r)
    split
    · next htakes =>
      refine Inv.of_live { H with bytes := ?_, ended := ?_ } ?_
      · dsimp only
        rw [Source.flatten_push, ← List.append_assoc, H.bytes]
      · intro hended
        rw [Source.takes, (H.ended hended).1] at htakes
        cases htakes
      · exact hlive
    · exact Inv.of_live H hlive
  | close =>
    exact Inv.of_live { H with ended := fun h => ⟨rfl, (H.ended h).2⟩ } hlive
  | readable => exact Inv.of_live H.pump ((ProtocolServerStream.finished_pump _).trans hlive)
  | «end» =>
    change Inv (if r.stream.source.ended ∧ r.stream.source.buffer = [] then _ else r)
    split
    · next h =>
      have hended : Live { r with stream := { r.stream with sourceEnded := true } } :=
        { H with ended := fun _ => h }
      exact Inv.of_live hended.pump ((ProtocolServerStream.finished_pump _).trans hlive)
    · exact Inv.of_live H hlive
  | error =>
    change Inv { r with stream := r.stream.onError }
    rw [ProtocolServerStream.onError]
    split
    · exact Inv.of_live { H with } hlive
    · next h =>
      have hgranted : r.stream.granted = true := by
        cases hgranted : r.stream.granted with
        | true => rfl
        | false => exact absurd ⟨by simp [hgranted], by simp [hlive]⟩ h
      exact H.fail hlive r.stream.granted _ _ (Nat.le_refl _) (.inl (H.granted hgranted))
  | grant size => exact H.grant hlive size
  | destroy error => exact H.destroy hlive error
  | iterate =>
    change Inv (if r.stream.pumping then _ else r)
    split
    · next hpumping => exact H.iterate hlive hpumping
    · exact Inv.of_live H hlive

end Live

/-! ## A finished stream -/

theorem Finished.step (H : r.Finished) (hfinished : r.stream.finished = true)
    (event : StreamEvent) : (r.step event).Inv := by
  cases event with
  | push chunk =>
    rw [StreamRun.step]
    split
    · next htakes =>
      refine Inv.of_finished { H with bytes := ?_, ended := ?_ } hfinished
      · exact H.bytes.trans (List.prefix_append _ _)
      · intro hend
        rw [Source.takes, (H.ended hend).1] at htakes
        cases htakes
    · exact Inv.of_finished H hfinished
  | close =>
    exact Inv.of_finished { H with ended := fun h => ⟨rfl, (H.ended h).2⟩ } hfinished
  | readable =>
    rw [StreamRun.step, ProtocolServerStream.pump_of_finished hfinished]
    exact Inv.of_finished H hfinished
  | «end» =>
    rw [StreamRun.step]
    split
    · rw [ProtocolServerStream.pump_of_finished (by exact hfinished)]
      exact Inv.of_finished { H with } hfinished
    · exact Inv.of_finished H hfinished
  | error =>
    rw [StreamRun.step, ProtocolServerStream.onError_of_finished hfinished]
    exact Inv.of_finished H hfinished
  | grant size =>
    have hcredited := H.credited
    rw [StreamRun.step, ProtocolServerStream.grant_of_finished hfinished]
    simp only [if_true, Int.sub_self, Int.toNat_zero, Nat.add_zero]
    refine Inv.of_finished { H with credited := ?_, prompted := ?_ } hfinished
    · dsimp only
      omega
    · intro hne
      refine (H.prompted hne).imp_left fun h => ?_
      dsimp only
      omega
  | destroy error =>
    rw [StreamRun.step, ProtocolServerStream.destroy]
    have hprompted : r.stream.sink ≠ [] →
        0 < r.accepted ∨ (r.destroyedWithError || error) = true := fun hne =>
      (H.prompted hne).imp_right fun h => by rw [h, Bool.true_or]
    split
    · rw [ProtocolServerStream.fail_of_finished hfinished]
      exact Inv.of_finished { H with prompted := hprompted } hfinished
    · exact Inv.of_finished { H with prompted := hprompted } rfl
  | iterate =>
    rw [StreamRun.step]
    split
    · rw [ProtocolServerStream.iterate_of_finished hfinished]
      exact Inv.of_finished { H with } hfinished
    · exact Inv.of_finished H hfinished

theorem Inv.step (H : r.Inv) (event : StreamEvent) : (r.step event).Inv := by
  cases hfinished : r.stream.finished with
  | false => exact (H.1 hfinished).step hfinished event
  | true => exact (H.2 hfinished).step hfinished event

theorem inv_run (objectMode : Bool) (events : List StreamEvent) : (run objectMode events).Inv :=
  Trace.run_inv (P := fun _ => True) StreamRun.step (fun _ event _ H => H.step event)
    (fun _ _ => trivial) (inv_start objectMode)

/-- What holds of a stream in every run. -/
structure PumpSafe (r : StreamRun) : Prop where
  /-- In order, without gap or duplication. -/
  in_order : emitted r.stream.sink <+: r.bytes
  within_grants : (emitted r.stream.sink).length ≤ r.accepted
  bounds : 0 ≤ r.stream.credits ∧ r.stream.credits ≤ MAX_STREAM_CREDITS
  /-- Credits are what was added and has not been emitted. -/
  credits : r.stream.credits = r.credited - (emitted r.stream.sink).length
  /-- Until the stream finishes, every accepted grant is added. -/
  added : r.stream.finished = false → r.credited = r.accepted
  prompted : r.stream.sink ≠ [] → 0 < r.accepted ∨ r.destroyedWithError = true
  terminated : Terminated r.stream.sink
  ended : .end ∈ r.stream.sink → r.stream.source.ended = true ∧ emitted r.stream.sink = r.bytes

theorem Live.pumpSafe (H : r.Live) : r.PumpSafe where
  in_order := H.finished
  within_grants := by
    have hcredits := H.credits
    have hnonneg := H.credits_nonneg
    omega
  bounds := ⟨H.credits_nonneg, H.credits_le⟩
  credits := by
    have hcredits := H.credits
    have hcredited := H.credited
    omega
  added _ := H.credited
  prompted hne := by
    cases hgranted : r.stream.granted with
    | true => exact .inl (H.granted hgranted)
    | false => exact absurd (H.silent hgranted) hne
  terminated := .inl H.chunks
  ended hmem := by
    obtain ⟨bytes, h⟩ := H.chunks _ hmem
    cases h

theorem Finished.pumpSafe (H : r.Finished) (hfinished : r.stream.finished = true) :
    r.PumpSafe := { H with
  in_order := H.bytes
  within_grants := by
    have hcredits := H.credits
    have hnonneg := H.credits_nonneg
    have hcredited := H.credited
    omega
  bounds := ⟨H.credits_nonneg, H.credits_le⟩
  credits := by
    have hcredits := H.credits
    omega
  added hlive := nomatch hfinished.symm.trans hlive }

theorem pump_safe (objectMode : Bool) (events : List StreamEvent) :
    (run objectMode events).PumpSafe := by
  have H := inv_run objectMode events
  cases hfinished : (run objectMode events).stream.finished with
  | false => exact (H.1 hfinished).pumpSafe
  | true => exact (H.2 hfinished).pumpSafe hfinished

/-- A grant to a stream that was destroyed is accepted and adds no credit. -/
theorem credits_ne_accepted_sub_emitted :
    let r := run false [.destroy false, .grant 5]
    r.stream.credits ≠ r.accepted - (emitted r.stream.sink).length := by
  decide

end StreamRun

end Neemata.Protocol
