import Neemata.Lib.Trace
import Mathlib.Data.PNat.Basic

/-!
# The upload of a blob

`ProtocolClientBlobStream.read` of `protocol/src/client/stream.ts` and the `ClientBlobPull` handler
of `client/src/layers/streams.ts`. A `read` that finds bytes in the queue answers at once; one that
finds none waits for the reader, whose promises settle in the order in which they were made. Pulls
may come while earlier ones wait. The bytes of the source are pushed in order, and the end comes in
time as long as no read that waits for the reader finds the end of the source while the queue holds
bytes (`uploads_whole_iff`).
-/

namespace Neemata.Client

/-- A stream of the client, with what the handler made of its pulls. -/
structure ClientBlobStream where
  /-- The chunks that the reader has still to give. -/
  source : List (List UInt8)
  queue : List UInt8 := []
  /-- The sizes of the reads that wait for the reader. -/
  waiting : List ℕ+ := []
  /-- The pushes, each with the size that its pull asked for. -/
  pushes : List (ℕ+ × List UInt8) := []
  /-- `ClientBlobEnd` was sent, and the stream was removed. -/
  ended : Bool := false
deriving DecidableEq

inductive PullEvent where
  /-- `ClientBlobPull` -/
  | pull (size : ℕ+)
  /-- The first promise of the reader settles: with the next chunk, or at the end of the source. -/
  | settle
deriving DecidableEq

namespace ClientBlobStream

variable (s : ClientBlobStream)

/-- The second part of `read`, and the push. -/
def answer (size : ℕ+) : ClientBlobStream :=
  let chunkSize := min (size : Nat) s.queue.length
  { s with
    queue := s.queue.drop chunkSize
    pushes := s.pushes ++ [(size, s.queue.take chunkSize)] }

/-- `read` up to its wait. -/
def read (size : ℕ+) : ClientBlobStream :=
  if s.queue.length = 0 then { s with waiting := s.waiting ++ [size] } else s.answer size

/-- `read` from its wait on; `null` ends the stream. -/
def resume : ClientBlobStream :=
  match s.waiting with
  | [] => s
  | size :: waiting =>
    match s.source with
    | [] => { s with waiting, ended := true }
    | value :: source => { s with waiting, source, queue := s.queue ++ value }.answer size

def step (s : ClientBlobStream) : PullEvent → ClientBlobStream
  | .pull size => if s.ended then s else s.read size
  | .settle => s.resume

/-- The bytes pushed so far. -/
def pushed : List UInt8 := (s.pushes.map Prod.snd).flatten

/-- What the pushes have to be of a source. -/
structure Whole (chunks : List (List UInt8)) : Prop where
  bytes : s.pushed <+: chunks.flatten
  size : ∀ size chunk, (size, chunk) ∈ s.pushes → chunk.length ≤ size
  nonempty : (∀ chunk ∈ chunks, chunk ≠ []) → ∀ size chunk, (size, chunk) ∈ s.pushes → chunk ≠ []
  ended : s.ended = true → s.pushed = chunks.flatten

/-- A read that waits at the end of the source finds no bytes in the queue. -/
def Drained : PullEvent → Prop
  | .pull _ => True
  | .settle => s.waiting ≠ [] → s.source = [] → s.queue = []

instance : (e : PullEvent) → Decidable (s.Drained e)
  | .pull _ => isTrue trivial
  | .settle => inferInstanceAs (Decidable (_ → _ → _))

/-- A pull comes after the last one has been answered. -/
def InTurn : PullEvent → Prop
  | .pull _ => s.waiting = []
  | .settle => True

instance : (e : PullEvent) → Decidable (s.InTurn e)
  | .pull _ => inferInstanceAs (Decidable (_ = _))
  | .settle => isTrue trivial

/-- The bytes are pushed, in the queue or to come, in this order. -/
structure Kept (chunks : List (List UInt8)) : Prop where
  bytes : s.pushed ++ s.queue ++ s.source.flatten = chunks.flatten
  source : ∀ chunk ∈ s.source, chunk ∈ chunks
  size : ∀ size chunk, (size, chunk) ∈ s.pushes → chunk.length ≤ size
  nonempty : (∀ chunk ∈ chunks, chunk ≠ []) → ∀ size chunk, (size, chunk) ∈ s.pushes → chunk ≠ []
  ended : s.ended = true → s.source = []

variable {s} {chunks : List (List UInt8)}

theorem kept_start (chunks : List (List UInt8)) : Kept { source := chunks } chunks where
  bytes := rfl
  source _ h := h
  size _ _ h := by cases h
  nonempty _ _ _ h := by cases h
  ended h := by cases h

theorem pushed_answer (size : ℕ+) : (s.answer size).pushed ++ (s.answer size).queue =
    s.pushed ++ s.queue := by
  unfold pushed answer
  rw [List.map_append, List.flatten_append, List.append_assoc]
  simp only [List.map_cons, List.map_nil, List.flatten_cons, List.flatten_nil, List.append_nil,
    List.take_append_drop]

theorem Kept.answer (H : s.Kept chunks) (size : ℕ+)
    (hqueue : (∀ chunk ∈ chunks, chunk ≠ []) → s.queue ≠ []) : (s.answer size).Kept chunks where
  bytes := by
    rw [pushed_answer]
    exact H.bytes
  source := H.source
  size other chunk h := by
    rcases List.mem_append.mp h with h | h
    · exact H.size other chunk h
    · cases List.mem_singleton.mp h
      rw [List.length_take]
      omega
  nonempty hchunks other chunk h := by
    rcases List.mem_append.mp h with h | h
    · exact H.nonempty hchunks other chunk h
    · cases List.mem_singleton.mp h
      have hlength := List.length_pos_iff.mpr (hqueue hchunks)
      have hsize := size.pos
      intro hnil
      have hzero := congrArg List.length hnil
      rw [List.length_take, List.length_nil] at hzero
      omega
  ended := H.ended

theorem Kept.step (H : s.Kept chunks) (e : PullEvent) : (s.step e).Kept chunks := by
  cases e with
  | pull size =>
    simp only [ClientBlobStream.step, read]
    split
    · exact H
    · split
      · exact ⟨H.bytes, H.source, H.size, H.nonempty, H.ended⟩
      · next hqueue => exact H.answer size fun _ h => hqueue (congrArg List.length h)
  | settle =>
    simp only [ClientBlobStream.step, resume]
    split
    · exact H
    · next size waiting _ =>
      split
      · next hsource =>
        exact ⟨H.bytes, H.source, H.size, H.nonempty, fun _ => hsource⟩
      · next value source hsource =>
        have hmem : ∀ chunk ∈ value :: source, chunk ∈ chunks := hsource ▸ H.source
        have hread : Kept { s with waiting, source, queue := s.queue ++ value } chunks := by
          refine ⟨?_, fun chunk h => hmem chunk (List.mem_cons_of_mem value h), H.size, H.nonempty,
            fun h => ?_⟩
          · have hbytes := H.bytes
            rw [hsource, List.flatten_cons, ← List.append_assoc] at hbytes
            rw [← hbytes]
            simp only [pushed, List.append_assoc]
          · rw [H.ended h] at hsource
            cases hsource
        refine hread.answer size fun hchunks hnil => ?_
        exact hchunks value (hmem value List.mem_cons_self) (List.append_eq_nil_iff.mp hnil).2

/-- Of what is kept, only the end can come wrong. -/
theorem Kept.whole_iff (H : s.Kept chunks) :
    s.Whole chunks ↔ (s.ended = true → s.queue = []) := by
  refine ⟨fun hwhole hended => ?_, fun hqueue => ⟨?_, H.size, H.nonempty, fun hended => ?_⟩⟩
  · have hbytes := H.bytes
    rw [H.ended hended, List.flatten_nil, List.append_nil, ← hwhole.ended hended] at hbytes
    exact List.append_right_eq_self.mp hbytes
  · exact ⟨s.queue ++ s.source.flatten, by rw [← List.append_assoc, H.bytes]⟩
  · have hbytes := H.bytes
    rwa [H.ended hended, hqueue hended, List.flatten_nil, List.append_nil, List.append_nil] at hbytes

theorem drained_step_iff (H : s.Kept chunks) (hwhole : s.ended = true → s.queue = [])
    (e : PullEvent) : ((s.step e).ended = true → (s.step e).queue = []) ↔ s.Drained e := by
  cases e with
  | pull size =>
    refine iff_of_true (fun hended => ?_) trivial
    simp only [step, read] at hended ⊢
    split at hended
    · next hended' =>
      rw [if_pos hended']
      exact hwhole hended'
    · next hended' => split at hended <;> exact absurd hended hended'
  | settle =>
    simp only [step, resume, Drained]
    split
    · next hwaiting => exact iff_of_true hwhole fun h => absurd hwaiting h
    · next size waiting hwaiting =>
      have hsome : s.waiting ≠ [] := by
        rw [hwaiting]
        nofun
      split
      · next hsource => exact ⟨fun h _ _ => h rfl, fun h _ => h hsome hsource⟩
      · next value source hsource =>
        refine iff_of_true (fun hended => ?_) fun _ h => ?_
        · rw [H.ended hended] at hsource
          cases hsource
        · rw [h] at hsource
          cases hsource

/-- With pulls in turn one read waits at most, and then the queue is empty. -/
theorem drained_of_inTurn {l : List PullEvent} (h : Trace.Admits step InTurn s l)
    (hs : s.waiting = [] ∨ ∃ size, s.waiting = [size] ∧ s.queue = []) :
    Trace.Admits step Drained s l := by
  induction l generalizing s with
  | nil => trivial
  | cons e l ih =>
    obtain ⟨he, hrest⟩ := h
    cases e with
    | pull size =>
      have hwaiting : s.waiting = [] := he
      refine ⟨trivial, ih hrest ?_⟩
      rw [step]
      split
      · exact .inl hwaiting
      · rw [read, hwaiting]
        split
        · next hempty => exact .inr ⟨size, rfl, List.length_eq_zero_iff.mp hempty⟩
        · exact .inl hwaiting
    | settle =>
      obtain hwaiting | ⟨size, hwaiting, hqueue⟩ := hs
      · refine ⟨fun hne => absurd hwaiting hne, ih hrest (.inl ?_)⟩
        rw [step, resume, hwaiting]
        exact hwaiting
      · refine ⟨fun _ _ => hqueue, ih hrest (.inl ?_)⟩
        rw [step, resume, hwaiting]
        cases s.source <;> rfl

/-- The uploads of a run are whole in every state exactly if no read that waits finds the end of the
source while the queue holds bytes; so they are if each pull comes after the last answer. -/
theorem uploads_whole_iff (chunks : List (List UInt8)) (l : List PullEvent) :
    ((∀ l', l' <+: l → (Trace.run step { source := chunks } l').Whole chunks) ↔
      Trace.Admits step Drained { source := chunks } l) ∧
    (Trace.Admits step InTurn { source := chunks } l →
      Trace.Admits step Drained { source := chunks } l) := by
  refine ⟨?_, fun h => drained_of_inTurn h (.inl rfl)⟩
  refine Trace.forall_prefix_iff_admits step (I := fun s => s.Kept chunks)
    (K := fun s => s.Whole chunks) (fun s e H => H.step e) (fun s e H hwhole => ?_)
    (kept_start chunks) ((kept_start chunks).whole_iff.mpr nofun) l
  exact (H.step e).whole_iff.trans (drained_step_iff H (H.whole_iff.mp hwhole) e)

/-- The rest of a chunk is pulled once the first byte has been pushed. -/
theorem uploads_whole_inTurn : Trace.Admits step Drained { source := [[1, 2, 3]] }
    [.pull 1, .settle, .pull 2, .pull 1, .settle] :=
  (uploads_whole_iff _ _).2 (by decide)

/-- A second pull waits behind the first, which leaves bytes of the only chunk in the queue. -/
theorem upload_cut_short : ¬ (Trace.run step { source := [[1, 2, 3]] }
    [.pull 1, .pull 1, .settle, .settle]).Whole [[1, 2, 3]] := by
  intro h
  exact absurd (h.ended (by decide)) (by decide)

end ClientBlobStream

end Neemata.Client
