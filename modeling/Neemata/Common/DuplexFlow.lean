import Neemata.Common.DuplexInvariant

/-!
# What the duplex stream keeps to

A write that is parked while a read waits is let go by a pull that is still to come (`Waits`), and
after `releaseParkedWrites` or `cancel` no write is parked any more. The one step that breaks the
first is a chunk that is handed over while two reads wait, nothing may be buffered and no pull is in
progress (`Strands`): the pull for the second read runs inside the `enqueue`, before the write is
parked.
-/

namespace Neemata.Common

open Trace

namespace DuplexStream

variable {I O : Type} {options : DuplexOptions I O} {s t u : DuplexStream I O}

/-! ## Parked writes while a read waits -/

/-- With this chunk the sink parks a write that no pull is to let go. -/
def StrandsOn (options : DuplexOptions I O) (s : DuplexStream I O) (chunk : I) : Prop :=
  (options.transform chunk).isSome = true ∧ options.readableStrategy.full [] = true ∧
    2 ≤ s.reads ∧ s.pulling = false ∧ s.draining = false ∧ s.started = true

/-- The chunk that a step hands to the sink. -/
def handed (s : DuplexStream I O) : DuplexEvent I → Option I
  | .sinkStarts =>
    if !s.sinkStarted && s.writable = .writable then s.pending.head? else none
  | .write chunk =>
    if s.writable = .writable && !s.closeQueuedOrInFlight && s.sinkStarted &&
      s.inFlightWrite = none then some chunk else none
  | .wrote =>
    match s.inFlightWrite with
    | some ⟨_, .fulfilled⟩ => if s.writable = .writable then s.pending.head? else none
    | _ => none
  | _ => none

def Strands (options : DuplexOptions I O) (s : DuplexStream I O) (e : DuplexEvent I) : Prop :=
  ∃ chunk, s.handed e = some chunk ∧ StrandsOn options s chunk

theorem waits_of_nil (h : s.parkedWrites = []) : Waits s := fun hne => absurd h hne

variable (options) in
/-- An `enqueue` for a read that waits, with another one behind it. -/
theorem enqueue_waiting (hnil : s.parkedWrites = []) (hcan : s.canEnqueue = true) (value : O) :
    ∃ reads values queue pulling pullAgain,
      s.enqueue options value = { s with reads, values, queue, pulling, pullAgain } ∧
      reads = s.reads - 1 ∧ (0 < s.reads → queue = s.queue) ∧
      (2 ≤ s.reads → s.started = true →
        pulling = true ∧ pullAgain = (s.pullAgain || s.pulling)) := by
  unfold enqueue
  split
  · rw [callPullIfNeeded_of_none (s := { s with
      reads := s.reads - 1, values := s.values ++ [value] }) hnil]
    refine ⟨_, _, s.queue, _, _, rfl, rfl, fun _ => rfl, fun htwo hstarted => ?_⟩
    have hshould : shouldCallPull options { s with
        reads := s.reads - 1, values := s.values ++ [value] } = true := by
      have hpos : 0 < s.reads - 1 := by omega
      rw [canEnqueue] at hcan
      simp [shouldCallPull, hcan, hstarted, hpos]
    rw [hshould]
    simp
  · next hnone =>
    rw [callPullIfNeeded_of_none (s := { s with queue := s.queue ++ [value] }) hnil]
    exact ⟨s.reads, s.values, _, _, _, rfl, by omega, fun hpos => absurd hpos hnone,
      fun htwo => absurd (by omega) hnone⟩

theorem Ready.waits_sinkWrite (h : Ready options s) {chunk : I} (rest : List I) :
    Waits (DuplexStream.sinkWrite options { s with pending := rest } chunk) ↔
      ¬ StrandsOn options s chunk := by
  have hnil := h.parking.none_parked h.idle
  unfold DuplexStream.sinkWrite
  dsimp only
  split
  · next hnone =>
    obtain ⟨_, _, _, -, hframe⟩ := controllerError_frame s
    rw [hframe]
    exact iff_of_true (waits_of_nil hnil) fun hstrands => by simp [StrandsOn, hnone] at hstrands
  next value hvalue =>
  split
  · next hcan =>
    obtain ⟨reads, values, queue, pulling, pullAgain, heq, hreads, hqueue, hflags⟩ :=
      enqueue_waiting options (s := { s with
        pending := rest
        written := s.written ++ [chunk]
        inFlightWrite := some ⟨s.written.length, .pending⟩ }) hnil hcan value
    have hempty : 2 ≤ s.reads → queue = [] := fun htwo =>
      (hqueue (show 0 < s.reads by omega)).trans (h.parking.waiting (by omega)).2.2
    rw [heq]
    dsimp only
    split
    · next hpark =>
      simp only [Bool.and_eq_true, Bool.not_eq_true'] at hpark
      constructor
      · rintro hwaits ⟨-, -, htwo, hpulling, -, hstarted⟩
        obtain ⟨-, hagain⟩ := hflags htwo hstarted
        rcases hwaits (by simp) with hzero | hnot | ⟨-, hagain'⟩
        · have hzero : reads = 0 := hzero
          have hreads : reads = s.reads - 1 := hreads
          omega
        · cases hstarted.symm.trans hnot
        · rw [show pullAgain = (s.pullAgain || s.pulling) from hagain, hpulling,
            Bool.or_false] at hagain'
          cases hpulling.symm.trans (h.parking.again hagain')
      · intro hnot _
        by_cases htwo : 2 ≤ s.reads
        · right
          cases hstarted : s.started with
          | false => exact .inl rfl
          | true =>
            right
            obtain ⟨hpull, hagain⟩ := hflags htwo hstarted
            refine ⟨hpull, ?_⟩
            cases hpulling : s.pulling with
            | true =>
              rw [show pullAgain = (s.pullAgain || s.pulling) from hagain, hpulling, Bool.or_true]
            | false =>
              refine absurd ⟨by rw [hvalue]; rfl, ?_, htwo, hpulling, hpark.1, hstarted⟩ hnot
              rw [← hempty htwo]
              exact hpark.2
        · left
          have hreads : reads = s.reads - 1 := hreads
          show reads = 0
          omega
    · next hpark =>
      refine iff_of_true (waits_of_nil hnil) ?_
      rintro ⟨-, hfull, htwo, -, hdraining, -⟩
      rw [hempty htwo, hfull, show s.draining = false from hdraining] at hpark
      exact hpark rfl
  · next hcannot =>
    refine iff_of_true (waits_of_nil hnil) ?_
    rintro ⟨-, -, htwo, -⟩
    obtain ⟨hopen, hrequested, -⟩ := h.parking.waiting (by omega)
    exact hcannot (by simp [canEnqueue, hopen, hrequested])

theorem parkedWrites_controllerError (s : DuplexStream I O) :
    s.controllerError.parkedWrites = s.parkedWrites := by
  unfold controllerError
  split <;> rfl

theorem parkedWrites_finishErroring (s : DuplexStream I O) :
    s.finishErroring.parkedWrites = s.parkedWrites := by
  unfold finishErroring
  dsimp only
  split
  · exact parkedWrites_controllerError _
  · rfl

theorem parkedWrites_controllerClose (s : DuplexStream I O) :
    s.controllerClose.parkedWrites = s.parkedWrites := by
  unfold controllerClose
  split
  · split <;> rfl
  · rfl

/-- Only a chunk that goes to the sink can strand a read. -/
theorem Ready.waits_advance (h : Ready options s) :
    Waits (s.advance options) ↔
      ¬ ∃ chunk, s.writable ≠ .erroring ∧ s.pending.head? = some chunk ∧
        StrandsOn options s chunk := by
  have hnil := h.parking.none_parked h.idle
  unfold DuplexStream.advance
  rw [if_pos (by simp [h.started, h.idle])]
  split
  · next herroring =>
    refine iff_of_true (waits_of_nil ?_) ?_
    · rw [parkedWrites_finishErroring]
      exact hnil
    · rintro ⟨_, hnot, -⟩
      exact hnot herroring
  · next hnot =>
    split
    · next chunk rest hpending =>
      rw [h.waits_sinkWrite rest, hpending]
      refine not_congr ⟨fun hstrands => ⟨chunk, hnot, rfl, hstrands⟩, ?_⟩
      rintro ⟨_, -, ⟨⟩, hstrands⟩
      exact hstrands
    · next hpending =>
      refine iff_of_true (waits_of_nil ?_) ?_
      · split
        · rw [parkedWrites_controllerClose]
          exact hnil
        · exact hnil
      · rintro ⟨_, -, hhead, -⟩
        rw [hpending] at hhead
        cases hhead

/-- Nothing goes to the sink before it has started, or while it is at another write. -/
theorem advance_of_busy (options : DuplexOptions I O)
    (h : ¬ (s.sinkStarted = true ∧ s.inFlightWrite = none)) : s.advance options = s := by
  unfold advance
  rw [if_neg (by simpa using h)]

theorem waits_write (h : Inv options s) (hwaits : Waits s) (chunk : I) :
    Waits (s.write options chunk) ↔ ¬ Strands options s (.write chunk) := by
  unfold write Strands handed
  dsimp only
  split
  · next hguard =>
    rw [hguard, Bool.true_and]
    simp only [Bool.and_eq_true, decide_eq_true_eq, Bool.not_eq_true'] at hguard
    obtain ⟨hwritable, hnot⟩ := hguard
    have hclose := (no_close hnot).2
    by_cases hready : s.sinkStarted = true ∧ s.inFlightWrite = none
    · obtain ⟨hparking, hsinking, hflowing⟩ := h.accept chunk hwritable hclose
      have hnil : s.pending = [] := by
        rcases h.advanced hready.1 hready.2 hclose with ⟨-, hnil, -⟩ | hover | hover
        · exact hnil
        · cases hwritable.symm.trans hover
        · cases hwritable.symm.trans hover
      rw [Ready.waits_advance ⟨hparking, hsinking, hflowing, hready.1, hready.2, hclose⟩,
        if_pos (by simpa using hready)]
      refine not_congr ⟨?_, ?_⟩
      · rintro ⟨chunk', -, hhead, hstrands⟩
        rw [show s.pending ++ [chunk] = [chunk] by rw [hnil]; rfl] at hhead
        exact ⟨chunk', hhead, hstrands⟩
      · rintro ⟨chunk', hchunk, hstrands⟩
        refine ⟨chunk', by simp [hwritable], ?_, hstrands⟩
        rw [← hchunk, hnil]
        rfl
    · have hbusy := advance_of_busy options (s := { s with
        accepted := s.accepted ++ [chunk], pending := s.pending ++ [chunk] }) hready
      rw [hbusy, if_neg (by simpa using hready)]
      refine iff_of_true hwaits ?_
      rintro ⟨_, ⟨⟩, -⟩
  · next hguard =>
    rw [eq_false_of_ne_true hguard]
    refine iff_of_true hwaits ?_
    rintro ⟨_, ⟨⟩, -⟩

theorem waits_wrote (h : Inv options s) (hwaits : Waits s) :
    Waits (s.wrote options) ↔ ¬ Strands options s .wrote := by
  unfold wrote Strands
  split
  · next id hwrite =>
    obtain ⟨hready, hopen⟩ := h.done (by simp) hwrite
    rw [hready.waits_advance, handed, hwrite]
    refine not_congr ⟨?_, ?_⟩
    · rintro ⟨chunk, hnot, hhead, hstrands⟩
      refine ⟨chunk, ?_, hstrands⟩
      dsimp only
      rw [if_pos (hopen.resolve_right hnot)]
      exact hhead
    · rintro ⟨chunk, hhead, hstrands⟩
      dsimp only at hhead
      split at hhead
      · next hwritable => exact ⟨chunk, by simp [hwritable], hhead, hstrands⟩
      · cases hhead
  · next id hwrite =>
    obtain ⟨hready, -⟩ := h.done (by simp) hwrite
    rw [handed, hwrite]
    refine iff_of_true (waits_of_nil ?_) (by simp)
    rw [parkedWrites_finishErroring]
    exact hready.parking.none_parked rfl
  · next hnot _ =>
    refine iff_of_true hwaits ?_
    rintro ⟨_, hchunk, -⟩
    rw [handed] at hchunk
    split at hchunk
    · next id hwrite => exact hnot id hwrite
    · cases hchunk

theorem waits_sinkStarts (h : Inv options s) (hnot : s.sinkStarted = false) :
    Waits (advance options { s with sinkStarted := true }) ↔ ¬ Strands options s .sinkStarts := by
  obtain ⟨hparking, hsinking, hflowing⟩ := h.sinkStarted
  obtain ⟨hidle, hclose⟩ := h.not_started hnot
  rw [Ready.waits_advance ⟨hparking, hsinking, hflowing, rfl, hidle, hclose⟩]
  unfold Strands handed
  dsimp only
  rw [hnot, Bool.not_false, Bool.true_and]
  refine not_congr ⟨?_, ?_⟩
  · rintro ⟨chunk, herroring, hhead, hstrands⟩
    refine ⟨chunk, ?_, hstrands⟩
    rw [if_pos]
    · exact hhead
    · cases hwritable : s.writable with
      | writable => rfl
      | erroring => exact absurd hwritable herroring
      | errored => rw [(h.sinking.settled (.inl hwritable)).1] at hhead; cases hhead
      | closed => rw [(h.sinking.settled (.inr hwritable)).1] at hhead; cases hhead
  · rintro ⟨chunk, hhead, hstrands⟩
    split at hhead
    · next hwritable =>
      exact ⟨chunk, by simp [of_decide_eq_true hwritable], hhead, hstrands⟩
    · cases hhead

theorem not_strands_of_none {e : DuplexEvent I} (h : s.handed e = none) :
    ¬ Strands options s e := by
  rintro ⟨_, hchunk, -⟩
  rw [h] at hchunk
  cases hchunk

/-- A parked write is left behind by the steps that strand a read, and by no others. -/
theorem waits_step (h : Inv options s) (hwaits : Waits s) (e : DuplexEvent I) :
    Waits (step options s e) ↔ ¬ Strands options s e := by
  cases e with
  | write chunk => exact waits_write h hwaits chunk
  | wrote => exact waits_wrote h hwaits
  | sinkStarts =>
    rw [step]
    split
    · next hstarted =>
      refine iff_of_true hwaits (not_strands_of_none ?_)
      simp [handed, hstarted]
    · next hnot => exact waits_sinkStarts h (eq_false_of_ne_true hnot)
  | starts =>
    refine iff_of_true ?_ (not_strands_of_none rfl)
    rw [step]
    split
    · exact hwaits
    · exact waits_callPullIfNeeded ⟨h.parking.parked, h.parking.parked_open, h.parking.waiting,
        h.parking.close_queue, h.parking.again, fun _ => rfl⟩
  | read =>
    refine iff_of_true ?_ (not_strands_of_none rfl)
    rw [step, read]
    split
    · next hopen =>
      split
      · next hqueue => exact waits_callPullIfNeeded (h.wait hopen hqueue).parking
      · next chunk rest hqueue =>
        dsimp only
        split
        · next hlast =>
          intro hparked
          rw [(h.parking.parked_open hparked).2.1] at hlast
          cases hlast
        · next hlast =>
          refine waits_callPullIfNeeded (h.dequeue hqueue fun hrequested hnil => hlast ?_).parking
          simp [hrequested, hnil]
    · exact hwaits
  | pulled =>
    refine iff_of_true ?_ (not_strands_of_none rfl)
    rw [step, pulled]
    split
    · dsimp only
      split
      · exact waits_callPullIfNeeded ⟨h.parking.parked, h.parking.parked_open, h.parking.waiting,
          h.parking.close_queue, (fun hagain => by cases hagain), fun hpulling => by cases hpulling⟩
      · next hnot =>
        intro hparked
        rcases hwaits hparked with hreads | hstarted | ⟨-, hagain⟩
        · exact .inl hreads
        · exact .inr (.inl hstarted)
        · exact absurd hagain hnot
    · exact hwaits
  | cancel =>
    refine iff_of_true ?_ (not_strands_of_none rfl)
    rw [step, cancel]
    split
    · obtain ⟨_, heq, -⟩ := releaseParkedWrites_eq (s := { s with
        readable := .closed, cancelled := true, reads := 0, queue := [] }) h.parking.parked
      rw [heq]
      exact waits_of_nil rfl
    · exact hwaits
  | releaseParkedWrites =>
    refine iff_of_true ?_ (not_strands_of_none rfl)
    rw [step]
    obtain ⟨_, heq, -⟩ := releaseParkedWrites_eq h.parking.parked
    rw [heq]
    exact waits_of_nil rfl
  | close =>
    refine iff_of_true ?_ (not_strands_of_none rfl)
    rw [step, close]
    split
    · next hguard =>
      simp only [Bool.and_eq_true, Bool.or_eq_true, decide_eq_true_eq, Bool.not_eq_true'] at hguard
      obtain ⟨hopen, hnot⟩ := hguard
      have hclose := (no_close hnot).2
      by_cases hready : s.sinkStarted = true ∧ s.inFlightWrite = none
      · have hnil := h.parking.none_parked hready.2
        have hpending : s.pending = [] := by
          rcases h.advanced hready.1 hready.2 hclose with ⟨-, hpending, -⟩ | hover | hover
          · exact hpending
          · exact (h.sinking.settled (.inl hover)).1
          · exact (h.sinking.settled (.inr hover)).1
        refine waits_of_nil ?_
        unfold advance
        rw [if_pos (by simpa using hready), hpending]
        split
        · rw [parkedWrites_finishErroring]
          exact hnil
        · dsimp only
          rw [if_pos rfl, parkedWrites_controllerClose]
          exact hnil
      · have hbusy := advance_of_busy options (s := { s with closeQueued := true }) hready
        rw [hbusy]
        exact hwaits
    · exact hwaits
  | abort =>
    refine iff_of_true ?_ (not_strands_of_none rfl)
    rw [step, abort]
    split
    · dsimp only
      split
      · next hguard =>
        simp only [Bool.and_eq_true, decide_eq_true_eq] at hguard
        refine waits_of_nil ?_
        rw [parkedWrites_finishErroring]
        exact h.parking.none_parked hguard.1.2
      · exact hwaits
    · exact hwaits
  | closed =>
    refine iff_of_true ?_ (not_strands_of_none rfl)
    rw [step, closed]
    split <;> exact hwaits

/-! ## Writes settle once no write is parked -/

/-- What no step takes back. -/
structure Later (s t : DuplexStream I O) : Prop where
  draining : s.draining = true → t.draining = true
  not_readable : s.readable ≠ .readable → t.readable ≠ .readable
  sinkStarted : s.sinkStarted = true → t.sinkStarted = true

theorem Later.refl (s : DuplexStream I O) : Later s s := ⟨id, id, id⟩

theorem Later.trans (h₁ : Later s t) (h₂ : Later t u) : Later s u :=
  ⟨h₂.draining ∘ h₁.draining, h₂.not_readable ∘ h₁.not_readable, h₂.sinkStarted ∘ h₁.sinkStarted⟩

theorem Later.of_eq (h : Later t u) (hdraining : t.draining = s.draining)
    (hreadable : t.readable = s.readable) (hstarted : t.sinkStarted = s.sinkStarted) :
    Later s u :=
  Later.trans ⟨hdraining.trans, fun hne heq => hne (hreadable.symm.trans heq), hstarted.trans⟩ h

theorem later_resolve (s : DuplexStream I O) (id : Nat) : Later s (s.resolve id) := by
  unfold resolve
  split
  · exact ⟨fun h => h, fun h => h, fun h => h⟩
  · exact .refl s

theorem later_callPullIfNeeded (s : DuplexStream I O) : Later s (s.callPullIfNeeded options) := by
  unfold callPullIfNeeded
  split
  · split
    · exact ⟨id, id, id⟩
    · unfold pull
      split
      · exact ⟨id, id, id⟩
      · exact Later.of_eq (later_resolve _ _) rfl rfl rfl
  · exact .refl s

theorem later_enqueue (options : DuplexOptions I O) (s : DuplexStream I O) (value : O) :
    Later s (s.enqueue options value) := by
  unfold enqueue
  split
  · exact Later.of_eq (later_callPullIfNeeded _) rfl rfl rfl
  · exact Later.of_eq (later_callPullIfNeeded _) rfl rfl rfl

theorem later_controllerError (s : DuplexStream I O) : Later s s.controllerError := by
  unfold controllerError
  split
  · exact ⟨id, fun _ => by simp, id⟩
  · exact .refl s

theorem later_finishErroring (s : DuplexStream I O) : Later s s.finishErroring := by
  unfold finishErroring
  dsimp only
  split
  · have herror := later_controllerError
      { s with writable := .errored, pending := [], closeQueued := false }
    exact ⟨herror.draining, herror.not_readable, herror.sinkStarted⟩
  · exact ⟨id, id, id⟩

theorem later_controllerClose (s : DuplexStream I O) : Later s s.controllerClose := by
  unfold controllerClose
  split
  · split
    · exact ⟨id, fun _ => by simp, id⟩
    · exact ⟨id, id, id⟩
  · exact .refl s

theorem later_sinkWrite (s : DuplexStream I O) (chunk : I) :
    Later s (s.sinkWrite options chunk) := by
  unfold sinkWrite
  dsimp only
  split
  · have herror := later_controllerError { s with
      written := s.written ++ [chunk], inFlightWrite := some ⟨s.written.length, .pending⟩ }
    exact ⟨herror.draining, herror.not_readable, herror.sinkStarted⟩
  · next value _ =>
    split
    · have henqueue := later_enqueue options { s with
        written := s.written ++ [chunk], inFlightWrite := some ⟨s.written.length, .pending⟩ } value
      split
      · exact ⟨henqueue.draining, henqueue.not_readable, henqueue.sinkStarted⟩
      · exact ⟨henqueue.draining, henqueue.not_readable, henqueue.sinkStarted⟩
    · exact ⟨id, id, id⟩

theorem later_advance (options : DuplexOptions I O) (s : DuplexStream I O) :
    Later s (s.advance options) := by
  unfold advance
  split
  · split
    · exact later_finishErroring s
    · split
      · exact Later.of_eq (later_sinkWrite _ _) rfl rfl rfl
      · split
        · exact Later.of_eq (later_controllerClose _) rfl rfl rfl
        · exact .refl s
  · exact .refl s

theorem later_releaseParkedWrites (s : DuplexStream I O) : Later s s.releaseParkedWrites := by
  unfold releaseParkedWrites
  have hfold : ∀ (l : List Nat) (t : DuplexStream I O), Later t (l.foldl resolve t) := by
    intro l
    induction l with
    | nil => exact fun t => .refl t
    | cons id l ih => exact fun t => (later_resolve t id).trans (ih _)
  have hrelease := hfold s.parkedWrites { s with draining := true, parkedWrites := [] }
  exact ⟨fun _ => hrelease.draining rfl, hrelease.not_readable, hrelease.sinkStarted⟩

theorem later_step (options : DuplexOptions I O) (s : DuplexStream I O) (e : DuplexEvent I) :
    Later s (step options s e) := by
  cases e with
  | starts =>
    rw [step]
    split
    · exact .refl s
    · exact Later.of_eq (later_callPullIfNeeded _) rfl rfl rfl
  | sinkStarts =>
    rw [step]
    split
    · exact .refl s
    · have hadvance := later_advance options { s with sinkStarted := true }
      exact ⟨hadvance.draining, hadvance.not_readable, fun _ => hadvance.sinkStarted rfl⟩
  | read =>
    rw [step, read]
    split
    · split
      · exact Later.of_eq (later_callPullIfNeeded _) rfl rfl rfl
      · dsimp only
        split
        · exact ⟨id, fun _ => by simp, id⟩
        · exact Later.of_eq (later_callPullIfNeeded _) rfl rfl rfl
    · exact .refl s
  | cancel =>
    rw [step, cancel]
    split
    · have hrelease := later_releaseParkedWrites { s with
        readable := .closed, cancelled := true, reads := 0, queue := [] }
      exact ⟨hrelease.draining, fun _ => hrelease.not_readable (by simp), hrelease.sinkStarted⟩
    · exact .refl s
  | pulled =>
    rw [step, pulled]
    split
    · dsimp only
      split
      · exact Later.of_eq (later_callPullIfNeeded _) rfl rfl rfl
      · exact ⟨id, id, id⟩
    · exact .refl s
  | write chunk =>
    rw [step, write]
    split
    · exact Later.of_eq (later_advance _ _) rfl rfl rfl
    · exact .refl s
  | close =>
    rw [step, close]
    split
    · exact Later.of_eq (later_advance _ _) rfl rfl rfl
    · exact .refl s
  | abort =>
    rw [step, abort]
    split
    · dsimp only
      split
      · exact Later.of_eq (later_finishErroring _) rfl rfl rfl
      · exact ⟨id, id, id⟩
    · exact .refl s
  | releaseParkedWrites => exact later_releaseParkedWrites s
  | wrote =>
    rw [step, wrote]
    split
    · exact Later.of_eq (later_advance _ _) rfl rfl rfl
    · exact Later.of_eq (later_finishErroring _) rfl rfl rfl
    · exact .refl s
  | closed =>
    rw [step, closed]
    split
    · exact ⟨id, id, id⟩
    · exact .refl s

/-- A pull leaves what is written and what is to be written. -/
theorem keeps_callPullIfNeeded (s : DuplexStream I O) :
    (s.callPullIfNeeded options).pending = s.pending ∧
      (s.callPullIfNeeded options).written = s.written := by
  unfold callPullIfNeeded
  split
  · split
    · exact ⟨rfl, rfl⟩
    · unfold pull
      split
      · exact ⟨rfl, rfl⟩
      · unfold resolve
        split <;> exact ⟨rfl, rfl⟩
  · exact ⟨rfl, rfl⟩

theorem keeps_enqueue (options : DuplexOptions I O) (s : DuplexStream I O) (value : O) :
    (s.enqueue options value).pending = s.pending ∧
      (s.enqueue options value).written = s.written := by
  unfold enqueue
  split <;> exact keeps_callPullIfNeeded _

theorem keeps_sinkWrite (options : DuplexOptions I O) (s : DuplexStream I O) (chunk : I) :
    (s.sinkWrite options chunk).pending = s.pending ∧
      (s.sinkWrite options chunk).written = s.written ++ [chunk] := by
  unfold sinkWrite
  dsimp only
  split
  · obtain ⟨_, _, _, -, hframe⟩ := controllerError_frame s
    rw [hframe]
    exact ⟨rfl, rfl⟩
  · next value _ =>
    split
    · have henqueue := keeps_enqueue options { s with
        written := s.written ++ [chunk], inFlightWrite := some ⟨s.written.length, .pending⟩ } value
      split <;> exact henqueue
    · exact ⟨rfl, rfl⟩

theorem outstanding_finishErroring (h : s.inFlightWrite = none) :
    s.finishErroring.outstanding = 0 := by
  unfold finishErroring
  dsimp only
  split
  · obtain ⟨_, _, _, heq, -⟩ := controllerError_frame { s with
      writable := .errored, pending := [], closeQueued := false }
    rw [heq]
    simp [outstanding, h]
  · simp [outstanding, h]

theorem outstanding_controllerClose (s : DuplexStream I O) :
    s.controllerClose.outstanding = s.outstanding := by
  unfold controllerClose
  split
  · split <;> rfl
  · rfl

/-- Of the writes that have not settled, one settles. -/
theorem Ready.outstanding_advance (h : Ready options s) :
    (s.advance options).outstanding ≤ s.pending.length := by
  unfold DuplexStream.advance
  rw [if_pos (by simp [h.started, h.idle])]
  split
  · rw [outstanding_finishErroring h.idle]
    exact Nat.zero_le _
  · split
    · next chunk rest hpending =>
      have hkeeps := (keeps_sinkWrite options { s with pending := rest } chunk).1
      rw [hpending, outstanding, hkeeps, List.length_cons]
      split <;> simp
    · next hpending =>
      split
      · rw [outstanding_controllerClose]
        simp [outstanding, h.idle]
      · simp [outstanding, h.idle]

theorem outstanding_wrote (h : Inv options s) (hnil : s.parkedWrites = [])
    (hstarted : s.sinkStarted = true) :
    (s.wrote options).outstanding ≤ s.outstanding - 1 := by
  cases hwrite : s.inFlightWrite with
  | none =>
    have hpending : s.pending = [] := by
      cases hclose : s.inFlightClose with
      | true => exact (h.sinking.closing hclose).1
      | false =>
        rcases h.advanced hstarted hwrite hclose with ⟨-, hpending, -⟩ | hover | hover
        · exact hpending
        · exact (h.sinking.settled (.inl hover)).1
        · exact (h.sinking.settled (.inr hover)).1
    have hzero : s.outstanding = 0 := by simp [outstanding, hpending, hwrite]
    unfold wrote
    rw [hwrite]
    dsimp only
    omega
  | some w =>
    obtain ⟨id, promise⟩ := w
    have hcount : s.outstanding = s.pending.length + 1 := by simp [outstanding, hwrite]
    have hnot : promise ≠ .pending := by
      rintro rfl
      rcases h.parking.parked with ⟨-, hsettled⟩ | ⟨id', hparked, -⟩
      · exact hsettled id hwrite
      · rw [hnil] at hparked
        cases hparked
    obtain ⟨hready, -⟩ := h.done hnot hwrite
    unfold wrote
    rw [hwrite, hcount, Nat.add_sub_cancel]
    cases promise with
    | pending => exact absurd rfl hnot
    | fulfilled => exact hready.outstanding_advance
    | rejected =>
      dsimp only
      rw [outstanding_finishErroring rfl]
      exact Nat.zero_le _

/-- Once nothing is parked any more, all writes settle, one after another. -/
theorem settles_of_over (h : Inv options s) (hover : s.draining = true ∨ s.readable ≠ .readable)
    (hstarted : s.sinkStarted = true) :
    (run (step options) s (List.replicate s.outstanding .wrote)).outstanding = 0 := by
  have hall : ∀ (n : Nat) (s : DuplexStream I O), Inv options s →
      (s.draining = true ∨ s.readable ≠ .readable) → s.sinkStarted = true → s.outstanding ≤ n →
      (run (step options) s (List.replicate n .wrote)).outstanding = 0 := by
    intro n
    induction n with
    | zero => exact fun s _ _ _ hle => Nat.le_zero.mp hle
    | succ n ih =>
      intro s h hover hstarted hle
      have hlater := later_step options s .wrote
      have hnil : s.parkedWrites = [] := by
        by_contra hparked
        obtain ⟨hopen, -, hdraining⟩ := h.parking.parked_open hparked
        rcases hover with hdraining' | hnot
        · cases hdraining.symm.trans hdraining'
        · exact hnot hopen
      have hless := outstanding_wrote h hnil hstarted
      rw [List.replicate_succ, run_cons]
      refine ih _ (inv_step h .wrote) (hover.imp hlater.draining hlater.not_readable)
        (hlater.sinkStarted hstarted) ?_
      show (s.wrote options).outstanding ≤ n
      omega
  exact hall _ s h hover hstarted (Nat.le_refl _)

/-- `releaseParkedWrites` and `cancel` end the parking of writes for good. -/
theorem over_of_mem {l : List (DuplexEvent I)} (h : .releaseParkedWrites ∈ l ∨ .cancel ∈ l)
    (s : DuplexStream I O) (hs : Inv options s) :
    (run (step options) s l).draining = true ∨ (run (step options) s l).readable ≠ .readable := by
  have hrest : ∀ (l : List (DuplexEvent I)) (t : DuplexStream I O),
      Later t (run (step options) t l) := by
    intro l
    induction l with
    | nil => exact .refl
    | cons e l ih => exact fun t => (later_step _ t e).trans (ih _)
  induction l generalizing s with
  | nil => simp at h
  | cons e l ih =>
    rw [run_cons]
    by_cases hmem : .releaseParkedWrites ∈ l ∨ .cancel ∈ l
    · exact ih hmem _ (inv_step hs e)
    · have hlater := hrest l (step options s e)
      simp only [List.mem_cons] at h
      rcases h with (rfl | h) | (rfl | h)
      · left
        refine hlater.draining ?_
        obtain ⟨_, heq, -⟩ := releaseParkedWrites_eq hs.parking.parked
        rw [step, heq]
      · exact absurd (.inl h) hmem
      · right
        refine hlater.not_readable ?_
        rw [step, cancel]
        split
        · obtain ⟨_, heq, -⟩ := releaseParkedWrites_eq (s := { s with
            readable := .closed, cancelled := true, reads := 0, queue := [] }) hs.parking.parked
          rw [heq]
          simp
        · assumption
      · exact absurd (.inr h) hmem

/-! ## What the stream keeps to -/

/-- The state after a run. -/
def after (options : DuplexOptions I O) (l : List (DuplexEvent I)) : DuplexStream I O :=
  run (step options) {} l

/-- A parked write is let go, and the write that is queued behind it let through, when the pull in
progress is over or the readable side has started. -/
def Released (options : DuplexOptions I O) (s : DuplexStream I O) : Prop :=
  ∃ e, (e = .starts ∧ s.started = false ∨ e = .pulled ∧ s.pulling = true) ∧
    (step options s e).parkedWrites = [] ∧
    ∀ chunk rest, s.writable = .writable → s.pending = chunk :: rest →
      (run (step options) s [e, .wrote]).written = s.written ++ [chunk]

/-- Neither readers nor writers are stranded, and what is read is what was written. -/
structure Flows (options : DuplexOptions I O) (l : List (DuplexEvent I)) : Prop where
  in_order : (after options l).values ++ (after options l).queue <+:
    (after options l).written.filterMap options.transform
  lossless : (after options l).readable ≠ .errored → (after options l).cancelled = false →
    (after options l).values ++ (after options l).queue =
      (after options l).written.filterMap options.transform
  handed_over : (after options l).writable ≠ .errored →
    (after options l).accepted = (after options l).written ++ (after options l).pending
  released : 0 < (after options l).reads → (after options l).parkedWrites ≠ [] →
    Released options (after options l)
  settles : .releaseParkedWrites ∈ l ∨ .cancel ∈ l → (after options l).sinkStarted = true →
    (run (step options) (after options l)
      (List.replicate (after options l).outstanding .wrote)).outstanding = 0

theorem inv_after (options : DuplexOptions I O) (l : List (DuplexEvent I)) :
    Inv options (after options l) :=
  run_inv (step options) (P := fun _ => True) (I := Inv options) (fun _ e _ h => inv_step h e)
    (fun _ _ => trivial) inv_init

/-- The pull that is still to come lets the parked write go. -/
theorem released_of_pull (h : Inv options s) (hparked : s.parkedWrites ≠ [])
    (hreads : 0 < s.reads) (hpulling : s.pulling = false) (hstarted : s.started = true) :
    (s.callPullIfNeeded options).parkedWrites = [] ∧
    ∀ chunk rest, s.writable = .writable → s.pending = chunk :: rest →
      ((s.callPullIfNeeded options).wrote options).written = s.written ++ [chunk] := by
  obtain ⟨hopen, hrequested, -⟩ := h.parking.parked_open hparked
  have hshould : s.shouldCallPull options = true := by
    simp [shouldCallPull, hopen, hrequested, hstarted, hreads]
  rcases callPullIfNeeded_cases options h.parking with
    ⟨hnot, -⟩ | ⟨-, htrue, -⟩ | ⟨-, -, hnil, -⟩ | ⟨-, -, id, -, hwrite, heq⟩
  · cases hshould.symm.trans hnot
  · cases hpulling.symm.trans htrue
  · exact absurd hnil hparked
  · rw [heq]
    refine ⟨rfl, fun chunk rest hwritable hpending => ?_⟩
    have hsink := (h.sinking.in_flight (by rw [hwrite]; simp)).1
    unfold wrote advance
    dsimp only
    rw [if_pos (by simp [hsink]), if_neg (by rw [hwritable]; simp), hpending]
    exact (keeps_sinkWrite _ _ chunk).2

theorem Inv.released (h : Inv options s) (hwaits : Waits s) (hreads : 0 < s.reads)
    (hparked : s.parkedWrites ≠ []) : Released options s := by
  rcases hwaits hparked with hzero | hstarted | ⟨hpulling, hagain⟩
  · omega
  · have hpulling : s.pulling = false := by
      cases hpulling : s.pulling with
      | false => rfl
      | true => cases hstarted.symm.trans (h.parking.pulling hpulling)
    have hstart : Inv options { s with started := true } :=
      ⟨⟨h.parking.parked, h.parking.parked_open, h.parking.waiting, h.parking.close_queue,
        h.parking.again, fun _ => rfl⟩,
        ⟨h.sinking.in_flight, h.sinking.closing, h.sinking.settled, h.sinking.requested⟩,
        h.advanced, ⟨h.flowing.values, h.flowing.kept, h.flowing.closed, h.flowing.cancelled,
          h.flowing.order, h.flowing.order_kept⟩⟩
    refine ⟨.starts, .inl ⟨rfl, hstarted⟩, ?_⟩
    rw [run_cons, run_cons, run_nil, step, if_neg (by simp [hstarted])]
    exact released_of_pull hstart hparked hreads hpulling rfl
  · have hpull : Inv options { s with pulling := false, pullAgain := false } :=
      ⟨⟨h.parking.parked, h.parking.parked_open, h.parking.waiting, h.parking.close_queue,
        (fun hagain => by cases hagain), fun hpulling => by cases hpulling⟩,
        ⟨h.sinking.in_flight, h.sinking.closing, h.sinking.settled, h.sinking.requested⟩,
        h.advanced, ⟨h.flowing.values, h.flowing.kept, h.flowing.closed, h.flowing.cancelled,
          h.flowing.order, h.flowing.order_kept⟩⟩
    refine ⟨.pulled, .inr ⟨rfl, hpulling⟩, ?_⟩
    rw [run_cons, run_cons, run_nil, step, DuplexStream.pulled, if_pos hpulling]
    dsimp only
    rw [if_pos hagain]
    exact released_of_pull hpull hparked hreads rfl (h.parking.pulling hpulling)

theorem waits_of_released (h : 0 < s.reads → s.parkedWrites ≠ [] → Released options s) :
    Waits s := by
  intro hparked
  by_cases hreads : s.reads = 0
  · exact .inl hreads
  obtain ⟨e, he, hnil, -⟩ := h (Nat.pos_of_ne_zero hreads) hparked
  rcases he with ⟨-, hstarted⟩ | ⟨rfl, hpulling⟩
  · exact .inr (.inl hstarted)
  · refine .inr (.inr ⟨hpulling, ?_⟩)
    cases hagain : s.pullAgain with
    | true => rfl
    | false =>
      rw [step, pulled, if_pos hpulling] at hnil
      dsimp only at hnil
      rw [if_neg (by simp [hagain])] at hnil
      exact absurd hnil hparked

theorem flows_iff_waits (options : DuplexOptions I O) (l : List (DuplexEvent I)) :
    Flows options l ↔ Waits (after options l) := by
  have h := inv_after options l
  refine ⟨fun hflows => waits_of_released hflows.released, fun hwaits => ?_⟩
  exact ⟨h.flowing.values, h.flowing.kept, h.flowing.order_kept, h.released hwaits,
    fun hmem => settles_of_over h (over_of_mem hmem {} inv_init)⟩

/-- A run keeps to it all the way exactly if no step strands a read. -/
theorem flows_iff_admits (options : DuplexOptions I O) (l : List (DuplexEvent I)) :
    (∀ l', l' <+: l → Flows options l') ↔
      Admits (step options) (fun s e => ¬ Strands options s e) {} l := by
  simp only [flows_iff_waits]
  exact forall_prefix_iff_admits (step options) (I := Inv options) (K := Waits)
    (fun _ e h => inv_step h e) (fun _ e h hwaits => waits_step h hwaits e) inv_init
    (waits_of_nil rfl) l

/-- Two reads wait, and nothing may be buffered. -/
theorem not_flows_two_reads : ¬ Flows (⟨some, ⟨fun _ => true⟩⟩ : DuplexOptions Nat Nat)
    [.sinkStarts, .starts, .read, .read, .pulled, .pulled, .write 7, .pulled] := by
  intro h
  obtain ⟨e, he, -⟩ := h.released (by decide) (by decide)
  rcases he with ⟨-, hstarted⟩ | ⟨-, hpulling⟩
  · exact absurd hstarted (by decide)
  · exact absurd hpulling (by decide)

end DuplexStream

end Neemata.Common
