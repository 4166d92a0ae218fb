import Neemata.PubSub.MessageStream

/-!
# What the stream of a subscription delivers

A pump that runs has the stream to itself (`Running`): no other waits for the iterator or stands in
a `push`. Whatever it does next keeps the invariant `Inv`.
-/

namespace Neemata.PubSub

open Trace

variable {P D : Type}

/-- The event that a message is delivered as. -/
def NextResult.decoded (events : Selected P D) : NextResult P → Option (Message D)
  | .message ⟨event, payload⟩ =>
    (events event).bind fun decode => (decode payload).map fun payload => ⟨event, payload⟩
  | _ => none

/-- The iterator is done, or has been aborted. -/
def NextResult.ends : NextResult P → Bool
  | .message _ => false
  | .done => true
  | .throws error => error.isAbortError

namespace MessageStream

variable {mark : Nat} {events : Selected P D} {s : MessageStream P D}

/-- What has been received, against what has been pushed and delivered. -/
structure Kept (events : Selected P D) (s : MessageStream P D) : Prop where
  delivered : s.delivered ++ s.buffer = s.received.filterMap (NextResult.decoded events)
  pushed : s.pushed = (s.delivered ++ s.buffer).map some ++ if s.ended then [none] else []
  ended : s.ended = true ↔ ∃ r ∈ s.received, r.ends = true
  failed : ∀ error, .throws error ∈ s.received → error.isAbortError = false →
    s.destroyed = some (some error.asError)

structure Inv (events : Selected P D) (s : MessageStream P D) : Prop extends Kept events s where
  pumps : s.waiting + s.emitting ≤ 1
  pumping : 0 < s.waiting + s.emitting → s.pumping = true
  active : s.isOpen = true → s.pumping = true → s.waiting + s.emitting = 1
  stopped : s.ended = true → s.waiting + s.emitting = 0
  direct : 0 < s.emitting → s.buffer = []
  reading : s.isOpen = true → s.reading = true → s.pumping = true

/-- A pump runs. -/
structure Running (events : Selected P D) (s : MessageStream P D) : Prop extends Kept events s where
  pumping : s.pumping = true
  waiting : s.waiting = 0
  emitting : s.emitting = 0
  open_end : s.ended = false

theorem isOpen_iff : s.isOpen = true ↔ s.destroyed = none ∧ s.ended = false := by
  simp [isOpen]

/-! ## The pump stops -/

/-- The pump is over, and leaves `pumping` set. -/
theorem Running.stopped (h : Running events s) (hopen : s.isOpen = false) : Inv events s where
  toKept := h.toKept
  pumps := by rw [h.waiting, h.emitting]; exact Nat.zero_le 1
  pumping _ := h.pumping
  active ho := by rw [hopen] at ho; cases ho
  stopped _ := by rw [h.waiting, h.emitting]
  direct he := by rw [h.emitting] at he; cases he
  reading _ _ := h.pumping

theorem Running.loop (h : Running events s) : Inv events s.loop := by
  unfold MessageStream.loop
  split
  · exact { h with
      pumps := by simp [h.waiting, h.emitting]
      pumping := fun _ => h.pumping
      active := fun _ _ => by simp [h.waiting, h.emitting]
      stopped := fun he => by
        have hend := h.open_end
        rw [show s.ended = true from he] at hend
        cases hend
      direct := fun he => by
        rw [show s.emitting = 0 from h.emitting] at he
        cases he
      reading := fun _ _ => h.pumping }
  · next hdestroyed =>
    refine h.stopped ?_
    cases hopen : s.isOpen with
    | false => rfl
    | true => exact absurd (isOpen_iff.mp hopen).1 hdestroyed

/-- The pump pauses: the push it has made is the last one that Node awaits. -/
theorem Running.pause (h : Running events s) (hreading : s.reading = false) :
    Inv events { s with pumping := false } := { h with
  pumps := by simp [h.waiting, h.emitting]
  pumping hpos := by simp [h.waiting, h.emitting] at hpos
  active _ hp := by cases hp
  stopped _ := by simp [h.waiting, h.emitting]
  direct he := by simp [h.emitting] at he
  reading _ hr := by simp [hreading] at hr }

/-- The pump is inside a push that has called the consumer. -/
theorem Running.emit (h : Running events s) (hbuffer : s.buffer = []) :
    Inv events { s with emitting := s.emitting + 1 } := { h with
  pumps := by simp [h.waiting, h.emitting]
  pumping _ := h.pumping
  active _ _ := by simp [h.waiting, h.emitting]
  stopped he := by
    have hend := h.open_end
    rw [show s.ended = true from he] at hend
    cases hend
  direct _ := hbuffer
  reading _ _ := h.pumping }

/-! ## What a pump receives -/

/-- A result that neither is delivered nor ends the stream. -/
theorem Running.skip (h : Running events s) {r : NextResult P}
    (hdecoded : r.decoded events = none) (hends : r.ends = false)
    (hthrows : ∀ error, r ≠ .throws error) :
    Running events { s with received := s.received ++ [r] } := { h with
  delivered := by
    rw [List.filterMap_append, h.delivered]
    simp [hdecoded]
  ended := by
    rw [show s.ended = true ↔ _ from h.ended]
    simp [hends, or_and_right, exists_or]
  failed error hmem hnot := by
    rcases List.mem_append.mp hmem with hmem | hmem
    · exact h.failed error hmem hnot
    · exact absurd (List.mem_singleton.mp hmem).symm (hthrows error) }

/-- A pushed event, wherever it stands after the push. -/
theorem Running.add (h : Running events s) {r : NextResult P} {event : Message D}
    (hdecoded : r.decoded events = some event) (delivered buffer : List (Message D))
    (hadd : delivered ++ buffer = s.delivered ++ s.buffer ++ [event]) :
    Running events { s with
      received := s.received ++ [r]
      reading := false
      pushed := s.pushed ++ [some event]
      delivered, buffer } := { h with
  delivered := by
    rw [hadd, h.delivered, List.filterMap_append]
    simp [hdecoded]
  pushed := by
    have hend := h.open_end
    rw [hadd, h.pushed, hend]
    simp
  ended := by
    cases r with
    | message m =>
      rw [show s.ended = true ↔ _ from h.ended]
      simp [NextResult.ends, or_and_right, exists_or]
    | done => cases hdecoded
    | throws error => cases hdecoded
  failed error hmem hnot := by
    rcases List.mem_append.mp hmem with hmem | hmem
    · exact h.failed error hmem hnot
    · rw [← List.mem_singleton.mp hmem] at hdecoded
      cases hdecoded }

theorem Running.push (h : Running events s) (hopen : s.destroyed = none) {r : NextResult P}
    {event : Message D} (hdecoded : r.decoded events = some event) (direct : Bool) :
    Inv events (push mark { s with received := s.received ++ [r] } event direct) := by
  have hisOpen : s.isOpen = true := isOpen_iff.mpr ⟨hopen, h.open_end⟩
  unfold MessageStream.push
  dsimp only
  split
  · split
    · next hdirect =>
      have hbuffer : s.buffer = [] := by
        simp only [Bool.and_eq_true, List.isEmpty_iff] at hdirect
        exact hdirect.2
      have hadd := h.add hdecoded (s.delivered ++ [event]) s.buffer
        (by rw [hbuffer]; simp)
      exact hadd.emit hbuffer
    · have hadd := h.add hdecoded s.delivered (s.buffer ++ [event])
        (List.append_assoc _ _ _).symm
      split
      · exact hadd.loop
      · exact hadd.pause rfl
  · next hclosed => exact absurd hisOpen hclosed

theorem Running.receive (h : Running events s) (hopen : s.destroyed = none) (m : Message P)
    (direct : Bool) :
    Inv events
      (receive mark events { s with received := s.received ++ [.message m] } m direct) := by
  unfold MessageStream.receive
  split
  · next hnone =>
    refine (h.skip ?_ rfl fun _ heq => by cases heq).loop
    simp [NextResult.decoded, hnone]
  · next decode hsome =>
    split
    · next hnone =>
      refine (h.skip ?_ rfl fun _ heq => by cases heq).loop
      simp [NextResult.decoded, hsome, hnone]
    · next payload hpayload =>
      refine h.push hopen ?_ direct
      simp [NextResult.decoded, hsome, hpayload]

theorem Running.pushNull (h : Running events s) (hopen : s.destroyed = none) {r : NextResult P}
    (hends : r.ends = true) :
    Inv events (pushNull { s with received := s.received ++ [r] }) := by
  have hdecoded : r.decoded events = none := by
    cases r with
    | message m => cases hends
    | done => rfl
    | throws error => rfl
  unfold MessageStream.pushNull
  rw [if_pos hopen]
  exact {
    delivered := by
      rw [List.filterMap_append, h.delivered]
      simp [hdecoded]
    pushed := by
      have hend := h.open_end
      rw [h.pushed, hend]
      simp
    ended := iff_of_true rfl ⟨r, List.mem_append_right _ (.head _), hends⟩
    failed := fun error hmem hnot => by
      rcases List.mem_append.mp hmem with hmem | hmem
      · exact h.failed error hmem hnot
      · rw [← List.mem_singleton.mp hmem] at hends
        rw [show error.isAbortError = true from hends] at hnot
        cases hnot
    pumps := by simp [h.waiting, h.emitting]
    pumping := fun _ => h.pumping
    active := fun ho => by simp [isOpen] at ho
    stopped := fun _ => by simp [h.waiting, h.emitting]
    direct := fun he => by simp [h.emitting] at he
    reading := fun _ hr => by cases hr }

theorem Running.fail (h : Running events s) (hopen : s.destroyed = none) {error : Thrown}
    (hnot : error.isAbortError = false) :
    Inv events (destroy { s with received := s.received ++ [.throws error] }
      (some error.asError)) := by
  unfold MessageStream.destroy
  rw [if_pos hopen]
  exact {
    delivered := by
      rw [List.filterMap_append, h.delivered]
      simp [NextResult.decoded]
    pushed := h.pushed
    ended := by
      rw [show s.ended = true ↔ _ from h.ended]
      simp [NextResult.ends, hnot, or_and_right, exists_or]
    failed := fun error' hmem hnot' => by
      rcases List.mem_append.mp hmem with hmem | hmem
      · have hold := h.failed error' hmem hnot'
        rw [hopen] at hold
        cases hold
      · cases List.mem_singleton.mp hmem
        rfl
    pumps := by simp [h.waiting, h.emitting]
    pumping := fun _ => h.pumping
    active := fun ho => by simp [isOpen] at ho
    stopped := fun _ => by simp [h.waiting, h.emitting]
    direct := fun he => by simp [h.emitting] at he
    reading := fun ho => by simp [isOpen] at ho }

/-- The pump goes on, and the result counts unless the stream has been destroyed. -/
theorem Running.onNext (h : Running events s) (r : NextResult P) (direct : Bool) :
    Inv events (onNext mark events
      (if s.destroyed = none then { s with received := s.received ++ [r] } else s) direct r) := by
  by_cases hopen : s.destroyed = none
  · rw [if_pos hopen]
    cases r with
    | message m =>
      rw [MessageStream.onNext, if_pos hopen]
      exact h.receive hopen m direct
    | done => exact h.pushNull hopen rfl
    | throws error =>
      rw [MessageStream.onNext]
      split
      · next habort => exact h.pushNull hopen habort
      · next hnot => exact h.fail hopen (eq_false_of_ne_true hnot)
  · have hover := h.stopped (eq_false_of_ne_true fun ho => hopen (isOpen_iff.mp ho).1)
    rw [if_neg hopen]
    cases r with
    | message m =>
      rw [MessageStream.onNext, if_neg hopen]
      exact hover
    | done =>
      rw [MessageStream.onNext, MessageStream.pushNull, if_neg hopen]
      exact hover
    | throws error =>
      rw [MessageStream.onNext, MessageStream.pushNull, MessageStream.destroy, if_neg hopen,
        if_neg hopen]
      split <;> exact hover

/-! ## Runs -/

theorem inv_init : Inv events ({} : MessageStream P D) where
  delivered := rfl
  pushed := rfl
  ended := by simp
  failed error h := absurd h List.not_mem_nil
  pumps := Nat.zero_le 1
  pumping h := absurd h (Nat.lt_irrefl 0)
  active _ h := by cases h
  stopped h := by cases h
  direct h := absurd h (Nat.lt_irrefl 0)
  reading _ h := by cases h

theorem inv_read (h : Inv events s) : Inv events (step mark events s .read) := by
  rw [step]
  split
  · next hguard =>
    have hopen : s.isOpen = true := (Bool.and_eq_true_iff.mp hguard).1
    dsimp only
    split
    · next hpumping =>
      exact { h with
        reading := fun _ _ => hpumping }
    · next hnot =>
      have hnone : s.waiting + s.emitting = 0 :=
        Nat.eq_zero_of_not_pos fun hpos => hnot (h.pumping hpos)
      have hrunning : Running events { s with reading := true, pumping := true } := { h with
        pumping := rfl
        waiting := Nat.eq_zero_of_add_eq_zero_right hnone
        emitting := Nat.eq_zero_of_add_eq_zero_left hnone
        open_end := (isOpen_iff.mp hopen).2 }
      exact hrunning.loop
  · exact h

theorem inv_step (h : Inv events s) (e : MessageStreamEvent P) :
    Inv events (step mark events s e) := by
  cases e with
  | read => exact inv_read h
  | next r direct =>
    rw [step]
    split
    · next hpos =>
      have hone := h.pumps
      have hrunning : Running events { s with waiting := s.waiting - 1 } := { h with
        pumping := h.pumping (by omega)
        waiting := by show s.waiting - 1 = 0; omega
        emitting := by show s.emitting = 0; omega
        open_end := by
          cases hend : s.ended with
          | false => rfl
          | true => have := h.stopped hend; omega }
      exact hrunning.onNext r direct
    · exact h
  | emitted =>
    rw [step]
    split
    · next hpos =>
      have hone := h.pumps
      have hend : s.ended = false := by
        cases hend : s.ended with
        | false => rfl
        | true => have := h.stopped hend; omega
      have hrunning : Running events { s with emitting := s.emitting - 1 } := { h with
        pumping := h.pumping (by omega)
        waiting := by show s.waiting = 0; omega
        emitting := by show s.emitting - 1 = 0; omega
        open_end := hend }
      dsimp only
      rw [if_pos (by simp [hend, h.direct hpos])]
      exact hrunning.loop
    · exact h
  | take =>
    rw [step]
    split
    · exact h
    · next event rest hbuffer =>
      have happend : s.delivered ++ [event] ++ rest = s.delivered ++ s.buffer := by
        rw [hbuffer, List.append_assoc]
        rfl
      exact { h with
        delivered := happend.trans h.delivered
        pushed := by rw [happend]; exact h.pushed
        direct := fun he => by
          rw [h.direct he] at hbuffer
          cases hbuffer }
  | destroy error =>
    rw [step, MessageStream.destroy]
    split
    · next hopen =>
      exact { h with
        failed := fun error hmem hnot => by
          have hold := h.failed error hmem hnot
          rw [hopen] at hold
          cases hold
        active := fun ho => by simp [isOpen] at ho
        reading := fun ho => by simp [isOpen] at ho }
    · exact h

theorem inv_run (mark : Nat) (events : Selected P D) (l : List (MessageStreamEvent P)) :
    Inv events (run (step mark events) {} l) :=
  run_inv (step mark events) (P := fun _ => True) (I := Inv events) (fun _ e _ h => inv_step h e)
    (fun _ _ => trivial) inv_init

/-! ## What the stream keeps to -/

/-- The decoded messages of the selected events received before the stream was destroyed are
delivered or buffered, in order; `null` is pushed once, after them, if the iterator is done or
aborted; one `next` is pending at most; any other error is the one the stream is destroyed with;
and a pump that has paused goes back to the iterator when Node reads again. -/
structure Delivers (mark : Nat) (events : Selected P D) (s : MessageStream P D) : Prop where
  delivered : s.delivered ++ s.buffer = s.received.filterMap (NextResult.decoded events)
  pushed : s.pushed = (s.received.filterMap (NextResult.decoded events)).map some ++
    if s.received.any NextResult.ends then [none] else []
  next_alone : s.waiting ≤ 1
  failed : ∀ error, .throws error ∈ s.received → error.isAbortError = false →
    s.destroyed = some (some error.asError)
  /-- Node never awaits a push of a pump that has paused. -/
  pumps : s.isOpen = true → s.reading = true → s.waiting + s.emitting = 1
  resumes : s.isOpen = true → s.pumping = false →
    s.reading = false ∧ (step mark events s .read).waiting = s.waiting + 1

theorem Inv.delivers (h : Inv events s) : Delivers mark events s where
  delivered := h.delivered
  pushed := by
    have hends : s.ended = s.received.any NextResult.ends := by
      rw [Bool.eq_iff_iff, h.ended, List.any_eq_true]
    rw [h.pushed, h.delivered, hends]
  next_alone := Nat.le_trans (Nat.le_add_right _ _) h.pumps
  failed := h.failed
  pumps ho hr := h.active ho (h.reading ho hr)
  resumes ho hp := by
    have hreading : s.reading = false := by
      cases hr : s.reading with
      | false => rfl
      | true => rw [h.reading ho hr] at hp; cases hp
    refine ⟨hreading, ?_⟩
    rw [step, if_pos (by simp [ho, hreading])]
    dsimp only
    rw [if_neg (by simp [hp]), loop, if_pos (isOpen_iff.mp ho).1]

/-- Whatever the iterator gives, and however reads, pushes and `destroy` interleave. -/
theorem delivers_run (mark : Nat) (events : Selected P D) (l : List (MessageStreamEvent P)) :
    Delivers mark events (run (step mark events) {} l) :=
  (inv_run mark events l).delivers

end MessageStream

end Neemata.PubSub
