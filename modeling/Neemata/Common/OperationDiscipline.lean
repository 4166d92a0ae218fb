import Neemata.Common.OperationOrder

/-!
# The discipline of the operation queue

In every run of the queue its tasks are called one at a time and in order, an operation is
superseded exactly when `run` is called while it waits, and whatever is submitted has settled after
a bounded number of ticks. `pending` counts what has not settled; with the serial strategy also an
operation that has settled until its `finally` has come. A call of `waitIdle` is resumed when
`pending` is 0.
-/

namespace Neemata.Common

namespace OperationQueueEvent

variable {ε ρ : Type}

end OperationQueueEvent

/-- How many ticks a stage lasts. -/
def OperationStage.work : OperationStage → Nat
  | .rest => 0
  | .finished => 1
  | .caught => 2
  | .settled => 3
  | .running _ => 4

namespace OperationQueue

variable {ε ρ : Type} {q : OperationQueue ε ρ}

/-- How many ticks there can be before nothing is left to do. -/
def work (q : OperationQueue ε ρ) : Nat :=
  5 * (q.tail.length + q.latestOperation.toList.length) + q.stage.work

structure Disciplined (q : OperationQueue ε ρ) : Prop where
  one : ∀ i j : Nat, q.operations[i]? = some .running → q.operations[j]? = some .running → i = j
  ordered : q.started.Pairwise (· < ·)
  called : ∀ i, i ∈ q.started ↔ ∃ s, q.operations[i]? = some s ∧ s.called = true
  serial : q.strategy = .serial → ∀ i j, i < j → j ∈ q.started → i ∈ q.started
  /-- The last operation is not superseded. -/
  replaced : ∀ i, q.operations[i]? = some .superseded → i + 1 < q.operations.length
  pending : q.pending = (q.operations.countP OperationStatus.unsettled + q.stage.lingering : Nat)
  lingering : q.strategy = .latest → q.stage.lingering = 0
  idle : q.idleWaiters ≠ [] → 0 < q.pending
  releases : ∀ n ∈ q.releases, n = 0

/-- Every operation has settled, the last one has been run, and nobody waits. -/
structure Drained (q : OperationQueue ε ρ) : Prop where
  settled : ∀ s ∈ q.operations, s.unsettled = false
  last : ∀ i, i + 1 = q.operations.length → i ∈ q.started
  pending : q.pending = 0
  idle : q.idleWaiters = []

/-! ## What a step does to an operation -/

/-- What a call of `run` does to the operations. -/
inductive Runs (q after : OperationQueue ε ρ) : Prop
  | queued (hnone : q.strategy = .latest → ∀ i : Nat, q.operations[i]? ≠ some .waiting)
      (h : after.operations = q.submit.operations)
  | superseded (previous : Nat) (hlatest : q.strategy = .latest)
      (hid : ∀ i, q.operations[i]? = some .waiting ↔ i = previous)
      (h : after.operations = q.submit.operations.set previous .superseded)
  | called (hnone : ∀ i : Nat, q.operations[i]? ≠ some .waiting)
      (h : after.operations = q.submit.operations.set q.operations.length .running)

namespace Sound

theorem runs (h : Sound q) : Runs q q.run := by
  cases hstrategy : q.strategy with
  | serial =>
    refine .queued (fun heq => by cases hstrategy.symm.trans heq) ?_
    simp only [OperationQueue.run, hstrategy]
    rfl
  | latest =>
    obtain ⟨htail, hrunning, hslot, -⟩ := h.latest hstrategy
    have hrun : q.run = q.runLatest := by
      simp only [OperationQueue.run, hstrategy]
    have hwaiting := h.queued.waiting_iff
    rw [htail, List.nil_append] at hwaiting
    rw [hrun]
    cases hlatest : q.latestOperation with
    | none =>
      have hnone : ∀ i : Nat, q.operations[i]? ≠ some .waiting := by
        intro i hi
        rw [hwaiting, hlatest] at hi
        cases hi
      by_cases hbusy : q.runningLatest = true
      · refine .queued (fun _ => hnone) ?_
        simp only [OperationQueue.runLatest, if_pos hbusy, hlatest]
      · refine .called hnone ?_
        simp only [OperationQueue.runLatest, if_neg hbusy]
        rfl
    | some previous =>
      have hbusy : q.runningLatest = true :=
        hrunning.mpr (hslot (hlatest ▸ Option.some_ne_none previous))
      refine .superseded previous hstrategy (fun i => ?_) ?_
      · rw [hwaiting, hlatest, Option.toList_some, List.mem_singleton]
      · simp only [OperationQueue.runLatest, if_pos hbusy, hlatest]
        exact finishOperation_operations _

/-- A running task settles with what comes next. -/
theorem settles (h : Sound q) (outcome : Except ε ρ) {i : Nat}
    (hi : q.operations[i]? = some .running) :
    (q.step (.tick outcome)).operations[i]? = some (.settled outcome) := by
  have hstage := (h.queued.running_iff i).mp hi
  simp only [OperationQueue.step, OperationQueue.tick, hstage, settle_operations]
  exact (getElem?_set_cases hi).mpr (.inl ⟨rfl, rfl⟩)

theorem disciplined (h : Sound q) : Disciplined q where
  one i j hi hj := by
    rw [h.queued.running_iff] at hi hj
    exact OperationStage.running.inj (hi.symm.trans hj)
  ordered := (List.pairwise_append.mp h.queued.ordered).1
  called := h.queued.started_iff
  serial := by
    intro hserial i j hij hj
    have hlength := Nat.lt_trans hij (h.queued.started_lt_length hj)
    have hi := List.getElem?_eq_getElem hlength
    cases hs : q.operations[i] with
    | running | settled outcome => exact (h.queued.started_iff i).mpr ⟨_, hs ▸ hi, rfl⟩
    | superseded => exact absurd (hs ▸ hi) ((h.serial hserial).2 i)
    | waiting =>
      have hwaiting := (h.queued.waiting_iff i).mp (hs ▸ hi)
      have := (List.pairwise_append.mp h.queued.ordered).2.2 j hj i hwaiting
      omega
  replaced := h.queued.replaced
  pending := h.queued.counted
  lingering hlatest := (h.latest hlatest).2.2.2
  idle := h.queued.idle
  releases := h.queued.releases

/-! ## The queue runs dry -/

theorem latestOperation_of_rest (h : Sound q) (hrest : q.stage = .rest) :
    q.latestOperation = none := by
  cases hstrategy : q.strategy with
  | serial => exact (h.serial hstrategy).1
  | latest => exact Decidable.not_not.mp fun hne => (h.latest hstrategy).2.2.1 hne hrest

theorem work_tick (h : Sound q) (outcome : Except ε ρ) :
    (q.tick outcome).work ≤ q.work - 1 := by
  cases hstage : q.stage with
  | rest =>
    have hlatest := h.latestOperation_of_rest hstage
    cases htail : q.tail with
    | nil =>
      simp only [OperationQueue.tick, hstage, htail, work, hlatest, OperationStage.work]
      exact Nat.le_refl _
    | cons id tail =>
      simp only [OperationQueue.tick, OperationQueue.call, hstage, htail, work, OperationStage.work,
        List.length_cons]
      omega
  | running id =>
    have hsettled : (q.settle id outcome).stage.work ≤ 3 := by
      rw [settle_stage]
      split <;> decide
    have hrunning : (OperationStage.running id).work = 4 := rfl
    simp only [OperationQueue.tick, hstage, work, settle_tail, settle_latestOperation]
    omega
  | settled =>
    simp only [OperationQueue.tick, hstage, work, OperationStage.work]
    omega
  | caught =>
    simp only [OperationQueue.tick, hstage, work, finishOperation_tail,
      finishOperation_latestOperation, OperationStage.work]
    omega
  | finished =>
    have htick : q.tick outcome = q.next := by
      simp only [OperationQueue.tick, hstage]
    rw [htick]
    cases hstrategy : q.strategy with
    | serial =>
      rw [next_serial hstrategy]
      simp only [work, hstage, OperationStage.work]
      omega
    | latest =>
      cases hlatest : q.latestOperation with
      | none =>
        rw [next_none hstrategy hlatest]
        simp only [work, hstage, OperationStage.work]
        omega
      | some current =>
        rw [next_some hstrategy hlatest]
        simp only [OperationQueue.call, work, hstage, hlatest, OperationStage.work,
          Option.toList_some, Option.toList_none, List.length_cons, List.length_nil]
        omega

theorem drained (h : Sound q) (hwork : q.work = 0) : Drained q := by
  have htail : q.tail = [] := List.length_eq_zero_iff.mp (by simp only [work] at hwork; omega)
  have hlatest : q.latestOperation.toList = [] :=
    List.length_eq_zero_iff.mp (by simp only [work] at hwork; omega)
  have hrest : q.stage = .rest := by
    cases hstage : q.stage <;> simp [work, hstage, OperationStage.work] at hwork ⊢
  have hwaiting := h.queued.waiting_iff
  rw [htail, hlatest, List.nil_append] at hwaiting
  have hsettled : ∀ s ∈ q.operations, s.unsettled = false := by
    intro s hs
    obtain ⟨i, hi⟩ := List.mem_iff_getElem?.mp hs
    cases s with
    | waiting => cases (hwaiting i).mp hi
    | running => cases hrest.symm.trans ((h.queued.running_iff i).mp hi)
    | settled outcome | superseded => rfl
  have hcount : q.count = 0 := by
    have hnone : q.operations.countP OperationStatus.unsettled = 0 :=
      List.countP_eq_zero.mpr fun s hs => Bool.eq_false_iff.mp (hsettled s hs)
    rw [h.queued.counted, hnone, hrest]
    rfl
  refine ⟨hsettled, fun i hi => ?_, hcount, Decidable.not_not.mp fun hne => ?_⟩
  · have hget := List.getElem?_eq_getElem (by omega : i < q.operations.length)
    have hunsettled := hsettled _ (List.getElem_mem (by omega : i < q.operations.length))
    cases hs : q.operations[i] with
    | waiting | running =>
      rw [hs] at hunsettled
      cases hunsettled
    | settled outcome => exact (h.queued.started_iff i).mpr ⟨_, hs ▸ hget, rfl⟩
    | superseded =>
      have := h.queued.replaced i (hs ▸ hget)
      omega
  · have := h.queued.idle hne
    omega

theorem drain (h : Sound q) {outcomes : List (Except ε ρ)} (hlength : q.work ≤ outcomes.length) :
    Drained (Trace.run OperationQueue.step q (outcomes.map .tick)) := by
  induction outcomes generalizing q with
  | nil => exact h.drained (Nat.le_zero.mp hlength)
  | cons outcome outcomes ih =>
    have hwork : (q.step (.tick outcome)).work ≤ q.work - 1 := h.work_tick outcome
    refine ih (h.tick outcome) ?_
    simp only [List.length_cons] at hlength
    omega

end Sound

/-! ## What a run submits -/

/-- The calls of `waitIdle` that wait, that have been resumed, and whose promise has resolved. -/
def placed (q : OperationQueue ε ρ) : Nat :=
  q.idleWaiters.length + q.released.length + q.resolves.length

end OperationQueue

end Neemata.Common
