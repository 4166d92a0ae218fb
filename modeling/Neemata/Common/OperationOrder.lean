import Neemata.Common.OperationQueue
import Neemata.Lib.Entries
import Mathlib.Data.List.Basic

/-!
# What the operation queue does with its operations

`Queued` accounts for the operations of a queue: which are waiting, which one runs, in which order
the tasks have been called, and what `pending` counts. With the facts of its strategy (`Sound`) it
holds in every state of every run, and `work` bounds the ticks after which nothing is left to do.
-/

namespace Neemata.Common

namespace OperationStatus

variable {ε ρ : Type}

/-- The promise is not settled. -/
def unsettled : OperationStatus ε ρ → Bool
  | .waiting | .running => true
  | .settled _ | .superseded => false

/-- The task has been called. -/
def called : OperationStatus ε ρ → Bool
  | .running | .settled _ => true
  | .waiting | .superseded => false

end OperationStatus

/-- How many operations still count whose result has settled. -/
def OperationStage.lingering : OperationStage → Nat
  | .settled | .caught => 1
  | .rest | .running _ | .finished => 0

namespace OperationQueue

variable {ε ρ : Type} {q : OperationQueue ε ρ} {waiting : List Nat}
  {id : Nat}

/-! ## The end of an operation -/

section finishOperation

variable (q)

@[simp] theorem finishOperation_count : q.finishOperation.count = q.count - 1 := by
  simp only [finishOperation]
  split <;> rfl

@[simp] theorem finishOperation_operations : q.finishOperation.operations = q.operations := by
  simp only [finishOperation]
  split <;> rfl

@[simp] theorem finishOperation_started : q.finishOperation.started = q.started := by
  simp only [finishOperation]
  split <;> rfl

@[simp] theorem finishOperation_stage : q.finishOperation.stage = q.stage := by
  simp only [finishOperation]
  split <;> rfl

@[simp] theorem finishOperation_strategy : q.finishOperation.strategy = q.strategy := by
  simp only [finishOperation]
  split <;> rfl

@[simp] theorem finishOperation_tail : q.finishOperation.tail = q.tail := by
  simp only [finishOperation]
  split <;> rfl

@[simp] theorem finishOperation_latestOperation :
    q.finishOperation.latestOperation = q.latestOperation := by
  simp only [finishOperation]
  split <;> rfl

@[simp] theorem finishOperation_runningLatest :
    q.finishOperation.runningLatest = q.runningLatest := by
  simp only [finishOperation]
  split <;> rfl

theorem finishOperation_idle (h : q.finishOperation.idleWaiters ≠ []) :
    0 < q.finishOperation.count := by
  simp only [finishOperation] at h ⊢
  split at h
  · next hpos =>
    rw [if_pos hpos]
    exact hpos
  · exact absurd rfl h

theorem finishOperation_releases (hcount : 0 < q.count) (h : ∀ n ∈ q.releases, n = 0) :
    ∀ n ∈ q.finishOperation.releases, n = 0 := by
  intro n hn
  simp only [finishOperation] at hn
  split at hn
  · exact h n hn
  · next hpos =>
    rcases List.mem_append.mp hn with hn | hn
    · obtain ⟨-, -, rfl⟩ := List.mem_map.mp hn
      omega
    · exact h n hn

end finishOperation

section settle

variable (q) (id : Nat) (outcome : Except ε ρ)

@[simp] theorem settle_operations :
    (q.settle id outcome).operations = q.operations.set id (.settled outcome) := by
  simp only [settle]
  split
  · rfl
  · simp only [finishOperation_operations]

@[simp] theorem settle_started : (q.settle id outcome).started = q.started := by
  simp only [settle]
  split
  · rfl
  · simp only [finishOperation_started]

@[simp] theorem settle_strategy : (q.settle id outcome).strategy = q.strategy := by
  simp only [settle]
  split
  · rfl
  · simp only [finishOperation_strategy]

@[simp] theorem settle_tail : (q.settle id outcome).tail = q.tail := by
  simp only [settle]
  split
  · rfl
  · simp only [finishOperation_tail]

@[simp] theorem settle_latestOperation :
    (q.settle id outcome).latestOperation = q.latestOperation := by
  simp only [settle]
  split
  · rfl
  · simp only [finishOperation_latestOperation]

@[simp] theorem settle_runningLatest :
    (q.settle id outcome).runningLatest = q.runningLatest := by
  simp only [settle]
  split
  · rfl
  · simp only [finishOperation_runningLatest]

theorem settle_stage : (q.settle id outcome).stage = match q.strategy with
    | .serial => .settled
    | .latest => .finished := by
  cases hq : q.strategy <;> simp only [settle, hq]

end settle

theorem next_serial (h : q.strategy = .serial) : q.next = { q with stage := .rest } := by
  rw [next, h]

theorem next_none (h : q.strategy = .latest) (hnone : q.latestOperation = none) :
    q.next = { q with stage := .rest, runningLatest := false } := by
  rw [next, h, hnone]

theorem next_some (h : q.strategy = .latest) (hsome : q.latestOperation = some id) :
    q.next = { q with latestOperation := none }.call id := by
  rw [next, h, hsome]

/-! ## The accounts -/

/-- The operations `waiting` wait, in this order. -/
structure Queued (q : OperationQueue ε ρ) (waiting : List Nat) : Prop where
  waiting_iff : ∀ i, q.operations[i]? = some .waiting ↔ i ∈ waiting
  running_iff : ∀ i, q.operations[i]? = some .running ↔ q.stage = .running i
  started_iff : ∀ i, i ∈ q.started ↔ ∃ s, q.operations[i]? = some s ∧ s.called = true
  ordered : (q.started ++ waiting).Pairwise (· < ·)
  replaced : ∀ i, q.operations[i]? = some .superseded → i + 1 < q.operations.length
  counted : q.count = (q.operations.countP OperationStatus.unsettled + q.stage.lingering : Nat)
  idle : q.idleWaiters ≠ [] → 0 < q.count
  releases : ∀ n ∈ q.releases, n = 0

namespace Queued

theorem lt_length (h : Queued q waiting) {i : Nat} (hi : i ∈ waiting) : i < q.operations.length :=
  (List.getElem?_eq_some_iff.mp ((h.waiting_iff i).mpr hi)).1

theorem started_lt_length (h : Queued q waiting) {i : Nat} (hi : i ∈ q.started) :
    i < q.operations.length := by
  obtain ⟨s, hs, -⟩ := (h.started_iff i).mp hi
  exact (List.getElem?_eq_some_iff.mp hs).1

theorem getElem?_submit (i : Nat) (s : OperationStatus ε ρ) : q.submit.operations[i]? = some s ↔
    q.operations[i]? = some s ∨ i = q.operations.length ∧ s = .waiting := by
  simp only [OperationQueue.submit, List.getElem?_append]
  split
  · next hi =>
    exact ⟨.inl, fun h => h.resolve_right fun h => absurd h.1 (Nat.ne_of_lt hi)⟩
  · next hi =>
    rw [List.getElem?_singleton, List.getElem?_eq_none (Nat.le_of_not_lt hi)]
    split
    · next heq =>
      have : i = q.operations.length := by omega
      simp [this, eq_comm]
    · next hne =>
      have : i ≠ q.operations.length := by omega
      simp [this]

theorem submit (h : Queued q waiting) :
    Queued q.submit (waiting ++ [q.operations.length]) := by
  refine ⟨fun i => ?_, fun i => ?_, fun i => ?_, ?_, fun i hi => ?_, ?_, ?_, h.releases⟩
  · rw [getElem?_submit, h.waiting_iff, List.mem_append, List.mem_singleton]
    exact or_congr_right (and_iff_left rfl)
  · rw [getElem?_submit, h.running_iff]
    exact or_iff_left fun h => by cases h.2
  · rw [show q.submit.started = q.started from rfl, h.started_iff]
    constructor
    · rintro ⟨s, hs, hcalled⟩
      exact ⟨s, (getElem?_submit i s).mpr (.inl hs), hcalled⟩
    · rintro ⟨s, hs, hcalled⟩
      rcases (getElem?_submit i s).mp hs with hs | ⟨-, rfl⟩
      · exact ⟨s, hs, hcalled⟩
      · cases hcalled
  · rw [show q.submit.started = q.started from rfl, ← List.append_assoc]
    refine List.pairwise_append.mpr ⟨h.ordered, List.pairwise_singleton _ _, ?_⟩
    intro a ha b hb
    rw [List.mem_singleton.mp hb]
    rcases List.mem_append.mp ha with ha | ha
    · exact h.started_lt_length ha
    · exact h.lt_length ha
  · rcases (getElem?_submit i _).mp hi with hi | ⟨-, heq⟩
    · have := h.replaced i hi
      simp only [OperationQueue.submit, List.length_append, List.length_singleton]
      omega
    · cases heq
  · have hcount := h.counted
    have hone : List.countP OperationStatus.unsettled [(.waiting : OperationStatus ε ρ)] = 1 := rfl
    simp only [OperationQueue.submit, List.countP_append, hone]
    omega
  · intro _
    have hcount := h.counted
    have hnext : q.submit.count = q.count + 1 := rfl
    omega

/-- The first of the waiting operations is called. -/
theorem call (h : Queued q (id :: waiting)) (hstage : ∀ i, q.stage ≠ .running i)
    (hlingering : q.stage.lingering = 0) : Queued (q.call id) waiting := by
  have hid := (h.waiting_iff id).mpr List.mem_cons_self
  have hordered : ∀ i ∈ waiting, i ≠ id := fun i hi => Nat.ne_of_gt
    ((List.pairwise_cons.mp (List.pairwise_append.mp h.ordered).2.1).1 i hi)
  refine ⟨fun i => ?_, fun i => ?_, fun i => ?_, ?_, fun i hi => ?_, ?_, h.idle, h.releases⟩
  · rw [OperationQueue.call, getElem?_set_cases hid, h.waiting_iff, List.mem_cons]
    constructor
    · rintro (⟨-, heq⟩ | ⟨hne, rfl | hi⟩)
      · cases heq
      · exact absurd rfl hne
      · exact hi
    · exact fun hi => .inr ⟨(hordered i hi).symm, .inr hi⟩
  · rw [OperationQueue.call, getElem?_set_cases hid, h.running_iff]
    constructor
    · rintro (⟨rfl, -⟩ | ⟨-, hi⟩)
      · rfl
      · exact absurd hi (hstage i)
    · rintro ⟨rfl⟩
      exact .inl ⟨rfl, rfl⟩
  · rw [OperationQueue.call, List.mem_append, List.mem_singleton, h.started_iff]
    constructor
    · rintro (⟨s, hs, hcalled⟩ | rfl)
      · refine ⟨s, (getElem?_set_cases hid).mpr (.inr ⟨?_, hs⟩), hcalled⟩
        rintro rfl
        rw [hid] at hs
        cases hs
        cases hcalled
      · exact ⟨.running, (getElem?_set_cases hid).mpr (.inl ⟨rfl, rfl⟩), rfl⟩
    · rintro ⟨s, hs, hcalled⟩
      rcases (getElem?_set_cases hid).mp hs with ⟨rfl, -⟩ | ⟨-, hs⟩
      · exact .inr rfl
      · exact .inl ⟨s, hs, hcalled⟩
  · simpa [OperationQueue.call] using h.ordered
  · rcases (getElem?_set_cases hid).mp hi with ⟨-, heq⟩ | ⟨-, hi⟩
    · cases heq
    · rw [OperationQueue.call, List.length_set]
      exact h.replaced i hi
  · have hset := countP_set OperationStatus.unsettled (b := .running) hid
    have hcount := h.counted
    simp only [OperationStatus.unsettled, if_true] at hset
    simp only [OperationQueue.call, OperationStage.lingering]
    omega

/-- A waiting operation is superseded while another one waits. -/
theorem supersede {previous : Nat} (h : Queued q (previous :: waiting)) (hwaiting : waiting ≠ []) :
    Queued (q.supersede previous) waiting := by
  have hid := (h.waiting_iff previous).mpr List.mem_cons_self
  have hlater := (List.pairwise_cons.mp (List.pairwise_append.mp h.ordered).2.1).1
  have hordered : ∀ i ∈ waiting, i ≠ previous := fun i hi => Nat.ne_of_gt (hlater i hi)
  have hset := countP_set OperationStatus.unsettled (b := .superseded) hid
  have hcount := h.counted
  simp only [OperationStatus.unsettled, if_true, Bool.false_eq_true, if_false] at hset
  have hpos : 0 < q.count := by omega
  obtain ⟨last, hlast⟩ := List.exists_mem_of_ne_nil waiting hwaiting
  refine ⟨fun i => ?_, fun i => ?_, fun i => ?_, ?_, fun i hi => ?_, ?_, ?_, ?_⟩
  · rw [OperationQueue.supersede, finishOperation_operations, getElem?_set_cases hid, h.waiting_iff,
      List.mem_cons]
    constructor
    · rintro (⟨-, heq⟩ | ⟨hne, rfl | hi⟩)
      · cases heq
      · exact absurd rfl hne
      · exact hi
    · exact fun hi => .inr ⟨(hordered i hi).symm, .inr hi⟩
  · rw [OperationQueue.supersede, finishOperation_operations, finishOperation_stage,
      getElem?_set_cases hid, h.running_iff]
    constructor
    · rintro (⟨-, heq⟩ | ⟨-, hi⟩)
      · cases heq
      · exact hi
    · intro hi
      refine .inr ⟨?_, hi⟩
      rintro rfl
      rw [← h.running_iff, hid] at hi
      cases hi
  · rw [OperationQueue.supersede, finishOperation_started, finishOperation_operations,
      h.started_iff]
    refine exists_congr fun s => and_congr_left fun hcalled => ?_
    rw [getElem?_set_cases hid]
    constructor
    · intro hs
      refine .inr ⟨?_, hs⟩
      rintro rfl
      rw [hid] at hs
      cases hs
      cases hcalled
    · rintro (⟨-, rfl⟩ | ⟨-, hs⟩)
      · cases hcalled
      · exact hs
  · rw [OperationQueue.supersede, finishOperation_started]
    exact h.ordered.sublist ((List.sublist_cons_self _ _).append_left _)
  · rw [OperationQueue.supersede, finishOperation_operations] at hi ⊢
    rw [List.length_set]
    rcases (getElem?_set_cases hid).mp hi with ⟨rfl, -⟩ | ⟨-, hi⟩
    · exact Nat.lt_of_le_of_lt (hlater last hlast) (h.lt_length (List.mem_cons_of_mem _ hlast))
    · exact h.replaced i hi
  · rw [OperationQueue.supersede, finishOperation_operations, finishOperation_count,
      finishOperation_stage]
    simp only
    omega
  · exact finishOperation_idle _
  · exact finishOperation_releases _ hpos h.releases

theorem getElem?_running (h : Queued q waiting) (hstage : q.stage = .running id) :
    q.operations[id]? = some .running :=
  (h.running_iff id).mpr hstage

theorem settle (h : Queued q waiting) (hstage : q.stage = .running id) (outcome : Except ε ρ) :
    Queued (q.settle id outcome) waiting := by
  have hid := h.getElem?_running hstage
  have hset := countP_set OperationStatus.unsettled (b := .settled outcome) hid
  have hcount := h.counted
  simp only [OperationStatus.unsettled, if_true, Bool.false_eq_true, if_false] at hset
  rw [hstage, OperationStage.lingering] at hcount
  have hpos : 0 < q.count := by omega
  have hnot : ∀ i, (q.settle id outcome).stage ≠ .running i := by
    intro i heq
    rw [settle_stage] at heq
    split at heq <;> cases heq
  refine ⟨fun i => ?_, fun i => ?_, fun i => ?_, ?_, fun i hi => ?_, ?_, ?_, ?_⟩
  · rw [settle_operations, getElem?_set_cases hid, ← h.waiting_iff]
    constructor
    · rintro (⟨-, heq⟩ | ⟨-, hi⟩)
      · cases heq
      · exact hi
    · intro hi
      refine .inr ⟨?_, hi⟩
      rintro rfl
      rw [hid] at hi
      cases hi
  · refine iff_of_false (fun hi => ?_) (hnot i)
    rw [settle_operations, getElem?_set_cases hid, h.running_iff, hstage] at hi
    rcases hi with ⟨-, heq⟩ | ⟨hne, heq⟩
    · cases heq
    · exact hne (OperationStage.running.inj heq)
  · rw [settle_started, settle_operations, h.started_iff]
    constructor
    · rintro ⟨s, hs, hcalled⟩
      by_cases heq : id = i
      · exact ⟨.settled outcome, (getElem?_set_cases hid).mpr (.inl ⟨heq, rfl⟩), rfl⟩
      · exact ⟨s, (getElem?_set_cases hid).mpr (.inr ⟨heq, hs⟩), hcalled⟩
    · rintro ⟨s, hs, hcalled⟩
      rcases (getElem?_set_cases hid).mp hs with ⟨rfl, -⟩ | ⟨-, hs⟩
      · exact ⟨.running, hid, rfl⟩
      · exact ⟨s, hs, hcalled⟩
  · rw [settle_started]
    exact h.ordered
  · rw [settle_operations] at hi ⊢
    rw [List.length_set]
    rcases (getElem?_set_cases hid).mp hi with ⟨-, heq⟩ | ⟨-, hi⟩
    · cases heq
    · exact h.replaced i hi
  · rw [settle_operations, settle_stage]
    cases hq : q.strategy <;>
    simp only [OperationQueue.settle, hq, finishOperation_count, OperationStage.lingering] <;>
    omega
  · simp only [OperationQueue.settle]
    split
    · exact h.idle
    · exact finishOperation_idle _
  · simp only [OperationQueue.settle]
    split
    · exact h.releases
    · exact finishOperation_releases _ hpos h.releases

theorem frame (h : Queued q waiting) {after : OperationQueue ε ρ}
    (hoperations : after.operations = q.operations) (hstage : after.stage = q.stage)
    (hstarted : after.started = q.started) (hcount : after.count = q.count)
    (hidle : after.idleWaiters = q.idleWaiters) (hreleases : after.releases = q.releases) :
    Queued after waiting := by
  constructor
  all_goals simp only [hoperations, hstage, hstarted, hcount, hidle, hreleases]
  exacts [h.waiting_iff, h.running_iff, h.started_iff, h.ordered, h.replaced, h.counted, h.idle,
    h.releases]

/-- A microtask that calls nothing. -/
theorem hop (h : Queued q waiting) (hstage : ∀ i, q.stage ≠ .running i) {stage : OperationStage}
    (hnext : ∀ i, stage ≠ .running i) (hlingering : stage.lingering = q.stage.lingering) :
    Queued { q with stage } waiting := { h with
  running_iff i := (h.running_iff i).trans (iff_of_false (hstage i) (hnext i))
  counted := by
    rw [hlingering]
    exact h.counted }

theorem finish (h : Queued q waiting) (hstage : q.stage = .caught) :
    Queued { q.finishOperation with stage := .finished } waiting := by
  have hcount := h.counted
  rw [hstage, OperationStage.lingering] at hcount
  have hnot : ∀ i, q.stage ≠ .running i := by
    intro i heq
    rw [hstage] at heq
    cases heq
  refine ⟨?_, fun i => ?_, ?_, ?_, ?_, ?_, finishOperation_idle q,
    finishOperation_releases q (by omega) h.releases⟩
  · rw [finishOperation_operations]
    exact h.waiting_iff
  · rw [finishOperation_operations]
    exact (h.running_iff i).trans (iff_of_false (hnot i) (by intro heq; cases heq))
  · rw [finishOperation_operations, finishOperation_started]
    exact h.started_iff
  · rw [finishOperation_started]
    exact h.ordered
  · rw [finishOperation_operations]
    exact h.replaced
  · rw [finishOperation_operations, finishOperation_count, OperationStage.lingering]
    omega

end Queued

/-! ## Runs -/

/-- The accounts of a queue with what its strategy makes of them. -/
structure Sound (q : OperationQueue ε ρ) : Prop where
  queued : Queued q (q.tail ++ q.latestOperation.toList)
  serial : q.strategy = .serial →
    q.latestOperation = none ∧ ∀ i : Nat, q.operations[i]? ≠ some .superseded
  latest : q.strategy = .latest → q.tail = [] ∧ (q.runningLatest = true ↔ q.stage ≠ .rest) ∧
    (q.latestOperation ≠ none → q.stage ≠ .rest) ∧ q.stage.lingering = 0

namespace Sound

theorem empty (strategy : OperationQueueStrategy) :
    Sound ({ strategy } : OperationQueue ε ρ) where
  queued := by
    refine ⟨?_, ?_, ?_, ?_, ?_, rfl, ?_, ?_⟩ <;> simp
  serial := by simp
  latest := by simp [OperationStage.lingering]

theorem runSerial (h : Sound q) (hserial : q.strategy = .serial) : Sound q.runSerial := by
  obtain ⟨hlatest, hnone⟩ := h.serial hserial
  have hqueued := h.queued.submit
  rw [hlatest, Option.toList_none, List.append_nil] at hqueued
  refine ⟨?_, fun _ => ⟨hlatest, fun i hi => ?_⟩, fun hstrategy => ?_⟩
  · rw [show q.runSerial.latestOperation = none from hlatest, Option.toList_none, List.append_nil]
    exact hqueued.frame rfl rfl rfl rfl rfl rfl
  · rcases (Queued.getElem?_submit i _).mp hi with hi | ⟨-, heq⟩
    · exact hnone i hi
    · cases heq
  · rw [show q.runSerial.strategy = q.strategy from rfl, hserial] at hstrategy
    cases hstrategy

theorem runLatest (h : Sound q) (hstrategy : q.strategy = .latest) : Sound q.runLatest := by
  obtain ⟨htail, hrunning, hslot, hlingering⟩ := h.latest hstrategy
  have hqueued := h.queued.submit
  rw [htail, List.nil_append] at hqueued
  have hother : ¬ q.strategy = .serial := by
    rw [hstrategy]
    intro heq
    cases heq
  by_cases hbusy : q.runningLatest = true
  · have hstage := hrunning.mp hbusy
    cases hlatest : q.latestOperation with
    | none =>
      simp only [OperationQueue.runLatest, if_pos hbusy, hlatest]
      rw [hlatest, Option.toList_none, List.nil_append] at hqueued
      refine ⟨?_, fun h => absurd h hother, fun _ => ⟨htail, hrunning, fun _ => hstage, hlingering⟩⟩
      rw [show q.submit.tail = [] from htail]
      exact hqueued.frame rfl rfl rfl rfl rfl rfl
    | some previous =>
      simp only [OperationQueue.runLatest, if_pos hbusy, hlatest]
      rw [hlatest, Option.toList_some] at hqueued
      have hqueued : Queued (q.submit.supersede previous) [q.operations.length] :=
        Queued.supersede hqueued (List.cons_ne_nil _ _)
      refine ⟨?_, fun h => ?_, fun _ => ⟨?_, ?_, fun _ => ?_, ?_⟩⟩
      · rw [show (q.submit.supersede previous).tail = [] from
          (finishOperation_tail _).trans htail]
        exact hqueued.frame rfl rfl rfl rfl rfl rfl
      · exact absurd ((finishOperation_strategy _).symm.trans h) hother
      · exact (finishOperation_tail _).trans htail
      · rw [show (q.submit.supersede previous).runningLatest = q.runningLatest from
          finishOperation_runningLatest _, show (q.submit.supersede previous).stage = q.stage from
          finishOperation_stage _]
        exact hrunning
      · rw [show (q.submit.supersede previous).stage = q.stage from finishOperation_stage _]
        exact hstage
      · rw [show (q.submit.supersede previous).stage = q.stage from finishOperation_stage _]
        exact hlingering
  · have hrest : q.stage = .rest := Decidable.not_not.mp fun hne => hbusy (hrunning.mpr hne)
    have hlatest : q.latestOperation = none :=
      Decidable.not_not.mp fun hne => hslot hne hrest
    simp only [OperationQueue.runLatest, if_neg hbusy]
    rw [hlatest, Option.toList_none, List.nil_append] at hqueued
    have hcalled : Queued ({ q.submit with runningLatest := true }.call q.operations.length) [] :=
      Queued.call (hqueued.frame rfl rfl rfl rfl rfl rfl)
        (fun i heq => by cases hrest.symm.trans heq) (hrest ▸ rfl)
    refine ⟨?_, fun h => absurd h hother, fun _ => ⟨htail, ?_, ?_, rfl⟩⟩
    · change Queued _ (q.tail ++ q.latestOperation.toList)
      rw [htail, hlatest]
      exact hcalled
    · exact iff_of_true rfl (by intro heq; cases heq)
    · intro _ heq
      cases heq

theorem call_tail (h : Sound q) {tail : List Nat} (hrest : q.stage = .rest)
    (htail : q.tail = id :: tail) : Sound ({ q with tail }.call id) := by
  have hqueued := h.queued
  rw [htail, List.cons_append] at hqueued
  have hid := (hqueued.waiting_iff id).mpr List.mem_cons_self
  refine ⟨?_, fun hserial => ⟨(h.serial hserial).1, fun i hi => ?_⟩, fun hlatest => ?_⟩
  · exact Queued.call (hqueued.frame rfl rfl rfl rfl rfl rfl)
      (fun i heq => by cases hrest.symm.trans heq) (hrest ▸ rfl)
  · rcases (getElem?_set_cases hid).mp hi with ⟨-, heq⟩ | ⟨-, hi⟩
    · cases heq
    · exact (h.serial hserial).2 i hi
  · cases (htail.symm.trans (h.latest hlatest).1)

theorem settle (h : Sound q) (hstage : q.stage = .running id) (outcome : Except ε ρ) :
    Sound (q.settle id outcome) := by
  have hid := h.queued.getElem?_running hstage
  refine ⟨?_, fun hserial => ?_, fun hlatest => ?_⟩
  · rw [settle_tail, settle_latestOperation]
    exact h.queued.settle hstage outcome
  · rw [settle_strategy] at hserial
    obtain ⟨hnone, hsuperseded⟩ := h.serial hserial
    rw [settle_latestOperation, settle_operations]
    refine ⟨hnone, fun i hi => ?_⟩
    rcases (getElem?_set_cases hid).mp hi with ⟨-, heq⟩ | ⟨-, hi⟩
    · cases heq
    · exact hsuperseded i hi
  · rw [settle_strategy] at hlatest
    obtain ⟨htail, hrunning, -, -⟩ := h.latest hlatest
    have hfinished : (q.settle id outcome).stage = .finished := by
      rw [settle_stage, hlatest]
    rw [settle_tail, settle_runningLatest, hfinished]
    refine ⟨htail, iff_of_true (hrunning.mpr fun heq => ?_) ?_, fun _ => ?_, rfl⟩
    · cases hstage.symm.trans heq
    · intro heq
      cases heq
    · intro heq
      cases heq

theorem hop (h : Sound q) (hstage : q.stage = .settled) : Sound { q with stage := .caught } := by
  refine ⟨h.queued.hop (fun i heq => ?_) (fun i heq => ?_) (hstage ▸ rfl), h.serial, fun heq => ?_⟩
  · cases hstage.symm.trans heq
  · cases heq
  · have := (h.latest heq).2.2.2
    rw [hstage] at this
    cases this

theorem finish (h : Sound q) (hstage : q.stage = .caught) :
    Sound { q.finishOperation with stage := .finished } := by
  have hqueued := h.queued.finish hstage
  have hwaiting : q.tail ++ q.latestOperation.toList =
      q.finishOperation.tail ++ q.finishOperation.latestOperation.toList := by
    rw [finishOperation_tail, finishOperation_latestOperation]
  refine ⟨hwaiting ▸ hqueued, fun hserial => ?_, fun hlatest => ?_⟩
  · rw [finishOperation_latestOperation, finishOperation_operations]
    rw [finishOperation_strategy] at hserial
    exact h.serial hserial
  · rw [finishOperation_strategy] at hlatest
    have := (h.latest hlatest).2.2.2
    rw [hstage] at this
    cases this

theorem next (h : Sound q) (hstage : q.stage = .finished) : Sound q.next := by
  have hrest : Queued { q with stage := .rest } (q.tail ++ q.latestOperation.toList) := by
    refine h.queued.hop (fun i heq => ?_) (fun i heq => ?_) (hstage ▸ rfl)
    · cases hstage.symm.trans heq
    · cases heq
  cases hstrategy : q.strategy with
  | serial =>
    rw [next_serial hstrategy]
    exact ⟨hrest, h.serial, fun heq => by cases hstrategy.symm.trans heq⟩
  | latest =>
    obtain ⟨htail, hrunning, hslot, hlingering⟩ := h.latest hstrategy
    have hother : ¬ q.strategy = .serial := by
      rw [hstrategy]
      intro heq
      cases heq
    cases hlatest : q.latestOperation with
    | none =>
      rw [next_none hstrategy hlatest]
      refine ⟨hrest.frame rfl rfl rfl rfl rfl rfl, fun heq => absurd heq hother,
        fun _ => ⟨htail, iff_of_false Bool.false_ne_true (fun hne => hne rfl),
          fun hne => absurd hlatest hne, rfl⟩⟩
    | some current =>
      rw [next_some hstrategy hlatest]
      have hqueued := h.queued
      rw [htail, hlatest, Option.toList_some, List.nil_append] at hqueued
      refine ⟨?_, fun heq => absurd heq hother, fun _ => ⟨htail, ?_, ?_, rfl⟩⟩
      · change Queued _ (q.tail ++ [])
        rw [htail]
        exact Queued.call (hqueued.frame rfl rfl rfl rfl rfl rfl)
          (fun i heq => by cases hstage.symm.trans heq) (hstage ▸ rfl)
      · refine iff_of_true (hrunning.mpr fun heq => ?_) (by intro heq; cases heq)
        cases hstage.symm.trans heq
      · intro _ heq
        cases heq

theorem tick (h : Sound q) (outcome : Except ε ρ) : Sound (q.tick outcome) := by
  cases hstage : q.stage with
  | rest =>
    cases htail : q.tail with
    | nil =>
      simp only [OperationQueue.tick, hstage, htail]
      exact h
    | cons id tail =>
      simp only [OperationQueue.tick, hstage, htail]
      exact h.call_tail hstage htail
  | running id =>
    simp only [OperationQueue.tick, hstage]
    exact h.settle hstage outcome
  | settled =>
    simp only [OperationQueue.tick, hstage]
    exact h.hop hstage
  | caught =>
    simp only [OperationQueue.tick, hstage]
    exact h.finish hstage
  | finished =>
    simp only [OperationQueue.tick, hstage]
    exact h.next hstage

theorem waitIdle (h : Sound q) : Sound q.waitIdle := by
  simp only [OperationQueue.waitIdle]
  split
  · next hbusy =>
    have hpos : 0 < q.count := of_decide_eq_true hbusy
    exact ⟨⟨h.queued.waiting_iff, h.queued.running_iff, h.queued.started_iff, h.queued.ordered,
      h.queued.replaced, h.queued.counted, fun _ => hpos, h.queued.releases⟩, h.serial, h.latest⟩
  · exact ⟨h.queued.frame rfl rfl rfl rfl rfl rfl, h.serial, h.latest⟩

theorem resolveIdle (h : Sound q) (wait : Nat) : Sound (q.resolveIdle wait) := by
  simp only [OperationQueue.resolveIdle]
  split
  · exact ⟨h.queued.frame rfl rfl rfl rfl rfl rfl, h.serial, h.latest⟩
  · exact h

theorem run (h : Sound q) : Sound q.run := by
  cases hstrategy : q.strategy with
  | serial =>
    simp only [OperationQueue.run, hstrategy]
    exact h.runSerial hstrategy
  | latest =>
    simp only [OperationQueue.run, hstrategy]
    exact h.runLatest hstrategy

theorem step (h : Sound q) (event : OperationQueueEvent ε ρ) : Sound (q.step event) := by
  cases event with
  | run => exact h.run
  | waitIdle => exact h.waitIdle
  | tick outcome => exact h.tick outcome
  | resolveIdle wait => exact h.resolveIdle wait

end Sound

end OperationQueue

end Neemata.Common
