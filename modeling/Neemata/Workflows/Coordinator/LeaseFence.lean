import Neemata.Workflows.Coordinator.Pass
import Neemata.Workflows.InMemory.RunLeases
import Neemata.Workflows.JsonText

/-!
# Run-lease fencing

Coordinators call the in-memory store through `createRunLeaseFencedStore`, each call in the steps
of its awaits, between the steps of other coordinators and of everyone else. The fence keeps a
coordinator with a superseded lease from writing exactly when none calls an operation that is
missing from the fence and none loses its lease between the renewal and the operation
(`fenced_iff_inTime`).
-/

namespace Neemata.Workflows

variable {V : Type}

/-! ## Operations and their records -/

/-- The operations that can write a run, node, child or attempt and are not in the list of
`createRunLeaseFencedStore`. -/
def StoreOp.isUnfencedMutation : StoreOp V → Bool
  | .timeoutCurrentAttempt _ _ _ | .deleteRun _ | .pruneTerminalRuns _ => true
  | _ => false

/-- The operations that can write a run, node, child or attempt. -/
def StoreOp.isMutation (op : StoreOp V) : Bool := op.isFenced || op.isUnfencedMutation

namespace Mem

variable [JsRuntime V]

theorem execStore_records (m : Mem V) {op : StoreOp V} (hop : op.isMutation = false) :
    (m.execStore op).2.records = m.records := by
  cases op with
  | loadRunSnapshot | loadRuns | loadNodeChildren => rfl
  | acquireRunLease runId leaseMs => exact (m.acquireRunLease_quiet runId leaseMs).records
  | renewRunLease lease leaseMs => exact (m.renewRunLease_quiet lease leaseMs).records
  | releaseRunLease lease => exact (m.releaseRunLease_quiet lease).records
  | markDeadCommandReaped commandId => exact (m.markDeadCommandReaped_quiet commandId).records
  | requeueDeadCommand commandId => exact (m.requeueDeadCommand_quiet commandId).records
  | _ => cases hop

/-- No operation of the store throws the error of the fence. -/
theorem execStore_ne_stale (m : Mem V) (op : StoreOp V) :
    (m.execStore op).1 ≠ .error .staleRunLease := by
  have hcreate : ∀ input, (m.createRunWithState input).1 ≠ .error .staleRunLease := by
    intro input
    unfold createRunWithState
    repeat' split
    all_goals
      intro h
      cases h
  cases op with
  | createRun input =>
    intro h
    simp only [execStore, createRun] at h
    cases hresult : (m.createRunWithState input).1 with
    | ok created => rw [hresult] at h; cases h
    | error error =>
      rw [hresult] at h
      have hstale : error = .staleRunLease := Except.error.inj h
      exact hcreate input (hresult.trans (congrArg _ hstale))
  | ensureChildRun params =>
    intro h
    simp only [execStore, ensureChildRun] at h
    repeat' split at h
    all_goals try (cases h; done)
    next error _ hresult =>
      have hstale : error = .staleRunLease := Except.error.inj h
      exact hcreate (childRunInput params) (congrArg Prod.fst (hstale ▸ hresult))
  | deleteRun runId =>
    simp only [execStore, deleteRun]
    repeat' split
    all_goals
      intro h
      cases h
  | setNodeInput runId nodeName input =>
    simp only [execStore, setNodeInput]
    repeat' split
    all_goals
      intro h
      cases h
  | selectNodeCase runId nodeName caseKey =>
    simp only [execStore, selectNodeCase]
    repeat' split
    all_goals
      intro h
      cases h
  | ensureNodeChildren runId nodeName children =>
    simp only [execStore, ensureNodeChildren]
    repeat' split
    all_goals
      intro h
      cases h
  | ensureChildAttempt params =>
    simp only [execStore, ensureChildAttempt]
    repeat' split
    all_goals
      intro h
      cases h
  | createAttempt input =>
    simp only [execStore, createAttempt]
    repeat' split
    all_goals
      intro h
      cases h
  | _ =>
    intro h
    cases h

end Mem

/-! ## Coordinators at work -/

/-- A call of the fenced store: the operation and what is left of the call. -/
structure StoreCall (V : Type) where
  op : StoreOp V
  rest : Pass V op.Ret

structure Coordinator (V : Type) where
  lease : RunLease
  leaseMs : Nat
  call : Option (StoreCall V) := none

structure Coordination (V : Type) where
  mem : Mem V
  coordinators : String → Option (Coordinator V)

/-- One step of someone. `call` runs a call up to its first await, `resume` goes on after it,
and `renew` is the interval of `runWithRunLeaseRenewal`. -/
inductive Move (V : Type)
  | acquire (worker runId : String) (leaseMs : Nat)
  | call (worker : String) (op : StoreOp V)
  | resume (worker : String)
  | renew (worker : String)
  | release (worker : String)
  | other (op : Op V)

/-- Calls of the store run no user code. -/
def noUserCode : UserCode V := fun _ => .error (.error "No user code")

def StoreCall.step [JsRuntime V] (call : StoreCall V) (m : Mem V) : Pass V call.op.Ret × Mem V :=
  Program.step (PassOp.exec noUserCode) m call.rest.run

/-- What is left of the call after one await. -/
def StoreCall.left [JsRuntime V] (call : StoreCall V) (m : Mem V) : Option (StoreCall V) :=
  if (call.step m).1.isSettled then none else some ⟨call.op, (call.step m).1⟩

namespace Coordination

def create (maxDeliveries : Option Int) : Coordination V :=
  ⟨createInMemoryWorkflowRuntime maxDeliveries, fun _ => none⟩

/-- The call that a coordinator begins or goes on with. A coordinator makes one call at a time. -/
def performing (s : Coordination V) : Move V → Option (Coordinator V × StoreCall V)
  | .call worker op =>
    ((s.coordinators worker).filter fun coordinator => coordinator.call.isNone).map
      fun coordinator => (coordinator,
        ⟨op, createRunLeaseFencedStore workflowStore coordinator.lease coordinator.leaseMs op⟩)
  | .resume worker =>
    (s.coordinators worker).bind fun coordinator => coordinator.call.map (coordinator, ·)
  | _ => none

variable [JsRuntime V]

/-- The coordinator takes its call one await further. -/
def perform (s : Coordination V) (worker : String) (coordinator : Coordinator V)
    (call : StoreCall V) : Coordination V where
  mem := (call.step s.mem).2
  coordinators := Function.update s.coordinators worker
    (some { coordinator with call := call.left s.mem })

def step (s : Coordination V) (move : Move V) : Coordination V :=
  match move with
  | .acquire worker runId leaseMs =>
    match s.coordinators worker with
    | some _ => s
    | none =>
      let (lease, mem) := s.mem.acquireRunLease runId leaseMs
      { mem, coordinators := Function.update s.coordinators worker
          (lease.map fun lease => { lease, leaseMs }) }
  | .call worker _ | .resume worker =>
    match s.performing move with
    | none => s
    | some (coordinator, call) => s.perform worker coordinator call
  | .renew worker =>
    match s.coordinators worker with
    | none => s
    | some coordinator =>
      { s with mem := (s.mem.renewRunLease coordinator.lease coordinator.leaseMs).2 }
  | .release worker =>
    match s.coordinators worker with
    | none => s
    | some coordinator =>
      { mem := s.mem.releaseRunLease coordinator.lease
        coordinators := Function.update s.coordinators worker none }
  | .other op => { s with mem := s.mem.step op }

end Coordination

/-! ## One step of a call -/

namespace StoreCall

variable [JsRuntime V]

/-- A call past its renewal, or of an operation without one, performs the operation. -/
theorem step_operation (op : StoreOp V) (m : Mem V) :
    (⟨op, workflowStore op⟩ : StoreCall V).step m =
      (Program.pure (m.execStore op).1, (m.execStore op).2) := rfl

variable {op : StoreOp V} {m : Mem V} {lease : RunLease}

/-- A call of a fenced operation begins with the renewal and looks at nothing but its result. -/
theorem step_fenced (hop : op.isFenced) (m : Mem V) (lease : RunLease) (leaseMs : Nat) :
    (⟨op, createRunLeaseFencedStore workflowStore lease leaseMs op⟩ : StoreCall V).step m =
      (((m.renewRunLease lease leaseMs).1.elim (Program.pure (.error .staleRunLease))
        fun _ => workflowStore op), (m.renewRunLease lease leaseMs).2) := by
  simp only [step, createRunLeaseFencedStore, hop, if_true, fence]
  dsimp only [workflowStore, ExceptT.run, ExceptT.mk, bind, ExceptT.bind, Program.bind, Program.step,
    PassOp.exec, Mem.execStore, Mem.returning, ExceptT.bindCont]
  cases (m.renewRunLease lease leaseMs).1 <;> rfl

theorem step_unfenced (hop : op.isFenced = false) (m : Mem V) (lease : RunLease) (leaseMs : Nat) :
    (⟨op, createRunLeaseFencedStore workflowStore lease leaseMs op⟩ : StoreCall V).step m =
      (Program.pure (m.execStore op).1, (m.execStore op).2) := by
  simp only [step, createRunLeaseFencedStore, hop, Bool.false_eq_true, if_false]
  rfl

/-- Without its lease a coordinator gets the error of the fence, and nothing happens. -/
theorem step_stale (hop : op.isFenced) (hlost : ¬ m.holdsRunLease lease) (leaseMs : Nat) :
    (⟨op, createRunLeaseFencedStore workflowStore lease leaseMs op⟩ : StoreCall V).step m =
      (Program.pure (.error .staleRunLease), m) := by
  rw [step_fenced hop, Mem.renewRunLease_of_not_holds hlost]
  rfl

/-- Performing an operation does not look like the error of the fence. -/
theorem operation_ne_stale (op : StoreOp V) (m m' m'' : Mem V) :
    ((Program.pure (m.execStore op).1, m') : Pass V op.Ret × Mem V) ≠
      (Program.pure (.error .staleRunLease), m'') := by
  intro h
  injection h with hrest
  injection hrest with hresult
  exact m.execStore_ne_stale op hresult

theorem left_operation (op : StoreOp V) (m : Mem V) :
    (⟨op, workflowStore op⟩ : StoreCall V).left m = none := rfl

/-- After its first await only the operation can be left of a call. -/
theorem left_fence {leaseMs : Nat} {call : StoreCall V}
    (h : (⟨op, createRunLeaseFencedStore workflowStore lease leaseMs op⟩ : StoreCall V).left m =
      some call) : op.isFenced ∧ call = ⟨op, workflowStore op⟩ := by
  unfold left at h
  cases hop : op.isFenced with
  | false =>
    rw [step_unfenced hop] at h
    cases h
  | true =>
    rw [step_fenced hop] at h
    cases hrenew : (m.renewRunLease lease leaseMs).1 with
    | none =>
      rw [hrenew] at h
      cases h
    | some renewed =>
      rw [hrenew] at h
      exact ⟨rfl, (Option.some.inj h).symm⟩

end StoreCall

namespace Coordination

variable [JsRuntime V] {s : Coordination V}

omit [JsRuntime V] in
theorem performing_call {worker : String} {op : StoreOp V} {coordinator : Coordinator V}
    {call : StoreCall V} :
    s.performing (.call worker op) = some (coordinator, call) ↔
      s.coordinators worker = some coordinator ∧ coordinator.call = none ∧
        call = ⟨op, createRunLeaseFencedStore workflowStore coordinator.lease
          coordinator.leaseMs op⟩ := by
  simp only [performing, Option.map_eq_some_iff, Option.filter_eq_some_iff, Option.isNone_iff_eq_none,
    Prod.mk.injEq]
  constructor
  · rintro ⟨_, ⟨hget, hidle⟩, rfl, rfl⟩
    exact ⟨hget, hidle, rfl⟩
  · rintro ⟨hget, hidle, rfl⟩
    exact ⟨coordinator, ⟨hget, hidle⟩, rfl, rfl⟩

omit [JsRuntime V] in
theorem performing_resume {worker : String} {coordinator : Coordinator V} {call : StoreCall V} :
    s.performing (.resume worker) = some (coordinator, call) ↔
      s.coordinators worker = some coordinator ∧ coordinator.call = some call := by
  simp only [performing, Option.bind_eq_some_iff, Option.map_eq_some_iff, Prod.mk.injEq]
  constructor
  · rintro ⟨_, hget, _, hcall, rfl, rfl⟩
    exact ⟨hget, hcall⟩
  · rintro ⟨hget, hcall⟩
    exact ⟨coordinator, hget, call, hcall, rfl, rfl⟩

/-! ## The claim of the fence and when it is met -/

/-- In the step of a coordinator whose lease is superseded, a call of an operation that can write
a run, node, child or attempt throws `StaleRunLeaseError` and leaves the whole store as it is; so
only a holder of its lease changes these records. -/
structure Fenced (s : Coordination V) (move : Move V) : Prop where
  rejected : ∀ coordinator call, s.performing move = some (coordinator, call) →
    call.op.isMutation → ¬ s.mem.holdsRunLease coordinator.lease →
      call.step s.mem = (Program.pure (.error .staleRunLease), s.mem)
  holder : ∀ coordinator call, s.performing move = some (coordinator, call) →
    (s.step move).mem.records ≠ s.mem.records → s.mem.holdsRunLease coordinator.lease

/-- A coordinator still has its lease when it calls an operation that the fence does not wrap and
that can write these records, and when it performs an operation after the renewal. -/
def InTime (s : Coordination V) : Move V → Prop
  | .call worker op => ∀ coordinator, s.coordinators worker = some coordinator →
    coordinator.call = none → op.isUnfencedMutation → s.mem.holdsRunLease coordinator.lease
  | .resume worker => ∀ coordinator, s.coordinators worker = some coordinator →
    coordinator.call.isSome → s.mem.holdsRunLease coordinator.lease
  | _ => True

/-- Every call on its way has its renewal behind it and its operation before it. -/
def Renewed (s : Coordination V) : Prop :=
  ∀ worker coordinator call, s.coordinators worker = some coordinator →
    coordinator.call = some call → ∃ op, op.isFenced ∧ call = ⟨op, workflowStore op⟩

omit [JsRuntime V] in
theorem renewed_create (maxDeliveries : Option Int) :
    (create maxDeliveries : Coordination V).Renewed := by
  intro worker coordinator call hget
  cases hget

omit [JsRuntime V] in
/-- The store is of no account. -/
theorem Renewed.of_coordinators (h : s.Renewed) {s' : Coordination V}
    (heq : s'.coordinators = s.coordinators) : s'.Renewed := by
  unfold Renewed
  rw [heq]
  exact h

omit [JsRuntime V] in
theorem Renewed.update (h : s.Renewed) (worker : String) (mem : Mem V)
    {coordinator : Option (Coordinator V)}
    (hnew : ∀ found ∈ coordinator, ∀ call, found.call = some call →
      ∃ op, op.isFenced ∧ call = ⟨op, workflowStore op⟩) :
    Renewed ⟨mem, Function.update s.coordinators worker coordinator⟩ := by
  intro other found call hget hcall
  dsimp only at hget
  obtain rfl | hne := eq_or_ne other worker
  · rw [Function.update_self] at hget
    exact hnew found hget call hcall
  · rw [Function.update_of_ne hne] at hget
    exact h other found call hget hcall

theorem Renewed.perform (h : s.Renewed) {worker : String} {coordinator : Coordinator V}
    {call : StoreCall V} (hleft : ∀ left, call.left s.mem = some left →
      ∃ op, op.isFenced ∧ left = ⟨op, workflowStore op⟩) :
    (s.perform worker coordinator call).Renewed := by
  refine h.update worker _ fun found hfound left hcall => ?_
  obtain rfl := Option.some.inj hfound
  exact hleft left hcall

theorem Renewed.step (h : s.Renewed) (move : Move V) : (s.step move).Renewed := by
  cases move with
  | acquire worker runId leaseMs =>
    simp only [Coordination.step]
    split
    · exact h
    · refine h.update worker _ fun found hfound call hcall => ?_
      obtain ⟨lease, -, rfl⟩ := Option.map_eq_some_iff.mp hfound
      cases hcall
  | call worker op =>
    simp only [Coordination.step]
    split
    · exact h
    · next coordinator call hperforming =>
      obtain ⟨-, -, rfl⟩ := performing_call.mp hperforming
      exact h.perform fun left hleft => ⟨op, StoreCall.left_fence hleft⟩
  | resume worker =>
    simp only [Coordination.step]
    split
    · exact h
    · next coordinator call hperforming =>
      obtain ⟨hget, hcall⟩ := performing_resume.mp hperforming
      obtain ⟨op, -, rfl⟩ := h worker coordinator call hget hcall
      refine h.perform fun left hleft => ?_
      rw [StoreCall.left_operation] at hleft
      cases hleft
  | renew worker =>
    simp only [Coordination.step]
    split
    · exact h
    · exact h.of_coordinators rfl
  | release worker =>
    simp only [Coordination.step]
    split
    · exact h
    · refine h.update worker _ fun found hfound => ?_
      cases hfound
  | other op => exact h.of_coordinators rfl

theorem step_mem {move : Move V} {coordinator : Coordinator V} {call : StoreCall V}
    (h : s.performing move = some (coordinator, call)) :
    (s.step move).mem = (call.step s.mem).2 := by
  cases move with
  | call worker op | resume worker => simp only [step, h, perform]
  | acquire | renew | release | other => cases h

/-- Under the invariant of the calls the two conditions on a step are one. -/
theorem Renewed.fenced_iff (h : s.Renewed) (move : Move V) : s.Fenced move ↔ s.InTime move := by
  cases move with
  | acquire | renew | release | other =>
    refine ⟨fun _ => trivial, fun _ => ⟨fun _ _ hnone => ?_, fun _ _ hnone => ?_⟩⟩ <;> cases hnone
  | call worker op =>
    constructor
    · intro hfenced coordinator hget hidle hop
      by_contra hlost
      have hcall : s.performing (.call worker op) = some (coordinator, _) :=
        performing_call.mpr ⟨hget, hidle, rfl⟩
      have hmutation : op.isMutation := by simp [StoreOp.isMutation, hop]
      have hunfenced : op.isFenced = false := by cases op <;> first | rfl | cases hop
      have hstep := hfenced.rejected coordinator _ hcall hmutation hlost
      rw [StoreCall.step_unfenced hunfenced] at hstep
      exact StoreCall.operation_ne_stale op _ _ _ hstep
    · intro hinTime
      refine ⟨fun coordinator call hcall hmutation hlost => ?_, fun coordinator call hcall hne => ?_⟩
      · obtain ⟨hget, hidle, rfl⟩ := performing_call.mp hcall
        obtain hop | hop := (Bool.or_eq_true _ _).mp hmutation
        · exact StoreCall.step_stale hop hlost _
        · exact absurd (hinTime coordinator hget hidle hop) hlost
      · rw [step_mem hcall] at hne
        obtain ⟨hget, hidle, rfl⟩ := performing_call.mp hcall
        cases hop : op.isFenced with
        | true =>
          rw [StoreCall.step_fenced hop] at hne
          exact absurd (s.mem.renewRunLease_quiet coordinator.lease coordinator.leaseMs).records hne
        | false =>
          rw [StoreCall.step_unfenced hop] at hne
          refine hinTime coordinator hget hidle ?_
          by_contra hread
          refine hne (s.mem.execStore_records ?_)
          simpa [StoreOp.isMutation, hop] using hread
  | resume worker =>
    constructor
    · intro hfenced coordinator hget hbusy
      by_contra hlost
      obtain ⟨call, hcall⟩ := Option.isSome_iff_exists.mp hbusy
      obtain ⟨op, hop, rfl⟩ := h worker coordinator call hget hcall
      have hmutation : op.isMutation := by simp [StoreOp.isMutation, hop]
      have hstep := hfenced.rejected coordinator _ (performing_resume.mpr ⟨hget, hcall⟩)
        hmutation hlost
      rw [StoreCall.step_operation] at hstep
      exact StoreCall.operation_ne_stale op _ _ _ hstep
    · intro hinTime
      have hheld : ∀ coordinator call, s.performing (.resume worker) = some (coordinator, call) →
          s.mem.holdsRunLease coordinator.lease := by
        intro coordinator call hcall
        obtain ⟨hget, hbusy⟩ := performing_resume.mp hcall
        exact hinTime coordinator hget (by rw [hbusy]; rfl)
      exact ⟨fun coordinator call hcall _ hlost => absurd (hheld coordinator call hcall) hlost,
        fun coordinator call hcall _ => hheld coordinator call hcall⟩

/-! ## Every interleaving -/

/-- In a run of any coordinators and everyone else, the fence holds at every step if and only if
every coordinator is in time at every step. -/
theorem fenced_iff_inTime (maxDeliveries : Option Int) (moves : List (Move V)) :
    Trace.Admits step Fenced (create maxDeliveries) moves ↔
      Trace.Admits step InTime (create maxDeliveries) moves :=
  Trace.admits_congr step (fun _ move h => h.step move) (fun _ move h => h.fenced_iff move)
    (renewed_create maxDeliveries) moves

/-! ## Two ways past the fence -/

/-- A run with one started attempt; the coordinator `a` holds the lease of the run. -/
def leasedMoves : List (Move JsonText) :=
  [.other (.store (.createRun { workflowName := "w", input := .null })),
    .other (.store (.createNode { runId := "run-1", name := "n", kind := .activity })),
    .other (.store (.ensureNodeChildren "run-1" "n" [{ childKey := "$self", kind := .activity }])),
    .other (.store (.ensureChildAttempt
      { runId := "run-1", nodeName := "n", childKey := "$self", input := .null })),
    .acquire "a" "run-1" 30000]

/-- The lease expires and the coordinator `b` takes the run over. -/
def takeoverMoves : List (Move JsonText) :=
  [.other (.clock 60000), .acquire "b" "run-1" 30000]

/-- After the takeover `a` times the attempt out. -/
def timeoutMove : Move JsonText :=
  .call "a" (.timeoutCurrentAttempt "attempt-2" "attempt-lease-3" (.error "timed out"))

/-- Before the takeover `a` renews its lease to complete the run, and completes it after it. -/
def completeMoves : List (Move JsonText) := [.call "a" (.completeRun "run-1" .null)]

/-- The step of a coordinator that has lost its lease. -/
def isZombieStep (s : Coordination V) (move : Move V) : Bool :=
  (s.performing move).any fun (coordinator, _) => !s.mem.holdsRunLease coordinator.lease

theorem Fenced.records_eq {s : Coordination V} {move : Move V} (h : s.Fenced move)
    (hzombie : s.isZombieStep move) : (s.step move).mem.records = s.mem.records := by
  obtain ⟨⟨coordinator, call⟩, hcall, hlost⟩ := (Option.any_eq_true _ _).mp hzombie
  by_contra hne
  simp [h.holder coordinator call hcall hne] at hlost

def attemptStatus (s : Records V) (attemptId : String) : Option RuntimeAttemptStatus :=
  (s.attempts.get? attemptId).map StoredAttempt.status

def runStatus (s : Records V) (runId : String) : Option RuntimeRunStatus :=
  (s.runs.get? runId).map StoredRun.status

/-- A superseded coordinator settles an attempt of the run, and one that loses its lease after the
renewal completes the run. -/
theorem not_fenced_after_takeover :
    ¬ Trace.Admits step Fenced (create none)
        (leasedMoves ++ takeoverMoves ++ [timeoutMove]) ∧
    ¬ Trace.Admits step Fenced (create none)
        (leasedMoves ++ completeMoves ++ takeoverMoves ++ [.resume "a"]) := by
  constructor
  · intro h
    have hrecords := (Trace.admits_append.mp h).2.1.records_eq (by decide +kernel)
    have hstatus := congrArg (attemptStatus · "attempt-2") hrecords
    revert hstatus
    decide +kernel
  · intro h
    have hrecords := (Trace.admits_append.mp h).2.1.records_eq (by decide +kernel)
    have hstatus := congrArg (runStatus · "run-1") hrecords
    revert hstatus
    decide +kernel

end Coordination

end Neemata.Workflows
