import Neemata.Workflows.Worker.Attempt

/-!
# When a worker creates an attempt

The execution of a delivery follows a protocol (`execute_obeys`): it creates an attempt at most
once, and only after it has found the attempt of its command to be fresh and has settled it as a
failed one itself. What it asks for repeats the settled attempt and stays within a retry policy that
the worker has for the command.
-/

namespace Neemata.Workflows

variable {V : Type}

/-! ## The protocol of a delivery -/

/-- The retry policies a worker has for a command; as it rejects duplicate implementations it uses
at most one. -/
def ExecutionWorkerInput.retryPolicies (input : ExecutionWorkerInput) (command : AttemptCommand V) :
    List RetryPolicy :=
  match command.target with
  | .task taskName _ => input.tasks.filterMap fun task =>
    if task.task.name = taskName then task.task.retry else none
  | .activity activityName => input.workflows.filterMap fun workflow =>
    if workflow.workflow.name = command.workflowName then
      (resolveActivityAttemptNode workflow command activityName).bind ActivityAttemptNode.retry
    else none

/-- How far a delivery has come: it has looked at nothing, has found its attempt to be fresh, has
settled it as failed, or will not create an attempt any more. -/
inductive RetryPhase (V : Type)
  | start
  | fresh
  | licensed (failed : StoredAttempt V)
  | done

/-- The store operations of a worker that neither settle an attempt as failed nor create one. -/
def StoreOp.isHarmless : StoreOp V → Bool
  | .loadRunSnapshot _ | .completeCurrentAttempt _ _ _ | .completeNodeChild _ _ _ _
  | .failNodeChild _ _ _ _ | .completeNode _ _ _ | .failNode _ _ _ | .markRunRunning _
  | .completeRun _ _ | .failRun _ _ => true
  | _ => false

/-- What a retry for the command asks the store for. -/
def AttemptCommand.retryParams (command : AttemptCommand V) (failed : StoredAttempt V) :
    ChildAttemptParams V where
  runId := command.runId
  nodeName := command.nodeName
  childKey := command.childKey
  input := failed.input
  idempotencyKey := failed.idempotencyKey

namespace RetryPhase

def mayPerform (command : AttemptCommand V) (policies : List RetryPolicy) (phase : RetryPhase V) :
    PassOp V → Prop
  | .store (.createAttempt params) => ∃ failed, phase = .licensed failed ∧
    params = command.retryParams failed ∧
    ∃ policy ∈ policies, (Binary64.Double.finite failed.attemptNumber).lt policy.attempts
  | .store (.failCurrentAttempt attemptId _ _) | .store (.timeoutCurrentAttempt attemptId _ _) =>
    phase = .fresh ∧ attemptId = command.attemptId
  | .store (.loadRunSnapshot runId) => phase = .start → runId = command.runId
  | .store op => phase ≠ .start ∧ op.isHarmless
  | .executor _ | .callback _ | .dateNow => phase ≠ .start

def afterLoad (command : AttemptCommand V) : Except (Thrown V) (Option (RunSnapshot V)) →
    RetryPhase V
  | .ok snapshot =>
    if isFreshAttempt command (storedChildOf command snapshot) (storedAttemptOf command snapshot)
    then .fresh else .done
  | .error _ => .done

def afterFailure : Except (Thrown V) (Option (StoredAttempt V)) → RetryPhase V
  | .ok (some failed) => .licensed failed
  | _ => .fresh

def next (command : AttemptCommand V) (phase : RetryPhase V) :
    (op : PassOp V) → op.Ret → RetryPhase V
  | .store (.loadRunSnapshot _), answer =>
    match phase with
    | .start => afterLoad command answer
    | phase => phase
  | .store (.failCurrentAttempt _ _ _), answer => afterFailure answer
  | .store (.timeoutCurrentAttempt _ _ _), answer => afterFailure answer
  | .store (.createAttempt _), _ => .done
  | _, _ => phase

end RetryPhase

def retryProtocol (command : AttemptCommand V) (policies : List RetryPolicy) :
    Program.Protocol (PassOp.Ret (V := V)) (RetryPhase V) where
  allowed := RetryPhase.mayPerform command policies
  advance := RetryPhase.next command
  mayHalt _ := True

/-! ## Passes that stay in their phase -/

section

variable {command : AttemptCommand V} {policies : List RetryPolicy} {α β : Type}

/-- The pass may run in every phase but the first, and stays in it. -/
def Calm (command : AttemptCommand V) (policies : List RetryPolicy) (pass : Pass V α) : Prop :=
  ∀ phase, phase ≠ .start →
    Program.Obeys (retryProtocol command policies) phase pass fun phase' _ => phase' = phase

namespace Calm

theorem pure (result : α) : Calm command policies (pure result : Pass V α) :=
  fun _ _ => Program.obeys_pure rfl

theorem throw (error : Thrown V) : Calm command policies (throw error : Pass V α) :=
  fun _ _ => Program.obeys_throw rfl

theorem bind {pass : Pass V α} {f : α → Pass V β} (h : Calm command policies pass)
    (hf : ∀ result, Calm command policies (f result)) : Calm command policies (pass >>= f) := by
  intro phase hphase
  refine Program.Obeys.bind (h phase hphase) ?_ fun _ _ hsame => hsame
  rintro _ result rfl
  exact hf result _ hphase

theorem tryCatch {pass : Pass V α} {handle : Thrown V → Pass V α}
    (h : Calm command policies pass) (hhandle : ∀ error, Calm command policies (handle error)) :
    Calm command policies (tryCatch pass handle) := by
  intro phase hphase
  refine Program.Obeys.tryCatch (h phase hphase) (fun _ _ hsame => hsame) ?_
  rintro _ error rfl
  exact hhandle error _ hphase

theorem map {f : α → β} {pass : Pass V α} (h : Calm command policies pass) :
    Calm command policies (f <$> pass) := by
  rw [map_eq_pure_bind]
  exact h.bind fun result => .pure (f result)

theorem store {op : StoreOp V} (hop : op.isHarmless) :
    Calm command policies (workflowStore op) := by
  intro phase hphase
  cases op with
  | loadRunSnapshot runId =>
    refine ⟨fun h => absurd h hphase, fun _ => ?_⟩
    cases phase with
    | start => exact absurd rfl hphase
    | fresh | licensed | done => rfl
  | completeCurrentAttempt | completeNodeChild | failNodeChild | completeNode | failNode
  | markRunRunning | completeRun | failRun => exact ⟨⟨hphase, rfl⟩, fun _ => rfl⟩
  | _ => cases hop

theorem executor (op : ExecutorOp V) : Calm command policies (executor op) :=
  fun _ hphase => ⟨hphase, fun _ => rfl⟩

theorem userCode (call : Callback V) : Calm command policies (userCode call) :=
  fun _ hphase => ⟨hphase, fun _ => rfl⟩

theorem dateNow : Calm command policies dateNow := fun _ hphase => ⟨hphase, fun _ => rfl⟩

end Calm

theorem calm_enqueueContinueRun (command' : AttemptCommand V) :
    Calm command policies (enqueueContinueRun command') := .executor _

theorem calm_ackTerminalAttempt (claimed : Claimed (AttemptCommand V)) :
    Calm command policies (ackTerminalAttempt claimed) :=
  (Calm.executor _).bind fun _ => .pure _

theorem calm_releaseUnroutable (claimed : Claimed (AttemptCommand V)) (message : String) :
    Calm command policies (releaseUnroutable claimed message) :=
  (Calm.executor _).bind fun _ => .pure _

theorem calm_wakeParentRun (run : Option (StoredRun V)) :
    Calm command policies (wakeParentRun run) := by
  unfold wakeParentRun
  split
  · split
    · exact .pure _
    · refine (Calm.store rfl).bind fun parent => ?_
      cases parent with
      | none => exact .pure _
      | some parent => exact .executor _
  · exact .pure _

theorem calm_completeTaskRun (claimed : Claimed (AttemptCommand V)) (output : V) :
    Calm command policies (completeTaskRun claimed output) :=
  (Calm.store rfl).bind fun _ => (Calm.store rfl).bind fun completed =>
    (calm_wakeParentRun completed).bind fun _ => calm_ackTerminalAttempt claimed

theorem calm_completeNodeFromAttempt (claimed : Claimed (AttemptCommand V)) (output : V) :
    Calm command policies (completeNodeFromAttempt claimed output) := by
  have hwake : Calm command policies (do
      enqueueContinueRun claimed.command
      ackTerminalAttempt claimed) :=
    (calm_enqueueContinueRun _).bind fun _ => calm_ackTerminalAttempt claimed
  unfold completeNodeFromAttempt
  dsimp only
  split
  · exact (Calm.store rfl).bind fun _ => hwake
  · exact hwake

theorem calm_replayCompletedAttempt (claimed : Claimed (AttemptCommand V)) (output : V) :
    Calm command policies (replayCompletedAttempt claimed output) := by
  unfold replayCompletedAttempt
  refine (Calm.store rfl).bind fun _ => (Calm.store rfl).bind fun snapshot => ?_
  split
  · exact calm_completeTaskRun claimed output
  · exact calm_completeNodeFromAttempt claimed output

theorem calm_replayFailedAttempt (claimed : Claimed (AttemptCommand V)) (error : Thrown V) :
    Calm command policies (replayFailedAttempt claimed error) := by
  have hwake : Calm command policies (do
      enqueueContinueRun claimed.command
      ackTerminalAttempt claimed) :=
    (calm_enqueueContinueRun _).bind fun _ => calm_ackTerminalAttempt claimed
  unfold replayFailedAttempt
  refine (Calm.store rfl).bind fun _ => (Calm.store rfl).bind fun snapshot => ?_
  dsimp only
  split
  · exact (Calm.store rfl).bind fun _ => (Calm.store rfl).bind fun failed =>
      (calm_wakeParentRun failed).bind fun _ => calm_ackTerminalAttempt claimed
  · split
    · exact (Calm.store rfl).bind fun _ => hwake
    · exact hwake

theorem calm_failNodeFromAttempt (command' : AttemptCommand V) (runKind : RunKind)
    (error : Thrown V) : Calm command policies (failNodeFromAttempt command' runKind error) := by
  unfold failNodeFromAttempt
  refine (Calm.store rfl).bind fun _ => ?_
  dsimp only
  cases runKind with
  | task =>
    split
    · exact (Calm.store rfl).bind fun _ => (Calm.store rfl).bind fun _ => calm_wakeParentRun _
    · exact (Calm.store rfl).bind fun _ => calm_wakeParentRun _
  | workflow =>
    split
    · exact (Calm.store rfl).bind fun _ => calm_enqueueContinueRun command'
    · exact calm_enqueueContinueRun command'

theorem calm_retryDispatchOptions (retry : Option RetryPolicy) (number : Nat) :
    Calm command policies (retryDispatchOptions retry number : Pass V (Option Nat)) := by
  unfold retryDispatchOptions
  split
  · exact .pure _
  · exact Calm.dateNow.bind fun _ => .pure _

theorem calm_decodeSchemaValue (schema : Schema) (value : V) (label : String) :
    Calm command policies (decodeSchemaValue schema value label) :=
  (Calm.userCode _).tryCatch fun _ => .throw _

variable [JsRuntime V]

theorem calm_reconcileStaleAttempt (claimed : Claimed (AttemptCommand V))
    (child : Option (StoredNodeChild V)) (storedAttempt : Option (StoredAttempt V)) :
    Calm command policies (reconcileStaleAttempt claimed child storedAttempt) := by
  unfold reconcileStaleAttempt
  dsimp only
  split
  · split
    · exact calm_replayCompletedAttempt claimed _
    · split
      · exact calm_replayFailedAttempt claimed _
      · split
        · exact (calm_enqueueContinueRun _).bind fun _ => calm_ackTerminalAttempt claimed
        · exact calm_ackTerminalAttempt claimed
  · exact calm_ackTerminalAttempt claimed

theorem calm_beat (claimed : Claimed (AttemptCommand V)) (leaseMs : Nat) :
    Calm command policies (beat claimed leaseMs) := by
  refine (Calm.tryCatch (Calm.executor _).map fun error => ?_).bind fun runStatus => ?_
  · split
    · exact .throw _
    · exact .pure _
  · split
    · exact .throw _
    · exact .pure _

theorem calm_beats (claimed : Claimed (AttemptCommand V)) (leaseMs count : Nat) :
    Calm command policies (beats claimed leaseMs count) := by
  induction count with
  | zero => exact .pure _
  | succ count ih => exact (calm_beat claimed leaseMs).bind fun _ => ih

theorem calm_runWithAttemptHeartbeat (input : ExecutionWorkerInput)
    (claimed : Claimed (AttemptCommand V)) (timeoutMs : Option Binary64.Double) :
    Calm command policies (runWithAttemptHeartbeat input claimed timeoutMs) := by
  refine (Calm.userCode _).bind fun race => (calm_beats claimed _ _).bind fun _ => ?_
  unfold raceResult
  split
  all_goals first | exact .pure _ | exact .throw _

theorem calm_runTaskHandler (input : ExecutionWorkerInput) (claimed : Claimed (AttemptCommand V))
    (timeout : Option String) (task : TaskDefinition) :
    Calm command policies (runTaskHandler input claimed timeout task) :=
  (calm_runWithAttemptHeartbeat input claimed _).bind fun output =>
    calm_decodeSchemaValue _ output _

theorem calm_runActivityHandler (input : ExecutionWorkerInput)
    (claimed : Claimed (AttemptCommand V)) (workflow : WorkflowImplementation) :
    Calm command policies (runActivityHandler input claimed workflow) := by
  refine (calm_runWithAttemptHeartbeat input claimed _).bind fun output => ?_
  split
  · exact .pure _
  · exact calm_decodeSchemaValue _ output _

/-! ## Passes that may create an attempt -/

/-- From `phase` on the pass keeps to the protocol and ends past its first phase. -/
def Begun (command : AttemptCommand V) (policies : List RetryPolicy) (phase : RetryPhase V)
    (pass : Pass V α) : Prop :=
  Program.Obeys (retryProtocol command policies) phase pass fun phase' _ => phase' ≠ .start

omit [JsRuntime V] in
theorem Calm.begun {pass : Pass V α} (h : Calm command policies pass) {phase : RetryPhase V}
    (hphase : phase ≠ .start) : Begun command policies phase pass :=
  Program.Obeys.mono (h phase hphase) fun _ _ hsame => hsame ▸ hphase

omit [JsRuntime V] in
/-- Settling as failed gives the licence, or the attempt could not be settled any more. -/
theorem settleFailedAttempt_obeys (error : Thrown V) :
    Program.Obeys (retryProtocol command policies) .fresh (settleFailedAttempt command error)
      fun phase result => phase = .fresh ∧ (∀ failed, result ≠ .ok (some failed)) ∨
        ∃ failed, phase = .licensed failed ∧ result = .ok (some failed) := by
  have hanswer (answer : Except (Thrown V) (Option (StoredAttempt V))) :
      RetryPhase.afterFailure answer = .fresh ∧ (∀ failed, answer ≠ .ok (some failed)) ∨
        ∃ failed, RetryPhase.afterFailure answer = .licensed failed ∧ answer = .ok (some failed) := by
    match answer with
    | .ok (some failed) => exact .inr ⟨failed, rfl, rfl⟩
    | .ok none | .error _ => exact .inl ⟨rfl, nofun⟩
  unfold settleFailedAttempt
  cases isAttemptTimeout error with
  | true => exact ⟨⟨rfl, rfl⟩, hanswer⟩
  | false => exact ⟨⟨rfl, rfl⟩, hanswer⟩

omit [JsRuntime V] in
theorem retryAttemptCore_begun {failed : StoredAttempt V} {retry : Option RetryPolicy}
    (hretry : ∀ policy ∈ retry, policy ∈ policies) :
    Begun command policies (.licensed failed) (retryAttemptCore command failed retry) := by
  unfold retryAttemptCore
  split
  · exact (Calm.pure _).begun nofun
  · next hshould =>
    have hlimit : ∃ policy ∈ policies,
        (Binary64.Double.finite failed.attemptNumber).lt policy.attempts := by
      simp only [Bool.not_eq_true, Bool.not_eq_false', shouldRetryAttempt, Option.any_eq_true,
        Bool.and_eq_true] at hshould
      obtain ⟨policy, hpolicy, -, hlt⟩ := hshould
      exact ⟨policy, hretry policy hpolicy, hlt⟩
    have hcreate : Program.Obeys (retryProtocol command policies) (.licensed failed)
        (workflowStore (.createAttempt (command.retryParams failed)))
        fun phase _ => phase = .done :=
      ⟨⟨failed, rfl, rfl, hlimit⟩, fun _ => rfl⟩
    refine Program.Obeys.bind hcreate ?_ ?_
    · rintro _ retryAttempt rfl
      refine Calm.begun ?_ nofun
      exact (calm_retryDispatchOptions _ _).bind fun _ => (Calm.executor _).bind fun _ => .pure _
    · rintro _ _ rfl
      exact nofun

omit [JsRuntime V] in
theorem completeFailedAttempt_begun (claimed : Claimed (AttemptCommand V)) (runKind : RunKind)
    {retry : Option RetryPolicy} (hretry : ∀ policy ∈ retry, policy ∈ policies)
    (error : Thrown V) : Begun claimed.command policies .fresh
      (completeFailedAttempt claimed runKind retry error) := by
  refine Program.Obeys.bind (settleFailedAttempt_obeys error) ?_ ?_
  · rintro _ attempt (⟨rfl, hnone⟩ | ⟨failed, rfl, hsome⟩)
    · cases attempt with
      | none => exact (calm_ackTerminalAttempt claimed).begun nofun
      | some failed => exact absurd rfl (hnone failed)
    · obtain rfl : attempt = some failed := Except.ok.inj hsome
      refine Program.Obeys.bind (retryAttemptCore_begun hretry) ?_ fun _ _ h => h
      intro phase retried hphase
      have hack : Calm claimed.command policies (ackTerminalAttempt claimed) :=
        calm_ackTerminalAttempt claimed
      refine Calm.begun ?_ hphase
      dsimp only
      split
      · exact (calm_failNodeFromAttempt _ runKind error).bind fun _ => hack
      · exact hack
  · rintro _ thrown (⟨rfl, -⟩ | ⟨failed, -, hsome⟩)
    · exact nofun
    · cases hsome

theorem completeByResult_begun (claimed : Claimed (AttemptCommand V)) {run : Pass V V}
    (runKind : RunKind) {retry : Option RetryPolicy}
    (complete : V → Pass V WorkerCommandResult)
    (hretry : ∀ policy ∈ retry, policy ∈ policies) (hrun : Calm claimed.command policies run)
    (hcomplete : ∀ output, Calm claimed.command policies (complete output)) :
    Begun claimed.command policies .fresh
      (completeByResult claimed run runKind retry complete) := by
  have hresult : Calm claimed.command policies
      (tryCatch (Except.ok <$> run) fun error => pure (.error error)) :=
    hrun.map.tryCatch fun _ => .pure _
  refine Program.Obeys.bind (hresult .fresh nofun) ?_ ?_
  · rintro _ result rfl
    cases result with
    | ok output =>
      refine Calm.begun ((Calm.store rfl).bind fun attempt => ?_) nofun
      cases attempt with
      | none => exact calm_ackTerminalAttempt claimed
      | some _ => exact hcomplete output
    | error error =>
      dsimp only
      split
      · exact (Calm.throw _).begun nofun
      · split
        · exact (calm_ackTerminalAttempt claimed).begun nofun
        · exact completeFailedAttempt_begun claimed runKind hretry error
  · rintro _ _ rfl
    exact nofun

/-- A delivery starts by reading its run; its body runs for a fresh attempt only. -/
theorem withFreshAttempt_begun {claimed : Claimed (AttemptCommand V)}
    {body : RunSnapshot V → Pass V WorkerCommandResult}
    (hbody : ∀ snapshot, Begun claimed.command policies .fresh (body snapshot)) :
    Begun claimed.command policies .start (withFreshAttempt claimed body) := by
  have hload : Program.Obeys (retryProtocol claimed.command policies) .start
      (workflowStore (.loadRunSnapshot claimed.command.runId))
      fun phase result => phase = RetryPhase.afterLoad claimed.command result :=
    ⟨fun _ => rfl, fun _ => rfl⟩
  refine Program.Obeys.bind hload ?_ ?_
  · rintro _ snapshot rfl
    have hstart : RetryPhase.afterLoad claimed.command (.ok snapshot) ≠ .start := by
      simp only [RetryPhase.afterLoad]
      split <;> exact nofun
    dsimp only
    split
    · exact (calm_ackTerminalAttempt claimed).begun hstart
    · split
      · exact (calm_reconcileStaleAttempt claimed _ _).begun hstart
      · next hfresh =>
        split
        · exact (calm_releaseUnroutable claimed _).begun hstart
        · next snapshot' _ =>
          have hphase : RetryPhase.afterLoad claimed.command (.ok snapshot) = .fresh :=
            if_pos (by simpa using hfresh)
          rw [hphase]
          exact hbody snapshot'
  · rintro _ _ rfl
    exact nofun

theorem runTaskAttempt_begun (input : ExecutionWorkerInput)
    {claimed : Claimed (AttemptCommand V)} {taskName : String} {timeout : Option String}
    (htarget : claimed.command.target = .task taskName timeout) :
    Begun claimed.command (input.retryPolicies claimed.command) .start
      (runTaskAttempt input claimed) := by
  unfold runTaskAttempt
  rw [htarget]
  refine withFreshAttempt_begun fun snapshot => ?_
  refine Program.Obeys.bind (createImplementationMap_obeys
    (P := fun name task => task ∈ input.tasks ∧ task.task.name = name) .empty
    fun task htask => ⟨htask, rfl⟩) ?_ ?_
  · rintro _ tasks ⟨rfl, htasks⟩
    cases hget : tasks.get? taskName with
    | none => exact (calm_releaseUnroutable claimed _).begun nofun
    | some task =>
      obtain ⟨hmem, hname⟩ := htasks tasks rfl _ _ hget
      have hretry : ∀ policy ∈ task.task.retry, policy ∈ input.retryPolicies claimed.command := by
        intro policy hpolicy
        simp only [ExecutionWorkerInput.retryPolicies, htarget, List.mem_filterMap]
        exact ⟨task, hmem, by rw [if_pos hname]; exact hpolicy⟩
      have hcomplete {complete : V → Pass V WorkerCommandResult} :=
        completeByResult_begun claimed snapshot.run.kind complete hretry
          (calm_runTaskHandler input claimed timeout task.task)
      dsimp only
      split
      · refine Program.Obeys.bind ((Calm.store rfl) .fresh nofun) ?_ ?_
        · rintro _ _ rfl
          refine hcomplete fun output => ?_
          cases snapshot.run.kind with
          | task => exact calm_completeTaskRun claimed output
          | workflow => exact calm_completeNodeFromAttempt claimed output
        · rintro _ _ rfl
          exact nofun
      · refine hcomplete fun output => ?_
        cases snapshot.run.kind with
        | task => exact calm_completeTaskRun claimed output
        | workflow => exact calm_completeNodeFromAttempt claimed output
  · rintro _ _ ⟨rfl, -⟩
    exact nofun

theorem runActivityAttempt_begun (input : ExecutionWorkerInput)
    {claimed : Claimed (AttemptCommand V)} {activityName : String}
    (htarget : claimed.command.target = .activity activityName) :
    Begun claimed.command (input.retryPolicies claimed.command) .start
      (runActivityAttempt input claimed) := by
  unfold runActivityAttempt
  dsimp only
  rw [htarget]
  refine withFreshAttempt_begun fun snapshot => ?_
  refine Program.Obeys.bind (createImplementationMap_obeys
    (P := fun name workflow => workflow ∈ input.workflows ∧ workflow.workflow.name = name) .empty
    fun workflow hworkflow => ⟨hworkflow, rfl⟩) ?_ ?_
  · rintro _ workflows ⟨rfl, hworkflows⟩
    cases hget : workflows.get? claimed.command.workflowName with
    | none => exact (calm_releaseUnroutable claimed _).begun nofun
    | some workflow =>
      obtain ⟨hmem, hname⟩ := hworkflows workflows rfl _ _ hget
      cases hnode : resolveActivityAttemptNode workflow claimed.command activityName with
      | none =>
        dsimp only
        rw [hnode]
        exact (calm_releaseUnroutable claimed _).begun nofun
      | some node =>
        dsimp only
        rw [hnode]
        refine completeByResult_begun claimed _ _ (fun policy hpolicy => ?_)
          (calm_runActivityHandler input claimed workflow)
          fun output => calm_completeNodeFromAttempt claimed output
        simp only [ExecutionWorkerInput.retryPolicies, htarget, List.mem_filterMap]
        exact ⟨workflow, hmem, by rw [if_pos hname, hnode]; exact hpolicy⟩
  · rintro _ _ ⟨rfl, -⟩
    exact nofun

/-- An execution keeps to the protocol from its first phase on. -/
theorem execute_obeys (input : ExecutionWorkerInput) (claimed : Claimed (AttemptCommand V)) :
    Begun claimed.command (input.retryPolicies claimed.command) .start (input.execute claimed) := by
  have hrun : Begun claimed.command (input.retryPolicies claimed.command) .start
      (input.runAttempt claimed) := by
    unfold ExecutionWorkerInput.runAttempt
    cases htarget : claimed.command.target with
    | activity activityName => exact runActivityAttempt_begun input htarget
    | task taskName timeout => exact runTaskAttempt_begun input htarget
  have hresult : Begun claimed.command (input.retryPolicies claimed.command) .start
      (input.runAttempt claimed >>= fun result =>
        (pure (decide (result = .processed)) : Pass V Bool)) :=
    Program.Obeys.bind hrun (fun _ _ hphase => Program.obeys_pure hphase) fun _ _ h => h
  refine Program.Obeys.tryCatch hresult (fun _ _ h => h) ?_
  · intro phase error hphase
    refine Calm.begun ?_ hphase
    split
    · exact (Calm.executor _).bind fun _ => .pure _
    · exact (Calm.executor _).bind fun _ => .throw _

end

end Neemata.Workflows
