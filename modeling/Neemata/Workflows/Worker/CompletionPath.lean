import Neemata.Workflows.InMemory.Issued
import Neemata.Workflows.Worker.Completion
import Neemata.Workflows.Worker.Snapshot

/-!
# The writes of a completion path

The operations that follow the end of a handler as a list: the settlement of the attempt, then either
the creation and the dispatch of a retry or the settlements of the child, its node and its run and
the wake-up (`closingOps`), and the acknowledgement. The list is read off the programs of the worker
(`performs_closing`, `performs_completion`), and so is the list of a redelivery.
-/

namespace Neemata.Workflows

variable {V : Type}

/-! ## What a path does not change -/

/-- The fields of a run that a path reads and nobody changes. -/
structure RunOrigin where
  kind : RunKind
  workflowName : String
  parentRunId : Option String
  parentNodeName : Option String
deriving DecidableEq

def StoredRun.origin (run : StoredRun V) : RunOrigin :=
  ⟨run.kind, run.workflowName, run.parentRunId, run.parentNodeName⟩

/-- The names of a child and its current attempt. -/
def StoredNodeChild.view (child : StoredNodeChild V) :
    String × String × String × Option String :=
  (child.runId, child.nodeName, child.childKey, child.currentAttemptId)

/-- What the operations that leave a mark leave alone. -/
@[ext]
structure Scene (V : Type) where
  attempts : OrdMap String (StoredAttempt V)
  queue : CommandQueue (AttemptCommand V)
  origins : String → Option RunOrigin
  children : String → Option (String × String × String × Option String)

def Mem.scene (m : Mem V) : Scene V where
  attempts := m.attempts
  queue := m.attemptQueue
  origins runId := (m.runs.get? runId).map StoredRun.origin
  children key := (m.children.get? key).map StoredNodeChild.view

/-! ## The operations -/

section

variable (command : AttemptCommand V)

def childOp : Except (Thrown V) V → PassOp V
  | .ok output => .store (.completeNodeChild command.runId command.nodeName command.childKey output)
  | .error error => .store (.failNodeChild command.runId command.nodeName command.childKey error)

def nodeOp : Except (Thrown V) V → PassOp V
  | .ok output => .store (.completeNode command.runId command.nodeName output)
  | .error error => .store (.failNode command.runId command.nodeName error)

def runOp : Except (Thrown V) V → PassOp V
  | .ok output => .store (.completeRun command.runId output)
  | .error error => .store (.failRun command.runId error)

/-- What `wakeParentRun` performs for a run. -/
def wakeParentOps (origins : String → Option RunOrigin) (runId : String) : List (PassOp V) :=
  match (origins runId).bind RunOrigin.parentRunId,
    (origins runId).bind RunOrigin.parentNodeName with
  | some parentRunId, some parentNodeName =>
    if parentRunId = "" ∨ parentNodeName = "" then []
    else .store (.loadRunSnapshot parentRunId) ::
      (origins parentRunId).toList.map fun parent =>
        .executor (.enqueue ⟨parentRunId, parent.workflowName⟩ none)
  | _, _ => []

/-- The node and the run of a settled child are settled, and who waits is woken. -/
def closingOps (origins : String → Option RunOrigin) (kind : RunKind)
    (result : Except (Thrown V) V) : List (PassOp V) :=
  match kind with
  | .task =>
    nodeOp command result :: runOp command result :: wakeParentOps origins command.runId
  | .workflow =>
    (if shouldCompleteNodeFromAttempt command.childKey then [nodeOp command result] else []) ++
      [.executor (.enqueue ⟨command.runId, command.workflowName⟩ none)]

variable {command}

theorem marks_childOp (result : Except (Thrown V) V) : (childOp command result).Marks command := by
  cases result <;> rfl

theorem marks_nodeOp (result : Except (Thrown V) V) : (nodeOp command result).Marks command := by
  cases result <;> exact ⟨rfl, rfl⟩

theorem marks_runOp (result : Except (Thrown V) V) : (runOp command result).Marks command := by
  cases result <;> rfl

theorem marks_wakeParentOps (origins : String → Option RunOrigin) (runId : String) :
    ∀ op ∈ wakeParentOps origins runId, op.Marks command := by
  unfold wakeParentOps
  split
  · split
    · exact fun op hop => nomatch hop
    · intro op hop
      rcases List.mem_cons.mp hop with rfl | hop
      · trivial
      · obtain ⟨parent, -, rfl⟩ := List.mem_map.mp hop
        trivial
  · exact fun op hop => nomatch hop

theorem marks_closingOps (origins : String → Option RunOrigin) (kind : RunKind)
    (result : Except (Thrown V) V) :
    ∀ op ∈ closingOps command origins kind result, op.Marks command := by
  intro op hop
  cases kind with
  | task =>
    rcases List.mem_cons.mp hop with rfl | hop
    · exact marks_nodeOp result
    rcases List.mem_cons.mp hop with rfl | hop
    · exact marks_runOp result
    · exact marks_wakeParentOps origins command.runId op hop
  | workflow =>
    rcases List.mem_append.mp hop with hop | hop
    · split at hop
      · rw [List.mem_singleton.mp hop]
        exact marks_nodeOp result
      · cases hop
    · rw [List.mem_singleton.mp hop]
      trivial

end

/-! ## Scenes -/

namespace Mem

variable [JsRuntime V] {m : Mem V}

omit [JsRuntime V] in
theorem scene_of_records {m' : Mem V} (hattempts : m'.attempts = m.attempts)
    (hqueue : m'.attemptQueue = m.attemptQueue) (hruns : m'.runs = m.runs)
    (hchildren : m'.children = m.children) : m'.scene = m.scene := by
  simp only [scene, hattempts, hqueue, hruns, hchildren]

omit [JsRuntime V] in
theorem settleNode_scene (runId nodeName : String) (change : StoredNode V → StoredNode V) :
    (m.settleNode runId nodeName change).2.scene = m.scene := by
  have hrecords := m.settleNode_records runId nodeName change
  have hqueue := congrArg Apparatus.attemptQueue (m.settleNode_apparatus runId nodeName change)
  exact scene_of_records (congrArg Records.attempts hrecords) hqueue
    (congrArg Records.runs hrecords) (congrArg Records.children hrecords)

omit [JsRuntime V] in
theorem settleNodeChild_scene (runId nodeName key : String)
    {change : StoredNodeChild V → StoredNodeChild V}
    (hchange : ∀ child, (change child).view = child.view) :
    (m.settleNodeChild runId nodeName key change).2.scene = m.scene := by
  have hrecords := m.settleNodeChild_records runId nodeName key change
  have hqueue := congrArg Apparatus.attemptQueue
    (m.settleNodeChild_apparatus runId nodeName key change)
  refine Scene.ext (congrArg Records.attempts hrecords) hqueue ?_ (funext fun other => ?_)
  · exact funext fun other =>
      congrArg (fun s : Records V => (s.runs.get? other).map StoredRun.origin) hrecords
  · unfold settleNodeChild
    dsimp only
    split
    · rfl
    · next child hget =>
      split
      · rfl
      · simp only [scene, updateChild, OrdMap.get?_set]
        split
        · next hsame =>
          rw [hsame, hget]
          exact congrArg some (hchange child)
        · rfl

theorem settleRun_scene (runId : String) {change : StoredRun V → StoredRun V}
    (hchange : ∀ run, (change run).origin = run.origin) :
    (m.settleRun runId change).2.scene = m.scene := by
  have hrecords := m.settleRun_records runId change
  have hqueue := congrArg Apparatus.attemptQueue (m.settleRun_apparatus runId change)
  refine Scene.ext (congrArg Records.attempts hrecords) hqueue (funext fun other => ?_) ?_
  · unfold settleRun
    split
    · rfl
    · next run hget =>
      split
      · rfl
      · simp only [scene, releaseActiveUniqueKey, updateRun, OrdMap.get?_set]
        split
        · next hsame =>
          rw [hsame, hget]
          exact congrArg some (hchange run)
        · rfl
  · exact funext fun other =>
      congrArg (fun s : Records V => (s.children.get? other).map StoredNodeChild.view) hrecords

/-- The run that a settlement returns is the stored one. -/
theorem settleRun_origin (runId : String) {change : StoredRun V → StoredRun V}
    (hchange : ∀ run, (change run).origin = run.origin) :
    (m.settleRun runId change).1.map StoredRun.origin = m.scene.origins runId := by
  unfold settleRun
  split
  · next hnone => simp only [scene, hnone, Option.map_none]
  · next run hget =>
    split
    · simp only [scene, hget]
    · simp only [scene, hget, Option.map_some]
      exact congrArg some (hchange run)

/-- An operation that leaves a mark leaves the scene as it is. -/
theorem scene_marks {command : AttemptCommand V} {op : PassOp V} (hop : op.Marks command)
    (user : UserCode V) : (op.exec user m).2.scene = m.scene := by
  cases op with
  | callback => cases hop
  | dateNow => rfl
  | store op =>
    cases op with
    | loadRunSnapshot => rfl
    | completeNodeChild | failNodeChild => exact settleNodeChild_scene _ _ _ fun _ => rfl
    | completeNode | failNode => exact settleNode_scene _ _ _
    | completeRun | failRun => exact settleRun_scene _ fun _ => rfl
    | _ => cases hop
  | executor op =>
    cases op with
    | enqueue command runAt =>
      have hrecords := (m.execExecutor_quiet (.enqueue command runAt)).records
      exact scene_of_records (congrArg Records.attempts hrecords)
        (m.execExecutor_attemptQueue rfl) (congrArg Records.runs hrecords)
        (congrArg Records.children hrecords)
    | _ => cases hop

variable {ops : List (PassOp V)} {user : UserCode V}

theorem run_scene_marks {command : AttemptCommand V} (hops : ∀ op ∈ ops, op.Marks command) :
    (Trace.run (Program.effect (PassOp.exec user)) m ops).scene = m.scene := by
  refine Trace.run_inv (Program.effect (PassOp.exec user)) (P := fun op => op.Marks command)
    (I := fun m' => m'.scene = m.scene) (fun m' op hop hm' => ?_) hops rfl
  exact (scene_marks hop user).trans hm'

theorem run_outcome_marks {claimed : Claimed (AttemptCommand V)}
    (hops : ∀ op ∈ ops, op.Marks claimed.command) :
    (Trace.run (Program.effect (PassOp.exec user)) m ops).outcome claimed =
      Trace.run Outcome.mark (m.outcome claimed) (ops.map PassOp.mark) := by
  induction ops generalizing m with
  | nil => rfl
  | cons op ops ih =>
    have hop : (Program.effect (PassOp.exec user) m op).outcome claimed =
        (m.outcome claimed).mark op.mark := outcome_marks (hops op List.mem_cons_self) user
    rw [Trace.run_cons, ih fun other hother => hops other (List.mem_cons_of_mem op hother), hop]
    rfl

/-- The command is claimed with the token of the claim. -/
def Held (m : Mem V) (claimed : Claimed (AttemptCommand V)) : Prop :=
  ∃ item, m.attemptQueue.claimed.get? claimed.id = some item ∧
    item.leaseToken = claimed.leaseToken ∧ item.payload = claimed.command

omit [JsRuntime V] in
theorem Held.of_claimed {m' : Mem V} {claimed : Claimed (AttemptCommand V)} (h : m.Held claimed)
    (hclaimed : m'.attemptQueue.claimed = m.attemptQueue.claimed) : m'.Held claimed := by
  unfold Held
  rwa [hclaimed]

omit [JsRuntime V] in
theorem Held.of_scene {m' : Mem V} {claimed : Claimed (AttemptCommand V)} (h : m.Held claimed)
    (hscene : m'.scene = m.scene) : m'.Held claimed :=
  h.of_claimed (congrArg (fun s : Scene V => s.queue.claimed) hscene)

end Mem

/-! ## The programs of the worker -/

section

open Program

variable [JsRuntime V] {m : Mem V} {user : UserCode V} {claimed : Claimed (AttemptCommand V)}
  {α : Type} {ops : List (PassOp V)}

theorem performs_store (op : StoreOp V) {f : op.Ret → Pass V α} {answer : op.Ret}
    {result : Except (Thrown V) α} (hanswer : (m.execStore op).1 = .ok answer)
    (h : Performs (PassOp.exec user) (m.execStore op).2 (f answer).run ops result) :
    Performs (PassOp.exec user) m (workflowStore op >>= f).run (.store op :: ops) result := by
  refine performs_perform ?_
  change Performs _ _ (ExceptT.bindCont f (m.execStore op).1) ops result
  rw [hanswer]
  exact h

theorem performs_executor (op : ExecutorOp V) {f : op.Ret → Pass V α} {answer : op.Ret}
    {result : Except (Thrown V) α} (hanswer : (m.execExecutor op).1 = .ok answer)
    (h : Performs (PassOp.exec user) (m.execExecutor op).2 (f answer).run ops result) :
    Performs (PassOp.exec user) m (executor op >>= f).run (.executor op :: ops) result := by
  refine performs_perform ?_
  change Performs _ _ (ExceptT.bindCont f (m.execExecutor op).1) ops result
  rw [hanswer]
  exact h

theorem performs_ack (h : m.Held claimed) :
    Performs (PassOp.exec user) m (ackTerminalAttempt claimed).run [.executor (.ackAttempt claimed)]
      (.ok .processed) := by
  obtain ⟨item, hget, htoken, -⟩ := h
  have hmatches : matchesClaim (m.claimedAttemptCommands.get? claimed.id) claimed = true :=
    Mem.matchesClaim_eq_true.mpr ⟨item, hget, htoken⟩
  have hanswer : (m.execExecutor (.ackAttempt claimed)).1 = .ok () := by
    simp only [Mem.execExecutor, Mem.ackAttempt, hmatches, if_true]
    rfl
  exact performs_executor _ hanswer (performs_pure _)

theorem performs_wakeParentRun {run : Option (StoredRun V)} {runId : String}
    (hrun : run.map StoredRun.origin = m.scene.origins runId) :
    Performs (PassOp.exec user) m (wakeParentRun run).run (wakeParentOps m.scene.origins runId)
      (.ok ()) := by
  have hid : run.bind StoredRun.parentRunId = (m.scene.origins runId).bind RunOrigin.parentRunId := by
    rw [← hrun]
    cases run <;> rfl
  have hname : run.bind StoredRun.parentNodeName =
      (m.scene.origins runId).bind RunOrigin.parentNodeName := by
    rw [← hrun]
    cases run <;> rfl
  unfold wakeParentRun wakeParentOps
  rw [hid, hname]
  generalize (m.scene.origins runId).bind RunOrigin.parentRunId = parentRunId
  generalize (m.scene.origins runId).bind RunOrigin.parentNodeName = parentNodeName
  rcases parentRunId with _ | parentRunId
  · exact performs_pure _
  rcases parentNodeName with _ | parentNodeName
  · exact performs_pure _
  dsimp only
  split
  · exact performs_pure _
  · refine performs_store (.loadRunSnapshot parentRunId) rfl ?_
    simp only [Mem.execStore, Mem.returning, Mem.loadRunSnapshot, Mem.scene]
    cases m.runs.get? parentRunId with
    | none => exact performs_pure _
    | some parent => exact ⟨rfl, rfl⟩

/-- A program that goes on after the operations `ops`, which leave marks only. -/
theorem performs_bind_marks {x : Pass V Unit} {f : Unit → Pass V α} {ops' : List (PassOp V)}
    {result : Except (Thrown V) α} (h : Performs (PassOp.exec user) m x.run ops (.ok ()))
    {command : AttemptCommand V} (hops : ∀ op ∈ ops, op.Marks command)
    (hf : ∀ m' : Mem V, m'.scene = m.scene →
      Performs (PassOp.exec user) m' (f ()).run ops' result) :
    Performs (PassOp.exec user) m (x >>= f).run (ops ++ ops') result :=
  h.bind_ok (hf _ (Mem.run_scene_marks hops))

/-- The end of a path in a task run, before `next`. -/
theorem performs_closeTask (claimed : Claimed (AttemptCommand V)) (next : Unit → Pass V α)
    {ops' : List (PassOp V)} {final : Except (Thrown V) α} (result : Except (Thrown V) V)
    (hnext : ∀ m' : Mem V, m'.scene = m.scene →
      Performs (PassOp.exec user) m' (next ()).run ops' final) :
    Performs (PassOp.exec user) m
      (match result with
      | .ok output => do
        let _ ← workflowStore (.completeNode claimed.command.runId claimed.command.nodeName output)
        let run : Option (StoredRun V) ← workflowStore (.completeRun claimed.command.runId output)
        wakeParentRun run
        next ()
      | .error error => do
        let _ ← workflowStore (.failNode claimed.command.runId claimed.command.nodeName error)
        let run : Option (StoredRun V) ← workflowStore (.failRun claimed.command.runId error)
        wakeParentRun run
        next () : Pass V α).run
      (closingOps claimed.command m.scene.origins .task result ++ ops') final := by
  have hwake (m' m₁ : Mem V) (run : Option (StoredRun V))
      (hrun : run.map StoredRun.origin = m₁.scene.origins claimed.command.runId)
      (hfirst : m₁.scene = m.scene) (hscene : m'.scene = m₁.scene) :
      Performs (PassOp.exec user) m' (wakeParentRun run >>= next).run
        (wakeParentOps m.scene.origins claimed.command.runId ++ ops') final := by
    rw [← hscene] at hrun hfirst
    rw [← hfirst]
    have hmarks : ∀ op ∈ wakeParentOps m'.scene.origins claimed.command.runId,
        op.Marks claimed.command := marks_wakeParentOps _ _
    exact performs_bind_marks (performs_wakeParentRun hrun) hmarks fun m₂ hm₂ =>
      hnext m₂ (hm₂.trans hfirst)
  cases result with
  | ok output =>
    refine performs_store (.completeNode _ _ _) rfl (performs_store (.completeRun _ _) rfl ?_)
    exact hwake _ _ _ (Mem.settleRun_origin _ fun _ => rfl) (Mem.settleNode_scene _ _ _)
      (Mem.settleRun_scene _ fun _ => rfl)
  | error error =>
    refine performs_store (.failNode _ _ _) rfl (performs_store (.failRun _ _) rfl ?_)
    exact hwake _ _ _ (Mem.settleRun_origin _ fun _ => rfl) (Mem.settleNode_scene _ _ _)
      (Mem.settleRun_scene _ fun _ => rfl)

/-- The end of a path in a workflow run, before `next`. -/
theorem performs_closeWorkflow (claimed : Claimed (AttemptCommand V)) (next : Unit → Pass V α)
    {ops' : List (PassOp V)} {final : Except (Thrown V) α} (result : Except (Thrown V) V)
    (hnext : ∀ m' : Mem V, m'.scene = m.scene →
      Performs (PassOp.exec user) m' (next ()).run ops' final) :
    Performs (PassOp.exec user) m
      (match result with
      | .ok output => do
        if shouldCompleteNodeFromAttempt claimed.command.childKey then
          let _ ← workflowStore
            (.completeNode claimed.command.runId claimed.command.nodeName output)
        enqueueContinueRun claimed.command
        next ()
      | .error error => do
        if shouldCompleteNodeFromAttempt claimed.command.childKey then
          let _ ← workflowStore (.failNode claimed.command.runId claimed.command.nodeName error)
        enqueueContinueRun claimed.command
        next () : Pass V α).run
      (closingOps claimed.command m.scene.origins .workflow result ++ ops') final := by
  have hwake (m' : Mem V) (hscene : m'.scene = m.scene) :
      Performs (PassOp.exec user) m' (enqueueContinueRun claimed.command >>= next).run
        (.executor (.enqueue ⟨claimed.command.runId, claimed.command.workflowName⟩ none) :: ops')
        final := by
    have hmarks : (PassOp.executor (.enqueue
        ⟨claimed.command.runId, claimed.command.workflowName⟩ none) : PassOp V).Marks
        claimed.command := trivial
    exact performs_executor (.enqueue _ none) rfl
      (hnext _ ((Mem.scene_marks hmarks user).trans hscene))
  unfold closingOps
  cases result with
  | ok output =>
    dsimp only
    split
    · exact performs_store (.completeNode _ _ _) rfl (hwake _ (Mem.settleNode_scene _ _ _))
    · exact hwake m rfl
  | error error =>
    dsimp only
    split
    · exact performs_store (.failNode _ _ _) rfl (hwake _ (Mem.settleNode_scene _ _ _))
    · exact hwake m rfl

/-! ## The end of a handler -/

/-- What is done with the output of a handler. In `runActivityAttempt` the run is never a task
run. -/
def completeByKind (claimed : Claimed (AttemptCommand V)) (runKind : RunKind) (output : V) :
    Pass V WorkerCommandResult :=
  match runKind with
  | .task => completeTaskRun claimed output
  | .workflow => completeNodeFromAttempt claimed output

/-- What is left of an attempt once its handler has ended. -/
def completionPath (claimed : Claimed (AttemptCommand V)) (runKind : RunKind)
    (retry : Option RetryPolicy) (result : Except (Thrown V) V) : Pass V WorkerCommandResult :=
  completeByResult claimed (ExceptT.mk (.pure result)) runKind retry (completeByKind claimed runKind)

/-- The handler has ended with an output or an error of its own, or by its timer: the worker still
holds its lease, is not shutting down and has observed no cancellation. -/
def completes : Except (Thrown V) V → Bool
  | .ok _ => true
  | .error error => !isAttemptHeartbeatLeaseLost error && !isAttemptShutdown error &&
    !isAttemptCancellationObserved error

/-- The settlement of the attempt. -/
def settleOp (command : AttemptCommand V) : Except (Thrown V) V → StoreOp V
  | .ok output => .completeCurrentAttempt command.attemptId command.leaseToken output
  | .error error =>
    if isAttemptTimeout error then
      .timeoutCurrentAttempt command.attemptId command.leaseToken error
    else .failCurrentAttempt command.attemptId command.leaseToken error

/-- The attempt that retries a failed one. -/
def retryParams (command : AttemptCommand V) (failed : StoredAttempt V) : ChildAttemptParams V where
  runId := command.runId
  nodeName := command.nodeName
  childKey := command.childKey
  input := failed.input
  idempotencyKey := failed.idempotencyKey

/-- `retryAttemptCore` with an attempt left. -/
def retryOps (m : Mem V) (command : AttemptCommand V) (failed : StoredAttempt V)
    (retry : Option RetryPolicy) : List (PassOp V) :=
  .store (.createAttempt (retryParams command failed)) ::
    match m.createAttempt (retryParams command failed) with
    | (.error _, _) => []
    | (.ok attempt, _) =>
      match retryDelayMs retry failed.attemptNumber with
      | none => [.executor (.dispatch (retryCommand command attempt) none)]
      | some delayMs =>
        [.dateNow, .executor (.dispatch (retryCommand command attempt)
          (some (dateAfter m.clock delayMs)))]

/-- The operation creates an attempt or dispatches one. -/
def PassOp.retries : PassOp V → Bool
  | .store (.createAttempt _) | .executor (.dispatch _ _) => true
  | _ => false

/-- Everything that follows the settlement `settled` of an attempt, up to the acknowledgement. -/
def afterSettleOps (m : Mem V) (command : AttemptCommand V) (settled : StoredAttempt V)
    (runKind : RunKind) (retry : Option RetryPolicy) : Except (Thrown V) V → List (PassOp V)
  | .ok output => closingOps command m.scene.origins runKind (.ok output)
  | .error error =>
    if shouldRetryAttempt settled retry then retryOps m command settled retry
    else childOp command (.error error) ::
      closingOps command m.scene.origins runKind (.error error)

end

/-! ## The settled attempt -/

/-- The attempt has ended with the result of its handler. -/
def StoredAttempt.EndedWith [JsRuntime V] (attempt : StoredAttempt V) :
    Except (Thrown V) V → Prop
  | .ok output => attempt.status = .completed ∧ attempt.output = some output
  | .error error =>
    isFailedAttemptStatus attempt.status ∧ attempt.error = some (toStoredError error)

/-- The claimed command is for the current attempt of a child, and it may still be settled. -/
structure Mem.Completing [JsRuntime V] (m : Mem V) (claimed : Claimed (AttemptCommand V))
    (run : StoredRun V) : Prop where
  commanded : m.Commanded
  held : m.Held claimed
  stored : m.runs.get? claimed.command.runId = some run
  fenced : ∃ attempt child, m.fencedCurrentAttempt claimed.command.attemptId
      claimed.command.leaseToken = some (attempt, child) ∧
    attempt.runId = claimed.command.runId ∧ attempt.nodeName = claimed.command.nodeName ∧
    attempt.childKey = claimed.command.childKey
  self : run.kind = .task → claimed.command.childKey = SELF_CHILD_KEY
  activity : ∀ activityName, claimed.command.target = .activity activityName → run.kind = .workflow

/-- The attempt of the command is settled and still the current one of its child. -/
structure Scene.Settled [JsRuntime V] (s : Scene V) (command : AttemptCommand V)
    (attempt : StoredAttempt V) (result : Except (Thrown V) V) : Prop where
  stored : s.attempts.get? command.attemptId = some attempt
  owner : attempt.runId = command.runId
  ended : attempt.EndedWith result
  child : s.children (attemptChildKey command) =
    some (command.runId, command.nodeName, command.childKey, some command.attemptId)

namespace Mem

variable [JsRuntime V] {m : Mem V} {claimed : Claimed (AttemptCommand V)} {run : StoredRun V}

omit [JsRuntime V] in
theorem Completing.fenced_child [JsRuntime V] (h : m.Completing claimed run) :
    ∃ attempt child, m.attempts.get? claimed.command.attemptId = some attempt ∧
      m.fencedCurrentAttempt claimed.command.attemptId claimed.command.leaseToken =
        some (attempt, child) ∧
      attempt.runId = claimed.command.runId ∧
      m.children.get? (attemptChildKey claimed.command) = some child ∧
      child.view = (claimed.command.runId, claimed.command.nodeName, claimed.command.childKey,
        some claimed.command.attemptId) ∧ isTerminalNodeStatus child.status = false := by
  obtain ⟨attempt, child, hfenced, hrun, hnode, hkey⟩ := h.fenced
  obtain ⟨hattempt, -, -, hchild, hlive, hcurrent⟩ := fencedCurrentAttempt_eq_some.mp hfenced
  rw [hrun, hnode, hkey] at hchild
  have hsound := h.commanded.sound
  obtain ⟨key, owner, howner, hof, -⟩ := hsound.attempts.owned _ _ hattempt
  have hsame : key = attemptChildKey claimed.command := by
    rw [← hsound.sound.keyed.children howner, ← hof.1, ← hof.2.1, ← hof.2.2, hrun, hnode, hkey]
    rfl
  rw [hsame] at howner
  obtain rfl : owner = child := Option.some.inj (howner.symm.trans hchild)
  refine ⟨attempt, owner, hattempt, hfenced, hrun, hchild, ?_, hlive⟩
  rw [StoredNodeChild.view, ← hof.1, ← hof.2.1, ← hof.2.2, hrun, hnode, hkey, hcurrent]

/-- What the settlement of the attempt changes. Only an output settles the child with it. -/
structure Settles (m m' : Mem V) (command : AttemptCommand V) (settled : StoredAttempt V)
    (result : Except (Thrown V) V) : Prop where
  scene : m'.scene.Settled command settled result
  runs : m'.runs = m.runs
  queue : m'.attemptQueue = m.attemptQueue
  nextId : m'.nextId = m.nextId
  clock : m'.clock = m.clock
  child : ∃ child, m'.children.get? (attemptChildKey command) = some child ∧
    isTerminalNodeStatus child.status = result.isOk

theorem completeCurrentAttempt_settles (h : m.Completing claimed run) (output : V) :
    ∃ settled m', m.completeCurrentAttempt claimed.command.attemptId claimed.command.leaseToken
        output = (some settled, m') ∧ Settles m m' claimed.command settled (.ok output) := by
  obtain ⟨attempt, child, hattempt, hfenced, hrun, hchild, hview, -⟩ := h.fenced_child
  have hkey : childKey child.runId child.nodeName child.childKey =
      attemptChildKey claimed.command := h.commanded.sound.sound.keyed.children hchild
  simp only [completeCurrentAttempt, hfenced]
  refine ⟨_, _, rfl, ⟨⟨OrdMap.get?_set_self _ _ _, hrun, ⟨rfl, rfl⟩, ?_⟩, rfl, rfl, rfl, rfl, ?_⟩⟩
  · simp only [scene, updateChild, hkey, OrdMap.get?_set_self]
    exact congrArg some hview
  · simp only [updateChild, hkey, OrdMap.get?_set_self]
    exact ⟨_, rfl, rfl⟩

theorem failCurrentAttemptAs_settles (h : m.Completing claimed run) {status : RuntimeAttemptStatus}
    (hstatus : isFailedAttemptStatus status) (error : Thrown V) :
    ∃ settled m', m.failCurrentAttemptAs status claimed.command.attemptId
        claimed.command.leaseToken error = (some settled, m') ∧
      Settles m m' claimed.command settled (.error error) := by
  obtain ⟨attempt, child, hattempt, hfenced, hrun, hchild, hview, hlive⟩ := h.fenced_child
  simp only [failCurrentAttemptAs, hfenced]
  refine ⟨_, _, rfl, ⟨⟨OrdMap.get?_set_self _ _ _, hrun, ⟨hstatus, rfl⟩, ?_⟩, rfl, rfl, rfl, rfl,
    child, hchild, hlive⟩⟩
  exact (congrArg (Option.map StoredNodeChild.view) hchild).trans (congrArg some hview)

end Mem

section

open Program

variable [JsRuntime V] {m m' : Mem V} {user : UserCode V} {claimed : Claimed (AttemptCommand V)}
  {run : StoredRun V} {retry : Option RetryPolicy} {settled : StoredAttempt V}

theorem performs_completeByKind (output : V) (h : m.Held claimed) (runKind : RunKind) :
    Performs (PassOp.exec user) m (completeByKind claimed runKind output).run
      (closingOps claimed.command m.scene.origins runKind (.ok output) ++
        [.executor (.ackAttempt claimed)]) (.ok .processed) := by
  cases runKind with
  | task =>
    exact performs_closeTask claimed (fun _ => ackTerminalAttempt claimed) (.ok output)
      fun m' hscene => performs_ack (h.of_scene hscene)
  | workflow =>
    exact performs_closeWorkflow claimed (fun _ => ackTerminalAttempt claimed) (.ok output)
      fun m' hscene => performs_ack (h.of_scene hscene)

theorem performs_failNodeFromAttempt (error : Thrown V) (runKind : RunKind)
    (hself : runKind = .task → claimed.command.childKey = SELF_CHILD_KEY) :
    Performs (PassOp.exec user) m (failNodeFromAttempt claimed.command runKind error).run
      (childOp claimed.command (.error error) ::
        closingOps claimed.command m.scene.origins runKind (.error error)) (.ok ()) := by
  have hscene : (m.execStore (.failNodeChild claimed.command.runId claimed.command.nodeName
      claimed.command.childKey error)).2.scene = m.scene :=
    Mem.settleNodeChild_scene _ _ _ fun _ => rfl
  refine performs_store (.failNodeChild _ _ _ _) rfl ?_
  rw [← hscene]
  generalize (m.execStore (.failNodeChild claimed.command.runId claimed.command.nodeName
    claimed.command.childKey error)).2 = m₁
  cases runKind with
  | task =>
    have hself : shouldCompleteNodeFromAttempt claimed.command.childKey = true := by
      rw [hself rfl]
      decide
    have hclose : Performs (PassOp.exec user) m₁ _ _ _ :=
      performs_closeTask claimed pure (.error error) fun _ _ => performs_pure _
    simpa only [hself, if_true, bind_pure_unit, List.append_nil] using hclose
  | workflow =>
    have hclose : Performs (PassOp.exec user) m₁ _ _ _ :=
      performs_closeWorkflow claimed pure (.error error) fun _ _ => performs_pure _
    simpa only [bind_pure_unit, List.append_nil] using hclose

omit [JsRuntime V] in
/-- A child that is not terminal gets its next attempt. -/
theorem Mem.createAttempt_eq_ok {params : ChildAttemptParams V} {child : StoredNodeChild V}
    (hget : m.children.get? (childKey params.runId params.nodeName params.childKey) = some child)
    (hlive : isTerminalNodeStatus child.status = false) :
    m.createAttempt params =
      (.ok (m.createChildAttempt child params.input params.idempotencyKey).1,
        (m.createChildAttempt child params.input params.idempotencyKey).2) := by
  unfold Mem.createAttempt
  dsimp only
  rw [hget]
  simp only [hlive, Bool.false_eq_true, if_false]

theorem performs_retryAttemptCore (hretry : shouldRetryAttempt settled retry = true)
    {child : StoredNodeChild V}
    (hget : m.children.get? (attemptChildKey claimed.command) = some child)
    (hlive : isTerminalNodeStatus child.status = false) :
    Performs (PassOp.exec user) m (retryAttemptCore claimed.command settled retry).run
      (retryOps m claimed.command settled retry) (.ok true) := by
  have hclock : (m.createChildAttempt child settled.input settled.idempotencyKey).2.clock =
      m.clock := congrArg Apparatus.clock (m.createChildAttempt_apparatus _ _ _)
  have hcreate : m.createAttempt (retryParams claimed.command settled) = _ :=
    Mem.createAttempt_eq_ok hget hlive
  unfold retryAttemptCore retryOps
  rw [hretry, hcreate]
  refine performs_store (.createAttempt _) (congrArg Prod.fst hcreate) ?_
  unfold retryDispatchOptions
  cases retryDelayMs retry settled.attemptNumber with
  | none => exact performs_executor (.dispatch _ none) rfl (performs_pure _)
  | some delayMs =>
    have hdispatch (m' : Mem V) (runAt : Nat) (hrunAt : runAt = dateAfter m.clock delayMs) :
        Performs (PassOp.exec user) m'
          (executor (.dispatch (retryCommand claimed.command
              (m.createChildAttempt child settled.input settled.idempotencyKey).1) (some runAt)) >>=
            fun _ => pure true : Pass V Bool).run
          [.executor (.dispatch (retryCommand claimed.command
            (m.createChildAttempt child settled.input settled.idempotencyKey).1)
            (some (dateAfter m.clock delayMs)))] (.ok true) := by
      rw [hrunAt]
      exact performs_executor (.dispatch _ _) rfl (performs_pure _)
    refine performs_perform (hdispatch _ _ (congrArg (dateAfter · delayMs) ?_))
    exact (congrArg (fun result => result.2.clock) hcreate).trans hclock

theorem claimed_retries {op : PassOp V} (hop : op.retries ∨ op = .dateNow) :
    (Program.effect (PassOp.exec user) m op).attemptQueue.claimed = m.attemptQueue.claimed := by
  rcases hop with hop | rfl
  · cases op with
    | callback | dateNow => cases hop
    | store op =>
      cases op with
      | createAttempt params =>
        have happaratus := m.execStore_apparatus (show (StoreOp.createAttempt params).isRecordOp = true from rfl)
        exact congrArg (fun a : Apparatus V => a.attemptQueue.claimed) happaratus
      | _ => cases hop
    | executor op =>
      cases op with
      | dispatch command runAt =>
        change (m.dispatchAttempt command runAt).claimedAttemptCommands = m.claimedAttemptCommands
        unfold Mem.dispatchAttempt
        split <;> rfl
      | _ => cases hop
  · rfl

omit [JsRuntime V] in
theorem retries_retryOps {command : AttemptCommand V} :
    ∀ op ∈ retryOps m command settled retry, op.retries ∨ op = .dateNow := by
  unfold retryOps
  intro op hop
  rcases List.mem_cons.mp hop with rfl | hop
  · exact .inl rfl
  split at hop
  · cases hop
  split at hop
  · rw [List.mem_singleton.mp hop]
    exact .inl rfl
  · rcases List.mem_cons.mp hop with rfl | hop
    · exact .inr rfl
    · rw [List.mem_singleton.mp hop]
      exact .inl rfl

/-- What `completeFailedAttempt` does once the attempt is settled. -/
theorem performs_afterFailure {error : Thrown V} (hheld : m.Held claimed)
    (hself : run.kind = .task → claimed.command.childKey = SELF_CHILD_KEY)
    {child : StoredNodeChild V}
    (hget : m.children.get? (attemptChildKey claimed.command) = some child)
    (hlive : isTerminalNodeStatus child.status = false) :
    Performs (PassOp.exec user) m (do
        let retried ← retryAttemptCore claimed.command settled retry
        if !retried then failNodeFromAttempt claimed.command run.kind error
        ackTerminalAttempt claimed : Pass V WorkerCommandResult).run
      (afterSettleOps m claimed.command settled run.kind retry (.error error) ++
        [.executor (.ackAttempt claimed)]) (.ok .processed) := by
  unfold afterSettleOps
  dsimp only
  split
  · next hretry =>
    refine (performs_retryAttemptCore hretry hget hlive).bind_ok (performs_ack ?_)
    exact hheld.of_claimed (Trace.run_inv (Program.effect (PassOp.exec user))
      (I := fun m' => m'.attemptQueue.claimed = m.attemptQueue.claimed)
      (fun _ _ hop hm => (claimed_retries hop).trans hm) retries_retryOps rfl)
  · next hretry =>
    have hnot : retryAttemptCore claimed.command settled retry = (pure false : Pass V Bool) := by
      unfold retryAttemptCore
      rw [Bool.eq_false_iff.mpr hretry]
      rfl
    rw [hnot]
    have hmarks : ∀ op ∈ childOp claimed.command (.error error) ::
        closingOps claimed.command m.scene.origins run.kind (.error error),
        op.Marks claimed.command :=
      List.forall_mem_cons.mpr ⟨marks_childOp _, marks_closingOps _ _ _⟩
    exact performs_bind_marks (performs_failNodeFromAttempt error run.kind hself) hmarks
      fun m' hscene => performs_ack (hheld.of_scene hscene)

theorem performs_settleFailedAttempt (h : m.Completing claimed run) (user : UserCode V)
    (error : Thrown V) :
    ∃ settled m', Program.effect (PassOp.exec user) m
        (.store (settleOp claimed.command (.error error))) = m' ∧
      Mem.Settles m m' claimed.command settled (.error error) ∧
      Performs (PassOp.exec user) m (settleFailedAttempt claimed.command error).run
        [.store (settleOp claimed.command (.error error))] (.ok (some settled)) := by
  by_cases htimeout : isAttemptTimeout error
  · have hop : settleOp claimed.command (.error error) = .timeoutCurrentAttempt
        claimed.command.attemptId claimed.command.leaseToken error := if_pos htimeout
    have hpass : settleFailedAttempt claimed.command error = workflowStore
        (.timeoutCurrentAttempt claimed.command.attemptId claimed.command.leaseToken error) :=
      if_pos htimeout
    obtain ⟨settled, m', hsettle, hsettles⟩ := Mem.failCurrentAttemptAs_settles h
      (show isFailedAttemptStatus .timedOut from rfl) error
    have hexec : m.execStore (.timeoutCurrentAttempt claimed.command.attemptId
        claimed.command.leaseToken error) = (.ok (some settled), m') :=
      congrArg Mem.returning hsettle
    rw [hop, hpass]
    exact ⟨settled, m', congrArg Prod.snd hexec, hsettles, rfl,
      congrArg some (congrArg Prod.fst hexec)⟩
  · have hop : settleOp claimed.command (.error error) = .failCurrentAttempt
        claimed.command.attemptId claimed.command.leaseToken error := if_neg htimeout
    have hpass : settleFailedAttempt claimed.command error = workflowStore
        (.failCurrentAttempt claimed.command.attemptId claimed.command.leaseToken error) :=
      if_neg htimeout
    obtain ⟨settled, m', hsettle, hsettles⟩ := Mem.failCurrentAttemptAs_settles h
      (show isFailedAttemptStatus .failed from rfl) error
    have hexec : m.execStore (.failCurrentAttempt claimed.command.attemptId
        claimed.command.leaseToken error) = (.ok (some settled), m') :=
      congrArg Mem.returning hsettle
    rw [hop, hpass]
    exact ⟨settled, m', congrArg Prod.snd hexec, hsettles, rfl,
      congrArg some (congrArg Prod.fst hexec)⟩

omit [JsRuntime V] in
theorem completionPath_error [JsRuntime V] {error : Thrown V} {runKind : RunKind}
    (h : completes (.error error)) : completionPath claimed runKind retry (.error error) =
      completeFailedAttempt claimed runKind retry error := by
  simp only [completes, Bool.and_eq_true, Bool.not_eq_true'] at h
  obtain ⟨⟨hlost, hshutdown⟩, hobserved⟩ := h
  change (if isAttemptHeartbeatLeaseLost error || isAttemptShutdown error then throw error
    else if isAttemptCancellationObserved error then ackTerminalAttempt claimed
    else completeFailedAttempt claimed runKind retry error) = _
  rw [hlost, hshutdown, hobserved]
  rfl

/-- The path of a completion: the attempt is settled, and what follows is determined by that. -/
theorem performs_completionPath (h : m.Completing claimed run) (user : UserCode V)
    (retry : Option RetryPolicy) {result : Except (Thrown V) V} (hcompletes : completes result) :
    ∃ settled m', Program.effect (PassOp.exec user) m (.store (settleOp claimed.command result)) = m' ∧
      Mem.Settles m m' claimed.command settled result ∧
      Performs (PassOp.exec user) m (completionPath claimed run.kind retry result).run
        (.store (settleOp claimed.command result) ::
          (afterSettleOps m' claimed.command settled run.kind retry result ++
            [.executor (.ackAttempt claimed)])) (.ok .processed) := by
  cases result with
  | ok output =>
    obtain ⟨settled, m', hsettle, hsettles⟩ := Mem.completeCurrentAttempt_settles h output
    have hexec : m.execStore (.completeCurrentAttempt claimed.command.attemptId
        claimed.command.leaseToken output) = (.ok (some settled), m') :=
      congrArg Mem.returning hsettle
    refine ⟨settled, m', congrArg Prod.snd hexec, hsettles,
      performs_store _ (congrArg Prod.fst hexec) ?_⟩
    rw [hexec]
    exact performs_completeByKind output (h.held.of_claimed (congrArg CommandQueue.claimed hsettles.queue)) run.kind
  | error error =>
    rw [completionPath_error hcompletes, completeFailedAttempt]
    obtain ⟨settled, m', heffect, hsettles, hfirst⟩ :=
      performs_settleFailedAttempt h user error
    obtain ⟨child, hget, hlive⟩ := hsettles.child
    refine ⟨settled, m', heffect, hsettles, hfirst.bind_ok ?_⟩
    rw [Trace.run_cons, heffect]
    exact performs_afterFailure (h.held.of_claimed (congrArg CommandQueue.claimed hsettles.queue))
      h.self hget hlive

end

end Neemata.Workflows
