import Neemata.Workflows.Coordinator.Continuation

/-!
# What a pass does besides

Most of a pass reads, settles, wakes and dispatches. Only a few of its steps create a node of its
workflow, complete one, or start a child run; the rest is quiet, or keeps the house.
-/

namespace Neemata.Workflows

variable {V : Type}

/-- Creates no node of a workflow, no child of one and no child run, completes no node, and leaves
runs and leases to others. -/
def StoreOp.KeepsHouse : StoreOp V → Prop
  | .createNode input => input.name = TASK_RUN_NODE_NAME
  | .ensureNodeChildren _ nodeName children =>
    nodeName = TASK_RUN_NODE_NAME ∧ children = [{ childKey := SELF_CHILD_KEY, kind := .task }]
  | .completeNode _ _ _ | .ensureChildRun _ | .acquireRunLease _ _ | .releaseRunLease _
  | .createRun _ | .deleteRun _ | .pruneTerminalRuns _ => False
  | _ => True

/-- And does not read children or runs. -/
def StoreOp.IsQuiet : StoreOp V → Prop
  | .loadNodeChildren _ _ | .loadRuns _ => False
  | op => op.KeepsHouse

def PassOp.KeepsHouse : PassOp V → Prop
  | .store op => op.KeepsHouse
  | _ => True

def PassOp.IsQuiet : PassOp V → Prop
  | .store op => op.IsQuiet
  | _ => True

theorem PassOp.IsQuiet.keepsHouse {op : PassOp V} (h : op.IsQuiet) : op.KeepsHouse := by
  cases op with
  | store op => cases op <;> first | exact h | exact h.elim
  | executor | callback | dateNow => trivial

abbrev Quiet {α : Type} (pass : Pass V α) : Prop := Program.Only PassOp.IsQuiet pass

abbrev KeepsHouse {α : Type} (pass : Pass V α) : Prop := Program.Only PassOp.KeepsHouse pass

theorem Quiet.keepsHouse {α : Type} {pass : Pass V α} (h : Quiet pass) : KeepsHouse pass :=
  Program.Only.mono h fun _ => PassOp.IsQuiet.keepsHouse

/-- The store of a pass: the one behind its lease. -/
def BehindLease (store : WorkflowStore V) : Prop :=
  ∃ lease leaseMs, store = createRunLeaseFencedStore workflowStore lease leaseMs

open Program

theorem only_workflowStore {some : PassOp V → Prop} {op : StoreOp V} (h : some (.store op)) :
    Only some (workflowStore op) :=
  ⟨h, fun _ _ => trivial⟩

theorem BehindLease.only {store : WorkflowStore V} (h : BehindLease store)
    {some : PassOp V → Prop}
    (hrenew : ∀ lease leaseMs, some (.store (.renewRunLease lease leaseMs)))
    {op : StoreOp V} (hop : some (.store op)) : Only some (store op) := by
  obtain ⟨lease, leaseMs, rfl⟩ := h
  unfold createRunLeaseFencedStore
  split
  · refine (only_workflowStore (hrenew lease leaseMs)).bind fun renewedLease => ?_
    cases renewedLease with
    | none => exact only_throw _
    | some _ => exact only_workflowStore hop
  · exact only_workflowStore hop

theorem BehindLease.quiet {store : WorkflowStore V} (h : BehindLease store) {op : StoreOp V}
    (hop : op.IsQuiet) : Quiet (store op) :=
  h.only (fun _ _ => trivial) hop

theorem quiet_executor (op : ExecutorOp V) : Quiet (executor op) := ⟨trivial, fun _ _ => trivial⟩

theorem quiet_userCode (call : Callback V) : Quiet (userCode call) := ⟨trivial, fun _ _ => trivial⟩

/-! ## User code -/

theorem quiet_runWorkflowUserCallback {α : Type} {callback : Pass V α} (h : Quiet callback) :
    Quiet (runWorkflowUserCallback callback) :=
  h.tryCatch fun _ => only_throw _

theorem quiet_decodeSchemaValue (schema : Schema) (value : V) (label : String) :
    Quiet (decodeSchemaValue schema value label) :=
  Only.tryCatch (quiet_userCode _) fun _ => only_throw _

theorem quiet_decodeWorkflowUserSchemaValue (schema : Schema) (value : V) (label : String) :
    Quiet (decodeWorkflowUserSchemaValue schema value label) :=
  quiet_runWorkflowUserCallback (quiet_decodeSchemaValue schema value label)

theorem quiet_decodeItems (schema : Schema) (label : String) (index : Nat) (items : List V) :
    Quiet (decodeItems schema label index items) := by
  induction items generalizing index with
  | nil => exact only_pure _
  | cons item items ih =>
    exact (quiet_decodeSchemaValue schema item _).bind fun _ => (ih _).bind fun _ => only_pure _

theorem quiet_getWorkflowNodeDeclaration (workflow : WorkflowImplementation) (nodeName : String) :
    Quiet (getWorkflowNodeDeclaration workflow nodeName : Pass V _) := by
  unfold getWorkflowNodeDeclaration
  split
  · exact only_throw _
  · exact only_pure _

theorem quiet_resolveIdempotency (idempotency : Idempotency) (args : CallbackArgs V) :
    Quiet (resolveIdempotency idempotency args) := by
  cases idempotency with
  | absent => exact only_pure _
  | key callback => exact Only.map (quiet_runWorkflowUserCallback (quiet_userCode _))
  | invalid => exact only_throw _

theorem quiet_callInput (ctx : AdvanceCtx V) (input : Option StoredCallback) :
    Quiet (ctx.callInput input) := by
  cases input with
  | none => exact only_pure _
  | some callback => exact quiet_runWorkflowUserCallback (quiet_userCode _)

theorem quiet_resolveNodeInput (ctx : AdvanceCtx V) (existing : StoredNode V)
    (input : Option StoredCallback) : Quiet (ctx.resolveNodeInput existing input) := by
  unfold AdvanceCtx.resolveNodeInput
  split
  · exact only_pure _
  · exact quiet_callInput ctx input

theorem quiet_unlessAttempted {α : Type} (hasAttempt : Bool) (absent : α) {value : Pass V α}
    (h : Quiet value) : Quiet (unlessAttempted hasAttempt absent value) := by
  unfold unlessAttempted
  split
  · exact only_pure _
  · exact h

theorem quiet_memberInput (ctx : AdvanceCtx V) (node : ParallelNodeImplementation)
    (member : WorkflowCaseImplementation) (schema : Schema) (memberKey : String) :
    Quiet (memberInput ctx node member schema memberKey) :=
  (quiet_callInput ctx member.input).bind fun _ => quiet_decodeWorkflowUserSchemaValue _ _ _

/-! ## Ends of nodes and runs -/

theorem quiet_wakeParentRun (run : Option (StoredRun V)) : Quiet (wakeParentRun run) := by
  unfold wakeParentRun
  split
  · split
    · exact only_pure _
    · refine Only.bind (only_workflowStore trivial) fun parent => ?_
      cases parent with
      | none => exact only_pure _
      | some _ => exact quiet_executor _
  · exact only_pure _

section

variable {store : WorkflowStore V} (h : BehindLease store)
include h

theorem quiet_cancelChildRuns {cancel : String → Pass V (Option (StoredRun V))}
    (hcancel : ∀ runId, Quiet (cancel runId)) (children : List (StoredNodeChild V)) :
    Quiet (cancelChildRuns store cancel children) := by
  induction children with
  | nil => exact only_pure _
  | cons child children ih =>
    refine Only.bind ?_ fun _ => ih
    unfold cancelChildRun
    split
    · exact only_pure _
    · refine Only.bind (h.quiet trivial) fun childSnapshot => ?_
      cases childSnapshot with
      | none => exact only_pure _
      | some childSnapshot =>
        dsimp only
        split
        · exact only_pure _
        · refine Only.bind (h.quiet trivial) fun _ => ?_
          split
          · exact Only.bind (quiet_executor _) fun _ => (hcancel _).bind fun _ => only_pure _
          · exact (hcancel _).bind fun _ => only_pure _

theorem quiet_cancelRunTree (depth : Nat) (runId : String) :
    Quiet (cancelRunTree store depth runId) := by
  induction depth generalizing runId with
  | zero => exact trivial
  | succ depth ih =>
    refine Only.bind (h.quiet trivial) fun snapshot => ?_
    cases snapshot with
    | none => exact only_pure _
    | some snapshot =>
      by_cases hterminal : isTerminalRunStatus snapshot.run.status
      · simp only [hterminal]
        exact only_pure _
      · simp only [hterminal]
        exact Only.bind (h.quiet trivial) fun _ => Only.bind (h.quiet trivial) fun _ =>
          (quiet_cancelChildRuns h ih _).bind fun _ => Only.bind (quiet_executor _) fun _ =>
            h.quiet trivial

theorem keepsHouse_cancelNodeChildRunsAndCommands (depth : Nat) (runId nodeName : String) :
    KeepsHouse (cancelNodeChildRunsAndCommands store depth runId nodeName) :=
  Only.bind (h.only (fun _ _ => trivial) trivial) fun _ =>
    (quiet_cancelChildRuns h (quiet_cancelRunTree h depth) _).keepsHouse.bind fun _ =>
      Only.bind (quiet_executor _).keepsHouse fun _ => only_pure _

theorem keepsHouse_cancelFailedFanInNodeChildren (depth : Nat) (workflow : WorkflowImplementation)
    (runId : String) (node : StoredNode V) :
    KeepsHouse (cancelFailedFanInNodeChildren store depth workflow runId node) := by
  refine Only.bind ?_ fun should => ?_
  · refine (quiet_getWorkflowNodeDeclaration workflow node.name).keepsHouse.bind fun _ => ?_
    split <;> exact only_pure _
  · split
    · exact keepsHouse_cancelNodeChildRunsAndCommands h depth runId node.name
    · exact only_pure _

theorem quiet_completeRunAndWakeParent (runId : String) (output : V) :
    Quiet (completeRunAndWakeParent store runId output) :=
  Only.bind (h.quiet trivial) fun completed => quiet_wakeParentRun completed

theorem quiet_failRunAndWakeParent (runId : String) (error : Thrown V) :
    Quiet (failRunAndWakeParent store runId error) :=
  Only.bind (h.quiet trivial) fun failed => quiet_wakeParentRun failed

theorem quiet_cancelRunAndWakeParent (depth : Nat) (runId : String) :
    Quiet (cancelRunAndWakeParent store depth runId) :=
  (quiet_cancelRunTree h depth runId).bind fun cancelled => quiet_wakeParentRun cancelled

theorem quiet_failNodeAndRun (runId nodeName : String) (error : Thrown V) :
    Quiet (failNodeAndRun store runId nodeName error) :=
  Only.bind (h.quiet trivial) fun _ => quiet_failRunAndWakeParent h runId error

theorem quiet_cancelNodeAndRun (depth : Nat) (runId nodeName : String) :
    Quiet (cancelNodeAndRun store depth runId nodeName) :=
  Only.bind (h.quiet trivial) fun _ => quiet_cancelRunAndWakeParent h depth runId

theorem quiet_failMissingChildRun (parentRunId nodeName : String) (childKind : RunKind)
    (childRunId : String) :
    Quiet (failMissingChildRun store parentRunId nodeName childKind childRunId) :=
  quiet_failNodeAndRun h _ _ _

/-! ## Attempts -/

theorem quiet_dispatchAttempt (target : AttemptTarget)
    (workflowName runId nodeName childKey : String) (runAt : Option Nat)
    (throwOnDispatchFailure : Bool) {prepare : Pass V (PreparedAttempt V)}
    (hprepare : Quiet prepare) : Quiet (dispatchAttempt store target workflowName runId nodeName
      childKey runAt throwOnDispatchFailure prepare) := by
  refine hprepare.bind fun prepared => ?_
  split
  · exact only_pure _
  · refine Only.tryCatch (quiet_executor _) fun error => ?_
    split
    · exact Only.bind (h.quiet trivial) fun _ =>
        (quiet_failNodeAndRun h _ _ _).bind fun _ => only_throw _
    · exact only_throw _

theorem quiet_prepareAttempt (params : ChildAttemptParams V) :
    Quiet (prepareAttempt store params) :=
  Only.bind (h.quiet trivial) fun _ => only_pure _

theorem quiet_dispatchTaskRunAttempt (taskName taskRunId : String) (taskInput : V)
    (idempotencyKey : Option V) (timeout : Option String) (startAt : Option Nat)
    (throwOnDispatchFailure : Bool) :
    Quiet (dispatchTaskRunAttempt store taskName taskRunId taskInput idempotencyKey timeout startAt
      throwOnDispatchFailure) :=
  Only.bind (h.quiet rfl) fun _ => Only.bind (h.quiet trivial) fun _ =>
    Only.bind (h.quiet ⟨rfl, rfl⟩) fun _ =>
      quiet_dispatchAttempt h _ _ _ _ _ _ _ (quiet_prepareAttempt h _)

end

section

variable {ctx : AdvanceCtx V} (h : BehindLease ctx.store)
include h

theorem quiet_dispatchActivityChild (activityName nodeName childKey : String) (nodeInput : V)
    {idempotencyKey : Pass V (Option V)} (hkey : Quiet idempotencyKey) :
    Quiet (dispatchActivityChild ctx activityName nodeName childKey nodeInput idempotencyKey) :=
  quiet_dispatchAttempt h _ _ _ _ _ _ _ (hkey.bind fun _ => quiet_prepareAttempt h _)

theorem quiet_activityNodeInput (node : ActivityNodeImplementation) (existing : StoredNode V)
    (input : Schema) : Quiet (activityNodeInput ctx node existing input) := by
  unfold activityNodeInput
  split
  · exact only_pure _
  · exact (quiet_callInput ctx _).bind fun _ =>
      (quiet_decodeWorkflowUserSchemaValue _ _ _).bind fun _ =>
        Only.bind (h.quiet trivial) fun _ => only_pure _

theorem quiet_dispatchMemberRun [JsRuntime V] (cases : List (String × BranchCaseDefinition))
    (memberKey : String) (kind : RunKind) (target : RunnableDefinition)
    (runId workflowName : String) (taskInput : V) (idempotencyKey : Option V) :
    Quiet (dispatchMemberRun ctx cases memberKey kind target runId workflowName taskInput
      idempotencyKey) := by
  cases kind with
  | workflow => exact quiet_executor _
  | task => exact quiet_dispatchTaskRunAttempt h _ _ _ _ _ _ _

theorem quiet_dispatchItemRun (node : MapNodeImplementation) (childKind : RunKind)
    (timeout : Option String) (runId workflowName : String) (taskInput : V)
    (idempotencyKey : Option V) :
    Quiet (dispatchItemRun ctx node childKind timeout runId workflowName taskInput
      idempotencyKey) := by
  cases childKind with
  | workflow => exact quiet_executor _
  | task => exact quiet_dispatchTaskRunAttempt h _ _ _ _ _ _ _

theorem quiet_finishRun : Quiet (finishRun ctx) := by
  refine Only.bind (Only.tryCatch ?_ fun _ => only_pure _) fun output => ?_
  · refine Only.bind (quiet_userCode _) fun output => ?_
    split
    · exact only_pure _
    · exact (quiet_decodeWorkflowUserSchemaValue _ _ _).bind fun _ => only_pure _
  · split
    · exact (quiet_failRunAndWakeParent h _ _).bind fun _ => only_pure _
    · exact (quiet_completeRunAndWakeParent h _ _).bind fun _ => only_pure _

theorem keepsHouse_failMember (node : ParallelNodeImplementation) (child : StoredNodeChild V)
    (error : Thrown V) : KeepsHouse (failMember ctx node child error) :=
  Only.bind (h.only (fun _ _ => trivial) trivial) fun _ =>
    (keepsHouse_cancelNodeChildRunsAndCommands h _ _ _).bind fun _ =>
      (quiet_failNodeAndRun h _ _ _).keepsHouse

end

end Neemata.Workflows
