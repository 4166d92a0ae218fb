import Neemata.Workflows.Coordinator.Contract

/-!
# Nodes with one child keep to the contract

One lemma for each dispatcher. Each creates its node, may use its child, and goes on with the rest
of the workflow only after it has completed the node.
-/

namespace Neemata.Workflows

variable {V : Type} {runId : String} {workflow : WorkflowImplementation} {known : Knowledge V}

/-- The context is one of a pass over the run: nodes with an output are known to be closed. -/
structure AdvanceCtx.Fits (runId : String) (workflow : WorkflowImplementation) (ctx : AdvanceCtx V)
    (known : Knowledge V) : Prop where
  store : BehindLease ctx.store
  workflow : ctx.workflow = workflow
  run : ctx.run.id = runId
  rootRunId : ctx.run.rootRunId = known.rootRunId
  outputs : ∀ name, (ctx.outputs.get? name).isSome → name ∈ known.closed

namespace AdvanceCtx.Fits

variable {ctx : AdvanceCtx V}

theorem grow (h : ctx.Fits runId workflow known) {known' : Knowledge V}
    (hgrows : known.Grows known') : ctx.Fits runId workflow known' :=
  ⟨h.store, h.workflow, h.run, h.rootRunId.trans hgrows.rootRunId.symm, fun name hname =>
    hgrows.closed (h.outputs name hname)⟩

theorem withOutput (h : ctx.Fits runId workflow known) {nodeName : String}
    (hstored : nodeName ∈ known.stored) (output : V) :
    (ctx.withOutput nodeName output).Fits runId workflow (known.close nodeName) := by
  have hgrows := known.close_grows nodeName
  refine ⟨h.store, h.workflow, h.run, h.rootRunId.trans hgrows.rootRunId.symm, fun name hname => ?_⟩
  simp only [AdvanceCtx.withOutput, OrdMap.get?_set] at hname
  split at hname
  · next heq =>
    subst heq
    rw [Knowledge.close, if_pos hstored]
    exact List.mem_cons_self
  · exact hgrows.closed (h.outputs name hname)

end AdvanceCtx.Fits

/-- The rest of the workflow keeps to the contract wherever it is entered. -/
def Advances [JsRuntime V] (runId : String) (workflow : WorkflowImplementation)
    (advance : AdvanceCtx V → Pass V AdvanceOutcome) : Prop :=
  ∀ ctx known, ctx.Fits runId workflow known →
    Does runId workflow known (advance ctx) fun _ _ => True

section

variable [JsRuntime V] {advance : AdvanceCtx V → Pass V AdvanceOutcome} {ctx : AdvanceCtx V}

/-! ## Operations on nodes and children -/

omit [JsRuntime V] in
/-- A created node is stored from then on. -/
theorem AdvanceCtx.Fits.createNode (h : ctx.Fits runId workflow known) {name : String}
    (hmay : known.MayCreate workflow name) (kind : WorkflowNodeKind) :
    Does runId workflow known
      (ctx.store (.createNode { runId := ctx.run.id, name, kind }))
      fun known' _ => ctx.Fits runId workflow known' ∧ name ∈ known'.stored := by
  refine h.store.does (.inr ⟨h.run, hmay⟩) fun answer => ?_
  have hnext : known.next runId (.store (.createNode { runId := ctx.run.id, name, kind }))
      (.ok answer) = known.store name := if_pos h.run
  rw [hnext]
  exact ⟨h.grow ⟨rfl, List.subset_cons_self _ _, List.Subset.refl _⟩, List.mem_cons_self⟩

omit [JsRuntime V] in
theorem AdvanceCtx.Fits.ensureNodeChildren (h : ctx.Fits runId workflow known)
    {node : WorkflowNodeImplementation} (hnode : node ∈ workflow.nodes) {name : String}
    (hname : node.name = name) {children : List (EnsureNodeChildInput V)}
    (hitems : node.window?.isSome → AreItems children) :
    Does runId workflow known (ctx.store (.ensureNodeChildren ctx.run.id name children))
      fun known' result => known.Grows known' ∧ (name ≠ TASK_RUN_NODE_NAME →
        known'.view = some { nodeName := name, children := result.1 }) := by
  subst hname
  refine h.store.does (.inr ⟨h.run, node, hnode, rfl, hitems⟩) fun answer => ?_
  have hnext : known.next runId
      (.store (.ensureNodeChildren ctx.run.id node.name children)) (.ok answer) =
        known.look node.name answer.1 := if_pos h.run
  rw [hnext]
  exact ⟨known.look_grows _ _, fun htask => by rw [Knowledge.look_of_ne htask]⟩

omit [JsRuntime V] in
/-- Outside the map nodes with a limit a child run may start at any time. -/
theorem AdvanceCtx.Fits.ensureChildRun (h : ctx.Fits runId workflow known)
    {node : WorkflowNodeImplementation} (hnode : node ∈ workflow.nodes)
    {params : EnsureChildRunParams V} (hrun : params.runId = ctx.run.id)
    (hroot : params.rootRunId = ctx.run.rootRunId) (hname : node.name = params.nodeName)
    (hwindow : node.window? = none) :
    Does runId workflow known (ctx.store (.ensureChildRun params))
      fun known' _ => known.Grows known' := by
  refine h.store.does ⟨hrun.trans h.run, hroot.trans h.rootRunId, node, hnode, hname, ?_⟩
    fun answer => ?_
  · rw [hwindow]
    exact nofun
  · exact ⟨rfl, List.Subset.refl _, List.Subset.refl _⟩

/-- After a completion the rest of the workflow may be entered with the output. -/
theorem Advances.complete (hadvance : Advances runId workflow advance)
    (h : ctx.Fits runId workflow known) {nodeName : String} (hstored : nodeName ∈ known.stored)
    (output : V) : Does runId workflow known (completeNodeAndAdvance advance ctx nodeName output)
      fun _ _ => True := by
  have hcomplete : Does runId workflow known
      (ctx.store (.completeNode ctx.run.id nodeName output))
      fun known' _ => known' = known.close nodeName :=
    h.store.does trivial fun answer => if_pos h.run
  refine hcomplete.bind ?_
  rintro _ _ rfl
  exact hadvance _ _ (h.withOutput hstored output)

/-! ## Nodes with one child -/

theorem Advances.settleChildRun (hadvance : Advances runId workflow advance)
    (h : ctx.Fits runId workflow known) {dispatch : ChildDispatch V}
    (hstored : dispatch.nodeName ∈ known.stored) (childRun : StoredRun V) (failure : String) :
    Does runId workflow known (settleChildRun advance ctx dispatch childRun failure)
      fun _ _ => True := by
  unfold Neemata.Workflows.settleChildRun
  split
  · refine Does.quietly (h.store.quiet trivial) fun known' _ hextends => ?_
    exact hadvance.complete (h.grow hextends.grows) (hextends.stored hstored) _
  · split
    · exact Does.quietly (quiet_cancelNodeAndRun h.store _ _ _) fun _ _ _ => .pure trivial
    · exact Does.quietly (h.store.quiet trivial) fun _ _ _ =>
        Does.quietly (quiet_failNodeAndRun h.store _ _ _) fun _ _ _ => .pure trivial

theorem Advances.dispatchChildRun (hadvance : Advances runId workflow advance)
    (h : ctx.Fits runId workflow known) {dispatch : ChildDispatch V}
    (hstored : dispatch.nodeName ∈ known.stored) {node : WorkflowNodeImplementation}
    (hnode : node ∈ workflow.nodes) (hname : node.name = dispatch.nodeName)
    (hwindow : node.window? = none) (hinput : Quiet dispatch.resolveNodeInput)
    (hkey : Quiet dispatch.resolveIdempotencyKey) (childKind : RunKind)
    {redispatch : StoredRun V → Pass V Unit} (hredispatch : ∀ childRun, Quiet (redispatch childRun))
    {start : StoredRun V → V → Option V → Pass V Unit}
    (hstart : ∀ childRun nodeInput key, Quiet (start childRun nodeInput key))
    (failure : StoredRun V → String) :
    Does runId workflow known
      (dispatchChildRun advance ctx dispatch childKind redispatch start failure)
      fun _ _ => True := by
  refine Does.house (h.store.only (fun _ _ => trivial) trivial) fun known₁ children hgrows₁ => ?_
  dsimp only
  split
  · refine Does.house (h.store.only (fun _ _ => trivial) trivial) fun known₂ childRuns hgrows₂ => ?_
    split
    · exact Does.quietly (quiet_failMissingChildRun h.store _ _ _ _) fun _ _ _ => .pure trivial
    · split
      · have hgrows := hgrows₁.trans hgrows₂
        exact hadvance.settleChildRun (h.grow hgrows) (hgrows.stored hstored) _ _
      · exact Does.quietly (hredispatch _) fun _ _ _ =>
          Does.quietly (h.store.quiet trivial) fun _ _ _ => .pure trivial
  · refine Does.quietly hinput fun known₂ resolved hextends₂ => ?_
    refine Does.quietly (quiet_decodeWorkflowUserSchemaValue _ _ _) fun known₃ _ hextends₃ => ?_
    refine Does.quietly hkey fun known₄ _ hextends₄ => ?_
    refine Does.quietly (h.store.quiet trivial) fun known₅ _ hextends₅ => ?_
    have hgrows := hgrows₁.trans
      (((hextends₂.trans hextends₃).trans hextends₄).trans hextends₅).grows
    refine ((h.grow hgrows).ensureChildRun hnode rfl rfl hname hwindow).bind fun _ _ _ => ?_
    exact Does.quietly (hstart _ _ _) fun _ _ _ =>
      Does.quietly (h.store.quiet trivial) fun _ _ _ => .pure trivial

theorem Advances.dispatchChildTaskRun (hadvance : Advances runId workflow advance)
    (h : ctx.Fits runId workflow known) {dispatch : ChildDispatch V}
    (hstored : dispatch.nodeName ∈ known.stored) {node : WorkflowNodeImplementation}
    (hnode : node ∈ workflow.nodes) (hname : node.name = dispatch.nodeName)
    (hwindow : node.window? = none) (hinput : Quiet dispatch.resolveNodeInput)
    (hkey : Quiet dispatch.resolveIdempotencyKey) (parentNode : StoredNode V)
    (timeout : Option String) :
    Does runId workflow known (dispatchChildTaskRun advance ctx dispatch parentNode timeout)
      fun _ _ => True :=
  hadvance.dispatchChildRun h hstored hnode hname hwindow hinput hkey _
    (fun _ => quiet_dispatchTaskRunAttempt h.store _ _ _ _ _ _ _)
    (fun _ _ _ => quiet_dispatchTaskRunAttempt h.store _ _ _ _ _ _ _) _

theorem Advances.dispatchChildWorkflow (hadvance : Advances runId workflow advance)
    (h : ctx.Fits runId workflow known) {dispatch : ChildDispatch V}
    (hstored : dispatch.nodeName ∈ known.stored) {node : WorkflowNodeImplementation}
    (hnode : node ∈ workflow.nodes) (hname : node.name = dispatch.nodeName)
    (hwindow : node.window? = none) (hinput : Quiet dispatch.resolveNodeInput)
    (hkey : Quiet dispatch.resolveIdempotencyKey) :
    Does runId workflow known (dispatchChildWorkflow advance ctx dispatch) fun _ _ => True :=
  hadvance.dispatchChildRun h hstored hnode hname hwindow hinput hkey _
    (fun _ => quiet_executor _) (fun _ _ _ => quiet_executor _) _

omit [JsRuntime V] in
theorem AdvanceCtx.Fits.dispatchActivityNode (h : ctx.Fits runId workflow known)
    {node : ActivityNodeImplementation} (hnode : .activity node ∈ workflow.nodes)
    (hmay : known.MayCreate workflow node.name) :
    Does runId workflow known (dispatchActivityNode ctx node) fun _ _ => True := by
  refine (h.createNode hmay _).bind fun known₁ existing ⟨hfits, _⟩ => ?_
  split
  · exact .pure trivial
  · refine Does.quietly (quiet_getWorkflowNodeDeclaration _ _) fun _ declaration hextends₂ => ?_
    split
    · refine Does.quietly (quiet_activityNodeInput h.store _ _ _) fun known₃ _ hextends₃ => ?_
      have hfits := hfits.grow (hextends₂.trans hextends₃).grows
      refine (hfits.ensureNodeChildren hnode rfl nofun).bind fun _ ensured _ => ?_
      split
      · exact .throw _
      · refine Does.quietly (quiet_dispatchActivityChild h.store _ _ _ _ ?_) fun _ _ _ =>
          .pure trivial
        exact quiet_unlessAttempted _ _ (quiet_resolveIdempotency _ _)
    · exact .throw _

theorem Advances.dispatchTaskNode (hadvance : Advances runId workflow advance)
    (h : ctx.Fits runId workflow known) {node : RunnableNodeImplementation}
    (hnode : .task node ∈ workflow.nodes) (hmay : known.MayCreate workflow node.name) :
    Does runId workflow known (dispatchTaskNode advance ctx node) fun _ _ => True := by
  refine (h.createNode hmay _).bind fun known₁ existing ⟨hfits, hstored⟩ => ?_
  split
  · exact .pure trivial
  · refine Does.quietly (quiet_getWorkflowNodeDeclaration _ _) fun known₂ declaration hextends => ?_
    split
    · have hfits := hfits.grow hextends.grows
      refine (hfits.ensureNodeChildren hnode rfl nofun).bind fun known₃ _ hgrows => ?_
      refine hadvance.dispatchChildTaskRun (hfits.grow hgrows.1) ?_ hnode rfl rfl ?_ ?_ _ _
      · exact hgrows.1.stored (hextends.stored hstored)
      · exact quiet_resolveNodeInput ctx existing node.input
      · exact quiet_resolveIdempotency node.idempotency ctx.args
    · exact .throw _

theorem Advances.dispatchWorkflowNode (hadvance : Advances runId workflow advance)
    (h : ctx.Fits runId workflow known) {node : RunnableNodeImplementation}
    (hnode : .workflow node ∈ workflow.nodes) (hmay : known.MayCreate workflow node.name) :
    Does runId workflow known (dispatchWorkflowNode advance ctx node) fun _ _ => True := by
  refine (h.createNode hmay _).bind fun known₁ existing ⟨hfits, hstored⟩ => ?_
  split
  · exact .pure trivial
  · refine (hfits.ensureNodeChildren hnode rfl nofun).bind fun known₃ _ hgrows => ?_
    refine hadvance.dispatchChildWorkflow (hfits.grow hgrows.1) ?_ hnode rfl rfl ?_ ?_
    · exact hgrows.1.stored hstored
    · exact quiet_resolveNodeInput ctx existing node.input
    · exact quiet_resolveIdempotency node.idempotency ctx.args

/-! ## Branches -/

theorem Advances.dispatchSelectedCase (hadvance : Advances runId workflow advance)
    (h : ctx.Fits runId workflow known) {node : BranchNodeImplementation}
    (hnode : .branch node ∈ workflow.nodes) (hstored : node.name ∈ known.stored)
    (existing : StoredNode V) (caseKey : String) (selected : WorkflowCaseImplementation)
    (selectedDeclaration : BranchCaseDefinition) (child : StoredNodeChild V) :
    Does runId workflow known (dispatchSelectedCase advance ctx node existing caseKey selected
      selectedDeclaration child) fun _ _ => True := by
  have hinput := quiet_resolveNodeInput ctx existing selected.input
  have hkey := quiet_resolveIdempotency selected.idempotency ctx.args
  unfold Neemata.Workflows.dispatchSelectedCase
  dsimp only
  split
  · exact hadvance.dispatchChildWorkflow h hstored hnode rfl rfl hinput hkey
  · split
    · exact hadvance.dispatchChildTaskRun h hstored hnode rfl rfl hinput hkey _ _
    · exact .throw _
  · split
    · refine Does.quietly (quiet_unlessAttempted _ _ ?_) fun _ _ _ => ?_
      · exact (quiet_callInput ctx _).bind fun _ =>
          (quiet_decodeWorkflowUserSchemaValue _ _ _).bind fun _ =>
            Program.Only.bind (h.store.quiet trivial) fun _ => Program.only_pure _
      · exact Does.quietly (quiet_dispatchActivityChild h.store _ _ _ _
          (quiet_unlessAttempted _ _ hkey)) fun _ _ _ => .pure trivial
    · exact .throw _

theorem Advances.dispatchBranchCase (hadvance : Advances runId workflow advance)
    (h : ctx.Fits runId workflow known) {node : BranchNodeImplementation}
    (hnode : .branch node ∈ workflow.nodes) (hstored : node.name ∈ known.stored)
    (existing : StoredNode V) (caseKey : String) :
    Does runId workflow known (dispatchBranchCase advance ctx node existing caseKey)
      fun _ _ => True := by
  unfold Neemata.Workflows.dispatchBranchCase
  split
  · exact Does.quietly (quiet_failNodeAndRun h.store _ _ _) fun _ _ _ => .pure trivial
  · refine Does.quietly (quiet_getWorkflowNodeDeclaration _ _) fun known₁ declaration hextends => ?_
    split
    · split
      · exact .throw _
      · have hfits := h.grow hextends.grows
        refine (hfits.ensureNodeChildren hnode rfl nofun).bind fun known₂ ensured hgrows => ?_
        have hfits := hfits.grow hgrows.1
        have hstored := hgrows.1.stored (hextends.stored hstored)
        split
        · exact .throw _
        · split
          · exact hadvance.complete hfits hstored _
          · split
            · exact Does.quietly (quiet_failNodeAndRun h.store _ _ _) fun _ _ _ => .pure trivial
            · split
              · exact Does.quietly (quiet_cancelNodeAndRun h.store _ _ _) fun _ _ _ => .pure trivial
              · exact hadvance.dispatchSelectedCase hfits hnode hstored _ _ _ _ _
    · exact .throw _

theorem Advances.dispatchBranchNode (hadvance : Advances runId workflow advance)
    (h : ctx.Fits runId workflow known) {node : BranchNodeImplementation}
    (hnode : .branch node ∈ workflow.nodes) (hmay : known.MayCreate workflow node.name) :
    Does runId workflow known (dispatchBranchNode advance ctx node) fun _ _ => True := by
  refine (h.createNode hmay _).bind fun known₁ existing ⟨hfits, hstored⟩ => ?_
  split
  · exact .pure trivial
  · split
    · exact hadvance.dispatchBranchCase hfits hnode hstored _ _
    · have hselect : Quiet (tryCatch (Except.ok <$> userCode (.select node.select ctx.args))
          fun error => pure (.error error) : Pass V (Except (Thrown V) String)) :=
        (Program.Only.map (quiet_userCode _)).tryCatch fun _ => Program.only_pure _
      refine Does.quietly hselect fun known₂ selected hextends₂ => ?_
      split
      · exact Does.quietly (quiet_failNodeAndRun h.store _ _ _) fun _ _ _ => .pure trivial
      · refine Does.quietly (h.store.quiet trivial) fun known₃ _ hextends₃ => ?_
        have hgrows := (hextends₂.trans hextends₃).grows
        exact hadvance.dispatchBranchCase (hfits.grow hgrows) hnode (hgrows.stored hstored) _ _

end

end Neemata.Workflows
