import Mathlib.Data.List.Indexes
import Mathlib.Data.List.OfFn
import Mathlib.Data.List.FinRange
import Neemata.Lib.Join
import Neemata.Workflows.Coordinator.DispatchContract

/-!
# Fan-in nodes keep to the contract

The loop over the children of a map node counts the children it leaves at work. As long as the count
is below the limit, the count is at least the number of children before the current one that can be
at work, and all of them are started.
-/

namespace Neemata.Workflows

variable {V : Type} [JsRuntime V] {runId : String} {workflow : WorkflowImplementation}
  {known : Knowledge V} {advance : AdvanceCtx V → Pass V AdvanceOutcome} {ctx : AdvanceCtx V}

/-! ## Parallel members -/

section

variable {node : ParallelNodeImplementation} (cases : List (String × BranchCaseDefinition))

theorem AdvanceCtx.Fits.dispatchRunMember (h : ctx.Fits runId workflow known)
    (hnode : .parallel node ∈ workflow.nodes) (fanIn : FanIn V) (memberKey : String)
    (member : WorkflowCaseImplementation) (kind : RunKind) (target : RunnableDefinition)
    (child : StoredNodeChild V) (progress : ParallelProgress V) :
    Does runId workflow known
      (dispatchRunMember ctx node cases fanIn memberKey member kind target child progress)
      fun known' _ => known.Grows known' := by
  have hmember (runId' workflowName : String) (taskInput : V) (idempotencyKey : Option V) :=
    quiet_dispatchMemberRun h.store cases memberKey kind target runId' workflowName taskInput
      idempotencyKey
  unfold Neemata.Workflows.dispatchRunMember
  dsimp only
  split
  · split
    · exact Does.quietly (quiet_failMissingChildRun h.store _ _ _ _) fun _ _ hextends =>
        .pure hextends.grows
    · split
      · exact Does.quietly (hmember _ _ _ _) fun _ _ hextends => .pure hextends.grows
      · split
        · exact Does.quietly (h.store.quiet trivial) fun _ _ hextends => .pure hextends.grows
        · split
          · exact Does.quietly (quiet_cancelNodeAndRun h.store _ _ _) fun _ _ hextends =>
              .pure hextends.grows
          · exact Does.house (keepsHouse_failMember h.store _ _ _) fun _ _ hgrows => .pure hgrows
  · refine Does.quietly (quiet_memberInput _ _ _ _ _) fun known₁ _ hextends₁ => ?_
    refine Does.quietly (quiet_resolveIdempotency _ _) fun known₂ _ hextends₂ => ?_
    have hgrows := (hextends₁.trans hextends₂).grows
    refine ((h.grow hgrows).ensureChildRun hnode rfl rfl rfl rfl).bind fun known₃ _ hgrows₃ => ?_
    exact Does.quietly (hmember _ _ _ _) fun _ _ hextends =>
      .pure ((hgrows.trans hgrows₃).trans hextends.grows)

theorem AdvanceCtx.Fits.dispatchMember (h : ctx.Fits runId workflow known)
    (hnode : .parallel node ∈ workflow.nodes) (fanIn : FanIn V) (memberKey : String)
    (member : WorkflowCaseImplementation) (progress : ParallelProgress V) :
    Does runId workflow known (dispatchMember ctx node cases fanIn memberKey member progress)
      fun known' _ => known.Grows known' := by
  unfold Neemata.Workflows.dispatchMember
  split
  · exact .throw _
  · split
    · exact .pure (.refl known)
    · split
      · exact Does.house (keepsHouse_cancelNodeChildRunsAndCommands h.store _ _ _)
          fun _ _ hgrows => Does.quietly (quiet_failNodeAndRun h.store _ _ _)
            fun _ _ hextends => .pure (hgrows.trans hextends.grows)
      · split
        · exact Does.quietly (quiet_cancelNodeAndRun h.store _ _ _) fun _ _ hextends =>
            .pure hextends.grows
        · split
          · exact h.dispatchRunMember cases hnode _ _ _ _ _ _ _
          · exact h.dispatchRunMember cases hnode _ _ _ _ _ _ _
          · unfold dispatchActivityMember
            split
            · refine Does.quietly (quiet_unlessAttempted _ _ (quiet_memberInput _ _ _ _ _))
                fun _ _ hextends₁ => ?_
              refine Does.quietly (quiet_unlessAttempted _ _ (quiet_resolveIdempotency _ _))
                fun _ _ hextends₂ => ?_
              refine Does.quietly (quiet_dispatchActivityChild h.store _ _ _ _
                (Program.only_pure _)) fun _ _ hextends₃ => .pure ?_
              exact ((hextends₁.trans hextends₂).trans hextends₃).grows
            · exact .throw _

theorem AdvanceCtx.Fits.dispatchMembers (h : ctx.Fits runId workflow known)
    (hnode : .parallel node ∈ workflow.nodes) (fanIn : FanIn V)
    (members : List (String × WorkflowCaseImplementation)) (progress : ParallelProgress V) :
    Does runId workflow known (dispatchMembers ctx node cases fanIn members progress)
      fun known' _ => known.Grows known' := by
  induction members generalizing known progress with
  | nil => exact .pure (.refl known)
  | cons member members ih =>
    refine (h.dispatchMember cases hnode fanIn _ _ progress).bind fun known₁ result hgrows => ?_
    cases result with
    | none => exact .pure hgrows
    | some progress =>
      exact (ih (h.grow hgrows) progress).mono fun _ _ hgrows' => hgrows.trans hgrows'

end

theorem Advances.dispatchParallelNode (hadvance : Advances runId workflow advance)
    (h : ctx.Fits runId workflow known) {node : ParallelNodeImplementation}
    (hnode : .parallel node ∈ workflow.nodes) (hmay : known.MayCreate workflow node.name) :
    Does runId workflow known (dispatchParallelNode advance ctx node) fun _ _ => True := by
  refine (h.createNode hmay _).bind fun known₁ existing ⟨hfits, hstored⟩ => ?_
  split
  · exact .pure trivial
  · refine Does.quietly (quiet_getWorkflowNodeDeclaration _ _) fun known₂ declaration hextends => ?_
    split
    · split
      · exact .throw _
      · have hfits := hfits.grow hextends.grows
        refine (hfits.ensureNodeChildren hnode rfl nofun).bind fun known₃ ensured hgrows₃ => ?_
        have hfits := hfits.grow hgrows₃.1
        refine Does.house (hfits.store.only (fun _ _ => trivial) trivial) fun known₄ _ hgrows₄ => ?_
        have hfits := hfits.grow hgrows₄
        refine (hfits.dispatchMembers _ hnode _ _ _).bind fun known₅ result hgrows₅ => ?_
        have hfits := hfits.grow hgrows₅
        cases result with
        | none => exact .pure trivial
        | some progress =>
          have hgrows := (hgrows₃.1.trans hgrows₄).trans hgrows₅
          have hstored := hgrows.stored (hextends.stored hstored)
          dsimp only
          unfold finishParallel
          split
          · exact hadvance.complete hfits hstored _
          · exact Does.quietly (hfits.store.quiet trivial) fun _ _ _ => .pure trivial
    · exact .throw _

/-! ## Map items -/

/-- The node as an implementation of a workflow. -/
def MapNodeImplementation.toNode (node : MapNodeImplementation) :
    RunKind → WorkflowNodeImplementation
  | .task => .mapTask node
  | .workflow => .mapWorkflow node

section

variable {node : MapNodeImplementation}

omit [JsRuntime V] in
theorem MapNodeImplementation.toNode_name (childKind : RunKind) :
    (node.toNode childKind).name = node.name := by
  cases childKind <;> rfl

omit [JsRuntime V] in
theorem MapNodeImplementation.toNode_window? (childKind : RunKind) :
    (node.toNode childKind).window? = node.window? := by
  cases childKind <;> rfl

/-- The loop has the children `done` behind it. -/
def Counted (node : MapNodeImplementation) (childRuns : List (StoredRun V)) (known : Knowledge V)
    (done rest : List (StoredNodeChild V)) (progress : MapProgress V) : Prop :=
  node.name ≠ TASK_RUN_NODE_NAME → ∃ view ∈ known.view, view.nodeName = node.name ∧
    view.children = done ++ rest ∧ view.runs = childRuns ∧
    (∀ childKey ∈ view.started, childKey ∈ done.map StoredNodeChild.childKey) ∧
    (view.Distinct → ∀ limit ∈ node.window?,
      limit ≤ progress.activeChildren ∨ view.Opened done progress.activeChildren)

variable {childRuns : List (StoredRun V)} {done rest : List (StoredNodeChild V)}
  {progress progress' : MapProgress V} {child : StoredNodeChild V}

omit [JsRuntime V] in
/-- The loop goes on to the next child without a start. -/
theorem Counted.next (h : Counted node childRuns known done (child :: rest) progress)
    {known' : Knowledge V} (hview : known'.view = known.view)
    (hactive : progress.activeChildren ≤ progress'.activeChildren)
    (hopened : ∀ view : ChildView V, view.runs = childRuns → child.childKey ∉ view.started →
      ∀ limit ∈ node.window?, limit ≤ progress'.activeChildren ∨
        (view.Opened done progress.activeChildren →
          view.Opened (done ++ [child]) progress'.activeChildren)) :
    Counted node childRuns known' (done ++ [child]) rest progress' := by
  intro htask
  obtain ⟨view, hget, hname, hchildren, hruns, hstarted, hcount⟩ := h htask
  refine ⟨view, hview ▸ hget, hname, by simpa using hchildren, hruns, ?_, ?_⟩
  · intro childKey hkey
    rw [List.map_append]
    exact List.mem_append_left _ (hstarted childKey hkey)
  · intro hdistinct limit hlimit
    have hfresh : child.childKey ∉ view.started := by
      intro hkey
      rw [ChildView.Distinct, hchildren, List.map_append, List.nodup_append] at hdistinct
      exact hdistinct.2.2 _ (hstarted _ hkey) _ List.mem_cons_self rfl
    obtain hle | hdone := hcount hdistinct limit hlimit
    · exact .inl (hle.trans hactive)
    · exact (hopened view hruns hfresh limit hlimit).imp_right fun hnext => hnext hdone

/-- What an item leaves behind, unless it ends the pass. -/
def Counts (node : MapNodeImplementation) (childRuns : List (StoredRun V)) (known : Knowledge V)
    (done rest : List (StoredNodeChild V)) (known' : Knowledge V)
    (result : Option (MapProgress V)) : Prop :=
  known.Grows known' ∧ ∀ progress ∈ result, Counted node childRuns known' done rest progress

omit [JsRuntime V] in
theorem Counts.ended {known' : Knowledge V} (hgrows : known.Grows known') :
    Counts node childRuns known done rest known' none :=
  ⟨hgrows, nofun⟩

omit [JsRuntime V] in
theorem window?_of_startOnly (hmode : node.mode = .startOnly) : node.window? = none := if_pos hmode

omit [JsRuntime V] in
theorem ChildView.isStarted_of_linked (view : ChildView V) {childRunId : String}
    (hlink : child.childRunId = some childRunId) : view.isStarted child := by
  rw [isStarted, hlink]
  rfl

omit [JsRuntime V] in
theorem ChildView.isActive_of_terminal {view : ChildView V} {childRunId : String}
    (hlink : child.childRunId = some childRunId) (hfresh : child.childKey ∉ view.started)
    {childRun : StoredRun V} (hrun : childRun ∈ view.runs) (hid : childRun.id = childRunId)
    (hterminal : isTerminalRunStatus childRun.status) : view.isActive child = false := by
  have hany : (view.runs.any fun run => run.id = childRunId && isTerminalRunStatus run.status) :=
    List.any_eq_true.mpr ⟨childRun, hrun, by simp [hid, hterminal]⟩
  rw [isActive, hlink, Option.any_some, hany]
  simp [hfresh]

variable {childKind : RunKind} {timeout : Option String} {childRunId : String}

theorem AdvanceCtx.Fits.settleItem (h : ctx.Fits runId workflow known)
    (hcounted : Counted node childRuns known done (child :: rest) progress)
    (hlink : child.childRunId = some childRunId) {childRun : StoredRun V}
    (hrun : childRun ∈ childRuns) (hid : childRun.id = childRunId)
    (hterminal : isTerminalRunStatus childRun.status) :
    Does runId workflow known (settleItem ctx node childKind child childRun progress)
      (Counts node childRuns known (done ++ [child]) rest) := by
  have hnext {known' : Knowledge V} (hextends : known.Extends known') (items : List (Option V)) :
      Counts node childRuns known (done ++ [child]) rest known'
        (some { progress with outputItems := items }) := by
    refine ⟨hextends.grows, ?_⟩
    rintro _ ⟨⟩
    refine hcounted.next hextends.view le_rfl fun view hruns hfresh _ _ => .inr fun hopened => ?_
    exact hopened.snoc_ended (view.isStarted_of_linked hlink)
      (ChildView.isActive_of_terminal hlink hfresh (hruns ▸ hrun) hid hterminal)
  unfold Neemata.Workflows.settleItem
  dsimp only
  split
  · exact Does.quietly (h.store.quiet trivial) fun _ _ hextends => .pure (hnext hextends _)
  · split
    · exact Does.quietly (quiet_cancelNodeAndRun h.store _ _ _) fun _ _ hextends =>
        .pure (.ended hextends.grows)
    · refine Does.quietly (h.store.quiet trivial) fun known₁ _ hextends => ?_
      split
      · exact .pure (hnext hextends _)
      · refine Does.house (keepsHouse_cancelNodeChildRunsAndCommands h.store _ _ _)
          fun _ _ hgrows => ?_
        exact Does.quietly (quiet_failNodeAndRun h.store _ _ _) fun _ _ hextends' =>
          .pure (.ended ((hextends.grows.trans hgrows).trans hextends'.grows))

theorem AdvanceCtx.Fits.dispatchLinkedItem (h : ctx.Fits runId workflow known)
    {children : List (StoredNodeChild V)}
    (hcounted : Counted node childRuns known done (child :: rest) progress)
    (hlink : child.childRunId = some childRunId) :
    Does runId workflow known (dispatchLinkedItem ctx node childKind timeout ⟨children, childRuns⟩
      child childRunId progress) (Counts node childRuns known (done ++ [child]) rest) := by
  unfold Neemata.Workflows.dispatchLinkedItem
  split
  · exact Does.quietly (quiet_failMissingChildRun h.store _ _ _ _) fun _ _ hextends =>
      .pure (.ended hextends.grows)
  · next childRun hfind =>
    split
    · next hmode =>
      refine .pure ⟨.refl known, ?_⟩
      rintro _ ⟨⟩
      refine hcounted.next rfl le_rfl fun _ _ _ _ hlimit => ?_
      rw [window?_of_startOnly hmode] at hlimit
      cases hlimit
    · split
      · refine Does.quietly (quiet_dispatchItemRun h.store _ _ _ _ _ _ _) fun _ _ hextends =>
          .pure ⟨hextends.grows, ?_⟩
        rintro _ ⟨⟩
        refine hcounted.next hextends.view (Nat.le_succ _) fun view _ _ _ _ => .inr ?_
        exact fun hopened => hopened.snoc (view.isStarted_of_linked hlink)
      · next hterminal =>
        unfold FanIn.run? at hfind
        have hid : childRun.id = childRunId := by simpa using List.find?_some hfind
        exact h.settleItem hcounted hlink (List.mem_of_find?_eq_some hfind) hid
          (by simpa using hterminal)

omit [JsRuntime V] in
/-- Below the limit the contract lets the next child start. -/
theorem AdvanceCtx.Fits.ensureItemRun (h : ctx.Fits runId workflow known)
    (hnode : node.toNode childKind ∈ workflow.nodes)
    (hcounted : Counted node childRuns known done (child :: rest) progress)
    (hlimit : ∀ limit ∈ node.window?, progress.activeChildren < limit)
    {params : EnsureChildRunParams V} (hrun : params.runId = ctx.run.id)
    (hroot : params.rootRunId = ctx.run.rootRunId) (hname : node.name = params.nodeName)
    (hkey : child.childKey = params.childKey) :
    Does runId workflow known (ctx.store (.ensureChildRun params))
      fun known' _ => known' = known.start params.nodeName params.childKey := by
  refine h.store.does ⟨hrun.trans h.run, hroot.trans h.rootRunId, node.toNode childKind, hnode, ?_⟩
    fun _ => rfl
  rw [node.toNode_window? childKind, node.toNode_name childKind]
  refine ⟨hname, fun limit hwindow htask => ?_⟩
  obtain ⟨view, hget, hview, hchildren, -, -, hcount⟩ := hcounted htask
  refine ⟨view, hget, hview, fun hdistinct => ?_⟩
  obtain hle | hopened := hcount hdistinct limit hwindow
  · exact absurd hle (Nat.not_le.mpr (hlimit limit hwindow))
  · exact hkey ▸ hopened.mayStart hchildren (hlimit limit hwindow)

omit [JsRuntime V] in
/-- The loop goes on to the next child after its start. -/
theorem Counted.start (h : Counted node childRuns known done (child :: rest) progress)
    {known' : Knowledge V} (hview : known'.view = (known.start node.name child.childKey).view)
    (hactive : ∀ limit ∈ node.window?,
      progress'.activeChildren = progress.activeChildren + 1) :
    Counted node childRuns known' (done ++ [child]) rest progress' := by
  intro htask
  obtain ⟨view, hget, hname, hchildren, hruns, hkeys, hcount⟩ := h htask
  refine ⟨view.start child.childKey, ?_, hname, hchildren.trans (by simp), hruns, ?_, ?_⟩
  · rw [hview, Knowledge.start, hget]
    exact congrArg some (if_pos hname)
  · intro childKey hkey
    rw [List.map_append, List.mem_append]
    obtain rfl | hkey := List.mem_cons.mp hkey
    · exact .inr List.mem_cons_self
    · exact .inl (hkeys childKey hkey)
  · intro hdistinct limit hwindow
    rw [hactive limit hwindow]
    obtain hle | hopened := hcount hdistinct limit hwindow
    · exact .inl (hle.trans (Nat.le_succ _))
    · refine .inr (hopened.start fun hkey => ?_)
      have hdistinct : (view.children.map StoredNodeChild.childKey).Nodup := hdistinct
      rw [hchildren, List.map_append, List.nodup_append] at hdistinct
      exact hdistinct.2.2 _ hkey _ List.mem_cons_self rfl

theorem AdvanceCtx.Fits.startItem (h : ctx.Fits runId workflow known)
    (hnode : node.toNode childKind ∈ workflow.nodes)
    (hcounted : Counted node childRuns known done (child :: rest) progress)
    (hlimit : ∀ limit ∈ node.window?, progress.activeChildren < limit) :
    Does runId workflow known (startItem ctx node childKind timeout child progress)
      fun known' progress' =>
        Counts node childRuns known (done ++ [child]) rest known' (some progress') := by
  unfold Neemata.Workflows.startItem
  refine Does.quietly (quiet_runWorkflowUserCallback (quiet_userCode _)) fun _ _ hextends₁ => ?_
  refine Does.quietly (quiet_decodeWorkflowUserSchemaValue _ _ _) fun _ _ hextends₂ => ?_
  refine Does.quietly (quiet_resolveIdempotency _ _) fun known₁ _ hextends₃ => ?_
  have hextends := (hextends₁.trans hextends₂).trans hextends₃
  have hcounted : Counted node childRuns known₁ done (child :: rest) progress := by
    intro htask
    rw [hextends.view]
    exact hcounted htask
  refine ((h.grow hextends.grows).ensureItemRun hnode hcounted hlimit rfl rfl rfl rfl).bind ?_
  rintro _ ensured rfl
  refine Does.quietly (quiet_dispatchItemRun h.store _ _ _ _ _ _ _) fun known₂ _ hextends₄ => ?_
  have hgrows : known.Grows known₂ :=
    hextends.grows.trans ⟨hextends₄.rootRunId, hextends₄.stored, hextends₄.closed⟩
  split
  · next hmode =>
    refine .pure ⟨hgrows, ?_⟩
    rintro _ ⟨⟩
    refine hcounted.start hextends₄.view fun limit hwindow => ?_
    rw [window?_of_startOnly hmode] at hwindow
    cases hwindow
  · refine .pure ⟨hgrows, ?_⟩
    rintro _ ⟨⟩
    exact hcounted.start hextends₄.view fun _ _ => rfl

theorem AdvanceCtx.Fits.dispatchItem (h : ctx.Fits runId workflow known)
    (hnode : node.toNode childKind ∈ workflow.nodes) {children : List (StoredNodeChild V)}
    {concurrency : Option Nat} (hconcurrency : ∀ limit ∈ node.window?, concurrency = some limit)
    (hcounted : Counted node childRuns known done (child :: rest) progress) :
    Does runId workflow known (dispatchItem ctx node childKind timeout ⟨children, childRuns⟩
      concurrency child progress) (Counts node childRuns known (done ++ [child]) rest) := by
  have hmode {limit : Nat} (hwindow : limit ∈ node.window?) : node.mode ≠ .startOnly := by
    intro hmode
    rw [window?_of_startOnly hmode] at hwindow
    cases hwindow
  unfold Neemata.Workflows.dispatchItem
  split
  · next childRunId hlink => exact h.dispatchLinkedItem hcounted hlink
  · split
    · next hlimit =>
      refine .pure ⟨.refl known, ?_⟩
      rintro _ ⟨⟩
      refine hcounted.next rfl le_rfl fun _ _ _ limit hwindow => .inl ?_
      rw [isAtLimit, hconcurrency limit hwindow, Option.any_some, if_neg (hmode hwindow)] at hlimit
      exact of_decide_eq_true hlimit
    · next hlimit =>
      rw [map_eq_pure_bind]
      refine (h.startItem hnode hcounted fun limit hwindow => ?_).bind fun _ _ hcounts =>
        .pure hcounts
      rw [isAtLimit, hconcurrency limit hwindow, Option.any_some, if_neg (hmode hwindow)] at hlimit
      simpa using hlimit

theorem AdvanceCtx.Fits.dispatchItems (h : ctx.Fits runId workflow known)
    (hnode : node.toNode childKind ∈ workflow.nodes) {children : List (StoredNodeChild V)}
    {concurrency : Option Nat} (hconcurrency : ∀ limit ∈ node.window?, concurrency = some limit)
    (hcounted : Counted node childRuns known done rest progress) :
    Does runId workflow known (dispatchItems ctx node childKind timeout ⟨children, childRuns⟩
      concurrency rest progress) fun known' _ => known.Grows known' := by
  induction rest generalizing known done progress with
  | nil => exact .pure (.refl known)
  | cons child rest ih =>
    refine (h.dispatchItem hnode hconcurrency hcounted).bind fun known₁ result hcounts => ?_
    cases result with
    | none => exact .pure hcounts.1
    | some progress =>
      exact (ih (h.grow hcounts.1) (hcounts.2 progress rfl)).mono fun _ _ hgrows =>
        hcounts.1.trans hgrows

omit [JsRuntime V] in
theorem itemChildKey_injective : Function.Injective itemChildKey := by
  intro i j h
  have hchars := congrArg String.toList h
  simp only [itemChildKey, String.toList_append] at hchars
  refine toString_nat_injective (String.toList_inj.mp ?_)
  simpa using hchars

omit [JsRuntime V] in
theorem areItems_mapIdx (items : List V) (kind : NodeChildKind) :
    AreItems (items.mapIdx fun index item =>
      ⟨itemChildKey index, kind, some index, none, some item⟩) := by
  refine ⟨fun input hinput => ?_, ?_⟩
  · obtain ⟨index, _, rfl⟩ := List.mem_mapIdx.mp hinput
    exact ⟨index, rfl, rfl⟩
  · rw [List.mapIdx_eq_ofFn, List.map_ofFn, List.nodup_ofFn]
    exact fun i j h => Fin.ext (itemChildKey_injective h)

/-- The children of a map node, as they are viewed from then on. -/
theorem AdvanceCtx.Fits.mapChildren (h : ctx.Fits runId workflow known)
    (hnode : node.toNode childKind ∈ workflow.nodes) (existing : StoredNode V) (item : Schema) :
    Does runId workflow known (mapChildren ctx node childKind existing item)
      fun known' children => known.Grows known' ∧ (node.name ≠ TASK_RUN_NODE_NAME →
        known'.view = some { nodeName := node.name, children }) := by
  unfold Neemata.Workflows.mapChildren
  split
  · have hload : Does runId workflow known (ctx.store (.loadNodeChildren ctx.run.id node.name))
        fun known' loaded => known.Grows known' ∧ (node.name ≠ TASK_RUN_NODE_NAME →
          known'.view = some ⟨node.name, loaded.1, [], []⟩) := by
      refine h.store.does trivial fun loaded => ?_
      have hnext : known.next runId (.store (.loadNodeChildren ctx.run.id node.name)) (.ok loaded) =
          known.look node.name loaded.1 := if_pos h.run
      rw [hnext]
      exact ⟨known.look_grows _ _, fun htask => by rw [Knowledge.look_of_ne htask]⟩
    exact hload.bind fun _ _ hknown => .pure hknown
  · refine Does.quietly (quiet_runWorkflowUserCallback (quiet_userCode _)) fun _ _ hextends₁ => ?_
    refine Does.quietly (quiet_runWorkflowUserCallback (quiet_decodeItems _ _ _ _))
      fun known₁ items hextends₂ => ?_
    have hgrows := (hextends₁.trans hextends₂).grows
    refine ((h.grow hgrows).ensureNodeChildren hnode (node.toNode_name childKind) ?_).bind
      fun known₂ ensured hknown => ?_
    · exact fun _ => areItems_mapIdx _ _
    · refine Does.quietly (h.store.quiet trivial) fun _ _ hextends₃ => .pure ⟨?_, fun htask => ?_⟩
      · exact (hgrows.trans hknown.1).trans hextends₃.grows
      · rw [hextends₃.view]
        exact hknown.2 htask

end

theorem Advances.dispatchMapRunNode (hadvance : Advances runId workflow advance)
    (h : ctx.Fits runId workflow known) {node : MapNodeImplementation} {childKind : RunKind}
    (hnode : node.toNode childKind ∈ workflow.nodes) (hmay : known.MayCreate workflow node.name) :
    Does runId workflow known (dispatchMapRunNode advance ctx node childKind) fun _ _ => True := by
  refine (h.createNode hmay _).bind fun known₁ existing ⟨hfits, hstored⟩ => ?_
  split
  · exact .pure trivial
  · refine Does.quietly (quiet_getWorkflowNodeDeclaration _ _) fun known₂ declaration hextends => ?_
    split
    · exact .throw _
    · have hfits := hfits.grow hextends.grows
      refine (hfits.mapChildren hnode _ _).bind fun known₃ children hknown₃ => ?_
      have hfits := hfits.grow hknown₃.1
      have hloadRuns : Does runId workflow known₃ (ctx.store (.loadRuns (linkedRunIds children)))
          fun known' childRuns => known₃.Grows known' ∧ known' = known₃.read childRuns :=
        h.store.does trivial fun childRuns => ⟨⟨rfl, List.Subset.refl _, List.Subset.refl _⟩, rfl⟩
      refine hloadRuns.bind ?_
      rintro known₄ childRuns ⟨hgrows₄, rfl⟩
      have hlimit : Does runId workflow (known₃.read childRuns) (mapConcurrencyLimit node)
          fun known' concurrency => known' = known₃.read childRuns ∧
            ∀ limit ∈ node.window?, concurrency = some limit := by
        unfold mapConcurrencyLimit MapNodeImplementation.window?
        cases node.concurrency with
        | none =>
          refine .pure ⟨rfl, ?_⟩
          split <;> exact nofun
        | some concurrency =>
          dsimp only
          split
          · exact .throw _
          · refine .pure ⟨rfl, ?_⟩
            split
            · exact nofun
            · rintro _ ⟨⟩
              rfl
      refine hlimit.bind ?_
      rintro known₅ concurrency ⟨rfl, hconcurrency⟩
      have hfits := hfits.grow hgrows₄
      have hcounted : Counted node childRuns (known₃.read childRuns) [] children {} := by
        intro htask
        refine ⟨⟨node.name, children, childRuns, []⟩, ?_, rfl, rfl, rfl, nofun, fun _ _ _ => ?_⟩
        · simp only [Knowledge.read, hknown₃.2 htask, Option.map_some, Option.mem_def]
        · exact .inr ChildView.opened_nil
      refine (hfits.dispatchItems hnode hconcurrency hcounted).bind fun known₆ result hgrows => ?_
      cases result with
      | none => exact .pure trivial
      | some progress =>
        have hstored := ((hknown₃.1.trans hgrows₄).trans hgrows).stored (hextends.stored hstored)
        dsimp only
        unfold finishMap
        dsimp only
        split
        · exact hadvance.complete (hfits.grow hgrows) hstored _
        · split
          · exact Does.quietly (quiet_executor _) fun _ _ _ =>
              Does.quietly (h.store.quiet trivial) fun _ _ _ => .pure trivial
          · exact Does.quietly (h.store.quiet trivial) fun _ _ _ => .pure trivial

end Neemata.Workflows
