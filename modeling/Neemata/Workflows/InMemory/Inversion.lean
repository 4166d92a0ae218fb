import Neemata.Workflows.InMemory.Effect

/-!
# Every operation is one of the effects

One lemma for each operation of the store that writes records, and `step_effect` for a step of a
history.
-/

namespace Neemata.Workflows

variable {V : Type}

namespace Mem

/-- The step from `m` to `m'` is one of the effects of `op`. -/
def Affects [JsRuntime V] (op : Op V) (m m' : Mem V) : Prop :=
  Effect op m.nextId m.records m'.nextId m'.records

variable [JsRuntime V] {m : Mem V} {op : Op V}

theorem Affects.of_records_eq {m' : Mem V} (hr : m'.records = m.records)
    (hn : m.nextId ≤ m'.nextId) : Affects op m m' := by
  unfold Affects
  rw [hr]
  exact .same hn

theorem Affects.refl (m : Mem V) : Affects op m m := .same le_rfl

/-! ## Runs -/

theorem createRunWithState_cases (m : Mem V) (input : CreateRunInput V) :
    (∃ e, m.createRunWithState input = (.error e, m)) ∨
    (∃ key run, m.createRunWithState input = (.ok (run, false), m) ∧ m.runs.get? key = some run ∧
      (input.unique = none → runMatchesCreateInput run input)) ∨
    m.createRunWithState input = (.ok ((m.insertRun input).1, true), (m.insertRun input).2) := by
  unfold createRunWithState
  split
  · next existingRunId _ =>
    split
    · next existing hexisting =>
      rw [Option.filter_eq_some_iff] at hexisting
      exact .inr (.inl ⟨existingRunId, existing, rfl, hexisting.1, fun _ => hexisting.2⟩)
    · exact .inl ⟨_, rfl⟩
  · split
    · exact .inr (.inr rfl)
    · next unique hunique =>
      split
      · next conflicting hconflict =>
        split
        · obtain ⟨runId, -, hget⟩ := Option.bind_eq_some_iff.mp hconflict
          exact .inr (.inl ⟨runId, conflicting, rfl, hget, by simp [hunique]⟩)
        · exact .inl ⟨_, rfl⟩
      · exact .inr (.inr rfl)

theorem createRun_effect (m : Mem V) (input : CreateRunInput V) :
    Affects (.store (.createRun input)) m (m.createRun input).2 := by
  obtain ⟨e, h⟩ | ⟨key, run, h, -⟩ | h := m.createRunWithState_cases input
  · simpa only [createRun, h] using Affects.refl m
  · simpa only [createRun, h] using Affects.refl m
  · simp only [createRun, h]
    exact .addRun (Nat.lt_succ_self _) rfl

omit [JsRuntime V] in
theorem RunChange.of_edge {run : StoredRun V} {status : RuntimeRunStatus} (date : Nat)
    (hedge : canTransition runTransitions run.status status) :
    RunChange run { run with status, version := run.version + 1, updatedAt := date } := by
  refine ⟨?_, hedge, rfl⟩
  by_contra hlive
  rw [not_canTransition_of_terminal_run (by simpa using hlive)] at hedge
  cases hedge

omit [JsRuntime V] in
theorem RunChange.of_terminal {run : StoredRun V} (changed : StoredRun V) (date : Nat)
    (hlive : isTerminalRunStatus run.status = false)
    (hterminal : isTerminalRunStatus changed.status)
    (hsame : changed = { run with status := changed.status, output := changed.output,
                                  error := changed.error }) :
    RunChange run { changed with version := run.version + 1, updatedAt := date } := by
  refine ⟨hlive, canTransition_terminal_run hlive hterminal, ?_⟩
  rw [hsame]

theorem markRun_effect (m : Mem V) (runId : String) (status : RuntimeRunStatus) :
    Affects op m (m.markRun runId status).2 := by
  unfold markRun
  split
  · exact .refl m
  · next run hget =>
    split
    · next hedge => exact .setRun le_rfl hget (RunChange.of_edge m.now.1 hedge)
    · exact .refl m

theorem settleRun_effect (m : Mem V) (runId : String) {change : StoredRun V → StoredRun V}
    (hchange : ∀ run, isTerminalRunStatus (change run).status ∧
      change run = { run with status := (change run).status, output := (change run).output,
                              error := (change run).error }) :
    Affects op m (m.settleRun runId change).2 := by
  unfold settleRun
  split
  · exact .refl m
  · next run hget =>
    split
    · exact .refl m
    · next hlive =>
      obtain ⟨hterminal, hsame⟩ := hchange run
      exact .setRun le_rfl hget
        (RunChange.of_terminal _ m.now.1 (by simpa using hlive) hterminal hsame)

theorem requestRunCancellation_effect (m : Mem V) (runId : String) :
    Affects op m (m.requestRunCancellation runId).2 := by
  unfold requestRunCancellation
  split
  · exact .refl m
  · next run hget =>
    split
    · exact .refl m
    · next hlive =>
      simp only [not_or, Bool.not_eq_true] at hlive
      exact .setRun le_rfl hget ⟨hlive.1, canTransition_cancelling_run hlive.1 hlive.2, rfl⟩

/-! ## Deletion -/

omit [JsRuntime V] in
theorem deleteRunTrees_records (m : Mem V) {ids : List String} (h : ids ≠ []) :
    (m.deleteRunTrees ids).records = m.records.deleteTrees ids := by
  simp [deleteRunTrees, h, records, Records.deleteTrees]

omit [JsRuntime V] in
@[simp] theorem deleteRunTrees_nextId (m : Mem V) (ids : List String) :
    (m.deleteRunTrees ids).nextId = m.nextId := by
  unfold deleteRunTrees
  split <;> rfl

omit [JsRuntime V] in
@[simp] theorem sweepDeadCommands_records (m : Mem V) (deadBefore : Nat) :
    (m.sweepDeadCommands deadBefore).records = m.records := rfl

theorem TerminalRunStatus.isTerminal (status : TerminalRunStatus) :
    isTerminalRunStatus status.toRunStatus := by cases status <;> rfl

theorem pruneRoots_spec {params : PruneTerminalRunsParams} {run : StoredRun V}
    (h : run ∈ m.pruneRoots params) :
    run ∈ m.runs.values ∧ run.parentRunId = none ∧ isTerminalRunStatus run.status := by
  have hsorted := List.mem_of_mem_take h
  rw [List.mem_insertionSort, List.mem_filter] at hsorted
  obtain ⟨hmem, hguard⟩ := hsorted
  simp only [decide_eq_true_eq, List.mem_map] at hguard
  obtain ⟨hparent, ⟨status, -, hstatus⟩, -⟩ := hguard
  exact ⟨hmem, hparent, hstatus ▸ TerminalRunStatus.isTerminal status⟩

theorem pruneTerminalRuns_effect (m : Mem V) (params : PruneTerminalRunsParams) :
    Affects (.store (.pruneTerminalRuns params)) m (m.pruneTerminalRuns params).2 := by
  unfold pruneTerminalRuns
  split
  · exact .of_records_eq rfl le_rfl
  · by_cases hids : m.collectRunTreeIds ((m.pruneRoots params).map StoredRun.id) = []
    · simp only [hids]
      exact .of_records_eq rfl le_rfl
    · simp only [Affects, sweepDeadCommands_records, deleteRunTrees_records m hids]
      refine .delete (by simp [sweepDeadCommands]) rfl (.trees fun run hrun => pruneRoots_spec hrun)

omit [JsRuntime V] in
theorem collectRound_subset (runs : List (StoredRun V))
    (belongs : List String → StoredRun V → Bool) (ids : List String) :
    ids ⊆ collectRound runs belongs ids := by
  unfold collectRound
  induction runs generalizing ids with
  | nil => exact List.Subset.refl ids
  | cons run runs ih =>
    rw [List.foldl_cons]
    split
    · exact List.Subset.trans (List.subset_append_left ids _) (ih _)
    · exact ih ids

omit [JsRuntime V] in
theorem collectRounds_subset (runs : List (StoredRun V))
    (belongs : List String → StoredRun V → Bool) (rounds : Nat) (ids : List String) :
    ids ⊆ collectRounds runs belongs rounds ids := by
  induction rounds generalizing ids with
  | zero => exact List.Subset.refl ids
  | succ rounds ih =>
    have hround := collectRound_subset runs belongs ids
    simp only [collectRounds]
    split
    · exact hround
    · exact List.Subset.trans hround (ih _)

theorem deleteRun_effect (m : Mem V) (runId : String) : Affects (.store (.deleteRun runId)) m (m.deleteRun runId).2 := by
  unfold deleteRun
  split
  · exact .refl m
  · next run hget =>
    split
    · exact .refl m
    · next hparent =>
      dsimp only
      split
      · exact .refl m
      · next hfamily =>
        have hmem : runId ∈ m.collectRunDescendantIds runId :=
          collectRounds_subset _ _ _ _ (List.mem_singleton_self runId)
        simp only [Affects, deleteRunTrees_records m (List.ne_nil_of_mem hmem),
          deleteRunTrees_nextId]
        refine .delete le_rfl rfl (.family hget (not_not.mp hparent) fun id hid => ?_)
        simp only [List.any_eq_true, not_exists, not_and, Bool.not_eq_true] at hfamily
        have hmember := hfamily id hid
        cases hrun : m.runs.get? id with
        | none => simp [hrun] at hmember
        | some member => exact ⟨member, hrun, by simpa [hrun] using hmember⟩

/-! ## Nodes -/

theorem createNode_effect (m : Mem V) (input : CreateNodeInput) :
    Affects (.store (.createNode input)) m (m.createNode input).2 := by
  unfold createNode
  dsimp only
  split
  · exact .refl m
  · next habsent => exact .addNode le_rfl rfl habsent rfl ⟨input, rfl, rfl, rfl⟩

/-- A guarded write of a node that keeps what the node was created with. -/
theorem updateNode_effect {key : String} {node : StoredNode V}
    {change : StoredNode V → StoredNode V} (hget : m.nodes.get? key = some node)
    (hlive : isTerminalNodeStatus node.status = false)
    (hstatus : (change node).status = node.status ∨ isTerminalNodeStatus (change node).status ∨
      ((change node).status = .waiting ∧ node.status ≠ .waiting))
    (hselected : (change node).selectedCase = node.selectedCase ∨ node.selectedCase = none)
    (hsame : change node =
      { node with
        status := (change node).status, input := (change node).input,
        output := (change node).output, error := (change node).error,
        selectedCase := (change node).selectedCase }) :
    Affects op m (m.updateNode key node change).2 := by
  refine .setNode le_rfl hget ⟨hlive, fun hc => ?_, fun hc => ?_, hselected, ?_⟩
  · obtain h | h | ⟨h, hw⟩ := hstatus
    · exact .inl h
    · exact .inr (canTransition_terminal_node hlive h)
    · exact .inr (canTransition_waiting_node hlive hc hw h)
  · intro (he : (change node).status = .cancelling)
    rw [he] at hstatus
    obtain h | h | ⟨h, -⟩ := hstatus
    · exact hc h.symm
    · cases h
    · cases h
  · rw [hsame]

theorem setNodeInput_effect (m : Mem V) (runId nodeName : String) (input : V) :
    Affects op m (m.setNodeInput runId nodeName input).2 := by
  unfold setNodeInput
  dsimp only
  split
  · exact .refl m
  · next node hget =>
    split
    · exact .refl m
    · next hlive =>
      dsimp only
      refine updateNode_effect hget (by simpa using hlive) (.inl ?_) (.inl ?_) ?_ <;> rfl

theorem selectNodeCase_effect (m : Mem V) (runId nodeName caseKey : String) :
    Affects op m (m.selectNodeCase runId nodeName caseKey).2 := by
  unfold selectNodeCase
  dsimp only
  split
  · exact .refl m
  · next node hget =>
    split
    · exact .refl m
    · next hlive =>
      split
      · exact .refl m
      · next hselected =>
        simp only [not_or, Bool.not_eq_true] at hlive
        dsimp only
        refine updateNode_effect hget hlive.1 (.inl ?_) (.inr (not_not.mp hselected)) ?_ <;> rfl

theorem settleNode_effect (m : Mem V) (runId nodeName : String)
    {change : StoredNode V → StoredNode V}
    (hchange : ∀ node, isTerminalNodeStatus (change node).status ∧
      change node = { node with status := (change node).status, output := (change node).output,
                                error := (change node).error }) :
    Affects op m (m.settleNode runId nodeName change).2 := by
  unfold settleNode
  dsimp only
  split
  · exact .refl m
  · next node hget =>
    split
    · exact .refl m
    · next hlive =>
      obtain ⟨hterminal, hsame⟩ := hchange node
      refine updateNode_effect hget (by simpa using hlive) (.inr (.inl hterminal)) (.inl ?_) ?_
      · rw [hsame]
      · rw [hsame]

theorem waitNode_effect (m : Mem V) (runId nodeName : String) :
    Affects op m (m.waitNode runId nodeName).2 := by
  unfold waitNode
  dsimp only
  split
  · exact .refl m
  · next node hget =>
    split
    · exact .refl m
    · next hlive =>
      simp only [not_or, Bool.not_eq_true] at hlive
      dsimp only
      refine updateNode_effect hget hlive.1 (.inr (.inr ⟨?_, hlive.2⟩)) (.inl ?_) ?_ <;> rfl

/-! ## Children -/

theorem ensureNodeChildren_effect (m : Mem V) (runId nodeName : String)
    (inputs : List (EnsureNodeChildInput V)) :
    Affects (.store (.ensureNodeChildren runId nodeName inputs)) m (m.ensureNodeChildren runId nodeName inputs).2 := by
  unfold ensureNodeChildren
  dsimp only
  split
  · exact .refl m
  · split
    · split <;> exact .refl m
    · next hnone =>
      refine .addChildren le_rfl rfl fun child hchild hrun hnode => hnone ?_
      have hmem : child ∈ m.nodeChildren runId nodeName := by
        rw [nodeChildren, List.mem_filter]
        exact ⟨hchild, by simp [hrun, hnode]⟩
      exact List.ne_nil_of_mem hmem

theorem settleNodeChild_effect (m : Mem V) (runId nodeName key : String)
    {change : StoredNodeChild V → StoredNodeChild V}
    (hchange : ∀ child, isTerminalNodeStatus (change child).status ∧
      change child = { child with status := (change child).status,
                                  output := (change child).output,
                                  error := (change child).error }) :
    Affects op m (m.settleNodeChild runId nodeName key change).2 := by
  unfold settleNodeChild
  dsimp only
  split
  · exact .refl m
  · next child hget =>
    split
    · exact .refl m
    · next hlive =>
      obtain ⟨hterminal, hsame⟩ := hchange child
      obtain ⟨hc, hlink, hattempts⟩ :=
        ChildChange.of_terminal _ m.now.1 (by simpa using hlive) hterminal hsame
      exact .setChild le_rfl hget hc hlink hattempts

omit [JsRuntime V] in
theorem cancelSweptNode_cases (runId : String) (m : Mem V) (node : StoredNode V) :
    m.cancelSweptNode runId node = m ∨
    ∃ node', NodeChange node node' ∧ m.cancelSweptNode runId node =
      { m with nodes := m.nodes.set (nodeKey node.runId node.name) node'
               lastTimestamp := m.now.1 } := by
  unfold cancelSweptNode
  split
  · exact .inl rfl
  · next hlive =>
    simp only [not_or, Bool.not_eq_true] at hlive
    refine .inr ⟨_, ⟨hlive.2, fun _ => .inr ?_, fun _ => ?_, .inl ?_, ?_⟩, rfl⟩
    · exact canTransition_terminal_node hlive.2 rfl
    · exact RuntimeNodeStatus.noConfusion
    · rfl
    · rfl

omit [JsRuntime V] in
theorem cancelSweptChild_cases (runId : String) (m : Mem V) (child : StoredNodeChild V) :
    m.cancelSweptChild runId child = m ∨
    ∃ child', (ChildChange child child' ∧ ChildChange.KeepsLink child child' ∧
        ChildChange.KeepsAttempts child child') ∧
      m.cancelSweptChild runId child =
        { m with children := m.children.set (childKey child.runId child.nodeName child.childKey)
                   child'
                 lastTimestamp := m.now.1 } := by
  unfold cancelSweptChild
  split
  · exact .inl rfl
  · next hlive =>
    simp only [not_or, Bool.not_eq_true] at hlive
    have hchange := ChildChange.of_terminal { child with status := .cancelled } m.now.1
      hlive.2 rfl rfl
    exact .inr ⟨_, hchange, rfl⟩

omit [JsRuntime V] in
/-- The loop over the nodes writes nodes only. -/
theorem cancelSweptNodes_spec (hk : Keyed m.records) (runId : String) :
    let m' := m.nodes.values.foldl (cancelSweptNode runId) m
    OrdMap.Swept NodeChange m.nodes m'.nodes ∧ m'.nextId = m.nextId ∧
      m'.records = { m.records with nodes := m'.nodes } := by
  have hswept := OrdMap.swept_foldl (g := cancelSweptNode runId) (R := NodeChange) Mem.nodes
    (fun node => nodeKey node.runId node.name) (l := m.nodes.values) (s := m)
    (fun m node _ => by
      obtain h | ⟨node', hc, h⟩ := cancelSweptNode_cases runId m node
      · exact .inl (by rw [h])
      · exact .inr ⟨node', hc, by rw [h]⟩)
    (OrdMap.nodup_map_values hk.nodes)
    (fun node hnode => by
      obtain ⟨key, hkey⟩ := OrdMap.mem_values_iff.mp hnode
      rw [hk.nodes hkey]
      exact hkey)
  have hframe := Trace.run_frame (cancelSweptNode runId)
    (fun m : Mem V => (m.nextId, m.runs, m.children, m.attempts))
    (fun m node => by
      obtain h | ⟨node', -, h⟩ := cancelSweptNode_cases runId m node <;> rw [h])
    m m.nodes.values
  simp only [Prod.mk.injEq] at hframe
  obtain ⟨hn, hruns, hchildren, hattempts⟩ := hframe
  exact ⟨hswept.1, hn, Records.ext hruns rfl hchildren hattempts⟩

omit [JsRuntime V] in
/-- The loop over the children writes children only. -/
theorem cancelSweptChildren_spec (hk : Keyed m.records) (runId : String) :
    let m' := m.children.values.foldl (cancelSweptChild runId) m
    OrdMap.Swept (fun child child' => ChildChange child child' ∧
        ChildChange.KeepsLink child child' ∧ ChildChange.KeepsAttempts child child')
      m.children m'.children ∧ m'.nextId = m.nextId ∧
      m'.records = { m.records with children := m'.children } := by
  have hswept := OrdMap.swept_foldl (g := cancelSweptChild runId)
    (R := fun child child' => ChildChange child child' ∧
      ChildChange.KeepsLink child child' ∧ ChildChange.KeepsAttempts child child') Mem.children
    (fun child => childKey child.runId child.nodeName child.childKey)
    (l := m.children.values) (s := m)
    (fun m child _ => by
      obtain h | ⟨child', hc, h⟩ := cancelSweptChild_cases runId m child
      · exact .inl (by rw [h])
      · exact .inr ⟨child', hc, by rw [h]⟩)
    (OrdMap.nodup_map_values hk.children)
    (fun child hchild => by
      obtain ⟨key, hkey⟩ := OrdMap.mem_values_iff.mp hchild
      rw [hk.children hkey]
      exact hkey)
  have hframe := Trace.run_frame (cancelSweptChild runId)
    (fun m : Mem V => (m.nextId, m.runs, m.nodes, m.attempts))
    (fun m child => by
      obtain h | ⟨child', -, h⟩ := cancelSweptChild_cases runId m child <;> rw [h])
    m m.children.values
  simp only [Prod.mk.injEq] at hframe
  obtain ⟨hn, hruns, hnodes, hattempts⟩ := hframe
  exact ⟨hswept.1, hn, Records.ext hruns hnodes rfl hattempts⟩

theorem cancelNonTerminalRunNodes_effect (hk : Keyed m.records) (runId : String) :
    Affects op m (m.cancelNonTerminalRunNodes runId) := by
  unfold cancelNonTerminalRunNodes
  dsimp only
  obtain ⟨hnodes, hn₁, hr₁⟩ := cancelSweptNodes_spec hk runId
  set m₁ := m.nodes.values.foldl (cancelSweptNode runId) m
  have hchildren₁ : m₁.children = m.children := congrArg Records.children hr₁
  have hk₁ : Keyed m₁.records := by
    rw [hr₁]
    exact ⟨hk.runs, fun hget => hk.nodes_swept hnodes hget, hk.children, hk.attempts⟩
  obtain ⟨hchildren, hn₂, hr₂⟩ := cancelSweptChildren_spec hk₁ runId
  unfold Affects
  rw [hn₂, hn₁, hr₂, hr₁]
  exact .sweep le_rfl hnodes (hchildren₁ ▸ hchildren)

/-! ## Child runs -/

theorem startedFor_of_match {params : EnsureChildRunParams V} {run : StoredRun V}
    (h : runMatchesCreateInput run (childRunInput params)) : StartedFor params run := by
  simp only [runMatchesCreateInput, Bool.and_eq_true] at h
  obtain ⟨⟨⟨⟨⟨⟨⟨hkind, hname⟩, hworkflow⟩, -⟩, hparent⟩, hnode⟩, hroot⟩, hinput⟩ := h
  exact ⟨of_decide_eq_true hkind, of_decide_eq_true hname, of_decide_eq_true hworkflow, hinput,
    of_decide_eq_true hparent, of_decide_eq_true hnode, of_decide_eq_true hroot⟩

omit [JsRuntime V] in
/-- Linking a child to a run: the child moves to `running`. -/
theorem linkChange {child : StoredNodeChild V} (childRunId : String) (date : Nat)
    (hlive : isTerminalNodeStatus child.status = false) (hunlinked : child.childRunId = none) :
    let child' : StoredNodeChild V :=
      { child with childRunId := some childRunId, status := .running,
                   version := child.version + 1, updatedAt := date }
    ChildChange child child' ∧ ChildChange.KeepsAttempts child child' := by
  refine ⟨⟨hlive, fun hc => ?_, fun _ => RuntimeNodeStatus.noConfusion, .inr hunlinked, le_rfl,
    rfl⟩, rfl, rfl⟩
  exact running_of_live_node hlive hc

theorem ensureChildRun_effect (hk : Keyed m.records) (params : EnsureChildRunParams V) :
    Affects (.store (.ensureChildRun params)) m (m.ensureChildRun params).2 := by
  unfold ensureChildRun
  dsimp only
  split
  · exact .refl m
  · next child hget =>
    split
    · split
      · exact .refl m
      · split <;> exact .refl m
    · next hunlinked =>
      split
      · exact .refl m
      · next hlive =>
        have hlive : isTerminalNodeStatus child.status = false := by simpa using hlive
        obtain ⟨e, h⟩ | ⟨key, run, h, hrun, hmatch⟩ | h :=
          m.createRunWithState_cases (childRunInput params)
        · rw [h]
          exact .refl m
        · rw [h]
          obtain ⟨hchange, hattempts⟩ := linkChange run.id m.now.1 hlive hunlinked
          have hstored : m.records.runs.get? run.id = some run := by
            rw [hk.runs hrun]
            exact hrun
          exact .linkChild le_rfl rfl hget hunlinked hstored
            (startedFor_of_match (hmatch rfl)) hchange rfl hattempts
        · rw [h]
          obtain ⟨hchange, hattempts⟩ := linkChange (m.insertRun (childRunInput params)).1.id
            (m.insertRun (childRunInput params)).2.now.1 hlive hunlinked
          refine .linkNewChild (Nat.lt_succ_self _) rfl hget hunlinked rfl rfl ?_ hchange rfl hattempts
          exact ⟨rfl, rfl, rfl, by simp [newRun, childRunInput, sameValue], rfl, rfl, rfl⟩

/-! ## Attempts -/

theorem createChildAttempt_effect {key : String} {child : StoredNodeChild V}
    (hkey : childKey child.runId child.nodeName child.childKey = key)
    (hget : m.children.get? key = some child)
    (hlive : isTerminalNodeStatus child.status = false) {input : V} {idempotencyKey : Option V}
    (hsource : ∀ attempt : StoredAttempt V, attempt.input = input →
      attempt.idempotencyKey = idempotencyKey → MakesAttempt child attempt op) :
    Affects op m (m.createChildAttempt child input idempotencyKey).2 := by
  subst hkey
  have hchange (attemptId : String) (date : Nat) : ChildChange child
      { child with status := .running, currentAttemptId := some attemptId,
                   attemptCount := child.attemptCount + 1, version := child.version + 1,
                   updatedAt := date } :=
    ⟨hlive, running_of_live_node hlive, fun _ => RuntimeNodeStatus.noConfusion, .inl rfl,
      Nat.le_succ _, rfl⟩
  have hn : m.nextId < m.nextId + 1 + 1 := Nat.lt_succ_of_lt (Nat.lt_succ_self _)
  unfold createChildAttempt
  dsimp only
  split
  · refine Effect.addAttempt (s := m.records) hn hget ?_ ?_ ?_ ?_ (hchange _ _) rfl rfl rfl
      (OrdMap.Swept.refl _ _) (hsource _ rfl rfl)
    exacts [rfl, ⟨rfl, rfl, rfl⟩, rfl, rfl]
  · next node hnode =>
    split
    · next hrun =>
      refine Effect.addAttempt (s := m.records) hn hget ?_ ?_ ?_ ?_ (hchange _ _) rfl rfl rfl
        (OrdMap.Swept.set hnode ⟨?_, fun _ => ?_, fun _ => ?_, .inl ?_, ?_⟩) (hsource _ rfl rfl)
      exacts [rfl, ⟨rfl, rfl, rfl⟩, rfl, rfl, live_of_running_node hrun, hrun.imp_left Eq.symm,
        RuntimeNodeStatus.noConfusion, rfl, rfl]
    · refine Effect.addAttempt (s := m.records) hn hget ?_ ?_ ?_ ?_ (hchange _ _) rfl rfl rfl
        (OrdMap.Swept.refl _ _) (hsource _ rfl rfl)
      exacts [rfl, ⟨rfl, rfl, rfl⟩, rfl, rfl]

theorem createAttempt_effect (hk : Keyed m.records) (input : ChildAttemptParams V) :
    Affects (.store (.createAttempt input)) m (m.createAttempt input).2 := by
  unfold createAttempt
  dsimp only
  split
  · exact .refl m
  · next child hget =>
    split
    · exact .refl m
    · next hlive =>
      exact createChildAttempt_effect (hk.children hget) hget (by simpa using hlive)
        fun attempt hinput hkey => .next (hk.children hget).symm hinput hkey

theorem ensureChildAttempt_effect (hk : Keyed m.records) (params : ChildAttemptParams V) :
    Affects (.store (.ensureChildAttempt params)) m (m.ensureChildAttempt params).2 := by
  unfold ensureChildAttempt
  dsimp only
  split
  · exact .refl m
  · next child hget =>
    split
    · split <;> exact .refl m
    · next hcount =>
      split
      · exact .refl m
      · next hlive =>
        exact createChildAttempt_effect (hk.children hget) hget (by simpa using hlive)
          fun _ _ _ => .first (by omega)

omit [JsRuntime V] in
/-- What the fence lets through: the attempt is started, carries the token, and is the current
attempt of its child, which is not terminal. -/
theorem fencedCurrentAttempt_eq_some {attemptId leaseToken : String} {attempt : StoredAttempt V}
    {child : StoredNodeChild V} :
    m.fencedCurrentAttempt attemptId leaseToken = some (attempt, child) ↔
      m.attempts.get? attemptId = some attempt ∧ attempt.leaseToken = leaseToken ∧
      attempt.status = .started ∧
      m.children.get? (childKey attempt.runId attempt.nodeName attempt.childKey) = some child ∧
      isTerminalNodeStatus child.status = false ∧ child.currentAttemptId = some attemptId := by
  unfold fencedCurrentAttempt
  cases hattempt : m.attempts.get? attemptId with
  | none => simp
  | some stored =>
    dsimp only
    split
    · next hguard =>
      constructor
      · intro h
        cases h
      · rintro ⟨hs, htoken, hstatus, _⟩
        obtain rfl := Option.some.inj hs
        simp [htoken, hstatus] at hguard
    · next hguard =>
      simp only [not_or, not_not] at hguard
      cases hchild : m.children.get? (childKey stored.runId stored.nodeName stored.childKey) with
      | none =>
        constructor
        · intro h
          cases h
        · rintro ⟨hs, _, _, hc, _⟩
          obtain rfl := Option.some.inj hs
          simp [hchild] at hc
      | some storedChild =>
        dsimp only
        split
        · next hfence =>
          constructor
          · intro h
            cases h
          · rintro ⟨hs, _, _, hc, hlive, hcurrent⟩
            obtain rfl := Option.some.inj hs
            obtain rfl := Option.some.inj (hchild.symm.trans hc)
            simp [hlive, hcurrent] at hfence
        · next hfence =>
          simp only [not_or, not_not, Bool.not_eq_true] at hfence
          constructor
          · intro h
            obtain ⟨rfl, rfl⟩ := Prod.mk.inj (Option.some.inj h)
            exact ⟨rfl, hguard.1, hguard.2, hchild, hfence.1, hfence.2⟩
          · rintro ⟨hs, _, _, hc, _⟩
            obtain rfl := Option.some.inj hs
            obtain rfl := Option.some.inj (hchild.symm.trans hc)
            rfl

theorem completeCurrentAttempt_effect (hk : Keyed m.records) (attemptId leaseToken : String)
    (output : V) : Affects op m (m.completeCurrentAttempt attemptId leaseToken output).2 := by
  unfold completeCurrentAttempt
  split
  · exact .refl m
  · next attempt child hfence =>
    obtain ⟨hget, -, hstarted, hchild, hlive, hcurrent⟩ := fencedCurrentAttempt_eq_some.mp hfence
    have hkey := hk.children hchild
    obtain ⟨hchange, hlink, hattempts⟩ := ChildChange.of_terminal
      { child with status := .completed, output := some output }
      (m.updateAttempt attemptId attempt fun attempt => attempt).2.now.1 hlive rfl rfl
    dsimp only
    rw [hkey]
    refine .setAttempt le_rfl hget ⟨hstarted, ?_, ?_⟩ rfl hchild hcurrent hlive
      (.inr ⟨_, hchange, hlink, hattempts, rfl⟩)
    · rfl
    · rfl

theorem failCurrentAttemptAs_effect {status : RuntimeAttemptStatus}
    (hstatus : isSettledAttemptStatus status) (m : Mem V) (attemptId leaseToken : String)
    (error : Thrown V) :
    Affects op m (m.failCurrentAttemptAs status attemptId leaseToken error).2 := by
  unfold failCurrentAttemptAs
  split
  · exact .refl m
  · next attempt child hfence =>
    obtain ⟨hget, -, hstarted, hchild, hlive, hcurrent⟩ := fencedCurrentAttempt_eq_some.mp hfence
    refine .setAttempt le_rfl hget ⟨hstarted, ?_, ?_⟩ rfl hchild hcurrent hlive (.inl rfl)
    · exact hstatus
    · rfl

/-! ## Leases and queues -/

/-- The step leaves the records and their indexes alone and the id counter does not go back. -/
structure Quiet (m m' : Mem V) : Prop where
  records : m'.records = m.records
  indexes : m'.indexes = m.indexes
  nextId : m.nextId ≤ m'.nextId

omit [JsRuntime V] in
theorem Quiet.refl (m : Mem V) : Quiet m m := ⟨rfl, rfl, le_rfl⟩

omit [JsRuntime V] in
theorem Quiet.trans {m₁ m₂ m₃ : Mem V} (h : Quiet m₁ m₂) (h' : Quiet m₂ m₃) : Quiet m₁ m₃ :=
  ⟨h'.records.trans h.records, h'.indexes.trans h.indexes, h.nextId.trans h'.nextId⟩

theorem Quiet.affects {m' : Mem V} (h : Quiet m m') : Affects op m m' :=
  .of_records_eq h.records h.nextId

omit [JsRuntime V] in
theorem acquireRunLease_quiet (m : Mem V) (runId : String) (leaseMs : Nat) :
    Quiet m (m.acquireRunLease runId leaseMs).2 := by
  unfold acquireRunLease
  dsimp only
  split
  · exact ⟨rfl, rfl, le_rfl⟩
  · split
    · exact ⟨rfl, rfl, le_rfl⟩
    · exact ⟨rfl, rfl, Nat.le_succ _⟩

omit [JsRuntime V] in
theorem renewRunLease_quiet (m : Mem V) (lease : RunLease) (leaseMs : Nat) :
    Quiet m (m.renewRunLease lease leaseMs).2 := by
  unfold renewRunLease
  split
  · exact .refl m
  · split <;> exact ⟨rfl, rfl, le_rfl⟩

omit [JsRuntime V] in
theorem releaseRunLease_quiet (m : Mem V) (lease : RunLease) :
    Quiet m (m.releaseRunLease lease) := by
  unfold releaseRunLease
  split <;> exact ⟨rfl, rfl, le_rfl⟩

section

variable {α : Type}

omit [JsRuntime V] in
theorem countFailedDelivery_quiet (m : Mem V) (item : QueueItem α) (error : StoredError) :
    Quiet m (m.countFailedDelivery item error).2 := by
  unfold countFailedDelivery
  dsimp only
  split <;> exact ⟨rfl, rfl, le_rfl⟩

theorem releaseQueueItem_quiet (m : Mem V) (item : QueueItem α)
    (options : CommandReleaseOptions V) : Quiet m (m.releaseQueueItem item options).2 := by
  unfold releaseQueueItem
  split
  · exact .refl m
  · exact countFailedDelivery_quiet m item _

omit [JsRuntime V] in
theorem reclaimExpiredLeases_quiet (m : Mem V) (claimed : OrdMap String (ClaimedQueueItem α))
    (queue : List (QueueItem α)) (eligible : α → Bool) :
    Quiet m (m.reclaimExpiredLeases claimed queue eligible).2.2 := by
  unfold reclaimExpiredLeases
  dsimp only
  refine Trace.run_inv (reclaimOne _ eligible) (P := fun _ => True)
    (I := fun state : OrdMap String (ClaimedQueueItem α) × List (QueueItem α) × Mem V =>
      Quiet m state.2.2)
    (fun state entry _ hquiet => ?_) (fun _ _ => trivial) ⟨rfl, rfl, le_rfl⟩
  unfold reclaimOne
  dsimp only
  split
  · exact hquiet
  · exact hquiet.trans (countFailedDelivery_quiet _ _ _)

end

omit [JsRuntime V] in
theorem enqueueContinue_quiet (m : Mem V) (command : ContinueRunCommand) (runAt : Option Nat) :
    Quiet m (m.enqueueContinue command runAt) := by
  unfold enqueueContinue
  split
  · exact ⟨rfl, rfl, Nat.le_succ _⟩
  · exact ⟨rfl, rfl, le_rfl⟩

omit [JsRuntime V] in
theorem requeueDeadCommand_quiet (m : Mem V) (commandId : String) :
    Quiet m (m.requeueDeadCommand commandId) := by
  unfold requeueDeadCommand
  split
  · exact ⟨rfl, rfl, le_rfl⟩
  · split <;> exact ⟨rfl, rfl, le_rfl⟩

omit [JsRuntime V] in
theorem markDeadCommandReaped_quiet (m : Mem V) (commandId : String) :
    Quiet m (m.markDeadCommandReaped commandId) := by
  unfold markDeadCommandReaped
  dsimp only
  split
  · exact ⟨rfl, rfl, le_rfl⟩
  · split <;> exact ⟨rfl, rfl, le_rfl⟩

omit [JsRuntime V] in
theorem claimContinue_quiet (m : Mem V) (worker : RunCoordinationWorkerClaim) :
    Quiet m (m.claimContinue worker).2 := by
  have hreclaim := m.reclaimExpiredLeases_quiet m.claimedContinueRunCommands
    m.continueRunCommands (isEligibleContinue worker)
  unfold claimContinue
  dsimp only
  split
  · exact hreclaim.trans ⟨rfl, rfl, le_rfl⟩
  · exact hreclaim.trans ⟨rfl, rfl, Nat.le_succ _⟩

theorem claimAttempt_quiet (m : Mem V) (worker : ExecutionWorkerClaim) :
    Quiet m (m.claimAttempt worker).2 := by
  have hreclaim := m.reclaimExpiredLeases_quiet m.claimedAttemptCommands m.attemptCommands
    (isEligibleAttempt worker)
  unfold claimAttempt
  dsimp only
  split
  · exact hreclaim.trans ⟨rfl, rfl, le_rfl⟩
  · exact hreclaim.trans ⟨rfl, rfl, Nat.le_succ _⟩

theorem execExecutor_quiet (m : Mem V) (op : ExecutorOp V) : Quiet m (m.execExecutor op).2 := by
  cases op with
  | enqueue command runAt => exact m.enqueueContinue_quiet command runAt
  | claimContinue worker => exact m.claimContinue_quiet worker
  | ackContinue claim =>
    simp only [execExecutor, ackContinue]
    split <;> exact ⟨rfl, rfl, le_rfl⟩
  | releaseContinue claim options =>
    simp only [execExecutor, releaseContinue, returning]
    split
    · exact .refl m
    · split
      · exact .refl m
      · exact (m.releaseQueueItem_quiet _ options).trans ⟨rfl, rfl, le_rfl⟩
  | dispatch command runAt =>
    simp only [execExecutor, dispatchAttempt, returning]
    split
    · exact .refl m
    · exact ⟨rfl, rfl, Nat.le_succ _⟩
  | claimAttempt worker => exact m.claimAttempt_quiet worker
  | heartbeat claim leaseMs =>
    simp only [execExecutor, heartbeat]
    split
    · exact .refl m
    · split <;> exact ⟨rfl, rfl, le_rfl⟩
  | ackAttempt claim =>
    simp only [execExecutor, ackAttempt]
    split <;> exact ⟨rfl, rfl, le_rfl⟩
  | releaseAttempt claim options =>
    simp only [execExecutor, releaseAttempt, returning]
    split
    · exact .refl m
    · split
      · exact .refl m
      · exact (m.releaseQueueItem_quiet _ options).trans ⟨rfl, rfl, le_rfl⟩
  | deleteUnclaimed runId => exact ⟨rfl, rfl, le_rfl⟩

/-! ## The inversion -/

theorem execStore_effect (hk : Keyed m.records) (op : StoreOp V) :
    Affects (.store op) m (m.execStore op).2 := by
  cases op with
  | createRun input => exact m.createRun_effect input
  | pruneTerminalRuns params => exact m.pruneTerminalRuns_effect params
  | deleteRun runId => exact m.deleteRun_effect runId
  | markDeadCommandReaped commandId => exact (m.markDeadCommandReaped_quiet commandId).affects
  | requeueDeadCommand commandId => exact (m.requeueDeadCommand_quiet commandId).affects
  | acquireRunLease runId leaseMs => exact (m.acquireRunLease_quiet runId leaseMs).affects
  | renewRunLease lease leaseMs => exact (m.renewRunLease_quiet lease leaseMs).affects
  | releaseRunLease lease => exact (m.releaseRunLease_quiet lease).affects
  | loadRunSnapshot runId => exact .refl m
  | loadRuns runIds => exact .refl m
  | createNode input => exact m.createNode_effect input
  | setNodeInput runId nodeName input => exact m.setNodeInput_effect runId nodeName input
  | selectNodeCase runId nodeName caseKey => exact m.selectNodeCase_effect runId nodeName caseKey
  | ensureNodeChildren runId nodeName children =>
    exact m.ensureNodeChildren_effect runId nodeName children
  | ensureChildRun params => exact ensureChildRun_effect hk params
  | ensureChildAttempt params => exact ensureChildAttempt_effect hk params
  | createAttempt input => exact createAttempt_effect hk input
  | completeCurrentAttempt attemptId leaseToken output =>
    exact completeCurrentAttempt_effect hk attemptId leaseToken output
  | failCurrentAttempt attemptId leaseToken error =>
    exact failCurrentAttemptAs_effect rfl m attemptId leaseToken error
  | timeoutCurrentAttempt attemptId leaseToken error =>
    exact failCurrentAttemptAs_effect rfl m attemptId leaseToken error
  | completeNodeChild runId nodeName key output =>
    exact m.settleNodeChild_effect runId nodeName key fun _ => ⟨rfl, rfl⟩
  | failNodeChild runId nodeName key error =>
    exact m.settleNodeChild_effect runId nodeName key fun _ => ⟨rfl, rfl⟩
  | loadNodeChildren runId nodeName => exact .refl m
  | completeNode runId nodeName output =>
    exact m.settleNode_effect runId nodeName fun _ => ⟨rfl, rfl⟩
  | failNode runId nodeName error => exact m.settleNode_effect runId nodeName fun _ => ⟨rfl, rfl⟩
  | waitNode runId nodeName => exact m.waitNode_effect runId nodeName
  | markRunRunning runId => exact m.markRun_effect runId .running
  | markRunWaiting runId => exact m.markRun_effect runId .waiting
  | completeRun runId output => exact m.settleRun_effect runId fun _ => ⟨rfl, rfl⟩
  | failRun runId error => exact m.settleRun_effect runId fun _ => ⟨rfl, rfl⟩
  | requestRunCancellation runId => exact m.requestRunCancellation_effect runId
  | cancelRun runId => exact m.settleRun_effect runId fun _ => ⟨rfl, rfl⟩
  | cancelNode runId nodeName => exact m.settleNode_effect runId nodeName fun _ => ⟨rfl, rfl⟩
  | cancelNonTerminalRunNodes runId => exact cancelNonTerminalRunNodes_effect hk runId

/-- The list of effects is complete. -/
theorem step_effect (hk : Keyed m.records) (op : Op V) : Affects op m (m.step op) := by
  cases op with
  | store op => exact execStore_effect hk op
  | executor op => exact (m.execExecutor_quiet op).affects
  | clock time => exact .of_records_eq rfl le_rfl

end Mem

end Neemata.Workflows
