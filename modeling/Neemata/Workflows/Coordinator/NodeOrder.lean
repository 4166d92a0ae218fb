import Neemata.Workflows.Coordinator.Interleaving
import Neemata.Workflows.InMemory.NodeOrigin
import Neemata.Workflows.JsonText

/-!
# The nodes of a run start in order

Whatever coordinators are at work on a run, together, one after the other, with leases that expired
under them or cut off at any await: no node of the workflow is started before every node declared
before it has ended (`Coordinators.nodes_in_order`). What a pass knows of the nodes stays true among
the others, as nodes that have ended stay so.
-/

namespace Neemata.Workflows

variable {V : Type}

/-- The node of the run has ended. -/
def Mem.NodeClosed (m : Mem V) (runId nodeName : String) : Prop :=
  ∃ node, m.nodes.get? (nodeKey runId nodeName) = some node ∧ isTerminalNodeStatus node.status

/-- Before a stored node of the run every node of the workflow is closed. -/
def Mem.NodesInOrder (m : Mem V) (workflow : WorkflowImplementation) (runId : String) : Prop :=
  ∀ before node after, workflow.nodes = before ++ node :: after → node.name ≠ TASK_RUN_NODE_NAME →
    (m.nodes.get? (nodeKey runId node.name)).isSome →
    ∀ earlier ∈ before, m.NodeClosed runId earlier.name

/-- The operation creates no node but one of a task run. -/
def Op.LeavesNodes : Op V → Prop
  | .store (.createNode input) => input.name = TASK_RUN_NODE_NAME
  | _ => True

section

variable [JsRuntime V] {m : Mem V} {workflow : WorkflowImplementation} {runId : String}

/-! ## Operations -/

omit [JsRuntime V] in
/-- A node under the key of a plain name is the one with this name. -/
theorem nodeKey_inj {node : StoredNode V} {name : String} (hnode : Separate ':' node.name)
    (hname : Separate ':' name) (hkey : nodeKey node.runId node.name = nodeKey runId name) :
    node.runId = runId ∧ node.name = name :=
  join_inj_right (c := ':') hnode hname hkey

/-- What holds of the nodes of all runs of the workflow. -/
structure NodesKept (workflow : WorkflowImplementation) (m : Mem V) : Prop where
  sound : m.Sound
  named : ∀ key node, m.nodes.get? key = some node → Separate ':' node.name ∧
    (node.name ≠ TASK_RUN_NODE_NAME → Minted "run" m.nextId node.runId)
  ordered : ∀ runId run, m.runs.get? runId = some run →
    run.workflowName = workflow.workflow.name → m.NodesInOrder workflow runId

/-- If the operation creates a node, it is the one of a task run, or the node of a run whose earlier
nodes are closed. -/
def Mem.MayCreate (m : Mem V) (workflow : WorkflowImplementation) (op : Op V) : Prop :=
  ∀ input, op = .store (.createNode input) → Separate ':' input.name ∧
    (input.name ≠ TASK_RUN_NODE_NAME → Minted "run" m.nextId input.runId ∧
      ∀ run, m.runs.get? input.runId = some run → run.workflowName = workflow.workflow.name →
        ∀ before node after, workflow.nodes = before ++ node :: after → node.name = input.name →
          ∀ earlier ∈ before, m.NodeClosed input.runId earlier.name)

/-- A node of a stored run stays stored, and does not come back from its end. -/
theorem NodesKept.node_step (h : NodesKept workflow m) (op : Op V) {name : String}
    (hname : Separate ':' name) {node : StoredNode V}
    (hget : m.nodes.get? (nodeKey runId name) = some node)
    (hrun : (m.step op).runs.get? runId ≠ none) :
    ∃ node', (m.step op).nodes.get? (nodeKey runId name) = some node' ∧
      (isTerminalNodeStatus node.status → isTerminalNodeStatus node'.status) := by
  have hkey : nodeKey node.runId node.name = nodeKey runId name := h.sound.keyed.nodes hget
  obtain ⟨rfl, -⟩ := nodeKey_inj (h.named _ _ hget).1 hname hkey
  obtain hgone | ⟨node', hget', rfl | hchange⟩ :=
    (Mem.step_effect h.sound.keyed op).node_kept hget
  · exact absurd hgone hrun
  · exact ⟨_, hget', id⟩
  · refine ⟨_, hget', fun hterminal => ?_⟩
    rw [hchange.live] at hterminal
    cases hterminal

/-- A closed node of a stored run stays closed. -/
theorem NodesKept.closed_step (h : NodesKept workflow m) (op : Op V) {name : String}
    (hname : Separate ':' name) (hclosed : m.NodeClosed runId name)
    (hrun : (m.step op).runs.get? runId ≠ none) : (m.step op).NodeClosed runId name := by
  obtain ⟨node, hget, hterminal⟩ := hclosed
  obtain ⟨node', hget', hkept⟩ := h.node_step op hname hget hrun
  exact ⟨node', hget', hkept hterminal⟩

theorem NodesKept.step (h : NodesKept workflow m) {op : Op V} (hop : m.MayCreate workflow op) :
    NodesKept workflow (m.step op) := by
  have hnext : m.nextId ≤ (m.step op).nextId := (Mem.step_effect h.sound.keyed op).nextId_le
  refine ⟨h.sound.step op, fun key node' hget => ?_, fun runId run' hrun hworkflow => ?_⟩
  · obtain ⟨node, hbefore, hchange⟩ | ⟨input, rfl, hrunId, hname⟩ :=
      (Mem.step_effect h.sound.keyed op).nodes_back hget
    · have hsame : node'.name = node.name ∧ node'.runId = node.runId := by
        obtain rfl | hchange := hchange
        · exact ⟨rfl, rfl⟩
        · exact ⟨(congrArg StoredNode.name hchange.same :),
            (congrArg StoredNode.runId hchange.same :)⟩
      rw [hsame.1, hsame.2]
      exact (h.named key node hbefore).imp_right fun hminted htask => (hminted htask).mono hnext
    · rw [hname, hrunId]
      exact (hop input rfl).imp_right fun hminted htask => (hminted htask).1.mono hnext
  · intro before node after hnodes htask hstored earlier hearlier
    have hseparate : Separate ':' node.name := workflow.name_separate (by simp [hnodes])
    have hearlierName : Separate ':' earlier.name :=
      workflow.name_separate (by simp [hnodes, hearlier])
    have hkept : (m.step op).runs.get? runId ≠ none := by rw [hrun]; exact nofun
    obtain ⟨node', hget⟩ := Option.isSome_iff_exists.mp hstored
    obtain ⟨stored, hbefore, -⟩ | ⟨input, rfl, hrunId, hname⟩ :=
      (Mem.step_effect h.sound.keyed op).nodes_back hget
    · have hkey := h.sound.keyed.nodes hbefore
      obtain ⟨rfl, hname⟩ := nodeKey_inj (h.named _ _ hbefore).1 hseparate hkey
      obtain hfresh | ⟨run, hrunBefore, hsame, -⟩ := h.sound.run_back op hrun
      · exact absurd (hfresh ▸ (h.named _ _ hbefore).2 (hname ▸ htask))
          (not_minted_freshId "run" m.nextId)
      · have hclosed := h.ordered _ run hrunBefore (hsame.symm.trans hworkflow) before node after
          hnodes htask (Option.isSome_iff_exists.mpr ⟨_, hbefore⟩) earlier hearlier
        exact h.closed_step op hearlierName hclosed hkept
    · have hkey := (h.sound.step _).keyed.nodes hget
      obtain ⟨hplain, hmay⟩ := hop input rfl
      obtain ⟨hnodeRun, hnodeName⟩ := nodeKey_inj (hname ▸ hplain) hseparate hkey
      have hinputRun : input.runId = runId := hrunId.symm.trans hnodeRun
      have hinputName : node.name = input.name := hnodeName.symm.trans hname
      obtain ⟨hminted, hmay⟩ := hmay (hinputName ▸ htask)
      rw [hinputRun] at hminted hmay
      obtain hfresh | ⟨run, hrunBefore, hsame, -⟩ := h.sound.run_back _ hrun
      · exact absurd (hfresh ▸ hminted) (not_minted_freshId "run" m.nextId)
      · have hclosed := hmay run hrunBefore (hsame.symm.trans hworkflow) before node after hnodes
          hinputName earlier hearlier
        exact h.closed_step _ hearlierName hclosed hkept

/-! ## What a pass knows -/

/-- What a pass with this implementation knows of the nodes of its run is true as long as the run is
stored. -/
def KnowsNodes (own : WorkflowImplementation) (m : Mem V) : Option (String × Knowledge V) → Prop
  | none => True
  | some (runId, known) => Minted "run" m.nextId runId ∧
    ∀ run, m.runs.get? runId = some run → run.workflowName = own.workflow.name ∧
      (∀ name ∈ known.stored, Separate ':' name ∧ (m.nodes.get? (nodeKey runId name)).isSome) ∧
      ∀ name ∈ known.closed, Separate ':' name ∧ m.NodeClosed runId name

variable {own : WorkflowImplementation} {phase : Option (String × Knowledge V)}
  {known : Knowledge V}

/-- It stays true whatever anyone does. -/
theorem KnowsNodes.step (h : KnowsNodes own m phase) (hm : NodesKept workflow m) (op : Op V) :
    KnowsNodes own (m.step op) phase := by
  cases phase with
  | none => trivial
  | some phase =>
    obtain ⟨runId, known⟩ := phase
    obtain ⟨hminted, hknown⟩ := h
    refine ⟨hminted.mono (Mem.step_effect hm.sound.keyed op).nextId_le, fun run' hrun => ?_⟩
    have hkept : (m.step op).runs.get? runId ≠ none := by rw [hrun]; exact nofun
    obtain hfresh | ⟨run, hbefore, hsame, -⟩ := hm.sound.run_back op hrun
    · exact absurd (hfresh ▸ hminted) (not_minted_freshId "run" m.nextId)
    · obtain ⟨hworkflow, hstored, hclosed⟩ := hknown run hbefore
      refine ⟨hsame.trans hworkflow, fun name hname => ?_, fun name hname => ?_⟩
      · obtain ⟨hseparate, hsome⟩ := hstored name hname
        obtain ⟨node, hget⟩ := Option.isSome_iff_exists.mp hsome
        obtain ⟨node', hget', -⟩ := hm.node_step op hseparate hget hkept
        exact ⟨hseparate, by rw [hget']; rfl⟩
      · exact ⟨(hclosed name hname).1, hm.closed_step op (hclosed name hname).1
          (hclosed name hname).2 hkept⟩

omit [JsRuntime V] in
/-- What is known of the nodes allows what the contract allows. -/
theorem KnowsNodes.mayCreate (h : KnowsNodes own m phase)
    (hown : own.DeployedAs workflow) {op : StoreOp V}
    (hallowed : (passContract own).allowed phase (.store op)) :
    m.MayCreate workflow (.store op) := by
  rintro input hinput
  obtain rfl : op = .createNode input := Op.store.inj hinput
  cases phase with
  | none =>
    obtain hhouse | hlease := hallowed
    · have htask : input.name = TASK_RUN_NODE_NAME := hhouse
      exact ⟨htask ▸ separate_taskRunNodeName, fun hne => absurd htask hne⟩
    · cases hlease
  | some phase =>
    obtain ⟨runId, known⟩ := phase
    obtain (hhouse | ⟨hrun, before, node, after, hnodes, hname, hbefore⟩) | hlease := hallowed
    · have htask : input.name = TASK_RUN_NODE_NAME := hhouse
      exact ⟨htask ▸ separate_taskRunNodeName, fun hne => absurd htask hne⟩
    · refine ⟨hname ▸ own.name_separate (by simp [hnodes]), fun _ => ⟨hrun ▸ h.1, ?_⟩⟩
      rw [hrun]
      intro run hget hworkflow before' node' after' hnodes' hname' earlier hearlier
      obtain ⟨hrunWorkflow, -, hclosed⟩ := h.2 run hget
      obtain rfl := hown (hrunWorkflow.symm.trans hworkflow)
      obtain rfl := own.before_unique hnodes hnodes' (hname.trans hname'.symm)
      exact (hclosed _ (hbefore earlier hearlier)).2
    · cases hlease

omit [JsRuntime V] in
theorem stored_createNode (m : Mem V) (input : CreateNodeInput) :
    ((m.createNode input).2.nodes.get? (nodeKey input.runId input.name)).isSome := by
  unfold Mem.createNode
  dsimp only
  split
  · next hget => rw [hget]; rfl
  · rw [OrdMap.get?_set_self]; rfl

omit [JsRuntime V] in
/-- A stored node is closed by its completion. -/
theorem nodeClosed_completeNode {name : String} (m : Mem V) (output : V)
    (hstored : ((m.completeNode runId name output).2.nodes.get? (nodeKey runId name)).isSome) :
    (m.completeNode runId name output).2.NodeClosed runId name := by
  unfold Mem.completeNode Mem.settleNode at hstored ⊢
  dsimp only at hstored ⊢
  split
  · next hnone =>
    rw [hnone] at hstored
    dsimp only at hstored
    rw [hnone] at hstored
    cases hstored
  · next node hget =>
    split
    · next hterminal => exact ⟨node, hget, hterminal⟩
    · exact ⟨_, OrdMap.get?_set_self _ _ _, rfl⟩

omit [JsRuntime V] in
theorem KnowsNodes.congr (h : KnowsNodes own m (some (runId, known))) {known' : Knowledge V}
    (hstored : known'.stored = known.stored) (hclosed : known'.closed = known.closed) :
    KnowsNodes own m (some (runId, known')) := by
  refine ⟨h.1, fun run hget => ?_⟩
  rw [hstored, hclosed]
  exact h.2 run hget

omit [JsRuntime V] in
/-- A snapshot shows the completed nodes of its run. -/
theorem knowsNodes_ofSnapshot (hm : NodesKept workflow m) {snapshot : RunSnapshot V}
    (hload : m.loadRunSnapshot runId = some snapshot)
    (hworkflow : snapshot.run.workflowName = own.workflow.name) :
    KnowsNodes own m (some (snapshot.run.id, .ofSnapshot snapshot)) := by
  obtain ⟨run, hrun, rfl⟩ := Option.map_eq_some_iff.mp hload
  obtain ⟨rfl, hminted⟩ := hm.sound.runs _ _ hrun
  have hcompleted (name : String) (hname : name ∈ ((m.nodes.values.filter fun node =>
      node.runId = run.id).filter fun node => node.status = .completed).map StoredNode.name) :
      Separate ':' name ∧ m.NodeClosed run.id name := by
    obtain ⟨node, hnode, rfl⟩ := List.mem_map.mp hname
    rw [List.mem_filter, List.mem_filter, decide_eq_true_eq, decide_eq_true_eq] at hnode
    obtain ⟨⟨hmem, hrunId⟩, hstatus⟩ := hnode
    obtain ⟨key, hget⟩ := OrdMap.mem_values_iff.mp hmem
    have hkey : nodeKey node.runId node.name = key := hm.sound.keyed.nodes hget
    rw [hrunId] at hkey
    exact ⟨(hm.named key node hget).1, node, hkey ▸ hget, by rw [hstatus]; rfl⟩
  refine ⟨hminted, fun run' hrun' => ?_⟩
  obtain rfl := Option.some.inj (hrun.symm.trans hrun')
  refine ⟨hworkflow, fun name hname => ?_, hcompleted⟩
  obtain ⟨hseparate, node, hget, -⟩ := hcompleted name hname
  exact ⟨hseparate, by rw [hget]; rfl⟩

/-- What an operation teaches is true after it. -/
theorem KnowsNodes.learn (h : KnowsNodes own m phase) (hm : NodesKept workflow m)
    {op : StoreOp V} (hmay : m.MayCreate workflow (.store op)) :
    KnowsNodes own (m.execStore op).2
      ((passContract own).advance phase (.store op) (m.execStore op).1) := by
  have hstep : KnowsNodes own (m.execStore op).2 phase := h.step hm (.store op)
  cases phase with
  | none =>
    cases op with
    | loadRunSnapshot runId =>
      simp only [Mem.execStore, Mem.returning]
      cases hload : m.loadRunSnapshot runId with
      | none => trivial
      | some snapshot =>
        by_cases hworkflow : snapshot.run.workflowName = own.workflow.name
        · have hadvance : (passContract own).advance none (.store (.loadRunSnapshot runId))
              (.ok (some snapshot)) = some (snapshot.run.id, .ofSnapshot snapshot) :=
            if_pos hworkflow
          rw [hadvance]
          exact knowsNodes_ofSnapshot hm hload hworkflow
        · have hadvance : (passContract own).advance none (.store (.loadRunSnapshot runId))
              (.ok (some snapshot)) = none := if_neg hworkflow
          rw [hadvance]
          trivial
    | _ => trivial
  | some phase =>
    obtain ⟨runId, known⟩ := phase
    change KnowsNodes own _ (some (runId, known.next runId (.store op) (m.execStore op).1))
    by_cases hcreate : ∃ input, op = .createNode input
    · obtain ⟨input, rfl⟩ := hcreate
      change KnowsNodes own _ (some (runId, if input.runId = runId then known.store input.name
        else known))
      split
      · next hrun =>
        subst hrun
        refine ⟨hstep.1, fun run hget => ?_⟩
        obtain ⟨hworkflow, hstored, hclosed⟩ := hstep.2 run hget
        refine ⟨hworkflow, fun name hname => ?_, hclosed⟩
        obtain rfl | hname := List.mem_cons.mp hname
        · exact ⟨(hmay input rfl).1, stored_createNode m input⟩
        · exact hstored name hname
      · exact hstep
    · by_cases hcomplete : ∃ id nodeName output, op = .completeNode id nodeName output
      · obtain ⟨id, nodeName, output, rfl⟩ := hcomplete
        change KnowsNodes own _ (some (runId, if id = runId then known.close nodeName else known))
        split
        · next hrun =>
          subst hrun
          unfold Knowledge.close
          split
          · next hmem =>
            refine ⟨hstep.1, fun run hget => ?_⟩
            obtain ⟨hworkflow, hstored, hclosed⟩ := hstep.2 run hget
            refine ⟨hworkflow, hstored, fun name hname => ?_⟩
            obtain rfl | hname := List.mem_cons.mp hname
            · exact ⟨(hstored _ hmem).1, nodeClosed_completeNode m output (hstored _ hmem).2⟩
            · exact hclosed name hname
          · exact hstep
        · exact hstep
      · obtain ⟨hstored, hclosed⟩ := known.next_nodes runId
          (fun input heq => hcreate ⟨input, heq⟩)
          (fun id nodeName output heq => hcomplete ⟨id, nodeName, output, heq⟩)
          (m.execStore op).1
        exact hstep.congr hstored hclosed

/-! ## Every interleaving -/

/-- The nodes of the workflow's runs start in order. -/
def nodesInOrder (workflow : WorkflowImplementation) : Discipline V workflow where
  Inv := NodesKept workflow
  May m op := m.MayCreate workflow op
  Knows := KnowsNodes
  create maxDeliveries := by
    refine ⟨Mem.sound_create maxDeliveries, ?_, ?_⟩
    · rintro key node ⟨⟩
    · rintro runId run ⟨⟩
  step h hop := h.step hop
  knowsNothing _ _ := trivial
  stillKnows _ hm _ h := h.step hm _
  allows hown _ h hallowed := h.mayCreate hown hallowed
  learns hown hm h hallowed := h.learn hm (h.mayCreate hown hallowed)
  executor _ _ := nofun

end

namespace Coordinators

variable [JsRuntime V]

/-- In every state that any number of coordinators reach in any interleaving, whoever dies, loses
its lease or acts beside them: a node of a run is stored only after every node declared before it
has ended. -/
theorem nodes_in_order (maxDeliveries : Option Int) {workflow : WorkflowImplementation}
    {history : List (CoordinatorMove V)}
    (hhistory : ∀ move ∈ history, move.Deploys workflow ∧ move.Besides Op.LeavesNodes)
    {runId : String} {run : StoredRun V}
    (hrun : (after maxDeliveries history).mem.runs.get? runId = some run)
    (hworkflow : run.workflowName = workflow.workflow.name) :
    (after maxDeliveries history).mem.NodesInOrder workflow runId := by
  have hkept : NodesKept workflow (after maxDeliveries history).mem := by
    refine (nodesInOrder workflow).holds_after maxDeliveries fun move hmove => ?_
    refine (hhistory move hmove).imp_right fun hbesides => ?_
    cases move with
    | other op =>
      rintro m - input rfl
      have htask : input.name = TASK_RUN_NODE_NAME := hbesides
      exact ⟨htask ▸ separate_taskRunNodeName, fun hne => absurd htask hne⟩
    | start | resume | crash => trivial
  exact hkept.ordered runId run hrun hworkflow

/-! ## A run of two nodes -/

/-- Two activities in a row. -/
def twoActivities : WorkflowImplementation where
  workflow := {
    name := "w"
    nodes := [⟨"first", .activity ⟨"in"⟩ ⟨"out"⟩ none⟩, ⟨"second", .activity ⟨"in"⟩ ⟨"out"⟩ none⟩] }
  nodes := [.activity { name := "first", activityName := "first" },
    .activity { name := "second", activityName := "second" }]
  finish := ⟨"finish"⟩

/-- User code that decodes a value to itself and has no other use. -/
def decodingUser : UserCode JsonText
  | .createContext => .ok ()
  | .decode _ value => .ok value
  | _ => .error (.error "No user code")

/-- The first activity is dispatched, a worker completes its node, and the second is dispatched. -/
def twoPasses : List (CoordinatorMove JsonText) :=
  .other (.store (.createRun { workflowName := "w", input := .null })) ::
    CoordinatorMove.pass twoActivities "run-1" decodingUser 20 ++
    .other (.store (.completeNode "run-1" "first" .null)) ::
    CoordinatorMove.pass twoActivities "run-1" decodingUser 20

theorem nodes_in_order_twoPasses :
    ((after none twoPasses).mem.nodes.get? (nodeKey "run-1" "second")).isSome ∧
      (after none twoPasses).mem.NodesInOrder twoActivities "run-1" := by
  have hname : ((after none twoPasses).mem.runs.get? "run-1").map StoredRun.workflowName =
      some "w" := by decide +kernel
  obtain ⟨run, hrun, hworkflow⟩ := Option.map_eq_some_iff.mp hname
  have hhistory : ∀ move ∈ twoPasses, move.Deploys twoActivities ∧ move.Besides Op.LeavesNodes := by
    refine List.forall_mem_append.mpr ⟨?_, ?_⟩
    · exact List.forall_mem_cons.mpr ⟨⟨trivial, trivial⟩, CoordinatorMove.deploys_pass⟩
    · exact List.forall_mem_cons.mpr ⟨⟨trivial, trivial⟩, CoordinatorMove.deploys_pass⟩
  exact ⟨by decide +kernel, nodes_in_order none hhistory hrun hworkflow⟩

end Coordinators

end Neemata.Workflows
