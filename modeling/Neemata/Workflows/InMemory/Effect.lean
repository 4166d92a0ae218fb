import Neemata.Workflows.InMemory.Store

/-!
# What one operation does to the stored records

`Effect` lists the ways an operation can change the runs, nodes, children and attempts, with the
guards the store checks. `step_effect` shows that the list is complete; the invariants of the
record maps are derived from it and never look at an operation again.
-/

namespace Neemata.Workflows

/-- The record maps of the store. -/
@[ext]
structure Records (V : Type) where
  runs : OrdMap String (StoredRun V)
  nodes : OrdMap String (StoredNode V)
  children : OrdMap String (StoredNodeChild V)
  attempts : OrdMap String (StoredAttempt V)

variable {V : Type}

def Mem.records (m : Mem V) : Records V := ⟨m.runs, m.nodes, m.children, m.attempts⟩

/-- The key indexes of the runs. -/
structure Indexes where
  runIdempotencyKeys : OrdMap String String
  activeUniqueRunKeys : OrdMap String String
  allUniqueRunKeys : OrdMap String String

def Mem.indexes (m : Mem V) : Indexes :=
  ⟨m.runIdempotencyKeys, m.activeUniqueRunKeys, m.allUniqueRunKeys⟩

/-! ## Changes of one record -/

/-- A run that is not terminal moves along an edge; the run keeps what it was created with. -/
structure RunChange (run run' : StoredRun V) : Prop where
  live : isTerminalRunStatus run.status = false
  edge : canTransition runTransitions run.status run'.status
  same : run' = { run with status := run'.status, output := run'.output, error := run'.error,
                           version := run.version + 1, updatedAt := run'.updatedAt }

/-- A node that is not terminal changes. No node is ever `cancelling`, and from every other
status the change follows an edge or keeps the status. -/
structure NodeChange (node node' : StoredNode V) : Prop where
  live : isTerminalNodeStatus node.status = false
  edge : node.status ≠ .cancelling →
    node'.status = node.status ∨ canTransition nodeTransitions node.status node'.status
  notCancelling : node.status ≠ .cancelling → node'.status ≠ .cancelling
  selected : node'.selectedCase = node.selectedCase ∨ node.selectedCase = none
  same : node' = { node with status := node'.status, input := node'.input,
                             output := node'.output, error := node'.error,
                             selectedCase := node'.selectedCase, version := node.version + 1,
                             updatedAt := node'.updatedAt }

/-- A child that is not terminal changes. A run link is set once, and attempts are only added. -/
structure ChildChange (child child' : StoredNodeChild V) : Prop where
  live : isTerminalNodeStatus child.status = false
  edge : child.status ≠ .cancelling →
    child'.status = child.status ∨ canTransition nodeTransitions child.status child'.status
  notCancelling : child.status ≠ .cancelling → child'.status ≠ .cancelling
  linked : child'.childRunId = child.childRunId ∨ child.childRunId = none
  counted : child.attemptCount ≤ child'.attemptCount
  same : child' = { child with status := child'.status, output := child'.output,
                               error := child'.error, childRunId := child'.childRunId,
                               currentAttemptId := child'.currentAttemptId,
                               attemptCount := child'.attemptCount,
                               version := child.version + 1, updatedAt := child'.updatedAt }

theorem ChildChange.runId_eq {child child' : StoredNodeChild V} (h : ChildChange child child') :
    child'.runId = child.runId := by rw [h.same]

theorem ChildChange.nodeName_eq {child child' : StoredNodeChild V} (h : ChildChange child child') :
    child'.nodeName = child.nodeName := by rw [h.same]

/-- The change leaves the child's run link alone. -/
def ChildChange.KeepsLink (child child' : StoredNodeChild V) : Prop :=
  child'.childRunId = child.childRunId

/-- The change leaves the child's attempts alone. -/
structure ChildChange.KeepsAttempts (child child' : StoredNodeChild V) : Prop where
  current : child'.currentAttemptId = child.currentAttemptId
  count : child'.attemptCount = child.attemptCount

/-- Settling a child that is not terminal. -/
theorem ChildChange.of_terminal {child : StoredNodeChild V} (changed : StoredNodeChild V)
    (date : Nat) (hlive : isTerminalNodeStatus child.status = false)
    (hterminal : isTerminalNodeStatus changed.status)
    (hsame : changed = { child with status := changed.status, output := changed.output,
                                    error := changed.error }) :
    let child' := { changed with version := child.version + 1, updatedAt := date }
    ChildChange child child' ∧ KeepsLink child child' ∧ KeepsAttempts child child' := by
  refine ⟨⟨hlive, fun _ => .inr (canTransition_terminal_node hlive hterminal), ?_, .inl ?_, ?_, ?_⟩,
    ?_, ?_, ?_⟩
  · rintro - he
    have he : changed.status = .cancelling := he
    rw [he] at hterminal
    cases hterminal
  · exact (congrArg StoredNodeChild.childRunId hsame :)
  · exact (congrArg StoredNodeChild.attemptCount hsame :).ge
  · rw [hsame]
  · exact (congrArg StoredNodeChild.childRunId hsame :)
  · exact (congrArg StoredNodeChild.currentAttemptId hsame :)
  · exact (congrArg StoredNodeChild.attemptCount hsame :)

/-- A started attempt is settled. -/
structure AttemptChange (attempt attempt' : StoredAttempt V) : Prop where
  live : attempt.status = .started
  settled : isSettledAttemptStatus attempt'.status
  same : attempt' = { attempt with status := attempt'.status, output := attempt'.output,
                                   error := attempt'.error, completedAt := attempt'.completedAt }

/-- The run was started for the child the parameters name. -/
structure StartedFor [JsRuntime V] (params : EnsureChildRunParams V) (run : StoredRun V) :
    Prop where
  kind : run.kind = params.childKind
  name : run.name = params.childName
  workflowName : run.workflowName = params.childName
  input : sameValue run.input params.input
  parentRunId : run.parentRunId = some params.runId
  parentNodeName : run.parentNodeName = some params.nodeName
  rootRunId : run.rootRunId = params.rootRunId

/-! ## Keys -/

/-- Every record is stored under the key of its own fields. -/
structure Keyed (s : Records V) : Prop where
  runs : ∀ {key run}, s.runs.get? key = some run → run.id = key
  nodes : ∀ {key node}, s.nodes.get? key = some node → nodeKey node.runId node.name = key
  children : ∀ {key child}, s.children.get? key = some child →
    childKey child.runId child.nodeName child.childKey = key
  attempts : ∀ {key attempt}, s.attempts.get? key = some attempt → attempt.id = key

theorem NodeChange.nodeKey_eq {node node' : StoredNode V} (h : NodeChange node node') :
    nodeKey node'.runId node'.name = nodeKey node.runId node.name := by rw [h.same]

theorem ChildChange.childKey_eq {child child' : StoredNodeChild V} (h : ChildChange child child') :
    childKey child'.runId child'.nodeName child'.childKey =
      childKey child.runId child.nodeName child.childKey := by rw [h.same]

theorem Keyed.nodes_swept {s : Records V} (hk : Keyed s) {nodes : OrdMap String (StoredNode V)}
    (hswept : OrdMap.Swept NodeChange s.nodes nodes) {key : String} {node : StoredNode V}
    (hget : nodes.get? key = some node) : nodeKey node.runId node.name = key := by
  obtain h | ⟨before, after, hbefore, hafter, hchange⟩ := hswept key
  · exact hk.nodes (h ▸ hget)
  · obtain rfl : after = node := Option.some.inj (hafter.symm.trans hget)
    rw [hchange.nodeKey_eq]
    exact hk.nodes hbefore

/-- The records of the runs `ids` go, with the children linked to one of these runs. -/
def Records.deleteTrees (s : Records V) (ids : List String) : Records V where
  runs := s.runs.filter fun runId _ => runId ∉ ids
  nodes := s.nodes.filter fun _ node => node.runId ∉ ids
  children := s.children.filter fun _ child =>
    child.runId ∉ ids ∧ ¬(child.childRunId.any fun childRunId => childRunId ∈ ids)
  attempts := s.attempts.filter fun _ attempt => attempt.runId ∉ ids

/-- One fresh record for each entry of a batch. -/
def Records.addChildren (s : Records V) (runId nodeName : String)
    (inputs : List (EnsureNodeChildInput V)) (date : Nat) : Records V :=
  let created := inputs.map (Mem.newChild runId nodeName · date)
  { s with
    children := created.foldl
      (fun children child => children.set (childKey runId nodeName child.childKey) child)
      s.children }

/-! ## Effects -/

section Effects

variable [JsRuntime V]

/-- How a deletion chose its runs: a family for `deleteRun`, trees for `pruneTerminalRuns`. -/
inductive Deletion (s : Records V) : List String → Prop
  | family {runId : String} {run : StoredRun V} (root : s.runs.get? runId = some run)
      (noParent : run.parentRunId = none)
      (terminal : ∀ id ∈ Mem.collectRounds s.runs.values Mem.belongsToFamily
        (s.runs.values.length + 1) [runId],
        ∃ member, s.runs.get? id = some member ∧ isTerminalRunStatus member.status) :
      Deletion s (Mem.collectRounds s.runs.values Mem.belongsToFamily (s.runs.values.length + 1) [runId])
  | trees {roots : List (StoredRun V)}
      (isRoot : ∀ run ∈ roots, run ∈ s.runs.values ∧ run.parentRunId = none ∧
        isTerminalRunStatus run.status) :
      Deletion s (Mem.collectRounds s.runs.values Mem.belongsToTree (s.runs.values.length + 1)
        (roots.map StoredRun.id).eraseDups)

/-- The two operations that delete runs. -/
def Op.isDeletion : Op V → Bool
  | .store (.deleteRun _) | .store (.pruneTerminalRuns _) => true
  | _ => false

/-- The operation that creates the attempt, with the arguments it has from there: the first attempt
of a child without any, or a further one. -/
inductive MakesAttempt (child : StoredNodeChild V) (attempt : StoredAttempt V) : Op V → Prop
  | first {params : ChildAttemptParams V} (count : child.attemptCount = 0) :
      MakesAttempt child attempt (.store (.ensureChildAttempt params))
  | next {params : ChildAttemptParams V}
      (key : childKey params.runId params.nodeName params.childKey =
        childKey child.runId child.nodeName child.childKey)
      (input : attempt.input = params.input)
      (idempotencyKey : attempt.idempotencyKey = params.idempotencyKey) :
      MakesAttempt child attempt (.store (.createAttempt params))

/-- What the operation `op` can do to the records while the id counter moves from `n` to `n'`. -/
inductive Effect (op : Op V) (n : Nat) (s : Records V) (n' : Nat) : Records V → Prop
  | same (hn : n ≤ n') : Effect op n s n' s
  | addRun {input : CreateRunInput V} {date : Nat} (hn : n < n')
      (source : op = .store (.createRun input)) :
      Effect op n s n'
        { s with runs := s.runs.set (freshId "run" n) (Mem.newRun input (freshId "run" n) date) }
  | setRun {runId : String} {run run' : StoredRun V} (hn : n ≤ n')
      (get : s.runs.get? runId = some run) (change : RunChange run run') :
      Effect op n s n' { s with runs := s.runs.set runId run' }
  | addNode {key : String} {node : StoredNode V} (hn : n ≤ n')
      (owner : nodeKey node.runId node.name = key) (absent : s.nodes.get? key = none)
      (status : node.status = .pending) (source : ∃ input, op = .store (.createNode input) ∧
        node.runId = input.runId ∧ node.name = input.name) :
      Effect op n s n' { s with nodes := s.nodes.set key node }
  | setNode {key : String} {node node' : StoredNode V} (hn : n ≤ n')
      (get : s.nodes.get? key = some node) (change : NodeChange node node') :
      Effect op n s n' { s with nodes := s.nodes.set key node' }
  | addChildren {runId nodeName : String} {inputs : List (EnsureNodeChildInput V)} {date : Nat}
      (hn : n ≤ n') (source : op = .store (.ensureNodeChildren runId nodeName inputs))
      (absent : ∀ child ∈ s.children.values, child.runId = runId → child.nodeName ≠ nodeName) :
      Effect op n s n' (s.addChildren runId nodeName inputs date)
  | setChild {key : String} {child child' : StoredNodeChild V} (hn : n ≤ n')
      (get : s.children.get? key = some child) (change : ChildChange child child')
      (link : ChildChange.KeepsLink child child')
      (attempts : ChildChange.KeepsAttempts child child') :
      Effect op n s n' { s with children := s.children.set key child' }
  | linkChild {params : EnsureChildRunParams V} {run : StoredRun V}
      {child child' : StoredNodeChild V} (hn : n ≤ n')
      (source : op = .store (.ensureChildRun params))
      (get : s.children.get? (childKey params.runId params.nodeName params.childKey) = some child)
      (unlinked : child.childRunId = none) (stored : s.runs.get? run.id = some run)
      (started : StartedFor params run) (change : ChildChange child child')
      (link : child'.childRunId = some run.id)
      (attempts : ChildChange.KeepsAttempts child child') :
      Effect op n s n' { s with
        children := s.children.set (childKey params.runId params.nodeName params.childKey) child' }
  | linkNewChild {params : EnsureChildRunParams V} {run : StoredRun V}
      {child child' : StoredNodeChild V} (hn : n < n')
      (source : op = .store (.ensureChildRun params))
      (get : s.children.get? (childKey params.runId params.nodeName params.childKey) = some child)
      (unlinked : child.childRunId = none) (id : run.id = freshId "run" n)
      (status : run.status = .queued) (started : StartedFor params run)
      (change : ChildChange child child') (link : child'.childRunId = some run.id)
      (attempts : ChildChange.KeepsAttempts child child') :
      Effect op n s n' { s with
        runs := s.runs.set run.id run
        children := s.children.set (childKey params.runId params.nodeName params.childKey) child' }
  | addAttempt {key : String} {child child' : StoredNodeChild V} {attempt : StoredAttempt V}
      {nodes : OrdMap String (StoredNode V)} (hn : n < n')
      (get : s.children.get? key = some child) (id : attempt.id = freshId "attempt" n)
      (owner : attempt.runId = child.runId ∧ attempt.nodeName = child.nodeName ∧
        attempt.childKey = child.childKey)
      (number : attempt.attemptNumber = child.attemptCount + 1) (status : attempt.status = .started)
      (change : ChildChange child child') (link : ChildChange.KeepsLink child child')
      (current : child'.currentAttemptId = some (freshId "attempt" n))
      (count : child'.attemptCount = child.attemptCount + 1)
      (swept : OrdMap.Swept NodeChange s.nodes nodes) (source : MakesAttempt child attempt op) :
      Effect op n s n' { s with
        attempts := s.attempts.set (freshId "attempt" n) attempt
        children := s.children.set key child'
        nodes }
  | setAttempt {attemptId key : String} {attempt attempt' : StoredAttempt V}
      {child : StoredNodeChild V} {children : OrdMap String (StoredNodeChild V)} (hn : n ≤ n')
      (get : s.attempts.get? attemptId = some attempt) (change : AttemptChange attempt attempt')
      (owner : key = childKey attempt.runId attempt.nodeName attempt.childKey)
      (getChild : s.children.get? key = some child)
      (current : child.currentAttemptId = some attemptId)
      (childLive : isTerminalNodeStatus child.status = false)
      (settle : children = s.children ∨ ∃ child', ChildChange child child' ∧
        ChildChange.KeepsLink child child' ∧ ChildChange.KeepsAttempts child child' ∧
        children = s.children.set key child') :
      Effect op n s n' { s with attempts := s.attempts.set attemptId attempt', children }
  | sweep {nodes : OrdMap String (StoredNode V)} {children : OrdMap String (StoredNodeChild V)}
      (hn : n ≤ n') (sweptNodes : OrdMap.Swept NodeChange s.nodes nodes)
      (sweptChildren : OrdMap.Swept (fun child child' => ChildChange child child' ∧
        ChildChange.KeepsLink child child' ∧ ChildChange.KeepsAttempts child child')
        s.children children) :
      Effect op n s n' { s with nodes, children }
  | delete {ids : List String} (hn : n ≤ n') (source : op.isDeletion)
      (deletion : Deletion s ids) :
      Effect op n s n' (s.deleteTrees ids)

/-- The id counter does not go back. -/
theorem Effect.nextId_le {op : Op V} {n n' : Nat} {s s' : Records V} (h : Effect op n s n' s') :
    n ≤ n' := by
  cases h <;> omega

end Effects

end Neemata.Workflows
