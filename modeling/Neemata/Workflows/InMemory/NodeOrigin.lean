import Neemata.Workflows.InMemory.Evolution

/-!
# Where nodes come from

`createNode` alone adds nodes; every other operation changes stored ones or deletes them with their
runs. A stored run was stored before or has a fresh id.
-/

namespace Neemata.Workflows

variable {V : Type}

/-- A stored node was stored before, or `createNode` adds it. -/
theorem Effect.nodes_back [JsRuntime V] {op : Op V} {n n' : Nat} {s s' : Records V}
    (heffect : Effect op n s n' s') {key : String} {node' : StoredNode V}
    (hget : s'.nodes.get? key = some node') :
    (∃ node, s.nodes.get? key = some node ∧ (node' = node ∨ NodeChange node node')) ∨
      ∃ input, op = .store (.createNode input) ∧ node'.runId = input.runId ∧
        node'.name = input.name := by
  cases heffect with
  | addNode _ _ _ _ source =>
    rw [OrdMap.get?_set] at hget
    split at hget
    · obtain rfl := Option.some.inj hget
      exact .inr source
    · exact .inl ⟨node', hget, .inl rfl⟩
  | setNode _ get change => exact .inl ((OrdMap.Swept.set get change).backward hget)
  | addAttempt _ _ _ _ _ _ _ _ _ _ swept _ => exact .inl (swept.backward hget)
  | sweep _ sweptNodes _ => exact .inl (sweptNodes.backward hget)
  | delete =>
    rw [Records.deleteTrees, OrdMap.get?_filter, Option.filter_eq_some_iff] at hget
    exact .inl ⟨node', hget.1, .inl rfl⟩
  | _ => exact .inl ⟨node', hget, .inl rfl⟩

/-- A stored node stays or changes as long as its run is stored. -/
theorem Effect.node_kept [JsRuntime V] {op : Op V} {n n' : Nat} {s s' : Records V}
    (heffect : Effect op n s n' s') {key : String} {node : StoredNode V}
    (hget : s.nodes.get? key = some node) : s'.runs.get? node.runId = none ∨
      ∃ node', s'.nodes.get? key = some node' ∧ (node' = node ∨ NodeChange node node') := by
  cases heffect with
  | addNode _ _ absent _ =>
    refine .inr ⟨node, (OrdMap.get?_set_of_ne ?_).trans hget, .inl rfl⟩
    rintro rfl
    rw [absent] at hget
    cases hget
  | setNode _ get change => exact .inr ((OrdMap.Swept.set get change).forward hget)
  | addAttempt _ _ _ _ _ _ _ _ _ _ swept _ => exact .inr (swept.forward hget)
  | sweep _ sweptNodes _ => exact .inr (sweptNodes.forward hget)
  | @delete ids =>
    by_cases hids : node.runId ∈ ids
    · refine .inl ((OrdMap.get?_filter _ _ _).trans ?_)
      simp [hids]
    · refine .inr ⟨node, (OrdMap.get?_filter _ _ _).trans ?_, .inl rfl⟩
      simp [hget, hids]
  | _ => exact .inr ⟨node, hget, .inl rfl⟩

/-- A stored run was stored before, under the same workflow and root, or its id is fresh. It has
not come back from its end. -/
theorem Mem.Sound.run_back [JsRuntime V] {m : Mem V} (h : m.Sound) (op : Op V) {runId : String}
    {run' : StoredRun V} (hget : (m.step op).runs.get? runId = some run') :
    runId = freshId "run" m.nextId ∨ ∃ run, m.runs.get? runId = some run ∧
      run'.workflowName = run.workflowName ∧ run'.rootRunId = run.rootRunId ∧
      (isTerminalRunStatus run.status → isTerminalRunStatus run'.status) := by
  refine ((Mem.step_effect h.keyed op).runs_back hget).imp_right ?_
  rintro ⟨run, hrun, rfl | hchange⟩
  · exact ⟨_, hrun, rfl, rfl, fun hterminal => hterminal⟩
  · refine ⟨run, hrun, (congrArg StoredRun.workflowName hchange.same :),
      (congrArg StoredRun.rootRunId hchange.same :), fun hterminal => ?_⟩
    rw [hchange.live] at hterminal
    cases hterminal

end Neemata.Workflows
