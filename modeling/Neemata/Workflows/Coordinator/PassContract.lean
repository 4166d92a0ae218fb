import Neemata.Workflows.Coordinator.FanInContract

/-!
# The whole pass keeps to the contract

From the dispatchers of the nodes to `continueWorkflowRun`, which knows nothing of a run before it
has read it behind its lease.
-/

namespace Neemata.Workflows

variable {V : Type} [JsRuntime V] {runId : String} {workflow : WorkflowImplementation}
  {known : Knowledge V} {advance : AdvanceCtx V → Pass V AdvanceOutcome} {ctx : AdvanceCtx V}

/-! ## The rest of a workflow -/

theorem Advances.dispatchNode (hadvance : Advances runId workflow advance)
    (h : ctx.Fits runId workflow known) {node : WorkflowNodeImplementation}
    (hnode : node ∈ workflow.nodes) (hmay : known.MayCreate workflow node.name) :
    Does runId workflow known (dispatchNode advance ctx node) fun _ _ => True := by
  cases node with
  | activity node => exact h.dispatchActivityNode hnode hmay
  | task node => exact hadvance.dispatchTaskNode h hnode hmay
  | workflow node => exact hadvance.dispatchWorkflowNode h hnode hmay
  | branch node => exact hadvance.dispatchBranchNode h hnode hmay
  | parallel node => exact hadvance.dispatchParallelNode h hnode hmay
  | mapTask node | mapWorkflow node => exact hadvance.dispatchMapRunNode h hnode hmay

omit [JsRuntime V] in
/-- The nodes before the next one have outputs, so they are known to be closed. -/
theorem AdvanceCtx.Fits.nextNode (h : ctx.Fits runId workflow known)
    {node : WorkflowNodeImplementation} (hnext : ctx.nextNode? = some node) :
    node ∈ workflow.nodes ∧ known.MayCreate workflow node.name := by
  obtain ⟨-, before, after, hnodes, hbefore⟩ := List.find?_eq_some_iff_append.mp hnext
  rw [h.workflow] at hnodes
  refine ⟨hnodes ▸ List.mem_append_right _ List.mem_cons_self, before, node, after, hnodes, rfl, ?_⟩
  intro earlier hearlier
  refine h.outputs _ ?_
  simpa [Option.isSome_iff_ne_none] using hbefore earlier hearlier

theorem advances_advanceWorkflowRun (steps : Nat) :
    Advances (V := V) runId workflow (advanceWorkflowRun steps) := by
  induction steps with
  | zero => exact fun _ _ _ => trivial
  | succ steps ih =>
    intro ctx known h
    unfold advanceWorkflowRun
    split
    · exact .ends (quiet_finishRun h.store).keepsHouse
    · next nextNode hnext =>
      obtain ⟨hnode, hmay⟩ := h.nextNode hnext
      refine Program.Obeys.tryCatch (ih.dispatchNode h hnode hmay) (fun _ _ h => h)
        fun known' error _ => ?_
      split
      · exact Does.quietly (quiet_failNodeAndRun h.store _ _ _) fun _ _ _ => .pure trivial
      · exact Does.throw _

omit [JsRuntime V] in
/-- The nodes of a snapshot with an output are the completed ones. -/
theorem RunSnapshot.outputs_get? [JsRuntime V] {snapshot : RunSnapshot V} {name : String}
    (h : (snapshot.outputs.get? name).isSome) : name ∈ (Knowledge.ofSnapshot snapshot).closed := by
  have hfold (nodes : List (StoredNode V)) (outputs : Outputs V)
      (hget : ((nodes.foldl (fun outputs node =>
        outputs.set node.name (node.output.getD JsRuntime.undefined)) outputs).get? name).isSome) :
      name ∈ nodes.map StoredNode.name ∨ (outputs.get? name).isSome := by
    induction nodes generalizing outputs with
    | nil => exact .inr hget
    | cons node nodes ih =>
      obtain hmem | hset := ih _ hget
      · exact .inl (List.mem_cons_of_mem _ hmem)
      · rw [OrdMap.get?_set] at hset
        split at hset
        · next heq => exact .inl (heq ▸ List.mem_cons_self)
        · exact .inr hset
  exact (hfold _ _ h).resolve_right (by simp)

/-- The context of a snapshot, behind a lease. -/
theorem fits_ofSnapshot {store : WorkflowStore V} (h : BehindLease store) (depth : Nat)
    (workflow : WorkflowImplementation) (snapshot : RunSnapshot V) :
    AdvanceCtx.Fits snapshot.run.id workflow
      { store, workflow, run := snapshot.run, outputs := snapshot.outputs, depth }
      (.ofSnapshot snapshot) :=
  ⟨h, rfl, rfl, rfl, fun _ hname => RunSnapshot.outputs_get? hname⟩

theorem does_advanceSnapshot {store : WorkflowStore V} (h : BehindLease store) (depth : Nat)
    (workflow : WorkflowImplementation) (snapshot : RunSnapshot V) :
    Does snapshot.run.id workflow (.ofSnapshot snapshot)
      (advanceSnapshot store depth workflow snapshot) fun _ _ => True := by
  refine Does.quietly (quiet_userCode _) fun known₁ _ hextends₁ => ?_
  refine Does.quietly (h.quiet trivial) fun known₂ _ hextends₂ => ?_
  have hfits := (fits_ofSnapshot h depth workflow snapshot).grow (hextends₁.trans hextends₂).grows
  refine (advances_advanceWorkflowRun _ _ _ hfits).bind fun known₃ outcome _ => ?_
  split
  · exact Does.quietly (h.quiet trivial) fun _ _ _ => .pure trivial
  · exact .pure trivial

theorem does_continueSnapshot {store : WorkflowStore V} (h : BehindLease store) (depth : Nat)
    (workflow : WorkflowImplementation) (snapshot : RunSnapshot V) :
    Does snapshot.run.id workflow (.ofSnapshot snapshot)
      (continueSnapshot store depth workflow snapshot) fun _ _ => True := by
  unfold continueSnapshot
  dsimp only
  split
  · exact Does.quietly (quiet_cancelRunAndWakeParent h _ _) fun _ _ _ => .pure trivial
  · split
    · exact Does.quietly (quiet_wakeParentRun _) fun _ _ _ => .pure trivial
    · split
      · exact Does.house (keepsHouse_cancelFailedFanInNodeChildren h _ _ _ _) fun _ _ _ =>
          Does.quietly (quiet_failRunAndWakeParent h _ _) fun _ _ _ => .pure trivial
      · split
        · exact Does.quietly (quiet_cancelRunAndWakeParent h _ _) fun _ _ _ => .pure trivial
        · exact does_advanceSnapshot h depth workflow snapshot

/-! ## The pass and its lease -/

def PassOp.isLeaseOp : PassOp V → Bool
  | .store (.acquireRunLease _ _) | .store (.releaseRunLease _) => true
  | _ => false

/-- The contract from the start of a pass on. It knows nothing before it has read a run of the
workflow. -/
def passContract (workflow : WorkflowImplementation) :
    Program.Protocol (PassOp.Ret (V := V)) (Option (String × Knowledge V)) where
  allowed
    | none, op => op.KeepsHouse ∨ op.isLeaseOp
    | some (runId, known), op => known.mayPerform runId workflow op ∨ op.isLeaseOp
  advance
    | none, .store (.loadRunSnapshot _), .ok (some snapshot) =>
      if snapshot.run.workflowName = workflow.workflow.name then
        some (snapshot.run.id, .ofSnapshot snapshot)
      else none
    | none, _, _ => none
    | some (runId, known), op, answer => some (runId, known.next runId op answer)
  mayHalt _ := True

/-- `Obeys` for a pass of whose end nothing is asked. -/
def Keeps {α : Type} (workflow : WorkflowImplementation) (phase : Option (String × Knowledge V))
    (pass : Pass V α) : Prop :=
  Program.Obeys (passContract workflow) phase pass fun _ _ => True

section

variable {α : Type} {phase : Option (String × Knowledge V)}

omit [JsRuntime V] in
theorem Does.keeps {pass : Pass V α} {R : Knowledge V → α → Prop}
    (h : Does runId workflow known pass R) : Keeps workflow (some (runId, known)) pass :=
  Program.Obeys.embed (fun known => some (runId, known)) h (fun _ _ => Or.inl) (fun _ _ _ => rfl)
    (fun _ _ => trivial) fun _ _ _ => trivial

omit [JsRuntime V] in
theorem Keeps.bind {β : Type} {pass : Pass V α} {f : α → Pass V β} (h : Keeps workflow phase pass)
    (hf : ∀ phase result, Keeps workflow phase (f result)) : Keeps workflow phase (pass >>= f) :=
  Program.Obeys.bind h (fun phase result _ => hf phase result) fun _ _ _ => trivial

omit [JsRuntime V] in
theorem Keeps.tryCatch {pass : Pass V α} {handle : Thrown V → Pass V α}
    (h : Keeps workflow phase pass) (hhandle : ∀ phase error, Keeps workflow phase (handle error)) :
    Keeps workflow phase (tryCatch pass handle) :=
  Program.Obeys.tryCatch h (fun _ _ _ => trivial) fun phase error _ => hhandle phase error

omit [JsRuntime V] in
theorem Keeps.pure (result : α) : Keeps workflow phase (Pure.pure result : Pass V α) :=
  Program.obeys_pure trivial

omit [JsRuntime V] in
theorem Keeps.throw (error : Thrown V) : Keeps workflow phase (throw error : Pass V α) :=
  Program.obeys_throw trivial

omit [JsRuntime V] in
theorem Keeps.tryFinally {body : Pass V α} {finalizer : Pass V Unit}
    (h : Keeps workflow phase body) (hfinalizer : ∀ phase, Keeps workflow phase finalizer) :
    Keeps workflow phase (tryFinally body finalizer) := by
  unfold Workflows.tryFinally
  rw [map_eq_pure_bind]
  refine ((h.bind fun _ _ => Keeps.pure _).tryCatch fun _ _ => Keeps.pure _).bind
    fun phase result => (hfinalizer phase).bind fun _ _ => ?_
  cases result with
  | ok result => exact Keeps.pure _
  | error error => exact Keeps.throw _

omit [JsRuntime V] in
theorem Keeps.leaseOp {op : StoreOp V} (hop : (PassOp.store op).isLeaseOp) :
    Keeps workflow phase (workflowStore op) := by
  refine ⟨?_, fun _ => trivial⟩
  cases phase with
  | none => exact .inr hop
  | some => exact .inr hop

end

theorem keeps_continueLeasedRun {store : WorkflowStore V} (h : BehindLease store) (depth : Nat)
    (workflow : WorkflowImplementation) {command : ContinueRunCommand}
    (hname : workflow.workflow.name = command.workflowName) :
    Keeps workflow none (continueLeasedRun store depth workflow command) := by
  obtain ⟨lease, leaseMs, rfl⟩ := h
  have hload : Program.Obeys (passContract workflow) none
      (workflowStore (.loadRunSnapshot command.runId)) fun phase result =>
        ∀ snapshot : RunSnapshot V, result = .ok (some snapshot) →
          snapshot.run.workflowName = command.workflowName →
            phase = some (snapshot.run.id, .ofSnapshot snapshot) := by
    refine ⟨.inl trivial, ?_⟩
    rintro _ snapshot rfl hworkflow
    exact if_pos (hworkflow.trans hname.symm)
  refine Program.Obeys.bind hload (fun phase snapshot hsnapshot => ?_) fun _ _ _ => trivial
  cases snapshot with
  | none => exact Keeps.pure _
  | some snapshot =>
    dsimp only
    split
    · exact Keeps.pure _
    · next hworkflow =>
      rw [hsnapshot snapshot rfl (not_not.mp hworkflow)]
      exact (does_continueSnapshot ⟨lease, leaseMs, rfl⟩ depth workflow snapshot).keeps

omit [JsRuntime V] in
/-- Building a registry returns it or throws, and each entry was given under its name. -/
theorem createWorkflowMap_cases (workflows : List WorkflowImplementation) :
    (∃ error, (createWorkflowMap workflows : Pass V _) = throw error) ∨
      ∃ map : OrdMap String WorkflowImplementation, (createWorkflowMap workflows : Pass V _) =
        pure map ∧ map.All fun name workflow => workflow ∈ workflows ∧
          workflow.workflow.name = name := by
  have hcases (items : List WorkflowImplementation) (hitems : items ⊆ workflows)
      (map : OrdMap String WorkflowImplementation) (hmap : map.All fun name workflow =>
        workflow ∈ workflows ∧ workflow.workflow.name = name) :
      (∃ error, (createImplementationMap "workflow" (fun workflow => workflow.workflow.name) items
        map : Pass V _) = throw error) ∨
      ∃ map' : OrdMap String WorkflowImplementation, (createImplementationMap "workflow"
        (fun workflow => workflow.workflow.name) items map : Pass V _) = pure map' ∧
          map'.All fun name workflow => workflow ∈ workflows ∧ workflow.workflow.name = name := by
    induction items generalizing map with
    | nil => exact .inr ⟨map, rfl, hmap⟩
    | cons item items ih =>
      unfold createImplementationMap
      split
      · exact .inl ⟨_, rfl⟩
      · exact ih (fun other hother => hitems (List.mem_cons_of_mem _ hother)) _
          (hmap.set ⟨hitems List.mem_cons_self, rfl⟩)
  exact hcases workflows (List.Subset.refl _) .empty .empty

/-- A pass keeps to the contract of the implementation it works with, which it was given, or it
performs nothing and keeps to any. -/
theorem keeps_continueWorkflowRun (input : ContinueWorkflowRunInput) (command : ContinueRunCommand)
    (other : WorkflowImplementation) : ∃ workflow, (workflow ∈ input.workflows ∨ workflow = other) ∧
      Keeps (V := V) workflow none (continueWorkflowRun input command) := by
  unfold continueWorkflowRun
  obtain ⟨error, hthrow⟩ | ⟨workflows, hpure, hworkflows⟩ :=
    createWorkflowMap_cases (V := V) input.workflows
  · rw [hthrow]
    exact ⟨other, .inr rfl, Keeps.throw _⟩
  · rw [hpure, pure_bind]
    cases hget : workflows.get? command.workflowName with
    | none => exact ⟨other, .inr rfl, Keeps.pure _⟩
    | some workflow =>
      obtain ⟨hmem, hname⟩ := hworkflows _ _ hget
      refine ⟨workflow, .inl hmem, ?_⟩
      have hacquire : Program.Obeys (passContract workflow) none
          (workflowStore (.acquireRunLease command.runId (input.leaseMs.getD defaultLeaseMs)) :
            Pass V _) fun phase _ => phase = none :=
        ⟨.inr rfl, fun _ => rfl⟩
      refine Program.Obeys.bind hacquire ?_ fun _ _ _ => trivial
      rintro _ lease rfl
      cases lease with
      | none => exact Keeps.pure _
      | some lease =>
        refine Keeps.tryFinally ?_ fun _ => Keeps.leaseOp rfl
        refine (keeps_continueLeasedRun ⟨lease, _, rfl⟩ _ workflow hname).tryCatch
          fun phase error => ?_
        split
        · exact Keeps.pure _
        · exact Keeps.throw _

end Neemata.Workflows
