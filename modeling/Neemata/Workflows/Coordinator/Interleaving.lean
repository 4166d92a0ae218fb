import Neemata.Workflows.Coordinator.PassContract

/-!
# Every interleaving of coordinators

An invariant of the store holds among any number of coordinators when it allows what their contract
allows and what a pass knows stays true and is taught by its own operations
(`Discipline.holds_after`).
-/

namespace Neemata.Workflows

variable {V : Type}

/-! ## Names -/

theorem separate_of_isNodeName {name : String} (h : isNodeName name = true) :
    Separate ':' name := by
  intro hmem
  unfold isNodeName at h
  cases hname : name.toList with
  | nil =>
    rw [hname] at hmem
    cases hmem
  | cons first rest =>
    rw [hname] at h hmem
    simp only [Bool.and_eq_true, List.all_eq_true] at h
    obtain rfl | hrest := List.mem_cons.mp hmem
    · exact absurd h.1 (by decide)
    · exact absurd (h.2 _ hrest) (by decide)

/-- The implemented nodes have the declared names. -/
theorem WorkflowImplementation.names (workflow : WorkflowImplementation) :
    workflow.nodes.map WorkflowNodeImplementation.name =
      workflow.workflow.nodes.map WorkflowNode.name := by
  have hnames {nodes : List WorkflowNodeImplementation} {declared : List WorkflowNode}
      (h : List.Forall₂ (fun node declared => node.implements declared = true) nodes declared) :
      nodes.map WorkflowNodeImplementation.name = declared.map WorkflowNode.name := by
    induction h with
    | nil => rfl
    | cons hnode _ ih =>
      unfold WorkflowNodeImplementation.implements at hnode
      rw [Bool.and_eq_true] at hnode
      rw [List.map_cons, List.map_cons, of_decide_eq_true hnode.1, ih]
  exact hnames workflow.implemented

theorem WorkflowImplementation.name_separate {workflow : WorkflowImplementation}
    {node : WorkflowNodeImplementation} (hnode : node ∈ workflow.nodes) :
    Separate ':' node.name := by
  have hmem : node.name ∈ workflow.workflow.nodes.map WorkflowNode.name :=
    workflow.names ▸ List.mem_map_of_mem hnode
  obtain ⟨declared, hdeclared, hname⟩ := List.mem_map.mp hmem
  exact hname ▸ separate_of_isNodeName (workflow.workflow.named declared hdeclared).1

theorem separate_taskRunNodeName : Separate ':' TASK_RUN_NODE_NAME := by decide

/-- The node with a name is at one place. -/
theorem WorkflowImplementation.before_unique {workflow : WorkflowImplementation}
    {before before' after after' : List WorkflowNodeImplementation}
    {node node' : WorkflowNodeImplementation} (h : workflow.nodes = before ++ node :: after)
    (h' : workflow.nodes = before' ++ node' :: after') (hname : node.name = node'.name) :
    before = before' := by
  have hnodup : (workflow.nodes.map WorkflowNodeImplementation.name).Nodup :=
    workflow.names ▸ workflow.workflow.distinct
  have hfresh {before after : List WorkflowNodeImplementation} {node : WorkflowNodeImplementation}
      (h : workflow.nodes = before ++ node :: after) :
      node.name ∉ before.map WorkflowNodeImplementation.name := by
    intro hmem
    rw [h, List.map_append, List.nodup_append] at hnodup
    exact hnodup.2.2 _ hmem _ List.mem_cons_self rfl
  have hnames := congrArg (List.map WorkflowNodeImplementation.name) (h.symm.trans h')
  rw [List.map_append, List.map_append, List.map_cons, List.map_cons, hname] at hnames
  have hbefore := (append_cons_inj_left (hname ▸ hfresh h) (hfresh h') hnames).1
  refine (List.append_inj (h.symm.trans h') ?_).1
  simpa using congrArg List.length hbefore

variable [JsRuntime V]

/-! ## Moves -/

omit [JsRuntime V] in
/-- The implementations of the workflow are one and the same. -/
def CoordinatorMove.Deploys (workflow : WorkflowImplementation) : CoordinatorMove V → Prop
  | .start _ input _ => ∀ other ∈ input.workflows,
    other.workflow.name = workflow.workflow.name → other = workflow
  | _ => True

omit [JsRuntime V] in
/-- Of the operations beside those of the coordinators only these are performed. -/
def CoordinatorMove.Besides (some : Op V → Prop) : CoordinatorMove V → Prop
  | .other op => some op
  | _ => True

/-- A coordinator with this one implementation continues the run. -/
def CoordinatorMove.pass (workflow : WorkflowImplementation) (runId : String) (user : UserCode V)
    (steps : Nat) : List (CoordinatorMove V) :=
  .start "a" { workflows := [workflow], depth := 1 } ⟨runId, workflow.workflow.name⟩ ::
    List.replicate steps (.resume "a" user)

omit [JsRuntime V] in
theorem CoordinatorMove.deploys_pass {workflow : WorkflowImplementation} {runId : String}
    {user : UserCode V} {steps : Nat} {some : Op V → Prop} :
    ∀ move ∈ pass workflow runId user steps, move.Deploys workflow ∧ move.Besides some := by
  refine List.forall_mem_cons.mpr ⟨⟨fun _ hother _ => List.mem_singleton.mp hother, trivial⟩, ?_⟩
  intro move hmove
  rw [List.eq_of_mem_replicate hmove]
  exact ⟨trivial, trivial⟩

/-- An implementation of the workflow with the same name is the deployed one. -/
def WorkflowImplementation.DeployedAs (own workflow : WorkflowImplementation) : Prop :=
  own.workflow.name = workflow.workflow.name → own = workflow

/-! ## Disciplines -/

/-- An invariant of the store, the operations that keep it, and what passes know under it. -/
structure Discipline (V : Type) [JsRuntime V] (workflow : WorkflowImplementation) where
  Inv : Mem V → Prop
  May : Mem V → Op V → Prop
  Knows : WorkflowImplementation → Mem V → Option (String × Knowledge V) → Prop
  create : ∀ maxDeliveries, Inv (createInMemoryWorkflowRuntime maxDeliveries)
  step : ∀ {m op}, Inv m → May m op → Inv (m.step op)
  knowsNothing : ∀ own m, Knows own m none
  stillKnows : ∀ {own m phase op}, own.DeployedAs workflow → Inv m → May m op →
    Knows own m phase → Knows own (m.step op) phase
  allows : ∀ {own m phase op}, own.DeployedAs workflow → Inv m → Knows own m phase →
    (passContract own).allowed phase (.store op) → May m (.store op)
  learns : ∀ {own m phase op}, own.DeployedAs workflow → Inv m → Knows own m phase →
    (passContract own).allowed phase (.store op) → Knows own (m.execStore op).2
      ((passContract own).advance phase (.store op) (m.execStore op).1)
  executor : ∀ m op, May m (.executor op)

namespace Discipline

variable {workflow own : WorkflowImplementation} (d : Discipline V workflow) {m : Mem V}
  {phase : Option (String × Knowledge V)}

/-- The pass keeps to the contract, and what it knows is true. -/
def Kept (m : Mem V) (pass : Continuation V) : Prop :=
  ∃ own phase, own.DeployedAs workflow ∧ Keeps own phase pass.rest ∧ d.Knows own m phase

variable {d}

theorem Kept.step {pass : Continuation V} (h : d.Kept m pass) (hm : d.Inv m) {op : Op V}
    (hop : d.May m op) : d.Kept (m.step op) pass := by
  obtain ⟨own, phase, hown, hkeeps, hknows⟩ := h
  exact ⟨own, phase, hown, hkeeps, d.stillKnows hown hm hop hknows⟩

/-- What a pass performs it may perform, and it goes on in what it has learnt. -/
theorem exec (hown : own.DeployedAs workflow) (hm : d.Inv m) (h : d.Knows own m phase)
    {op : PassOp V} (hallowed : (passContract own).allowed phase op) (user : UserCode V) :
    d.Knows own (op.exec user m).2 ((passContract own).advance phase op (op.exec user m).1) ∧
      ((op.exec user m).2 = m ∨ ∃ op', (op.exec user m).2 = m.step op' ∧ d.May m op') := by
  have hrest (hnext : (passContract own).advance phase op (op.exec user m).1 = phase)
      {m' : Mem V} (h' : d.Knows own m' phase) :
      d.Knows own m' ((passContract own).advance phase op (op.exec user m).1) := by
    rw [hnext]
    exact h'
  cases op with
  | store op =>
    have hmay := d.allows hown hm h hallowed
    exact ⟨d.learns hown hm h hallowed, .inr ⟨.store op, rfl, hmay⟩⟩
  | executor op =>
    have hmay := d.executor m op
    refine ⟨hrest ?_ (d.stillKnows hown hm hmay h), .inr ⟨.executor op, rfl, hmay⟩⟩
    cases phase <;> rfl
  | callback | dateNow =>
    refine ⟨hrest ?_ h, .inl rfl⟩
    cases phase <;> rfl

variable (d)

/-- The invariant of the store, and every pass at work. -/
structure Holds (s : Coordinators V) : Prop where
  mem : d.Inv s.mem
  passes : ∀ coordinator pass, s.passes coordinator = some pass → d.Kept s.mem pass

variable {d} {s : Coordinators V}

/-- An operation of anybody, and the passes that are at work after it. -/
theorem Holds.perform (h : d.Holds s) {op : Op V} (hop : d.May s.mem op)
    {passes : String → Option (Continuation V)}
    (hpasses : ∀ coordinator pass, passes coordinator = some pass →
      s.passes coordinator = some pass ∨ d.Kept (s.mem.step op) pass) :
    d.Holds ⟨s.mem.step op, passes⟩ := by
  refine ⟨d.step h.mem hop, fun coordinator pass hget => ?_⟩
  obtain hold | hnew := hpasses coordinator pass hget
  · exact (h.passes coordinator pass hold).step h.mem hop
  · exact hnew

theorem Holds.update (h : d.Holds s) (coordinator : String) {left : Option (Continuation V)}
    (hleft : ∀ pass ∈ left, d.Kept s.mem pass) :
    d.Holds ⟨s.mem, Function.update s.passes coordinator left⟩ := by
  refine ⟨h.mem, fun other pass hget => ?_⟩
  dsimp only at hget
  obtain rfl | hne := eq_or_ne other coordinator
  · rw [Function.update_self] at hget
    exact hleft pass hget
  · rw [Function.update_of_ne hne] at hget
    exact h.passes other pass hget

theorem Holds.resume (h : d.Holds s) {coordinator : String} {pass : Continuation V}
    (hpass : s.passes coordinator = some pass) (user : UserCode V) :
    d.Holds ⟨(pass.step user s.mem).2,
      Function.update s.passes coordinator (pass.left user s.mem)⟩ := by
  obtain ⟨op, next, hrest, hstep⟩ | ⟨hdone, hmem⟩ := pass.step_cases user s.mem
  · obtain ⟨own, phase, hown, hkeeps, hknows⟩ := h.passes coordinator pass hpass
    have hfollows : Program.Follows (passContract own) (fun _ _ => True) phase
        (.perform op next) := hrest ▸ hkeeps
    obtain ⟨hlearnt, hmem⟩ := exec hown h.mem hknows hfollows.1 user
    have hleft : ∀ left ∈ pass.left user s.mem, d.Kept (op.exec user s.mem).2 left := by
      intro left hleft
      unfold Continuation.left at hleft
      split at hleft
      · cases hleft
      · obtain rfl := Option.some.inj hleft
        refine ⟨own, _, hown, ?_, hlearnt⟩
        rw [hstep]
        exact hfollows.2 _
    rw [hstep]
    dsimp only
    obtain hsame | ⟨op', hop', hmay⟩ := hmem
    · rw [hsame] at hleft ⊢
      exact h.update coordinator hleft
    · rw [hop'] at hleft ⊢
      refine h.perform hmay fun other found hget => ?_
      obtain rfl | hne := eq_or_ne other coordinator
      · rw [Function.update_self] at hget
        exact .inr (hleft found hget)
      · rw [Function.update_of_ne hne] at hget
        exact .inl hget
  · rw [hdone, hmem]
    exact h.update coordinator fun _ hleft => nomatch hleft

theorem Holds.step (h : d.Holds s) {move : CoordinatorMove V} (hmove : move.Deploys workflow)
    (hother : move.Besides fun op => ∀ m, d.Inv m → d.May m op) : d.Holds (s.step move) := by
  cases move with
  | start coordinator input command =>
    simp only [Coordinators.step]
    split
    · exact h
    · refine h.update coordinator ?_
      rintro _ ⟨⟩
      obtain ⟨own, hown, hkeeps⟩ := keeps_continueWorkflowRun (V := V) input command workflow
      refine ⟨own, none, fun hname => ?_, hkeeps, d.knowsNothing own s.mem⟩
      exact hown.elim (fun hmem => hmove own hmem hname) id
  | resume coordinator user =>
    simp only [Coordinators.step]
    split
    · exact h
    · next pass hpass => exact h.resume hpass user
  | crash coordinator => exact h.update coordinator fun _ hleft => nomatch hleft
  | other op => exact h.perform (hother s.mem h.mem) fun _ _ => .inl

/-- The invariant holds in every state that coordinators reach in any interleaving. -/
theorem holds_after (d : Discipline V workflow) (maxDeliveries : Option Int)
    {history : List (CoordinatorMove V)}
    (hhistory : ∀ move ∈ history, move.Deploys workflow ∧
      move.Besides fun op => ∀ m, d.Inv m → d.May m op) :
    d.Inv (Coordinators.after maxDeliveries history).mem := by
  have hcreate : d.Holds (Coordinators.create maxDeliveries) := by
    refine ⟨d.create maxDeliveries, ?_⟩
    rintro coordinator pass ⟨⟩
  have hholds : d.Holds (Coordinators.after maxDeliveries history) :=
    Trace.run_inv Coordinators.step (fun _ _ hmove h => h.step hmove.1 hmove.2) hhistory hcreate
  exact hholds.mem

end Discipline

end Neemata.Workflows
