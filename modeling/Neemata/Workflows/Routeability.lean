import Neemata.Lib.OrdMap
import Neemata.Lib.Search
import Neemata.Lib.Trace

/-!
# The routeability of a workflow

`validateRouteability` of `runtime/registry.ts`, for any registry. Definitions and implementations
are objects that are compared by identity: a target is routed when the implementation registered
under its name is one of this very definition. The names listed are exactly those of the targets
without a route in the workflows that can be reached by routed targets
(`validateRouteability_exact`).
-/

namespace Neemata.Workflows.Routeability

/-- A node or a case, with the definitions it targets; cases in the order of `Object.values`. -/
inductive Node (D : Type) where
  | activity
  | task (target : D)
  | mapTask (target : D)
  | workflow (target : D)
  | mapWorkflow (target : D)
  | branch (cases : List (Node D))
  | parallel (cases : List (Node D))

/-- The objects that the registry reads: definitions `D`, and implementations of workflows `W` and
of tasks `T`. -/
structure Objects (D W T : Type) where
  name : D → String
  workflow : W → D
  nodes : W → List (Node D)
  task : T → D

structure WorkflowRuntimeRegistry (W T : Type) where
  workflows : OrdMap String W
  tasks : OrdMap String T

variable {D W T : Type} [DecidableEq D] (o : Objects D W T)

variable (registry : WorkflowRuntimeRegistry W T)

def taskRouted (target : D) : Bool :=
  (registry.tasks.get? (o.name target)).map o.task = some target

def workflowRouted (target : D) : Bool :=
  (registry.workflows.get? (o.name target)).map o.workflow = some target

/-! ## Collecting -/

mutual

/-- `visit` is `collectMissingWorkflowRoutes`. -/
def collectMissingRoute (visit : Search W String → W → Option (Search W String))
    (s : Search W String) : Node D → Option (Search W String)
  | .task target | .mapTask target =>
    if taskRouted o registry target then some s else some (s.add ("task:" ++ o.name target))
  | .workflow target | .mapWorkflow target =>
    match registry.workflows.get? (o.name target) with
    | some workflow =>
      if o.workflow workflow = target then visit s workflow
      else some (s.add ("workflow:" ++ o.name target))
    | none => some (s.add ("workflow:" ++ o.name target))
  | .branch cases | .parallel cases => collectMissingRoutes visit s cases
  | .activity => some s

/-- The loops over cases and over nodes. -/
def collectMissingRoutes (visit : Search W String → W → Option (Search W String))
    (s : Search W String) : List (Node D) → Option (Search W String)
  | [] => some s
  | node :: nodes =>
    (collectMissingRoute visit s node).bind fun s => collectMissingRoutes visit s nodes

end

variable [DecidableEq W] in
/-- `none` stands for a search that has run out of fuel. -/
def collectMissingWorkflowRoutes : Nat → Search W String → W → Option (Search W String)
  | 0, _, _ => none
  | fuel + 1, s, workflow =>
    if workflow ∈ s.visited then some s
    else
      collectMissingRoutes o registry (collectMissingWorkflowRoutes fuel)
        { s with visited := workflow :: s.visited } (o.nodes workflow)

variable [DecidableEq W] in
def validateRouteability (fuel : Nat) (workflow : W) : Option (List String) :=
  (collectMissingWorkflowRoutes o registry fuel {} workflow).map (·.found)

/-! ## What is asked for -/

inductive Target (D : Type) where
  | task (definition : D)
  | workflow (definition : D)

mutual

/-- The targets of a node, also inside its cases. -/
def targets : Node D → List (Target D)
  | .task target | .mapTask target => [.task target]
  | .workflow target | .mapWorkflow target => [.workflow target]
  | .branch cases | .parallel cases => targetsOf cases
  | .activity => []

def targetsOf : List (Node D) → List (Target D)
  | [] => []
  | node :: nodes => targets node ++ targetsOf nodes

end

def routed : Target D → Bool
  | .task definition => taskRouted o registry definition
  | .workflow definition => workflowRouted o registry definition

def Target.text : Target D → String
  | .task definition => "task:" ++ o.name definition
  | .workflow definition => "workflow:" ++ o.name definition

/-- One workflow leads to another by a target that is routed to it. -/
def Leads (w v : W) : Prop :=
  .workflow (o.workflow v) ∈ targetsOf (o.nodes w) ∧
    registry.workflows.get? (o.name (o.workflow v)) = some v

/-! ## The search -/

/-- What the search does with a target: its text is a label, its implementation a node. -/
def item (target : Target D) : List (String ⊕ W) :=
  match target with
  | .task definition =>
    if taskRouted o registry definition then [] else [.inl ("task:" ++ o.name definition)]
  | .workflow definition =>
    match registry.workflows.get? (o.name definition) with
    | some workflow =>
      if o.workflow workflow = definition then [.inr workflow]
      else [.inl ("workflow:" ++ o.name definition)]
    | none => [.inl ("workflow:" ++ o.name definition)]

def items (w : W) : List (String ⊕ W) := (targetsOf (o.nodes w)).flatMap (item o registry)

variable {o registry}

mutual

theorem collectMissingRoute_eq (visit : Search W String → W → Option (Search W String))
    (s : Search W String) (node : Node D) : collectMissingRoute o registry visit s node =
      ((targets node).flatMap (item o registry)).foldlM (Search.take visit) s := by
  match node with
  | .activity => rfl
  | .task target | .mapTask target =>
    simp only [collectMissingRoute, targets, List.flatMap_cons, List.flatMap_nil, List.append_nil,
      item]
    split <;> rfl
  | .workflow target | .mapWorkflow target =>
    simp only [collectMissingRoute, targets, List.flatMap_cons, List.flatMap_nil, List.append_nil,
      item]
    split
    · split
      · simp only [List.foldlM_cons, List.foldlM_nil, Search.take, bind_pure]
      · rfl
    · rfl
  | .branch cases | .parallel cases => exact collectMissingRoutes_eq visit s cases

theorem collectMissingRoutes_eq (visit : Search W String → W → Option (Search W String))
    (s : Search W String) (nodes : List (Node D)) : collectMissingRoutes o registry visit s nodes =
      ((targetsOf nodes).flatMap (item o registry)).foldlM (Search.take visit) s := by
  match nodes with
  | [] => rfl
  | node :: nodes =>
    rw [collectMissingRoutes, targetsOf, List.flatMap_append, List.foldlM_append,
      collectMissingRoute_eq visit s node]
    exact congrArg _ (funext fun s => collectMissingRoutes_eq visit s nodes)

end

variable [DecidableEq W] in
/-- The search of the registry is that of the graph of its workflows. -/
theorem collectMissingWorkflowRoutes_eq (fuel : Nat) (s : Search W String) (w : W) :
    collectMissingWorkflowRoutes o registry fuel s w =
      Search.explore (items o registry) fuel s w := by
  induction fuel generalizing s w with
  | zero => rfl
  | succ fuel ih =>
    rw [collectMissingWorkflowRoutes, Search.explore, collectMissingRoutes_eq,
      funext fun s => funext fun w => ih s w]
    rfl

theorem mem_item_inl {target : Target D} {text : String} :
    .inl text ∈ item o registry target ↔
      routed o registry target = false ∧ text = target.text o := by
  cases target with
  | task definition =>
    simp only [item, routed, Target.text]
    split
    · next h => simp [h]
    · next h => simp [h]
  | workflow definition =>
    simp only [item, routed, workflowRouted, Target.text]
    cases hget : registry.workflows.get? (o.name definition) with
    | none => simp
    | some workflow =>
      by_cases h : o.workflow workflow = definition
      · simp [h]
      · simp [h]

theorem mem_item_inr {target : Target D} {v : W} :
    .inr v ∈ item o registry target ↔
      target = .workflow (o.workflow v) ∧
        registry.workflows.get? (o.name (o.workflow v)) = some v := by
  cases target with
  | task definition =>
    simp only [item]
    split <;> simp
  | workflow definition =>
    simp only [item, Target.workflow.injEq]
    cases hget : registry.workflows.get? (o.name definition) with
    | none =>
      refine iff_of_false (by simp) ?_
      rintro ⟨rfl, h⟩
      rw [hget] at h
      cases h
    | some workflow =>
      by_cases h : o.workflow workflow = definition
      · subst h
        simp only [if_pos, List.mem_singleton, Sum.inr.injEq]
        constructor
        · rintro rfl
          exact ⟨rfl, hget⟩
        · intro h
          have hv := h.2
          rw [← h.1, hget] at hv
          exact (Option.some.inj hv).symm
      · refine iff_of_false (by simp [h]) ?_
        rintro ⟨rfl, hv⟩
        rw [hget] at hv
        exact h (congrArg o.workflow (Option.some.inj hv))

theorem edge_iff {w v : W} : Search.Edge (items o registry) w v ↔ Leads o registry w v := by
  unfold Search.Edge items Leads
  simp only [List.mem_flatMap, mem_item_inr]
  constructor
  · rintro ⟨target, hmem, rfl, hget⟩
    exact ⟨hmem, hget⟩
  · rintro ⟨hmem, hget⟩
    exact ⟨_, hmem, rfl, hget⟩

theorem mem_items_inl {w : W} {text : String} : .inl text ∈ items o registry w ↔
    ∃ target ∈ targetsOf (o.nodes w), routed o registry target = false ∧ text = target.text o := by
  simp only [items, List.mem_flatMap, mem_item_inl]

variable [DecidableEq W] in
/-- The search ends for any objects and any registry, workflows that refer to each other included,
and lists the names of exactly the targets without a route. -/
theorem validateRouteability_exact (o : Objects D W T) (registry : WorkflowRuntimeRegistry W T)
    (w : W) : ∃ names : List String,
      (∀ fuel, registry.workflows.values.length + 1 < fuel →
        validateRouteability o registry fuel w = some names) ∧
      names.Nodup ∧
      ∀ text, text ∈ names ↔ ∃ v, Relation.ReflTransGen (Leads o registry) w v ∧
        ∃ target ∈ targetsOf (o.nodes v), routed o registry target = false ∧
          text = target.text o := by
  have hnodes : ∀ x ∈ w :: registry.workflows.values, ∀ y,
      Search.Edge (items o registry) x y → y ∈ w :: registry.workflows.values := by
    intro x _ y hedge
    exact List.mem_cons_of_mem w (OrdMap.mem_values_of_get? (edge_iff.mp hedge).2)
  obtain ⟨t, ht, hnodup, hmem⟩ := Search.explore_exact hnodes List.mem_cons_self
    (Nat.lt_succ_self _)
  refine ⟨t.found, fun fuel hfuel => ?_, hnodup, fun text => ?_⟩
  · have hle : (w :: registry.workflows.values).length + 1 ≤ fuel := hfuel
    rw [validateRouteability, collectMissingWorkflowRoutes_eq, Search.explore_mono hle ht]
    rfl
  · have hreach : Search.Reach (items o registry) = Relation.ReflTransGen (Leads o registry) := by
      unfold Search.Reach
      exact congrArg _ (funext fun w => funext fun v => propext edge_iff)
    rw [hmem, hreach]
    exact exists_congr fun v => and_congr_right fun _ => mem_items_inl

end Neemata.Workflows.Routeability
