import Neemata.Workflows.InMemory.Collect

/-!
# What one operation does to one stored child

The record under a key stays, changes without its link, is linked to a run, is written over by a
fresh child set, or goes with a deletion.
-/

namespace Neemata.Workflows

variable {V : Type} [JsRuntime V]

inductive ChildStep (op : Op V) (s s' : Records V) (key : String) : Prop
  | kept (same : s'.children.get? key = s.children.get? key)
  | changed {child child' : StoredNodeChild V} (get : s.children.get? key = some child)
      (get' : s'.children.get? key = some child') (change : ChildChange child child')
      (link : ChildChange.KeepsLink child child')
  | linked {params : EnsureChildRunParams V} {run : StoredRun V} {child child' : StoredNodeChild V}
      (source : op = .store (.ensureChildRun params))
      (owner : key = childKey params.runId params.nodeName params.childKey)
      (get : s.children.get? key = some child) (get' : s'.children.get? key = some child')
      (unlinked : child.childRunId = none) (change : ChildChange child child')
      (link : child'.childRunId = some run.id) (stored : s'.runs.get? run.id = some run)
      (started : StartedFor params run)
  | added {runId nodeName : String} {inputs : List (EnsureNodeChildInput V)}
      {input : EnsureNodeChildInput V} {date : Nat}
      (source : op = .store (.ensureNodeChildren runId nodeName inputs))
      (absent : ∀ child ∈ s.children.values, child.runId = runId → child.nodeName ≠ nodeName)
      (mem : input ∈ inputs) (owner : key = childKey runId nodeName input.childKey)
      (get' : s'.children.get? key = some (Mem.newChild runId nodeName input date))
      (runs : s'.runs = s.runs)
  | deleted {ids : List String} {child : StoredNodeChild V} (deletion : Deletion s ids)
      (runs : s'.runs = s.runs.filter fun runId _ => runId ∉ ids)
      (get : s.children.get? key = some child) (get' : s'.children.get? key = none)
      (gone : child.runId ∈ ids ∨ child.childRunId.any fun childRunId => childRunId ∈ ids)

variable {op : Op V} {n n' : Nat} {s s' : Records V}

omit [JsRuntime V] in
/-- What a child set leaves under a key. -/
theorem addChildren_cases (s : Records V) (runId nodeName : String)
    (inputs : List (EnsureNodeChildInput V)) (date : Nat) (key : String) :
    (s.addChildren runId nodeName inputs date).children.get? key = s.children.get? key ∧
        (∀ input ∈ inputs, key ≠ childKey runId nodeName input.childKey) ∨
      ∃ input ∈ inputs, key = childKey runId nodeName input.childKey ∧
        (s.addChildren runId nodeName inputs date).children.get? key =
          some (Mem.newChild runId nodeName input date) := by
  have hfold (created : List (StoredNodeChild V)) (children : OrdMap String (StoredNodeChild V)) :
      (created.foldl (fun children child =>
          children.set (childKey runId nodeName child.childKey) child) children).get? key =
        children.get? key ∧
          (∀ child ∈ created, key ≠ childKey runId nodeName child.childKey) ∨
      ∃ child ∈ created, key = childKey runId nodeName child.childKey ∧
        (created.foldl (fun children child =>
          children.set (childKey runId nodeName child.childKey) child) children).get? key =
            some child := by
    induction created generalizing children with
    | nil => exact .inl ⟨rfl, fun _ hchild => absurd hchild List.not_mem_nil⟩
    | cons child created ih =>
      rw [List.foldl_cons]
      obtain ⟨hsame, hfresh⟩ | ⟨found, hfound, hkey, hget⟩ :=
        ih (children.set (childKey runId nodeName child.childKey) child)
      · rw [hsame, OrdMap.get?_set]
        split
        · next hkey => exact .inr ⟨child, List.mem_cons_self, hkey, rfl⟩
        · next hkey => exact .inl ⟨rfl, List.forall_mem_cons.mpr ⟨hkey, hfresh⟩⟩
      · exact .inr ⟨found, List.mem_cons_of_mem _ hfound, hkey, hget⟩
  obtain ⟨hsame, hfresh⟩ | ⟨child, hchild, hkey, hget⟩ :=
    hfold (inputs.map (Mem.newChild runId nodeName · date)) s.children
  · exact .inl ⟨hsame, fun input hinput => hfresh _ (List.mem_map_of_mem hinput)⟩
  · obtain ⟨input, hinput, rfl⟩ := List.mem_map.mp hchild
    exact .inr ⟨input, hinput, hkey, hget⟩

/-- A write of a changed child. -/
private theorem childStep_set {key changed : String} {child child' : StoredNodeChild V}
    {children : OrdMap String (StoredNodeChild V)} (hchildren : s'.children = children)
    (hset : children = s.children.set changed child') (get : s.children.get? changed = some child)
    (change : ChildChange child child') (link : ChildChange.KeepsLink child child') :
    ChildStep op s s' key := by
  subst hset
  by_cases hkey : key = changed
  · subst hkey
    exact .changed get (by rw [hchildren, OrdMap.get?_set_self]) change link
  · exact .kept (by rw [hchildren, OrdMap.get?_set_of_ne hkey])

private theorem childStep_link {key : String} {params : EnsureChildRunParams V} {run : StoredRun V}
    {child child' : StoredNodeChild V} (source : op = .store (.ensureChildRun params))
    (hchildren : s'.children =
      s.children.set (childKey params.runId params.nodeName params.childKey) child')
    (get : s.children.get? (childKey params.runId params.nodeName params.childKey) = some child)
    (unlinked : child.childRunId = none) (change : ChildChange child child')
    (link : child'.childRunId = some run.id) (stored : s'.runs.get? run.id = some run)
    (started : StartedFor params run) : ChildStep op s s' key := by
  by_cases hkey : key = childKey params.runId params.nodeName params.childKey
  · subst hkey
    exact .linked source rfl get (by rw [hchildren, OrdMap.get?_set_self]) unlinked change link
      stored started
  · exact .kept (by rw [hchildren, OrdMap.get?_set_of_ne hkey])

theorem Effect.child_step (heffect : Effect op n s n' s') (key : String) :
    ChildStep op s s' key := by
  cases heffect with
  | same | addRun | setRun | addNode | setNode => exact .kept rfl
  | addChildren _ source absent =>
    obtain ⟨hsame, -⟩ | ⟨input, hinput, hkey, hget⟩ := addChildren_cases s _ _ _ _ key
    · exact .kept hsame
    · exact .added source absent hinput hkey hget rfl
  | setChild _ get change link _ => exact childStep_set rfl rfl get change link
  | linkChild _ source get unlinked stored started change link _ =>
    exact childStep_link source rfl get unlinked change link stored started
  | linkNewChild _ source get unlinked _ _ started change link _ =>
    exact childStep_link source rfl get unlinked change link (OrdMap.get?_set_self _ _ _) started
  | addAttempt _ get _ _ _ _ change link _ _ _ _ => exact childStep_set rfl rfl get change link
  | setAttempt _ _ _ _ getChild _ _ settle =>
    obtain rfl | ⟨child', hchange, hlink, -, rfl⟩ := settle
    · exact .kept rfl
    · exact childStep_set rfl rfl getChild hchange hlink
  | sweep _ _ sweptChildren =>
    obtain hsame | ⟨child, child', get, get', hchange, hlink, -⟩ := sweptChildren key
    · exact .kept hsame
    · exact .changed get get' hchange hlink
  | @delete ids _ _ deletion =>
    cases hget : s.children.get? key with
    | none => exact .kept (by rw [Records.deleteTrees, OrdMap.get?_filter, hget]; rfl)
    | some child =>
      by_cases hkeep : child.runId ∉ ids ∧
          ¬(child.childRunId.any fun childRunId => childRunId ∈ ids)
      · refine .kept ?_
        rw [Records.deleteTrees, OrdMap.get?_filter, hget]
        exact Option.filter_eq_some_iff.mpr ⟨rfl, decide_eq_true hkeep⟩
      · refine .deleted deletion rfl hget ?_ ?_
        · rw [Records.deleteTrees, OrdMap.get?_filter, hget]
          exact Option.filter_eq_none_iff.mpr (by rintro _ ⟨⟩; simpa using hkeep)
        · rw [not_and_or, not_not, not_not] at hkeep
          exact hkeep

/-- A run stays stored as long as its parent does, if both have one root. -/
theorem Effect.run_kept (heffect : Effect op n s n' s') (h : Sound n s) {runId childRunId : String}
    {run run' target : StoredRun V} (hrun : s.runs.get? runId = some run)
    (hrun' : s'.runs.get? runId = some run') (htarget : s.runs.get? childRunId = some target)
    (hparent : target.parentRunId = some runId) (hroot : target.rootRunId = run.rootRunId) :
    ∃ target', s'.runs.get? childRunId = some target' ∧
      (target' = target ∨ RunChange target target') := by
  have hevolves : (∃ ids, Deletion s ids ∧ s'.runs = s.runs.filter fun runId _ => runId ∉ ids) ∨
      s.runs.Evolves RunChange False s'.runs := by
    cases heffect with
    | addRun => exact .inr (.set_fresh h.run_fresh)
    | setRun _ get change => exact .inr (.set get change)
    | linkNewChild _ _ _ _ id => exact .inr (.set_fresh (id ▸ h.run_fresh))
    | delete _ _ deletion => exact .inl ⟨_, deletion, rfl⟩
    | _ => exact .inr (.refl _ _ _)
  obtain ⟨ids, hdeletion, hruns⟩ | hevolves := hevolves
  · rw [hruns, OrdMap.get?_filter, Option.filter_eq_some_iff, decide_eq_true_eq] at hrun'
    refine ⟨target, ?_, .inl rfl⟩
    rw [hruns, OrdMap.get?_filter, Option.filter_eq_some_iff, decide_eq_true_eq]
    exact ⟨htarget, fun hmem =>
      hrun'.2 (hdeletion.mem_of_parent h.keyed hrun htarget hparent hroot hmem)⟩
  · exact (hevolves _ _ htarget).resolve_left fun hdrop => hdrop.1

end Neemata.Workflows
