import Neemata.Workflows.InMemory.Sound

/-!
# How the record maps evolve

Every entry of a record map stays, moves along the change of its kind, or goes with a deletion.
Child keys are joined with `:`, so for children this needs names without one: the joined keys of
two children may otherwise be equal and a new child replaces the record of another.
-/

namespace Neemata.Workflows

variable {V : Type} [JsRuntime V]

/-! ## Joined keys -/

/-- The run id and the node name an operation may create children under. -/
def Op.childrenOf : Op V → Option (String × String)
  | .store (.ensureNodeChildren runId nodeName _) => some (runId, nodeName)
  | _ => none

/-- These names hold no `:`. -/
def Op.Plain (op : Op V) : Prop :=
  ∀ names ∈ op.childrenOf, Separate ':' names.1 ∧ Separate ':' names.2

instance : DecidablePred (Op.Plain (V := V)) := fun op =>
  inferInstanceAs (Decidable (∀ names ∈ op.childrenOf, _))

theorem childKey_eq_join (runId nodeName key : String) :
    childKey runId nodeName key = runId ++ ":" ++ (nodeName ++ ":" ++ key) := by
  simp only [childKey, String.append_assoc]

theorem childKey_inj_run {runId runId' nodeName nodeName' key key' : String}
    (hrun : Separate ':' runId) (hrun' : Separate ':' runId')
    (h : childKey runId nodeName key = childKey runId' nodeName' key') :
    runId = runId' ∧ nodeName ++ ":" ++ key = nodeName' ++ ":" ++ key' := by
  rw [childKey_eq_join, childKey_eq_join] at h
  exact join_inj_left (c := ':') hrun hrun' h

theorem childKey_inj {runId runId' nodeName nodeName' key key' : String}
    (hrun : Separate ':' runId) (hrun' : Separate ':' runId') (hnode : Separate ':' nodeName)
    (hnode' : Separate ':' nodeName')
    (h : childKey runId nodeName key = childKey runId' nodeName' key') :
    runId = runId' ∧ nodeName = nodeName' ∧ key = key' := by
  obtain ⟨hrunId, h⟩ := childKey_inj_run hrun hrun' h
  exact ⟨hrunId, join_inj_left (c := ':') hnode hnode' h⟩

/-- The stored children have names without `:`. -/
def PlainChildren (s : Records V) : Prop :=
  s.children.All fun _ child => Separate ':' child.runId ∧ Separate ':' child.nodeName

section

variable {op : Op V} {n n' : Nat} {s s' : Records V}

omit [JsRuntime V] in
/-- A fresh child set takes no key of a stored child. -/
theorem addChildren_get? {runId nodeName : String} {inputs : List (EnsureNodeChildInput V)}
    {date : Nat} (hk : Keyed s) (hplain : PlainChildren s) (hrun : Separate ':' runId)
    (hnode : Separate ':' nodeName)
    (absent : ∀ child ∈ s.children.values, child.runId = runId → child.nodeName ≠ nodeName)
    {key : String} {child : StoredNodeChild V} (hget : s.children.get? key = some child) :
    (s.addChildren runId nodeName inputs date).children.get? key = some child := by
  rw [← hget]
  refine OrdMap.get?_foldl_set_of_ne fun created hcreated hkey => ?_
  obtain ⟨hchildRun, hchildNode⟩ := hplain key child hget
  obtain ⟨rfl, rfl, -⟩ :=
    childKey_inj hchildRun hrun hchildNode hnode ((hk.children hget).trans hkey)
  exact absent child (OrdMap.mem_values_of_get? hget) rfl rfl

omit [JsRuntime V] in
private theorem plain_step {child child' : StoredNodeChild V}
    (h : Separate ':' child.runId ∧ Separate ':' child.nodeName) (hchange : ChildChange child child') :
    Separate ':' child'.runId ∧ Separate ':' child'.nodeName := by
  rw [hchange.same]
  exact h

theorem PlainChildren.effect (heffect : Effect op n s n' s') (hop : op.Plain)
    (h : PlainChildren s) : PlainChildren s' := by
  cases heffect with
  | same | addRun | setRun | addNode | setNode => exact h
  | addChildren _ source _ =>
    subst source
    refine h.foldl_set fun child hchild => ?_
    obtain ⟨input, -, rfl⟩ := List.mem_map.mp hchild
    exact hop _ rfl
  | setChild _ get change _ _ => exact h.set (plain_step (h _ _ get) change)
  | linkChild _ _ get _ _ _ change _ _ => exact h.set (plain_step (h _ _ get) change)
  | linkNewChild _ _ get _ _ _ _ change _ _ => exact h.set (plain_step (h _ _ get) change)
  | addAttempt _ get _ _ _ _ change _ _ _ _ _ => exact h.set (plain_step (h _ _ get) change)
  | setAttempt _ _ _ _ getChild _ _ settle =>
    obtain rfl | ⟨child', hchange, -, -, rfl⟩ := settle
    · exact h
    · exact h.set (plain_step (h _ _ getChild) hchange)
  | sweep _ _ sweptChildren =>
    exact h.swept sweptChildren fun _ _ _ hchild hchange => plain_step hchild hchange.1
  | delete => exact h.filter _

/-! ## Evolution of the four maps -/

theorem Effect.runs_evolve (heffect : Effect op n s n' s') (h : Sound n s) :
    s.runs.Evolves RunChange op.isDeletion s'.runs := by
  cases heffect with
  | addRun => exact .set_fresh h.run_fresh
  | setRun _ get change => exact .set get change
  | linkNewChild _ _ _ _ id => exact .set_fresh (id ▸ h.run_fresh)
  | delete _ source => exact .filter source _
  | _ => exact .refl _ _ _

/-- A stored run was stored before, or it is the one this step mints. -/
theorem Effect.runs_back (heffect : Effect op n s n' s') {id : String} {run' : StoredRun V}
    (hget : s'.runs.get? id = some run') :
    id = freshId "run" n ∨
      ∃ run, s.runs.get? id = some run ∧ (run' = run ∨ RunChange run run') := by
  cases heffect with
  | addRun =>
    rw [OrdMap.get?_set] at hget
    split at hget
    · next h => exact .inl h
    · exact .inr ⟨run', hget, .inl rfl⟩
  | setRun _ get change => exact .inr ((OrdMap.Swept.set get change).backward hget)
  | linkNewChild _ _ _ _ hid =>
    rw [OrdMap.get?_set] at hget
    split at hget
    · next h => exact .inl (h.trans hid)
    · exact .inr ⟨run', hget, .inl rfl⟩
  | delete =>
    rw [Records.deleteTrees, OrdMap.get?_filter, Option.filter_eq_some_iff] at hget
    exact .inr ⟨run', hget.1, .inl rfl⟩
  | _ => exact .inr ⟨run', hget, .inl rfl⟩

theorem Effect.nodes_evolve (heffect : Effect op n s n' s') :
    s.nodes.Evolves NodeChange op.isDeletion s'.nodes := by
  cases heffect with
  | addNode _ _ absent _ => exact .set_fresh absent
  | setNode _ get change => exact .set get change
  | addAttempt _ _ _ _ _ _ _ _ _ _ swept _ => exact .swept swept
  | sweep _ sweptNodes _ => exact .swept sweptNodes
  | delete _ source => exact .filter source _
  | _ => exact .refl _ _ _

theorem Effect.children_evolve (heffect : Effect op n s n' s') (h : Sound n s)
    (hplain : PlainChildren s) (hop : op.Plain) :
    s.children.Evolves ChildChange op.isDeletion s'.children := by
  cases heffect with
  | same | addRun | setRun | addNode | setNode => exact .refl _ _ _
  | addChildren _ source absent =>
    subst source
    obtain ⟨hrun, hnode⟩ := hop _ rfl
    exact .of_get?_eq fun _ _ => addChildren_get? h.keyed hplain hrun hnode absent
  | setChild _ get change _ _ => exact .set get change
  | linkChild _ _ get _ _ _ change _ _ => exact .set get change
  | linkNewChild _ _ get _ _ _ _ change _ _ => exact .set get change
  | addAttempt _ get _ _ _ _ change _ _ _ _ _ => exact .set get change
  | setAttempt _ _ _ _ getChild _ _ settle =>
    obtain rfl | ⟨child', hchange, -, -, rfl⟩ := settle
    · exact .refl _ _ _
    · exact .set getChild hchange
  | sweep _ _ sweptChildren =>
    refine .swept fun key => (sweptChildren key).imp_right ?_
    rintro ⟨child, child', hbefore, hafter, hchange⟩
    exact ⟨child, child', hbefore, hafter, hchange.1⟩
  | delete _ source => exact .filter source _

theorem Effect.attempts_evolve (heffect : Effect op n s n' s') (h : Sound n s) :
    s.attempts.Evolves AttemptChange op.isDeletion s'.attempts := by
  cases heffect with
  | addAttempt => exact .set_fresh h.attempt_fresh
  | setAttempt _ get change => exact .set get change
  | delete _ source => exact .filter source _
  | _ => exact .refl _ _ _

end

/-! ## Plain histories -/

namespace Mem

/-- The invariant of plain histories. -/
structure PlainSound (m : Mem V) : Prop where
  sound : m.Sound
  plain : PlainChildren m.records

theorem PlainSound.step {m : Mem V} (h : m.PlainSound) {op : Op V} (hop : op.Plain) :
    (m.step op).PlainSound :=
  ⟨h.sound.step op, h.plain.effect (step_effect h.sound.keyed op) hop⟩

theorem plainSound_after (maxDeliveries : Option Int) {history : List (Op V)}
    (hplain : ∀ op ∈ history, op.Plain) : (after maxDeliveries history).PlainSound :=
  Trace.run_inv Mem.step (fun _ _ hop hm => hm.step hop) hplain
    ⟨sound_create maxDeliveries, OrdMap.All.empty⟩

end Mem

end Neemata.Workflows
