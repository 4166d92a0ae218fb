import Neemata.Lib.Join
import Neemata.Workflows.InMemory.Inversion

/-!
# Well-formed stores

`Sound`: every record sits under the key of its own fields, the ids of runs and attempts were
minted by the counter, and no node or child is `cancelling`. It holds of a fresh runtime and every
operation keeps it.
-/

namespace Neemata.Workflows

variable {V : Type} [JsRuntime V]

/-! ## Ids -/

/-- An id determines its kind and its number: the number holds no `-`. -/
theorem freshId_inj {label label' : String} {i j : Nat} (h : freshId label i = freshId label' j) :
    label = label' ∧ i = j := by
  obtain ⟨hlabel, hnumber⟩ := join_inj_right (c := '-') (separate_toString rfl i)
    (separate_toString rfl j) h
  exact ⟨hlabel, toString_nat_injective hnumber⟩

/-- The key carries an id that the counter gave out before it reached `n`. -/
def Minted (label : String) (n : Nat) (key : String) : Prop := ∃ i < n, key = freshId label i

theorem Minted.mono {label key : String} {n n' : Nat} (h : Minted label n key) (hn : n ≤ n') :
    Minted label n' key := by
  obtain ⟨i, hi, rfl⟩ := h
  exact ⟨i, hi.trans_le hn, rfl⟩

theorem not_minted_freshId (label : String) (n : Nat) : ¬ Minted label n (freshId label n) := by
  rintro ⟨i, hi, h⟩
  exact hi.ne (freshId_inj h).2.symm

theorem minted_freshId {label : String} {n n' : Nat} (h : n < n') :
    Minted label n' (freshId label n) := ⟨n, h, rfl⟩

/-! ## The invariant -/

structure Sound (n : Nat) (s : Records V) : Prop where
  runs : s.runs.All fun key run => run.id = key ∧ Minted "run" n key
  nodes : s.nodes.All fun key node =>
    nodeKey node.runId node.name = key ∧ node.status ≠ .cancelling
  children : s.children.All fun key child =>
    childKey child.runId child.nodeName child.childKey = key ∧ child.status ≠ .cancelling
  attempts : s.attempts.All fun key attempt => attempt.id = key ∧ Minted "attempt" n key

namespace Sound

variable {n n' : Nat} {s s' : Records V}

omit [JsRuntime V] in
theorem keyed (h : Sound n s) : Keyed s where
  runs hget := (h.runs _ _ hget).1
  nodes hget := (h.nodes _ _ hget).1
  children hget := (h.children _ _ hget).1
  attempts hget := (h.attempts _ _ hget).1

omit [JsRuntime V] in
theorem mono (h : Sound n s) (hn : n ≤ n') : Sound n' s where
  runs := h.runs.mono fun _ _ hrun => ⟨hrun.1, hrun.2.mono hn⟩
  nodes := h.nodes
  children := h.children
  attempts := h.attempts.mono fun _ _ hattempt => ⟨hattempt.1, hattempt.2.mono hn⟩

omit [JsRuntime V] in
/-- A fresh run id is not in the store. -/
theorem run_fresh (h : Sound n s) : s.runs.get? (freshId "run" n) = none := by
  cases hget : s.runs.get? (freshId "run" n) with
  | none => rfl
  | some run => exact absurd (h.runs _ _ hget).2 (not_minted_freshId "run" n)

omit [JsRuntime V] in
theorem attempt_fresh (h : Sound n s) : s.attempts.get? (freshId "attempt" n) = none := by
  cases hget : s.attempts.get? (freshId "attempt" n) with
  | none => rfl
  | some attempt => exact absurd (h.attempts _ _ hget).2 (not_minted_freshId "attempt" n)

omit [JsRuntime V] in
private theorem node_step {key : String} {node node' : StoredNode V}
    (h : nodeKey node.runId node.name = key ∧ node.status ≠ .cancelling)
    (hchange : NodeChange node node') :
    nodeKey node'.runId node'.name = key ∧ node'.status ≠ .cancelling :=
  ⟨hchange.nodeKey_eq.trans h.1, hchange.notCancelling h.2⟩

omit [JsRuntime V] in
private theorem child_step {key : String} {child child' : StoredNodeChild V}
    (h : childKey child.runId child.nodeName child.childKey = key ∧ child.status ≠ .cancelling)
    (hchange : ChildChange child child') :
    childKey child'.runId child'.nodeName child'.childKey = key ∧ child'.status ≠ .cancelling :=
  ⟨hchange.childKey_eq.trans h.1, hchange.notCancelling h.2⟩

theorem effect {op : Op V} (heffect : Effect op n s n' s') (h : Sound n s) : Sound n' s' := by
  cases heffect with
  | same hn => exact h.mono hn
  | addRun hn _ =>
    have h' := h.mono hn.le
    exact { h' with runs := h'.runs.set ⟨rfl, minted_freshId hn⟩ }
  | setRun hn get change =>
    have h' := h.mono hn
    have hrun := h'.runs _ _ get
    refine { h' with runs := h'.runs.set ⟨?_, hrun.2⟩ }
    rw [change.same]
    exact hrun.1
  | addNode hn owner _ status =>
    have h' := h.mono hn
    refine { h' with nodes := h'.nodes.set ⟨owner, ?_⟩ }
    rw [status]
    exact RuntimeNodeStatus.noConfusion
  | setNode hn get change =>
    have h' := h.mono hn
    exact { h' with nodes := h'.nodes.set (node_step (h'.nodes _ _ get) change) }
  | addChildren hn _ _ =>
    have h' := h.mono hn
    refine { h' with children := h'.children.foldl_set fun child hchild => ?_ }
    obtain ⟨input, -, rfl⟩ := List.mem_map.mp hchild
    exact ⟨rfl, RuntimeNodeStatus.noConfusion⟩
  | setChild hn get change _ _ =>
    have h' := h.mono hn
    exact { h' with children := h'.children.set (child_step (h'.children _ _ get) change) }
  | linkChild hn _ get _ _ _ change _ _ =>
    have h' := h.mono hn
    exact { h' with children := h'.children.set (child_step (h'.children _ _ get) change) }
  | linkNewChild hn _ get _ id _ _ change _ _ =>
    have h' := h.mono hn.le
    exact { h' with
      runs := h'.runs.set ⟨rfl, id ▸ minted_freshId hn⟩
      children := h'.children.set (child_step (h'.children _ _ get) change) }
  | addAttempt hn get id _ _ _ change _ _ _ swept _ =>
    have h' := h.mono hn.le
    exact { h' with
      attempts := h'.attempts.set ⟨id, minted_freshId hn⟩
      children := h'.children.set (child_step (h'.children _ _ get) change)
      nodes := h'.nodes.swept swept fun _ _ _ hnode hchange => node_step hnode hchange }
  | setAttempt hn get change _ getChild _ _ settle =>
    have h' := h.mono hn
    have hattempt := h'.attempts _ _ get
    refine ⟨h'.runs, h'.nodes, ?_, h'.attempts.set ⟨?_, hattempt.2⟩⟩
    · obtain rfl | ⟨child', hchange, -, -, rfl⟩ := settle
      · exact h'.children
      · exact h'.children.set (child_step (h'.children _ _ getChild) hchange)
    · rw [change.same]
      exact hattempt.1
  | sweep hn sweptNodes sweptChildren =>
    have h' := h.mono hn
    exact { h' with
      nodes := h'.nodes.swept sweptNodes fun _ _ _ hnode hchange => node_step hnode hchange
      children := h'.children.swept sweptChildren fun _ _ _ hchild hchange =>
        child_step hchild hchange.1 }
  | delete hn _ _ =>
    have h' := h.mono hn
    exact ⟨h'.runs.filter _, h'.nodes.filter _, h'.children.filter _, h'.attempts.filter _⟩

end Sound

namespace Mem

/-- The records of the state are well formed. -/
def Sound (m : Mem V) : Prop := Workflows.Sound m.nextId m.records

omit [JsRuntime V] in
theorem sound_create (maxDeliveries : Option Int) :
    (createInMemoryWorkflowRuntime maxDeliveries : Mem V).Sound :=
  ⟨.empty, .empty, .empty, .empty⟩

theorem Sound.step {m : Mem V} (h : m.Sound) (op : Op V) : (m.step op).Sound :=
  Workflows.Sound.effect (step_effect h.keyed op) h

theorem Sound.run {m : Mem V} (h : m.Sound) (history : List (Op V)) : (m.run history).Sound :=
  Trace.run_inv Mem.step (P := fun _ => True) (fun _ op _ hm => hm.step op) (fun _ _ => trivial) h

theorem sound_after (maxDeliveries : Option Int) (history : List (Op V)) :
    (after maxDeliveries history).Sound := (sound_create maxDeliveries).run history

end Mem

end Neemata.Workflows
