import Neemata.Workflows.InMemory.Sound
import Neemata.Workflows.Worker.Attempt

/-!
# What a delivery reads

A delivery looks its child and its attempt up in a snapshot of the run. In a well-formed store it
finds the records under their keys.
-/

namespace Neemata.Workflows

variable {V : Type}

/-- A search finds the only element it accepts. -/
theorem find?_eq_some_of_unique {α : Type} {p : α → Bool} {l : List α} {a : α} (hp : p a)
    (ha : a ∈ l) (hunique : ∀ b ∈ l, p b → b = a) : l.find? p = some a := by
  cases hfind : l.find? p with
  | none => exact absurd hp (List.find?_eq_none.mp hfind a ha)
  | some b =>
    rw [hunique b (List.mem_of_find?_eq_some hfind) (List.find?_some hfind)]

namespace Mem

variable [JsRuntime V] {m : Mem V} {runId : String} {command : AttemptCommand V}
  {snapshot : RunSnapshot V}

omit [JsRuntime V] in
theorem loadRunSnapshot_eq_some (h : m.loadRunSnapshot runId = some snapshot) :
    m.runs.get? runId = some snapshot.run := by
  obtain ⟨run, hrun, rfl⟩ := Option.map_eq_some_iff.mp h
  exact hrun

omit [JsRuntime V] in
/-- A snapshot holds the child of a command. -/
theorem storedChild (hm : m.Sound) {child : StoredNodeChild V}
    (hget : m.children.get? (childKey runId command.nodeName command.childKey) = some child)
    (hrun : child.runId = runId)
    (hnames : child.nodeName = command.nodeName ∧ child.childKey = command.childKey)
    (hload : m.loadRunSnapshot runId = some snapshot) :
    storedChildOf command (some snapshot) = some child := by
  obtain ⟨run, -, rfl⟩ := Option.map_eq_some_iff.mp hload
  have hmem : child ∈ m.children.values.filter fun child => child.runId = runId :=
    List.mem_filter.mpr ⟨OrdMap.mem_values_of_get? hget, decide_eq_true hrun⟩
  refine find?_eq_some_of_unique (decide_eq_true hnames) hmem fun other hother hsame => ?_
  obtain ⟨key, hkey⟩ := OrdMap.mem_values_iff.mp (List.mem_filter.mp hother).1
  have hotherRun : other.runId = runId := of_decide_eq_true (List.mem_filter.mp hother).2
  obtain ⟨hnode, hchildKey⟩ := of_decide_eq_true hsame
  have hkeys : key = childKey runId command.nodeName command.childKey := by
    rw [← (hm.children _ _ hkey).1, hotherRun, hnode, hchildKey]
  rw [hkeys, hget] at hkey
  exact (Option.some.inj hkey).symm

omit [JsRuntime V] in
/-- A snapshot holds an attempt of its run under the id of a command for it. -/
theorem storedAttempt (hm : m.Sound) {attempt : StoredAttempt V}
    (hget : m.attempts.get? command.attemptId = some attempt) (hrun : attempt.runId = runId)
    (hload : m.loadRunSnapshot runId = some snapshot) :
    storedAttemptOf command (some snapshot) = some attempt := by
  obtain ⟨run, -, rfl⟩ := Option.map_eq_some_iff.mp hload
  have hmem : attempt ∈ m.attempts.values.filter fun attempt => attempt.runId = runId :=
    List.mem_filter.mpr ⟨OrdMap.mem_values_of_get? hget, decide_eq_true hrun⟩
  have hid : attempt.id = command.attemptId := (hm.attempts _ _ hget).1
  refine find?_eq_some_of_unique (decide_eq_true hid) hmem fun other hother hsame => ?_
  obtain ⟨key, hkey⟩ := OrdMap.mem_values_iff.mp (List.mem_filter.mp hother).1
  have hkeyId : key = command.attemptId :=
    (hm.attempts _ _ hkey).1.symm.trans (of_decide_eq_true hsame)
  rw [hkeyId, hget] at hkey
  exact (Option.some.inj hkey).symm

end Mem

end Neemata.Workflows
