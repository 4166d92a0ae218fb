import Neemata.Workflows.InMemory.Store
import Mathlib.Data.List.Sort

/-!
# User values as JSON texts

An instance of `JsRuntime` to run the model on: a value is its own key-sorted JSON text. With it, the
start of a task run.
-/

namespace Neemata.Workflows

/-- A value, given by the text `JSON.stringify` has for it. -/
structure JsonText where
  text : String
deriving DecidableEq, Repr

namespace JsonText

def null : JsonText := ⟨"null"⟩

def quote (text : String) : String := "\"" ++ text ++ "\""

def ofRecord (fields : List (String × JsonText)) : JsonText :=
  let sorted := fields.insertionSort fun left right => left.1 ≤ right.1
  ⟨"\x7b" ++ ",".intercalate (sorted.map fun (key, value) => quote key ++ ":" ++ value.text) ++
    "\x7d"⟩

def ofStoredError : StoredError → JsonText
  | .leaf name message =>
    ofRecord ((name.toList.map fun name => ("name", ⟨quote name⟩)) ++
      [("message", ⟨quote message⟩)])
  | .caused name message cause =>
    ofRecord ((name.toList.map fun name => ("name", ⟨quote name⟩)) ++
      [("message", ⟨quote message⟩), ("cause", ofStoredError cause)])

instance : JsRuntime JsonText where
  valueKey value := value.text
  isNullish value := value.text = "null" ∨ value.text = "undefined"
  storedError _ value := .leaf none value.text
  localeCompare left right := compare left right
  undefined := ⟨"undefined"⟩
  array values := ⟨"[" ++ ",".intercalate (values.map JsonText.text) ++ "]"⟩
  record := ofRecord
  text text := ⟨quote text⟩
  number number := ⟨toString number⟩
  ofStoredError := ofStoredError

end JsonText

/-- The start of a task run (`startTaskRun`). -/
def Mem.startedTaskHistory : List (Op JsonText) :=
  [.store (.createRun { kind := some .task, name := some "t", workflowName := "t",
                        taskName := some "t", input := .null }),
    .store (.createNode { runId := "run-1", name := "$task", kind := .task }),
    .store (.ensureNodeChildren "run-1" "$task" [{ childKey := "$self", kind := .task }]),
    .store (.ensureChildAttempt
      { runId := "run-1", nodeName := "$task", childKey := "$self", input := .null }),
    .executor (.dispatch
      { target := .task "t" none, workflowName := "t", runId := "run-1", nodeName := "$task",
        childKey := "$self", attemptId := "attempt-2", leaseToken := "attempt-lease-3",
        input := .null, idempotencyKey := none } none)]

end Neemata.Workflows
