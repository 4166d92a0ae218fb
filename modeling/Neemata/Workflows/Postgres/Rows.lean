import Neemata.Lib.Json
import Neemata.Workflows.State
import Mathlib.Data.Set.Basic

/-!
# The row mapping

`mapRun`, `mapNode`, `mapNodeChild` and `mapAttempt` of `adapters/postgres/sql.ts`, beside what the
in-memory adapter holds of the same writes. A `jsonb` column that is `NULL` and one that holds the
JSON value `null` come as the same value, so what was written is read back exactly if it is not
`null` (`readBack_iff`).
-/

namespace Neemata.Workflows.Postgres

open Json (Value)

abbrev JsonValue := Value Empty

/-! ## Columns -/

/-- What the driver gives for a `jsonb` column, of which `none` is `NULL`. -/
def jsonColumn (column : Option JsonValue) : JsonValue := column.getD .null

/-- `none` is `undefined`. -/
def fromOptional : JsonValue → Option JsonValue
  | .null => none
  | value => some value

/-- `none` is an absent field. -/
def optional : Option JsonValue → Option JsonValue
  | none | some .null => none
  | some value => some value

/-- The field of a payload column. -/
def payload (column : Option JsonValue) : Option JsonValue :=
  optional (fromOptional (jsonColumn column))

theorem payload_of_ne {column : Option JsonValue} (h : column ≠ some .null) :
    payload column = column := by
  match column with
  | none => rfl
  | some .null => exact absurd rfl h
  | some (.bool _) | some (.num _) | some (.str _) | some (.arr _) | some (.obj _) => rfl

/-! ## The mappers

A row is given as the record that the in-memory adapter holds after the same writes: a column for
each field, `NULL` where the field is absent. Columns of other types than `jsonb` have no other value
that is left out. -/

/-- `StoredNodeChild` with its input. -/
structure NodeChildRecord extends StoredNodeChild JsonValue where
  input : Option JsonValue

/-- `StoredAttempt` with the fields of its worker. -/
structure AttemptRecord extends StoredAttempt JsonValue where
  workerId : Option String
  heartbeatAt : Option Nat

def mapRun (row : StoredRun JsonValue) : StoredRun JsonValue :=
  { row with
    output := payload row.output
    idempotencyKey := payload row.idempotencyKey
    unique := row.unique.bind fun unique =>
      (fromOptional unique.key).map fun key => { unique with key } }

def mapNode (row : StoredNode JsonValue) : StoredNode JsonValue :=
  { row with
    input := payload row.input
    output := payload row.output }

/-- An item of a map is kept also where it is `null`. -/
def mapNodeChild (row : NodeChildRecord) : NodeChildRecord :=
  { row with
    item :=
      if row.childKey.startsWith "item:" then some (jsonColumn row.item) else payload row.item
    input := payload row.input
    output := payload row.output }

def mapAttempt (row : AttemptRecord) : AttemptRecord :=
  { row with
    idempotencyKey := payload row.idempotencyKey
    output := payload row.output }

/-! ## What the coordinator reads -/

/-- The record that `continueWorkflowRun` builds; `none` is `undefined`. -/
def outputs (nodes : List (StoredNode JsonValue)) : List (String × Option JsonValue) :=
  (nodes.filter (·.status = .completed)).map fun node => (node.name, node.output)

def hasStoredNodeInput (node : StoredNode JsonValue) : Bool := node.input.isSome

/-- What is written of a set of values is read back as the in-memory adapter holds it. -/
structure ReadBack (values : Set JsonValue) : Prop where
  runOutput : ∀ (row : StoredRun JsonValue), ∀ v ∈ values, row.output = some v →
    (mapRun row).output = some v
  nodeInput : ∀ (row : StoredNode JsonValue), ∀ v ∈ values, row.input = some v →
    (mapNode row).input = some v ∧ hasStoredNodeInput (mapNode row) = hasStoredNodeInput row
  nodeOutput : ∀ (row : StoredNode JsonValue), ∀ v ∈ values, row.output = some v →
    (mapNode row).output = some v
  childInput : ∀ (row : NodeChildRecord), ∀ v ∈ values, row.input = some v →
    (mapNodeChild row).input = some v
  childOutput : ∀ (row : NodeChildRecord), ∀ v ∈ values, row.output = some v →
    (mapNodeChild row).output = some v
  attemptOutput : ∀ (row : AttemptRecord), ∀ v ∈ values, row.output = some v →
    (mapAttempt row).output = some v
  outputs : ∀ rows : List (StoredNode JsonValue),
    (∀ row ∈ rows, row.status = .completed → ∃ v ∈ values, row.output = some v) →
    Postgres.outputs (rows.map mapNode) = Postgres.outputs rows

theorem payload_some {v : JsonValue} (h : v ≠ .null) : payload (some v) = some v :=
  payload_of_ne fun heq => h (Option.some.inj heq)

/-- The payload columns keep what they hold. -/
theorem payload_of_mem {values : Set JsonValue} (h : .null ∉ values) {column : Option JsonValue}
    {v : JsonValue} (hv : v ∈ values) (hcolumn : column = some v) : payload column = some v := by
  subst hcolumn
  exact payload_some fun heq => h (heq ▸ hv)

theorem outputs_map_mapNode {rows : List (StoredNode JsonValue)}
    (h : ∀ row ∈ rows, row.status = .completed → payload row.output = row.output) :
    outputs (rows.map mapNode) = outputs rows := by
  induction rows with
  | nil => rfl
  | cons row rows ih =>
    have hrest := ih fun row hrow => h row (List.mem_cons_of_mem _ hrow)
    unfold outputs at hrest ⊢
    rw [List.map_cons, List.filter_cons, List.filter_cons]
    by_cases hstatus : row.status = .completed
    · have hmapped : (mapNode row).status = .completed := hstatus
      have houtput : (mapNode row).output = row.output := h row List.mem_cons_self hstatus
      rw [if_pos (decide_eq_true hmapped), if_pos (decide_eq_true hstatus), List.map_cons,
        List.map_cons, hrest, houtput]
      rfl
    · have hmapped : ¬ (mapNode row).status = .completed := hstatus
      rw [if_neg (by simpa using hmapped), if_neg (by simpa using hstatus), hrest]

/-- A node that has completed with `null`. -/
def nullNode : StoredNode JsonValue where
  runId := "run_1"
  name := "load"
  kind := .activity
  status := .completed
  input := none
  output := some .null
  error := none
  selectedCase := none
  version := 2
  createdAt := 0
  updatedAt := 1

/-- Values are read back as the in-memory adapter holds them exactly if `null` is not among them. -/
theorem readBack_iff (values : Set JsonValue) : ReadBack values ↔ .null ∉ values := by
  constructor
  · intro h hnull
    cases h.nodeOutput nullNode .null hnull rfl
  · intro h
    refine ⟨fun row v hv => payload_of_mem h hv, fun row v hv hinput => ?_,
      fun row v hv => payload_of_mem h hv, fun row v hv => payload_of_mem h hv,
      fun row v hv => payload_of_mem h hv, fun row v hv => payload_of_mem h hv, fun rows hrows => ?_⟩
    · have hpayload := payload_of_mem h hv hinput
      refine ⟨hpayload, ?_⟩
      rw [hasStoredNodeInput, hasStoredNodeInput, hinput, show (mapNode row).input = _ from hpayload]
    · refine outputs_map_mapNode fun row hrow hstatus => ?_
      obtain ⟨v, hv, houtput⟩ := hrows row hrow hstatus
      rw [payload_of_mem h hv houtput, houtput]

/-- The output `null` of a node is read back as none, and the outputs lack it. -/
theorem null_output_dropped : ¬ ReadBack { .null } := by
  intro h
  have houtputs := h.outputs [nullNode] fun row hrow _ => by
    cases List.mem_singleton.mp hrow
    exact ⟨.null, rfl, rfl⟩
  have houtput : (none : Option JsonValue) = some .null :=
    congrArg Prod.snd (List.cons.inj houtputs).1
  cases houtput

end Neemata.Workflows.Postgres
