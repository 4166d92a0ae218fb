import Neemata.Workflows.Postgres.Rows
import Neemata.Workflows.Postgres.SameValue

/-!
# Creation in Postgres

`createStoredRunWithState` of `adapters/postgres/store-runs.ts` and `ensureNodeChildren` and
`ensureChildRun` of `adapters/postgres/store-children.ts`, which compare what they are given with
what an earlier call has stored. The database is what its columns keep of a JSON value.
-/

namespace Neemata.Workflows.Postgres

open Json (JsString Value AllKeys canon stringify)
open JsValue (image ofJson WellFormed)

/-! ## The database -/

/-- What a `jsonb` column holds of a JSON value, in an order of keys of its own; `none` is a value
that it refuses. -/
structure Jsonb where
  store : JsonValue → Option JsonValue
  canon_eq : ∀ j j', store j = some j' → canon j' = canon j
  nodup : ∀ j j', store j = some j' → AllKeys List.Nodup j → AllKeys List.Nodup j'

/-- `json(value)` as a parameter, where `undefined` is `NULL`; `none` is an error. -/
def Jsonb.param (db : Jsonb) (value : JsValue) : Option (Option JsonValue) :=
  match image value with
  | none => some none
  | some j => (db.store j).map some

/-- `json(value)` of a value that may be absent. -/
def Jsonb.optionalParam (db : Jsonb) (value : Option JsValue) : Option (Option JsonValue) :=
  value.elim (some none) db.param

/-- `=` of two columns, which does not hold of `NULL`. -/
def sameColumn : Option JsonValue → Option JsonValue → Bool
  | some a, some b => stringify (canon a) = stringify (canon b)
  | _, _ => false

inductive StoreError
  | message (text : String)
  | runConflict (runId : String) (status : RuntimeRunStatus) (key : JsValue)
    (scope : RunUniqueScope)
  | insertConflict (name : String)
  /-- The database refuses a query. -/
  | query

abbrev Row := StoredRun JsonValue

/-! ## The source -/

def runnableName (input : CreateRunInput JsValue) : String :=
  (input.name <|> input.taskName).getD input.workflowName

def sameOptionalValue : JsValue → JsValue → Bool
  | .undefined, .undefined => true
  | .undefined, _ | _, .undefined => false
  | left, right => sameValue left right

/-- A field of a row as a value of the language. -/
def fieldValue (field : Option JsonValue) : JsValue := field.elim .undefined ofJson

/-- What `loadIdempotentRun` requires of the run with the key. -/
def matchesInput (run : Row) (input : CreateRunInput JsValue) : Bool :=
  run.kind = input.kind.getD .workflow &&
  run.name = runnableName input &&
  run.workflowName = input.workflowName &&
  run.taskName = input.taskName &&
  run.parentRunId = input.parentRunId &&
  run.parentNodeName = input.parentNodeName &&
  run.rootRunId = input.rootRunId.getD run.id &&
  sameValue (ofJson run.input) input.input

def conflictingIdempotentRun (input : CreateRunInput JsValue) : StoreError :=
  .message s!"Conflicting idempotent run [{input.workflowName}]"

section

variable (db : Jsonb) (rows : List Row) (input : CreateRunInput JsValue)

def loadIdempotentRun : Except StoreError (Option Row) :=
  match input.idempotencyKey with
  | none => .ok none
  | some key =>
    match db.param key with
    | none => .error .query
    | some column =>
      match rows.find? fun row => sameColumn row.idempotencyKey column with
      | none => .ok none
      | some row =>
        if matchesInput (mapRun row) input then .ok (some (mapRun row))
        else .error (conflictingIdempotentRun input)

/-- Whether a row holds a unique key. -/
def holdsUnique (key : Option JsonValue) (scope : RunUniqueScope) (row : Row) : Bool :=
  match row.unique with
  | none => false
  | some unique => sameColumn (some unique.key) key && unique.scope = scope &&
      (scope = .all || !isTerminalRunStatus row.status)

def loadUniqueRun : Except StoreError (Option Row) :=
  match input.unique with
  | none => .ok none
  | some unique =>
    match db.param unique.key with
    | none => .error .query
    | some column => .ok ((rows.find? (holdsUnique column unique.scope)).map mapRun)

def resolveUniqueConflict (run : Row) : Except StoreError (Row × Bool) :=
  match input.unique with
  | none => .ok (run, false)
  | some unique =>
    if unique.behavior = .join then .ok (run, false)
    else .error (.runConflict run.id run.status unique.key unique.scope)

/-- The columns of a unique key; there are none where its text is `undefined`. -/
def uniqueColumns : Option (Option (ResolvedRunUnique JsonValue)) :=
  match input.unique with
  | none => some none
  | some unique => (db.param unique.key).map fun column =>
      column.map fun key => ⟨key, unique.scope, unique.behavior⟩

/-- The row of a run; `none` is an error of the database, which has no `NULL` for an input. -/
def newRow (runId : String) (date : Nat) : Option Row :=
  match db.param input.input, db.optionalParam input.idempotencyKey, uniqueColumns db input with
  | some (some value), some idempotencyKey, some unique =>
    some
      { id := runId
        kind := input.kind.getD .workflow
        name := runnableName input
        workflowName := input.workflowName
        taskName := input.taskName
        status := .queued
        input := value
        output := none
        error := none
        parentRunId := input.parentRunId
        parentNodeName := input.parentNodeName
        rootRunId := input.rootRunId.getD runId
        tags := input.tags.getD []
        idempotencyKey := idempotencyKey
        unique := unique
        version := 1
        createdAt := date
        updatedAt := date }
  | _, _, _ => none

/-- `ON CONFLICT`, by the unique indices. -/
def insertConflicts (row : Row) : Bool :=
  rows.any fun other => sameColumn other.idempotencyKey row.idempotencyKey ||
    match row.unique with
    | none => false
    | some unique => holdsUnique (some unique.key) unique.scope other

/-- What is done after a conflict. A second attempt meets the same rows. -/
def recoverInsert (recoverUniqueViolation : Bool) : Except StoreError (Row × Bool) :=
  match if recoverUniqueViolation then loadIdempotentRun db rows input else .ok none with
  | .error e => .error e
  | .ok (some run) => .ok (run, false)
  | .ok none =>
    match loadUniqueRun db rows input with
    | .error e => .error e
    | .ok (some run) => resolveUniqueConflict input run
    | .ok none => .error (.insertConflict (runnableName input))

/-- `createStoredRunWithState` on `rows`, where others insert `raced` before the insert, with the
rows that it leaves. -/
def createStoredRunWithState (raced : List Row) (runId : String) (date : Nat)
    (recoverUniqueViolation : Bool) : Except StoreError (Row × Bool) × List Row :=
  match loadIdempotentRun db rows input with
  | .error e => (.error e, rows ++ raced)
  | .ok (some run) => (.ok (run, false), rows ++ raced)
  | .ok none =>
    match loadUniqueRun db rows input with
    | .error e => (.error e, rows ++ raced)
    | .ok (some run) => (resolveUniqueConflict input run, rows ++ raced)
    | .ok none =>
      match newRow db input runId date with
      | none => (.error .query, rows ++ raced)
      | some row =>
        if insertConflicts (rows ++ raced) row then
          (recoverInsert db (rows ++ raced) input recoverUniqueViolation, rows ++ raced)
        else (.ok (mapRun row, true), rows ++ raced ++ [row])

end

/-! ### Node children -/

section

variable (db : Jsonb) (runId nodeName : String) (date : Nat)
  (children : List (EnsureNodeChildInput JsValue))

def itemOf (child : EnsureNodeChildInput JsValue) : JsValue := child.item.getD .undefined

def matchesRequest (requested : EnsureNodeChildInput JsValue) (stored : NodeChildRecord) : Bool :=
  stored.kind = requested.kind &&
  stored.ordinal = requested.ordinal.getD 0 &&
  stored.itemKey = requested.itemKey &&
  sameOptionalValue (fieldValue stored.item) (itemOf requested)

/-- `loadExisting` on the rows of the children of a node. -/
def loadExistingChildren (rows : List NodeChildRecord) :
    Except StoreError (Option (List NodeChildRecord)) :=
  match rows with
  | [] => .ok none
  | row :: rows =>
    let existing := (row :: rows).map mapNodeChild
    if existing.length = children.length ∧ (children.all fun requested =>
        (existing.find? (·.childKey = requested.childKey)).any (matchesRequest requested)) then
      .ok (some existing)
    else .error (.message s!"Conflicting node children [{runId}.{nodeName}]")

def newChild (child : EnsureNodeChildInput JsValue) : NodeChildRecord where
  runId := runId
  nodeName := nodeName
  childKey := child.childKey
  kind := child.kind
  status := .pending
  ordinal := child.ordinal.getD 0
  itemKey := child.itemKey
  item := (db.param (itemOf child)).getD none
  output := none
  error := none
  childRunId := none
  currentAttemptId := none
  attemptCount := 0
  version := 1
  createdAt := date
  updatedAt := date
  input := none

/-- `ensureNodeChildren`, where another call inserts `raced` after the first look at the rows, with
the rows that it leaves. The rows of a node have different keys. -/
def ensureNodeChildren (rows raced : List NodeChildRecord) :
    Except StoreError (List NodeChildRecord × Bool) × List NodeChildRecord :=
  match loadExistingChildren runId nodeName children rows with
  | .error e => (.error e, rows ++ raced)
  | .ok (some existing) => (.ok (existing, false), rows ++ raced)
  | .ok none =>
    match loadExistingChildren runId nodeName children (rows ++ raced) with
    | .error e => (.error e, rows ++ raced)
    | .ok (some existing) => (.ok (existing, false), rows ++ raced)
    | .ok none =>
      if (children.map (·.childKey)).Nodup ∧
          ∀ child ∈ children, (db.param (itemOf child)).isSome then
        let inserted := children.map (newChild db runId nodeName date)
        (.ok (inserted.map mapNodeChild, true), rows ++ raced ++ inserted)
      else (.error .query, rows ++ raced)

end

/-! ### Child runs -/

section

variable (db : Jsonb) (child : StoredNodeChild JsonValue) (rows : List Row)
  (params : EnsureChildRunParams JsValue)

def childRef : String := s!"{params.runId}.{params.nodeName}.{params.childKey}"

def matchesParams (childRun : Row) : Bool :=
  childRun.kind = params.childKind &&
  childRun.name = params.childName &&
  sameValue (ofJson childRun.input) params.input &&
  sameOptionalValue (fieldValue childRun.idempotencyKey) (params.idempotencyKey.getD .undefined)

def loadExistingChildRun : Except StoreError (Option Row) :=
  match child.childRunId with
  | none => .ok none
  | some childRunId =>
    match rows.find? (·.id = childRunId) with
    | none => .error (.message s!"Missing child run [{childRunId}]")
    | some row =>
      if matchesParams params (mapRun row) then .ok (some (mapRun row))
      else .error (.message s!"Conflicting child run [{childRef params}]")

def childRunInput : CreateRunInput JsValue where
  kind := some params.childKind
  name := some params.childName
  workflowName := params.childName
  taskName := if params.childKind = .task then some params.childName else none
  input := params.input
  parentRunId := some params.runId
  parentNodeName := some params.nodeName
  rootRunId := some params.rootRunId
  tags := params.tags
  idempotencyKey := params.idempotencyKey

/-- `ensureChildRun` of a child that no other call links, with the child and the rows that it
leaves. An error rolls back what it has inserted. -/
def ensureChildRun (raced : List Row) (runId : String) (date : Nat) :
    Except StoreError (Row × Bool) × StoredNodeChild JsonValue × List Row :=
  let terminal : StoreError :=
    .message s!"Terminal node child [{childRef params}] cannot start child run"
  match loadExistingChildRun child rows params with
  | .error e => (.error e, child, rows ++ raced)
  | .ok (some run) => (.ok (run, false), child, rows ++ raced)
  | .ok none =>
    match createStoredRunWithState db rows (childRunInput params) raced runId date false with
    | (.error (.insertConflict _), _) => (.error terminal, child, rows ++ raced)
    | (.error e, _) => (.error e, child, rows ++ raced)
    | (.ok (childRun, _), rows') =>
      if canTransition nodeTransitions child.status .running ∨ child.status = .running then
        let child' :=
          { child with
            childRunId := some childRun.id
            status := .running
            version := child.version + 1
            updatedAt := date }
        (.ok (childRun, true), child', rows')
      else (.error terminal, child, rows ++ raced)

end

end Neemata.Workflows.Postgres
