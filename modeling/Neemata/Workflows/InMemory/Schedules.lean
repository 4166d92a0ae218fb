import Neemata.Workflows.InMemory.UniqueKeys
import Neemata.Workflows.Duration
import Mathlib.Algebra.Group.Nat.Defs

/-!
# The in-memory scheduler

`fireDue`, `reconcile` and `setEnabled` of the `scheduler` in `runtime/in-memory.ts`, and what they
use of `runtime/scheduler.ts`. Definitions come normalized, as `normalizeScheduleDefinitions` makes
them before anything changes. `fireDue` awaits the start of a run for every due schedule; between
two awaits the other operations of the runtime take place.
-/

namespace Neemata.Workflows

open Binary64 (Double)

structure StoredWorkflowSchedule (V : Type) where
  id : String
  name : String
  runnableKind : RunKind
  runnableName : String
  input : V
  tags : List (String × String)
  cron : Option String
  everyMs : Option Double
  enabled : Bool
  /-- An invalid date is `none`. -/
  nextRunAt : Option Nat
  lastSlotAt : Option Nat
  createdAt : Nat
  updatedAt : Nat
deriving DecidableEq, Repr

structure NormalizedScheduleEntry (V : Type) where
  name : String
  runnableKind : RunKind
  runnableName : String
  input : V
  tags : List (String × String)
  cron : Option String
  everyMs : Option Double
  enabled : Bool
  nextRunAt : Option Nat
deriving DecidableEq, Repr

/-! ## Dates -/

def padStart (length : Nat) (n : Nat) : String :=
  let digits := toString n
  String.ofList (List.replicate (length - digits.length) '0') ++ digits

/-- Year, month and day of a number of days after 1970-01-01. -/
def civilDate (days : Nat) : Nat × Nat × Nat :=
  let z := days + 719468
  let dayOfEra := z % 146097
  let yearOfEra :=
    (dayOfEra - dayOfEra / 1460 + dayOfEra / 36524 - dayOfEra / 146096) / 365
  let dayOfYear := dayOfEra - (365 * yearOfEra + yearOfEra / 4 - yearOfEra / 100)
  let shifted := (5 * dayOfYear + 2) / 153
  let month := if shifted < 10 then shifted + 3 else shifted - 9
  let year := yearOfEra + z / 146097 * 400
  (if month ≤ 2 then year + 1 else year, month, dayOfYear - (153 * shifted + 2) / 5 + 1)

/-- `Date.prototype.toISOString`. -/
def toISOString (date : Nat) : String :=
  let (year, month, day) := civilDate (date / 86400000)
  let yearText := if year ≤ 9999 then padStart 4 year else "+" ++ padStart 6 year
  yearText ++ "-" ++ padStart 2 month ++ "-" ++ padStart 2 day ++ "T" ++
    padStart 2 (date / 3600000 % 24) ++ ":" ++ padStart 2 (date / 60000 % 60) ++ ":" ++
    padStart 2 (date / 1000 % 60) ++ "." ++ padStart 3 (date % 1000) ++ "Z"

/-- `Math.max(0, value)` -/
def maxZero : Double → Double
  | .finite value => .finite (max 0 value)
  | .infinite negative => if negative then .finite 0 else .infinite false
  | .nan => .nan

/-- `nextScheduleRunAt` of a schedule with `every`. -/
def nextIntervalRunAt (everyMs : Double) (now : ℤ) (base : ℕ) : Option ℤ :=
  let elapsed := (Double.finite now).add (.finite (-base))
  let missed := maxZero (elapsed.div everyMs).floor
  toDate ((Double.finite base).add ((missed.add (.finite 1)).mul everyMs))

/-- A cadence is a cron expression or an interval; `none` is a throw. `cronNext` is the cron parser:
the first time after the given one, if it finds one. -/
def nextScheduleRunAt (cronNext : String → Nat → Option Nat) (cron : Option String)
    (everyMs : Option Double) (now : Nat) (base : Option Nat) : Option (Option Nat) :=
  match cron, everyMs with
  | some cron, _ => (cronNext cron now).map some
  | none, none => none
  | none, some every =>
    if every.positive then
      some (base.bind fun base => (nextIntervalRunAt every now base).map Int.toNat)
    else none

def nextStoredScheduleRunAt {V : Type} (cronNext : String → Nat → Option Nat)
    (schedule : StoredWorkflowSchedule V) (now : Nat) : Option (Option Nat) :=
  nextScheduleRunAt cronNext schedule.cron schedule.everyMs now schedule.nextRunAt

def normalizeScheduleLimit : Option Int → Int
  | none => 100
  | some limit => if limit < 1 then 0 else limit

variable {V : Type} [JsRuntime V]

def scheduleKey (name : String) (slot : Nat) : V :=
  JsRuntime.array [JsRuntime.text "$schedule", JsRuntime.text name,
    JsRuntime.text (toISOString slot)]

/-- What `startStoredScheduleRun` hands to `createRun`. -/
def scheduleRunInput (schedule : StoredWorkflowSchedule V) (slot : Nat) : CreateRunInput V where
  kind := some schedule.runnableKind
  name := some schedule.runnableName
  workflowName := schedule.runnableName
  taskName := if schedule.runnableKind = .task then some schedule.runnableName else none
  input := schedule.input
  tags := some (schedule.tags.filter (·.1 ≠ "schedule") ++ [("schedule", schedule.name)])
  idempotencyKey := some (scheduleKey schedule.name slot)

/-- `schedule.enabled && schedule.nextRunAt <= date` -/
def StoredWorkflowSchedule.isDue {V : Type} (schedule : StoredWorkflowSchedule V) (date : ℤ) :
    Bool :=
  schedule.enabled && schedule.nextRunAt.any fun slot : ℕ => (slot : ℤ) ≤ date

/-- The order of schedules that are due, so at valid dates. -/
def compareSchedulesByDueDate {V : Type} (localeCompare : String → String → Ordering)
    (left right : StoredWorkflowSchedule V) : Prop :=
  left.nextRunAt.getD 0 < right.nextRunAt.getD 0 ∨
    (left.nextRunAt.getD 0 = right.nextRunAt.getD 0 ∧ localeCompare left.name right.name ≠ .gt)

instance {V : Type} (localeCompare : String → String → Ordering)
    (left right : StoredWorkflowSchedule V) :
    Decidable (compareSchedulesByDueDate localeCompare left right) :=
  inferInstanceAs (Decidable (_ ∨ _))

/-- The batch of a `fireDue`. -/
def dueSchedules {V : Type} (localeCompare : String → String → Ordering)
    (schedules : OrdMap String (StoredWorkflowSchedule V)) (date : ℤ) (limit : Option Int) :
    List (StoredWorkflowSchedule V) :=
  ((schedules.values.filter fun schedule => schedule.isDue date).insertionSort
    (compareSchedulesByDueDate localeCompare)).take (normalizeScheduleLimit limit).toNat

/-- A `fireDue` that has not returned: the date it fires for and its batch from the schedule on
whose run it awaits. -/
structure Firing (V : Type) where
  date : Nat
  schedule : StoredWorkflowSchedule V
  rest : List (StoredWorkflowSchedule V)
deriving DecidableEq, Repr

structure SchedulerState (V : Type) where
  mem : Mem V
  schedules : OrdMap String (StoredWorkflowSchedule V)
  firings : OrdMap Nat (Firing V)

namespace SchedulerState

/-- Go on with the loop of a `fireDue`: call `createRun` for the next schedule and await the rest of
the start, or return. -/
def fireNext (s : SchedulerState V) (caller : Nat) (date : Nat) :
    List (StoredWorkflowSchedule V) → SchedulerState V
  | [] => { s with firings := s.firings.erase caller }
  | schedule :: rest =>
    match s.mem.createRun (scheduleRunInput schedule (schedule.nextRunAt.getD 0)) with
    | (.ok _, mem) => { s with mem, firings := s.firings.set caller ⟨date, schedule, rest⟩ }
    | (.error _, mem) => { s with mem, firings := s.firings.erase caller }

theorem fireNext_schedules (s : SchedulerState V) (caller date : Nat)
    (due : List (StoredWorkflowSchedule V)) :
    (s.fireNext caller date due).schedules = s.schedules := by
  cases due with
  | nil => rfl
  | cons schedule rest =>
    rw [SchedulerState.fireNext]
    split <;> rfl

/-- `fireDue` up to its first await. -/
def fireDue (s : SchedulerState V) (caller : Nat) (now : Option Nat) (limit : Option Int) :
    SchedulerState V :=
  let (date, mem) := match now with
    | some date => (date, s.mem)
    | none => s.mem.now
  let s := { s with mem }
  s.fireNext caller date (dueSchedules (JsRuntime.localeCompare V) s.schedules date limit)

/-- `fireDue` from the await of a start that has succeeded to the next await. -/
def fired (s : SchedulerState V) (cronNext : String → Nat → Option Nat) (caller : Nat) :
    SchedulerState V :=
  match s.firings.get? caller with
  | none => s
  | some ⟨date, schedule, rest⟩ =>
    match nextStoredScheduleRunAt cronNext schedule date with
    | none => { s with firings := s.firings.erase caller }
    | some nextRunAt =>
      let (updatedAt, mem) := s.mem.now
      let updated := { schedule with lastSlotAt := schedule.nextRunAt, nextRunAt, updatedAt }
      ({ s with mem, schedules := s.schedules.set schedule.name updated } : SchedulerState V)
        |>.fireNext caller date rest

/-- The record `reconcile` stores for a definition. -/
def reconciled (normalized : NormalizedScheduleEntry V) (existing : Option (StoredWorkflowSchedule V))
    (id : String) (date : Nat) : StoredWorkflowSchedule V where
  id := (existing.map StoredWorkflowSchedule.id).getD id
  name := normalized.name
  runnableKind := normalized.runnableKind
  runnableName := normalized.runnableName
  input := normalized.input
  tags := normalized.tags
  cron := normalized.cron
  everyMs := normalized.everyMs
  enabled := normalized.enabled
  nextRunAt := match existing with
    | none => normalized.nextRunAt
    | some existing =>
      if existing.cron ≠ normalized.cron ∨ existing.everyMs ≠ normalized.everyMs ∨
          (¬ existing.enabled ∧ normalized.enabled ∧ existing.nextRunAt.any (· ≤ date)) then
        normalized.nextRunAt
      else existing.nextRunAt
  lastSlotAt := existing.bind StoredWorkflowSchedule.lastSlotAt
  createdAt := (existing.map StoredWorkflowSchedule.createdAt).getD date
  updatedAt := date

/-- One round of the loop of `reconcile`; an id is made only for a new schedule. -/
def reconcileEntry (date : Nat) (s : SchedulerState V) (normalized : NormalizedScheduleEntry V) :
    SchedulerState V :=
  match s.schedules.get? normalized.name with
  | some existing =>
    { s with
      schedules := s.schedules.set normalized.name (reconciled normalized (some existing) "" date) }
  | none =>
    let (id, mem) := s.mem.id "schedule"
    { s with mem, schedules := s.schedules.set normalized.name (reconciled normalized none id date) }

/-- `normalizeScheduleDefinitions` throws on a name that comes twice. -/
def reconcile (s : SchedulerState V) (entries : List (NormalizedScheduleEntry V)) :
    SchedulerState V :=
  let (date, mem) := s.mem.now
  if (entries.map NormalizedScheduleEntry.name).Nodup then
    let names := entries.map NormalizedScheduleEntry.name
    entries.foldl (reconcileEntry date)
      { s with mem, schedules := s.schedules.filter fun name _ => name ∈ names }
  else { s with mem }

/-- The record it returns, or `none` where it throws. -/
def setEnabled (s : SchedulerState V) (cronNext : String → Nat → Option Nat) (name : String)
    (enabled : Bool) : Option (StoredWorkflowSchedule V) × SchedulerState V :=
  match s.schedules.get? name with
  | none => (none, s)
  | some schedule =>
    let (date, mem) := s.mem.now
    let nextRunAt :=
      if enabled ∧ ¬ schedule.enabled ∧ schedule.nextRunAt.any (· ≤ date) then
        nextStoredScheduleRunAt cronNext schedule date
      else some schedule.nextRunAt
    match nextRunAt with
    | none => (none, { s with mem })
    | some nextRunAt =>
      let updated := { schedule with enabled, nextRunAt, updatedAt := date }
      (some updated, { s with mem, schedules := s.schedules.set name updated })

end SchedulerState

inductive SchedulerEvent (V : Type)
  /-- Any operation of the runtime, those of a start that is awaited among them. -/
  | op (op : Op V)
  | fireDue (caller : Nat) (now : Option Nat) (limit : Option Int)
  /-- The start that a `fireDue` awaits succeeds. -/
  | fired (caller : Nat)
  /-- It fails, and `fireDue` with it. -/
  | failed (caller : Nat)
  | reconcile (entries : List (NormalizedScheduleEntry V))
  | setEnabled (name : String) (enabled : Bool)

namespace SchedulerState

def initial (maxDeliveries : Option Int) : SchedulerState V :=
  ⟨createInMemoryWorkflowRuntime maxDeliveries, .empty, .empty⟩

def step (cronNext : String → Nat → Option Nat) (s : SchedulerState V) :
    SchedulerEvent V → SchedulerState V
  | .op op => { s with mem := s.mem.step op }
  | .fireDue caller now limit =>
    if (s.firings.get? caller).isSome then s else s.fireDue caller now limit
  | .fired caller => s.fired cronNext caller
  | .failed caller => { s with firings := s.firings.erase caller }
  | .reconcile entries => s.reconcile entries
  | .setEnabled name enabled => (s.setEnabled cronNext name enabled).2

def run (cronNext : String → Nat → Option Nat) (maxDeliveries : Option Int)
    (events : List (SchedulerEvent V)) : SchedulerState V :=
  Trace.run (step cronNext) (initial maxDeliveries) events

end SchedulerState

end Neemata.Workflows
