import Neemata.Workflows.InMemory.Schedules
import Neemata.Workflows.JsonText

/-!
# Updates of schedules while they fire

What the users of a scheduler have set is a function from names to settings, which only `reconcile`
and `setEnabled` change. `fireDue` writes back the copies it took when it started: the stored
schedules have the settings in force all through a run exactly if every copy still has the stored
settings when it is written back. No slot of a schedule ever gets two runs.
-/

namespace Neemata.Workflows

variable {V : Type}

/-- What users set about a schedule. -/
structure ScheduleSettings (V : Type) where
  runnableKind : RunKind
  runnableName : String
  input : V
  tags : List (String × String)
  cron : Option String
  everyMs : Option Binary64.Double
  enabled : Bool
deriving DecidableEq, Repr

def StoredWorkflowSchedule.settings (schedule : StoredWorkflowSchedule V) : ScheduleSettings V where
  runnableKind := schedule.runnableKind
  runnableName := schedule.runnableName
  input := schedule.input
  tags := schedule.tags
  cron := schedule.cron
  everyMs := schedule.everyMs
  enabled := schedule.enabled

def NormalizedScheduleEntry.settings (entry : NormalizedScheduleEntry V) : ScheduleSettings V where
  runnableKind := entry.runnableKind
  runnableName := entry.runnableName
  input := entry.input
  tags := entry.tags
  cron := entry.cron
  everyMs := entry.everyMs
  enabled := entry.enabled

/-- The settings in force, by name. -/
abbrev Settings (V : Type) := String → Option (ScheduleSettings V)

/-- What `reconcile` with these definitions leaves. -/
def settingsOf (entries : List (NormalizedScheduleEntry V)) : Settings V := fun name =>
  (entries.find? fun entry => entry.name = name).map NormalizedScheduleEntry.settings

def Settings.enable (settings : Settings V) (name : String) (enabled : Bool) : Settings V :=
  fun other =>
    if other = name then (settings name).map ({ · with enabled }) else settings other

namespace SchedulerState

variable [JsRuntime V]

def settings (s : SchedulerState V) : Settings V := fun name =>
  (s.schedules.get? name).map StoredWorkflowSchedule.settings

/-- What an event, taken at once, does to the settings in force. A `setEnabled` that throws leaves
them, and so does a `reconcile` that throws. -/
def update (cronNext : String → Nat → Option Nat) (s : SchedulerState V) (settings : Settings V) :
    SchedulerEvent V → Settings V
  | .reconcile entries =>
    if (entries.map NormalizedScheduleEntry.name).Nodup then settingsOf entries else settings
  | .setEnabled name enabled =>
    if (s.setEnabled cronNext name enabled).1.isSome then settings.enable name enabled else settings
  | _ => settings

def stepInForce (cronNext : String → Nat → Option Nat) (p : SchedulerState V × Settings V)
    (event : SchedulerEvent V) : SchedulerState V × Settings V :=
  (p.1.step cronNext event, p.1.update cronNext p.2 event)

/-- The settings in force after a run. -/
def inForce (cronNext : String → Nat → Option Nat) (maxDeliveries : Option Int)
    (events : List (SchedulerEvent V)) : Settings V :=
  (Trace.run (stepInForce cronNext) (initial maxDeliveries, fun _ => none) events).2

/-- A `fireDue` that writes a schedule back finds it stored with the settings it has captured. -/
def Unchanged (cronNext : String → Nat → Option Nat) (s : SchedulerState V) :
    SchedulerEvent V → Prop
  | .fired caller => ∀ firing ∈ s.firings.get? caller,
    (nextStoredScheduleRunAt cronNext firing.schedule firing.date).isSome →
      s.settings firing.schedule.name = some firing.schedule.settings
  | _ => True

instance [DecidableEq V] (cronNext : String → Nat → Option Nat) (s : SchedulerState V)
    (event : SchedulerEvent V) : Decidable (s.Unchanged cronNext event) := by
  cases event <;> unfold Unchanged <;> infer_instance

/-- Schedules are stored under their names. -/
def Named (s : SchedulerState V) : Prop :=
  ∀ {name schedule}, s.schedules.get? name = some schedule → schedule.name = name

variable {cronNext : String → Nat → Option Nat} {s : SchedulerState V} {settings : Settings V}

omit [JsRuntime V] in
theorem Named.set (H : s.Named) {mem : Mem V} {firings : OrdMap Nat (Firing V)} {name : String}
    {schedule : StoredWorkflowSchedule V} (hname : schedule.name = name) :
    Named ⟨mem, s.schedules.set name schedule, firings⟩ := by
  intro name' schedule' hget
  rw [OrdMap.get?_set] at hget
  split at hget
  · next h =>
    cases hget
    rw [hname, h]
  · exact H hget

theorem fireDue_schedules (s : SchedulerState V) (caller : Nat) (now : Option Nat)
    (limit : Option Int) : (s.fireDue caller now limit).schedules = s.schedules := by
  cases now <;> exact fireNext_schedules _ _ _ _

/-- A start that has succeeded writes back what was captured, unless there is no next time. -/
theorem fired_schedules (s : SchedulerState V) (cronNext : String → Nat → Option Nat)
    (caller : Nat) :
    ((s.fired cronNext caller).schedules = s.schedules ∧
      ∀ firing ∈ s.firings.get? caller,
        (nextStoredScheduleRunAt cronNext firing.schedule firing.date).isNone) ∨
    ∃ firing updated, s.firings.get? caller = some firing ∧
      (nextStoredScheduleRunAt cronNext firing.schedule firing.date).isSome ∧
      updated.name = firing.schedule.name ∧ updated.settings = firing.schedule.settings ∧
      (s.fired cronNext caller).schedules =
        s.schedules.set firing.schedule.name updated := by
  cases hget : s.firings.get? caller with
  | none =>
    rw [SchedulerState.fired, hget]
    exact .inl ⟨rfl, fun _ h => nomatch h⟩
  | some firing =>
    obtain ⟨date, schedule, rest⟩ := firing
    cases hnext : nextStoredScheduleRunAt cronNext schedule date with
    | none =>
      simp only [SchedulerState.fired, hget, hnext]
      refine .inl ⟨trivial, fun firing h => ?_⟩
      cases h
      rw [hnext]
      rfl
    | some nextRunAt =>
      simp only [SchedulerState.fired, hget, hnext]
      refine .inr ⟨_, _, rfl, by rw [hnext]; rfl, ?_, ?_, fireNext_schedules _ _ _ _⟩
      · rfl
      · rfl

/-! ## Updates -/

omit [JsRuntime V] in
theorem settings_set (m : OrdMap String (StoredWorkflowSchedule V)) (name other : String)
    (schedule : StoredWorkflowSchedule V) :
    ((m.set name schedule).get? other).map StoredWorkflowSchedule.settings =
      if other = name then some schedule.settings
      else (m.get? other).map StoredWorkflowSchedule.settings := by
  rw [OrdMap.get?_set]
  split <;> rfl

omit [JsRuntime V] in
/-- One round of `reconcile` stores its entry, whatever was there. -/
theorem exists_reconcileEntry (date : Nat) (s : SchedulerState V)
    (entry : NormalizedScheduleEntry V) :
    ∃ mem schedule, schedule.settings = entry.settings ∧ schedule.name = entry.name ∧
      reconcileEntry date s entry =
        { s with mem, schedules := s.schedules.set entry.name schedule } := by
  rw [reconcileEntry]
  split
  · exact ⟨s.mem, _, rfl, rfl, rfl⟩
  · exact ⟨_, _, rfl, rfl, rfl⟩

omit [JsRuntime V] in
/-- What the loop of `reconcile` stores. -/
theorem settings_foldl_reconcileEntry (date : Nat) {entries : List (NormalizedScheduleEntry V)}
    (hnodup : (entries.map NormalizedScheduleEntry.name).Nodup) (s : SchedulerState V)
    (name : String) :
    (entries.foldl (reconcileEntry date) s).settings name =
      (settingsOf entries name <|> s.settings name) := by
  induction entries generalizing s with
  | nil => rfl
  | cons entry entries ih =>
    rw [List.map_cons, List.nodup_cons] at hnodup
    obtain ⟨mem, schedule, hsettings, _, hstep⟩ := exists_reconcileEntry date s entry
    rw [List.foldl_cons, ih hnodup.2, hstep, SchedulerState.settings]
    dsimp only
    rw [settings_set, hsettings]
    by_cases hname : name = entry.name
    · have hnone : settingsOf entries name = none := by
        rw [settingsOf, List.find?_eq_none.mpr, Option.map_none]
        intro other hother
        rw [decide_eq_true_eq, hname]
        exact fun h => hnodup.1 (h ▸ List.mem_map_of_mem hother)
      rw [hnone, if_pos hname, settingsOf, List.find?_cons_of_pos (by simp [hname])]
      rfl
    · have hsame : settingsOf (entry :: entries) name = settingsOf entries name := by
        rw [settingsOf, settingsOf, List.find?_cons_of_neg (by simpa using Ne.symm hname)]
      rw [hsame, if_neg hname]
      rfl

omit [JsRuntime V] in
theorem Named.reconcileEntries (H : s.Named) (date : Nat)
    (entries : List (NormalizedScheduleEntry V)) :
    (entries.foldl (reconcileEntry date) s).Named := by
  induction entries generalizing s with
  | nil => exact H
  | cons entry entries ih =>
    obtain ⟨mem, schedule, _, hname, hstep⟩ := exists_reconcileEntry date s entry
    rw [List.foldl_cons, hstep]
    exact ih (H.set hname)

omit [JsRuntime V] in
theorem reconcile_of_nodup (s : SchedulerState V) {entries : List (NormalizedScheduleEntry V)}
    (hnodup : (entries.map NormalizedScheduleEntry.name).Nodup) :
    s.reconcile entries = entries.foldl (reconcileEntry s.mem.now.1)
      { s with
        mem := s.mem.now.2
        schedules := s.schedules.filter fun name _ =>
          name ∈ entries.map NormalizedScheduleEntry.name } :=
  if_pos hnodup

omit [JsRuntime V] in
theorem reconcile_of_not_nodup (s : SchedulerState V) {entries : List (NormalizedScheduleEntry V)}
    (hdup : ¬ (entries.map NormalizedScheduleEntry.name).Nodup) :
    s.reconcile entries = { s with mem := s.mem.now.2 } :=
  if_neg hdup

omit [JsRuntime V] in
/-- `reconcile` leaves what its definitions say. -/
theorem settings_reconcile (s : SchedulerState V) {entries : List (NormalizedScheduleEntry V)}
    (hnodup : (entries.map NormalizedScheduleEntry.name).Nodup) :
    (s.reconcile entries).settings = settingsOf entries := by
  funext name
  rw [s.reconcile_of_nodup hnodup, settings_foldl_reconcileEntry _ hnodup, SchedulerState.settings]
  dsimp only
  rw [OrdMap.get?_filter]
  by_cases hmem : name ∈ entries.map NormalizedScheduleEntry.name
  · obtain ⟨entry, hentry, hname⟩ := List.mem_map.mp hmem
    cases hfind : entries.find? fun entry => entry.name = name with
    | none => exact absurd (List.find?_eq_none.mp hfind entry hentry) (by simp [hname])
    | some found => rw [settingsOf, hfind]; rfl
  · have hnone : ((s.schedules.get? name).filter
        fun _ => decide (name ∈ entries.map NormalizedScheduleEntry.name)) = none := by
      rw [decide_eq_false hmem]
      cases s.schedules.get? name <;> rfl
    rw [hnone, Option.map_none, Option.orElse_eq_orElse, Option.orElse_eq_or, Option.or_none]

omit [JsRuntime V] in
theorem Named.reconcile (H : s.Named) (entries : List (NormalizedScheduleEntry V)) :
    (s.reconcile entries).Named := by
  by_cases hnodup : (entries.map NormalizedScheduleEntry.name).Nodup
  · rw [s.reconcile_of_nodup hnodup]
    refine Named.reconcileEntries ?_ _ _
    intro name schedule hget
    dsimp only at hget
    rw [OrdMap.get?_filter, Option.filter_eq_some_iff] at hget
    exact H hget.1
  · rw [s.reconcile_of_not_nodup hnodup]
    exact H

omit [JsRuntime V] in
/-- What `setEnabled` can do. -/
theorem setEnabled_cases (s : SchedulerState V) (cronNext : String → Nat → Option Nat)
    (name : String) (enabled : Bool) :
    (∃ mem, s.setEnabled cronNext name enabled = (none, { s with mem })) ∨
    ∃ mem schedule updated, s.schedules.get? name = some schedule ∧
      updated.name = schedule.name ∧ updated.settings = { schedule.settings with enabled } ∧
      s.setEnabled cronNext name enabled =
        (some updated, { s with mem, schedules := s.schedules.set name updated }) := by
  cases hget : s.schedules.get? name with
  | none => exact .inl ⟨s.mem, by rw [SchedulerState.setEnabled, hget]⟩
  | some schedule =>
    simp only [SchedulerState.setEnabled, hget]
    generalize (if enabled = true ∧ ¬schedule.enabled = true ∧ schedule.nextRunAt.any (· ≤ s.mem.now.1) = true then
      nextStoredScheduleRunAt cronNext schedule s.mem.now.1 else some schedule.nextRunAt) = next
    cases next with
    | none => exact .inl ⟨_, rfl⟩
    | some nextRunAt =>
      exact .inr ⟨_, schedule, { schedule with enabled, nextRunAt, updatedAt := s.mem.now.1 },
        rfl, rfl, rfl, rfl⟩

omit [JsRuntime V] in
theorem settings_setEnabled (H : s.Named) (cronNext : String → Nat → Option Nat) (name : String)
    (enabled : Bool) :
    (s.setEnabled cronNext name enabled).2.Named ∧
      (s.setEnabled cronNext name enabled).2.settings =
        s.update cronNext s.settings (.setEnabled name enabled) := by
  rw [SchedulerState.update]
  rcases s.setEnabled_cases cronNext name enabled with
    ⟨mem, h⟩ | ⟨mem, schedule, updated, hget, hname, hsettings, h⟩
  · rw [h]
    exact ⟨H, rfl⟩
  · rw [h]
    refine ⟨H.set (hname.trans (H hget)), ?_⟩
    funext other
    rw [SchedulerState.settings]
    dsimp only
    rw [settings_set, hsettings, Option.isSome_some, if_pos rfl, Settings.enable,
      SchedulerState.settings, hget]
    rfl

/-- A step leaves the settings in force exactly if what it writes back is unchanged. -/
theorem settings_step_iff (H : s.Named) (event : SchedulerEvent V) :
    (s.step cronNext event).Named ∧
      ((s.step cronNext event).settings = s.update cronNext s.settings event ↔
        s.Unchanged cronNext event) := by
  have hsame {s' : SchedulerState V} (h : s'.schedules = s.schedules) :
      s'.Named ∧ s'.settings = s.settings := by
    unfold Named SchedulerState.settings
    rw [h]
    exact ⟨H, rfl⟩
  cases event with
  | op op | failed caller => exact ⟨(hsame rfl).1, iff_of_true rfl trivial⟩
  | fireDue caller now limit =>
    rw [SchedulerState.step]
    split
    · exact ⟨H, iff_of_true rfl trivial⟩
    · obtain ⟨hnamed, hsettings⟩ := hsame (s.fireDue_schedules caller now limit)
      exact ⟨hnamed, iff_of_true hsettings trivial⟩
  | fired caller =>
    simp only [SchedulerState.step, Unchanged, SchedulerState.update]
    obtain ⟨hschedules, hnone⟩ | ⟨firing, updated, hget, hnext, hname, hsettings, hschedules⟩ :=
      s.fired_schedules cronNext caller
    · refine ⟨(hsame hschedules).1, iff_of_true (hsame hschedules).2 fun firing h hsome => ?_⟩
      rw [Option.isNone_iff_eq_none.mp (hnone firing h)] at hsome
      cases hsome
    · have hnamed : (s.fired cronNext caller).Named := by
        intro name schedule hget'
        rw [hschedules] at hget'
        exact (H.set hname : Named ⟨s.mem, _, s.firings⟩) hget'
      have hafter : (s.fired cronNext caller).settings = fun name =>
          if name = firing.schedule.name then some firing.schedule.settings
          else s.settings name := by
        funext name
        rw [SchedulerState.settings, hschedules, settings_set, hsettings]
        rfl
      refine ⟨hnamed, ?_⟩
      rw [hafter]
      constructor
      · intro h firing' hget' _
        obtain rfl := Option.some.inj (hget.symm.trans hget')
        rw [← congrFun h, if_pos rfl]
      · intro h
        funext name
        split
        · next heq => rw [heq, h firing hget hnext]
        · rfl
  | reconcile entries =>
    refine ⟨H.reconcile entries, iff_of_true ?_ trivial⟩
    rw [SchedulerState.step, SchedulerState.update]
    split
    · next hnodup => exact s.settings_reconcile hnodup
    · next hdup => rw [s.reconcile_of_not_nodup hdup]; rfl
  | setEnabled name enabled =>
    obtain ⟨hnamed, hsettings⟩ := settings_setEnabled H cronNext name enabled
    exact ⟨hnamed, iff_of_true hsettings trivial⟩

/-! ## Runs of a slot -/

/-- What the store keeps to, whoever uses it. -/
def StoreSound (s : SchedulerState V) : Prop := s.mem.Sound ∧ KeysExact s.mem.runTables

theorem StoreSound.of_quiet (H : s.StoreSound) {s' : SchedulerState V}
    (h : Mem.Quiet s.mem s'.mem) : s'.StoreSound := by
  refine ⟨?_, h.runTables_eq ▸ H.2⟩
  unfold Mem.Sound
  rw [h.records]
  exact H.1.mono h.nextId

theorem StoreSound.of_op (H : s.StoreSound) {s' : SchedulerState V} (op : Op V)
    (h : s'.mem = s.mem.step op) : s'.StoreSound := by
  unfold StoreSound
  rw [h]
  exact ⟨H.1.step op, H.2.effect (s.mem.step_runEffect op) (fun hget => H.1.keyed.runs hget)
    H.1.run_fresh⟩

omit [JsRuntime V] in
theorem now_quiet (m : Mem V) : Mem.Quiet m m.now.2 := ⟨rfl, rfl, Nat.le_refl _⟩

theorem StoreSound.fireNext (H : s.StoreSound) (caller date : Nat)
    (due : List (StoredWorkflowSchedule V)) : (s.fireNext caller date due).StoreSound := by
  cases due with
  | nil => exact H
  | cons schedule rest =>
    rw [SchedulerState.fireNext]
    split
    · next h => exact H.of_op (.store (.createRun _)) (congrArg Prod.snd h).symm
    · next h => exact H.of_op (.store (.createRun _)) (congrArg Prod.snd h).symm

theorem StoreSound.reconcileEntries (H : s.StoreSound) (date : Nat)
    (entries : List (NormalizedScheduleEntry V)) :
    (entries.foldl (reconcileEntry date) s).StoreSound := by
  induction entries generalizing s with
  | nil => exact H
  | cons entry entries ih =>
    rw [List.foldl_cons]
    refine ih ?_
    rw [reconcileEntry]
    split
    · exact H
    · exact H.of_quiet ⟨rfl, rfl, Nat.le_succ _⟩

theorem StoreSound.step (H : s.StoreSound) (event : SchedulerEvent V) :
    (s.step cronNext event).StoreSound := by
  cases event with
  | op op => exact H.of_op op rfl
  | fireDue caller now limit =>
    rw [SchedulerState.step]
    split
    · exact H
    · cases now with
      | none =>
        have hnow : StoreSound { s with mem := s.mem.now.2 } := H.of_quiet (now_quiet s.mem)
        exact hnow.fireNext caller _ _
      | some date => exact H.fireNext caller date _
  | fired caller =>
    rw [SchedulerState.step, SchedulerState.fired]
    split
    · exact H
    · rename_i date schedule rest hget
      split
      · exact H
      · rename_i nextRunAt hnext
        have hnow : StoreSound
            { s with
              mem := s.mem.now.2
              schedules := s.schedules.set schedule.name
                { schedule with
                  lastSlotAt := schedule.nextRunAt, nextRunAt, updatedAt := s.mem.now.1 } } :=
          H.of_quiet (now_quiet s.mem)
        exact hnow.fireNext caller date rest
  | failed caller => exact H
  | reconcile entries =>
    rw [SchedulerState.step]
    by_cases hnodup : (entries.map NormalizedScheduleEntry.name).Nodup
    · rw [s.reconcile_of_nodup hnodup]
      exact StoreSound.reconcileEntries (H.of_quiet (now_quiet s.mem)) _ _
    · rw [s.reconcile_of_not_nodup hnodup]
      exact H.of_quiet (now_quiet s.mem)
  | setEnabled name enabled =>
    rw [SchedulerState.step, SchedulerState.setEnabled]
    split
    · exact H
    · dsimp only
      split <;> exact H.of_quiet (now_quiet s.mem)

/-- No two runs of the store were started for one slot of a schedule. -/
def OncePerSlot (s : SchedulerState V) : Prop :=
  ∀ run ∈ s.mem.runs.values, ∀ run' ∈ s.mem.runs.values, ∀ name slot,
    run.idempotencyKey = some (scheduleKey name slot) →
    run'.idempotencyKey = some (scheduleKey name slot) → run = run'

theorem StoreSound.oncePerSlot (H : s.StoreSound) : s.OncePerSlot := by
  intro run hrun run' hrun' name slot hkey hkey'
  obtain ⟨id, hget⟩ := OrdMap.mem_values_iff.mp hrun
  obtain ⟨id', hget'⟩ := OrdMap.mem_values_iff.mp hrun'
  have hid : id = id' := H.2.idempotency.unique hget hget'
    (by rw [idempotencyKeyOf, hkey]; rfl) (by rw [idempotencyKeyOf, hkey']; rfl)
  subst hid
  exact Option.some.inj (hget.symm.trans hget')

/-! ## The scheduler -/

theorem run_inForce (events : List (SchedulerEvent V)) (p : SchedulerState V × Settings V) :
    (Trace.run (stepInForce cronNext) p events).1 = Trace.run (step cronNext) p.1 events := by
  induction events generalizing p with
  | nil => rfl
  | cons event events ih => exact ih _

theorem admits_inForce (events : List (SchedulerEvent V)) (p : SchedulerState V × Settings V) :
    Trace.Admits (stepInForce cronNext) (fun p event => p.1.Unchanged cronNext event) p events ↔
      Trace.Admits (step cronNext) (Unchanged cronNext) p.1 events := by
  induction events generalizing p with
  | nil => exact Iff.rfl
  | cons event events ih => exact and_congr_right fun _ => ih _

/-- The stored schedules have the settings in force in every state of a run exactly if each copy
that is written back is unchanged; and in every run no slot of a schedule gets two runs. -/
theorem schedules_kept_iff (cronNext : String → Nat → Option Nat) (maxDeliveries : Option Int)
    (events : List (SchedulerEvent V)) :
    ((∀ l, l <+: events →
        (run cronNext maxDeliveries l).settings = inForce cronNext maxDeliveries l) ↔
      Trace.Admits (step cronNext) (Unchanged cronNext) (initial maxDeliveries) events) ∧
    (run cronNext maxDeliveries events).OncePerSlot := by
  constructor
  · have hiff := Trace.forall_prefix_iff_admits (stepInForce cronNext)
      (C := fun p event => p.1.Unchanged cronNext event) (I := fun p => p.1.Named)
      (K := fun p => p.1.settings = p.2) (s := (initial maxDeliveries, fun _ => none))
      (fun p event H => (settings_step_iff H event).1)
      (fun p event H hkept => by
        rw [← (settings_step_iff H event).2]
        unfold stepInForce
        rw [hkept])
      (fun hget => nomatch hget) rfl events
    rw [admits_inForce] at hiff
    refine Iff.trans (forall_congr' fun l => imp_congr_right fun _ => ?_) hiff
    rw [run_inForce, inForce, run]
  · refine StoreSound.oncePerSlot ?_
    exact Trace.run_inv (P := fun _ => True) (step cronNext) (fun s event _ H => H.step event)
      (fun _ _ => trivial) ⟨Mem.sound_create maxDeliveries, KeysExact.empty⟩

end SchedulerState

/-! ## A removed schedule that comes back -/

section
open SchedulerState

def hourly : NormalizedScheduleEntry JsonText where
  name := "report"
  runnableKind := .workflow
  runnableName := "report"
  input := ⟨"null"⟩
  tags := []
  cron := none
  everyMs := some (.finite 3600000)
  enabled := true
  nextRunAt := some 0

/-- The schedule is removed while `fireDue` awaits the start of its run. -/
def removedWhileFiring : List (SchedulerEvent JsonText) :=
  [.reconcile [hourly], .fireDue 0 (some 5) none, .reconcile [], .fired 0]

/-- It is back when `fireDue` has returned. -/
theorem not_schedules_kept :
    (run (fun _ _ => none) none removedWhileFiring).firings.values = [] ∧
      inForce (fun _ _ => none) none removedWhileFiring "report" = none ∧
      (run (fun _ _ => none) none removedWhileFiring).settings "report" = some hourly.settings := by
  decide +kernel

end

end Neemata.Workflows
