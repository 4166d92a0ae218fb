import Neemata.Lib.Binary64
import Neemata.Lib.OrdMap
import Neemata.Lib.Trace
import Neemata.Workflows.InMemory.Schedules
import Mathlib.Data.List.Sort

/-!
# Interval schedules

The arithmetic of `nextScheduleRunAt` for a schedule with `every`, in doubles and whole dates, and
the calls of `fireDue` over the schedules of a store. The next time of a schedule is right exactly
if the grid of its interval has a whole date there (`next_right_iff`), and as long as it is, the
slots are fired in order on one grid.
-/

namespace Neemata.Workflows.Intervals

open Binary64 (Double)

/-! ## The source -/

/-- `normalizeScheduleCadence` of a schedule with `every`; `none` is a throw. -/
def normalizeEvery (every : String) : Option Double :=
  (parseDurationMs (some every)).filter Double.positive

/-! ## What the next time has to be -/

/-- The times of the grid after `base`. -/
def onGrid (everyMs : ℚ) (base : ℕ) (t : ℚ) : Prop := ∃ k : ℕ, 0 < k ∧ t = base + k * everyMs

/-- The first time of the grid after `base` that is later than `now`. -/
structure Next (everyMs : ℚ) (now : ℤ) (base : ℕ) (t : ℤ) : Prop where
  later : base ≤ now → now < t
  grid : onGrid everyMs base t
  least : ∀ t' : ℚ, onGrid everyMs base t' → now < t' → t ≤ t'

def Right (everyMs : Double) (now : ℤ) (base : ℕ) : Prop :=
  ∃ value t, everyMs = .finite value ∧ nextIntervalRunAt everyMs now base = some t ∧
    Next value now base t

/-- How many steps of the grid go to the next time. -/
def steps (everyMs : ℚ) (now : ℤ) (base : ℕ) : ℤ := max 0 ⌊(now - base) / everyMs⌋ + 1

/-- The next time of the grid is a whole number, and a date. -/
def Whole (everyMs : Double) (now : ℤ) (base : ℕ) : Prop :=
  ∃ (value : ℚ) (t : ℤ), everyMs = .finite value ∧ base + steps value now base * value = t ∧
    t ≤ maxTime

variable {everyMs : ℚ} {now : ℤ} {base : ℕ} {t : ℤ}

theorem steps_pos (everyMs : ℚ) (now : ℤ) (base : ℕ) : 0 < steps everyMs now base := by
  unfold steps
  omega

/-- The next time is later than `now`. -/
theorem lt_next (now : ℤ) (base : ℕ) (hevery : 0 < everyMs) :
    (now : ℚ) < base + steps everyMs now base * everyMs := by
  have hfloor : (now - base) / everyMs < steps everyMs now base := by
    refine (Int.lt_floor_add_one _).trans_le ?_
    unfold steps
    push_cast
    exact add_le_add_left (le_max_right _ _) _
  rw [div_lt_iff₀ hevery] at hfloor
  linarith

/-- No earlier time of the grid is later than `now`. -/
theorem next_le (hevery : 0 < everyMs) {k : ℕ} (hk : 0 < k) (h : (now : ℚ) < base + k * everyMs) :
    steps everyMs now base ≤ k := by
  have hfloor : ⌊(now - base) / everyMs⌋ < (k : ℤ) := by
    rw [Int.floor_lt, div_lt_iff₀ hevery]
    push_cast
    linarith
  unfold steps
  omega

theorem onGrid_next : onGrid everyMs base (base + steps everyMs now base * everyMs) := by
  have hpos := steps_pos everyMs now base
  obtain ⟨k, hk⟩ := Int.eq_ofNat_of_zero_le hpos.le
  refine ⟨k, by omega, ?_⟩
  rw [hk]
  push_cast
  rfl

/-- The right time is that of the exact computation. -/
theorem next_iff (hevery : 0 < everyMs) :
    Next everyMs now base t ↔ base + steps everyMs now base * everyMs = t := by
  constructor
  · intro h
    obtain ⟨k, hk, hgrid⟩ := h.grid
    have hlater : (now : ℚ) < base + k * everyMs := by
      rcases le_or_gt (base : ℤ) now with hle | hlt
      · rw [← hgrid]
        exact_mod_cast h.later hle
      · have hcast : (now : ℚ) < base := by exact_mod_cast hlt
        have hstep : 0 ≤ k * everyMs := by positivity
        linarith
    have hsteps : (steps everyMs now base : ℚ) ≤ k := by exact_mod_cast next_le hevery hk hlater
    refine le_antisymm ?_ (h.least _ onGrid_next (lt_next now base hevery))
    rw [hgrid]
    exact add_le_add_right (mul_le_mul_of_nonneg_right hsteps hevery.le) _
  · intro h
    refine ⟨fun _ => ?_, h ▸ onGrid_next, fun t' hgrid hlater => ?_⟩
    · exact_mod_cast h ▸ lt_next now base hevery
    · obtain ⟨k, hk, rfl⟩ := hgrid
      have hsteps : (steps everyMs now base : ℚ) ≤ k := by exact_mod_cast next_le hevery hk hlater
      rw [← h]
      exact add_le_add_right (mul_le_mul_of_nonneg_right hsteps hevery.le) _

/-! ## The double computation -/

theorem maxZero_of_nonPos {d : Double} (h : d.NonPos) : maxZero d = .finite 0 := by
  cases d with
  | finite x => exact congrArg Double.finite (max_eq_left h)
  | infinite negative =>
    cases (show negative = true from h)
    rfl
  | nan => cases h

/-- An earlier `now` has missed nothing. -/
theorem missed_of_lt (hevery : 0 < everyMs) (h : now < base) :
    maxZero (((Double.finite now).add (.finite (-base))).div (.finite everyMs)).floor =
      .finite 0 := by
  have hcast : (now : ℚ) < base := by exact_mod_cast h
  have helapsed : ((Double.finite now).add (.finite (-base))).NonPos :=
    Double.nonPos_round (by linarith)
  exact maxZero_of_nonPos (helapsed.div hevery).floor

/-- The slots before the next one are those that were missed. -/
theorem steps_sub_one (hevery : 0 < everyMs) (h : (base : ℤ) ≤ now) :
    steps everyMs now base - 1 = ⌊((now : ℚ) - base) / everyMs⌋ := by
  have hnonneg : 0 ≤ ⌊((now : ℚ) - base) / everyMs⌋ := by
    refine Int.floor_nonneg.mpr (div_nonneg ?_ hevery.le)
    have hcast : (base : ℚ) ≤ now := by exact_mod_cast h
    linarith
  unfold steps
  omega

theorem steps_sub_one_mul_le (hevery : 0 < everyMs) (h : (base : ℤ) ≤ now) :
    ((steps everyMs now base : ℚ) - 1) * everyMs ≤ (now - base : ℤ) := by
  have hle := Int.floor_le (((now : ℚ) - base) / everyMs)
  rw [← steps_sub_one hevery h, le_div_iff₀ hevery] at hle
  push_cast at hle ⊢
  exact hle

theorem steps_of_lt (hevery : 0 < everyMs) (h : now < base) : steps everyMs now base = 1 := by
  have hcast : (now : ℚ) < base := by exact_mod_cast h
  have hneg : ((now : ℚ) - base) / everyMs ≤ 0 :=
    div_nonpos_of_nonpos_of_nonneg (by linarith) hevery.le
  have hfloor := Int.floor_nonpos hneg
  unfold steps
  omega

/-- A whole distance that the steps before do not reach: a step is a millisecond at least, and there
are no more steps than milliseconds. -/
theorem steps_le_distance {elapsed steps distance : ℤ} (hsteps : 0 < steps)
    (hdistance : (distance : ℚ) = steps * everyMs) (hlow : (steps - 1) * everyMs ≤ elapsed)
    (hhigh : elapsed < distance) : steps ≤ distance := by
  have hhigh' : (elapsed : ℚ) ≤ distance - 1 := by exact_mod_cast Int.le_sub_one_of_lt hhigh
  have hone : 1 ≤ everyMs := by linarith
  have hle : (steps : ℚ) ≤ distance := by
    rw [hdistance]
    exact le_mul_of_one_le_right (by exact_mod_cast hsteps.le) hone
  exact_mod_cast hle

/-- The quotient is rounded to one with the same floor, where the next time is whole. -/
theorem floor_nearest {elapsed steps distance : ℤ} (hevery : 0 < everyMs) (hsteps : 0 < steps)
    (helapsed : 0 ≤ elapsed) (hdistance : (distance : ℚ) = steps * everyMs)
    (hlow : (steps - 1) * everyMs ≤ elapsed) (hhigh : elapsed < distance)
    (hbound : distance < 2 ^ 53) :
    ((Double.finite elapsed).div (.finite everyMs)).floor = .finite (steps - 1 : ℤ) := by
  have helapsed' : (0 : ℚ) ≤ elapsed := by exact_mod_cast helapsed
  have hhigh' : (elapsed : ℚ) ≤ distance - 1 := by exact_mod_cast Int.le_sub_one_of_lt hhigh
  have hbound' : (distance : ℚ) < 2 ^ 53 := by exact_mod_cast hbound
  have hsteps_le : (steps : ℚ) ≤ distance := by
    exact_mod_cast steps_le_distance hsteps hdistance hlow hhigh
  have hx : 0 ≤ elapsed / everyMs := div_nonneg helapsed' hevery.le
  have hlt : elapsed / everyMs < steps := by
    rw [div_lt_iff₀ hevery, ← hdistance]
    linarith
  have habs : |elapsed / everyMs| ≤ distance := by
    rw [abs_of_nonneg hx]
    linarith
  have hge : ((steps - 1 : ℤ) : ℚ) ≤ elapsed / everyMs := by
    rw [le_div_iff₀ hevery]
    push_cast
    exact hlow
  have hnearest_ge := Binary64.le_nearest_intCast (habs.trans_lt hbound') hge
  have hnearest_lt : Binary64.nearest (elapsed / everyMs) < steps := by
    rcases helapsed.eq_or_lt with hzero | hpos
    · have hnearest : Binary64.nearest ((0 : ℤ) : ℚ) = (0 : ℤ) :=
        Binary64.nearest_intCast (by norm_num)
      rw [← hzero, Int.cast_zero, zero_div]
      rw [Int.cast_zero] at hnearest
      rw [hnearest]
      exact_mod_cast hsteps
    · have hnormal : (2 : ℚ) ^ (-1022 : ℤ) ≤ elapsed / everyMs := by
        have hone' : (1 : ℚ) ≤ elapsed := by exact_mod_cast hpos
        have hsmall : everyMs ≤ 2 ^ 53 := by
          have hle : everyMs ≤ steps * everyMs :=
            le_mul_of_one_le_left hevery.le (by exact_mod_cast hsteps)
          linarith
        rw [le_div_iff₀ hevery]
        calc (2 : ℚ) ^ (-1022 : ℤ) * everyMs ≤ 2 ^ (-53 : ℤ) * 2 ^ 53 :=
              mul_le_mul (zpow_le_zpow_right₀ (by norm_num) (by norm_num)) hsmall hevery.le
                (by positivity)
          _ = 1 := by norm_num
          _ ≤ elapsed := hone'
      refine (Binary64.nearest_le_mul hx hnormal).trans_lt ?_
      rw [div_mul_eq_mul_div, div_lt_iff₀ hevery, ← hdistance]
      have herror : (elapsed : ℚ) * (1 / 2 ^ 53) < 1 := by
        rw [mul_one_div, div_lt_one (by norm_num)]
        linarith
      linarith
  have hfloor : ⌊Binary64.nearest (elapsed / everyMs)⌋ = steps - 1 := by
    rw [Int.floor_eq_iff]
    refine ⟨hnearest_ge, ?_⟩
    push_cast
    linarith
  have hround : (Double.finite elapsed).div (.finite everyMs) =
      .finite (Binary64.nearest (elapsed / everyMs)) := Double.round_of_abs_le hbound habs
  rw [hround, Double.floor, hfloor]

theorem distance_eq (hnext : base + steps everyMs now base * everyMs = t) :
    ((t - base : ℤ) : ℚ) = steps everyMs now base * everyMs := by
  push_cast
  rw [← hnext]
  ring

theorem lt_of_next (hevery : 0 < everyMs) (hnext : base + steps everyMs now base * everyMs = t) :
    now < t ∧ base < t := by
  have hsteps : (0 : ℚ) < steps everyMs now base := by exact_mod_cast steps_pos everyMs now base
  have hbase : (base : ℚ) < t := by
    rw [← hnext]
    exact lt_add_of_pos_right _ (mul_pos hsteps hevery)
  exact ⟨by exact_mod_cast hnext ▸ lt_next now base hevery,
    by exact_mod_cast hbase⟩

/-- Where the next time is whole, the missed slots are counted right. -/
theorem missed_of_le (hevery : 0 < everyMs) (h : (base : ℤ) ≤ now) (hnow : now ≤ maxTime)
    (hnext : base + steps everyMs now base * everyMs = t) (ht : t ≤ maxTime) :
    maxZero (((Double.finite now).add (.finite (-base))).div (.finite everyMs)).floor =
      .finite (steps everyMs now base - 1 : ℤ) := by
  have hnow' : (now : ℤ) ≤ 8640000000000000 := hnow
  have ht' : (t : ℤ) ≤ 8640000000000000 := ht
  have hsteps := steps_pos everyMs now base
  have helapsed : (Double.finite now).add (.finite (-base)) = .finite (now - base : ℤ) := by
    have hround : Double.round ((now - base : ℤ) : ℚ) = .finite (now - base : ℤ) :=
      Double.round_intCast (by rw [abs_of_nonneg] <;> omega)
    rw [Double.add, ← hround]
    push_cast
    rw [sub_eq_add_neg]
  have hlater := lt_of_next hevery hnext
  rw [helapsed, floor_nearest hevery hsteps (by omega) (distance_eq hnext)
    (steps_sub_one_mul_le hevery h) (by omega) (by omega)]
  refine congrArg Double.finite (max_eq_right ?_)
  exact_mod_cast Int.le_sub_one_of_lt hsteps

theorem nextIntervalRunAt_eq (hevery : 0 < everyMs) (hnow : now ≤ maxTime)
    (hnext : base + steps everyMs now base * everyMs = t) (ht : t ≤ maxTime) :
    nextIntervalRunAt (.finite everyMs) now base = some t := by
  have ht' : (t : ℤ) ≤ 8640000000000000 := ht
  have hsteps := steps_pos everyMs now base
  have hlater := lt_of_next hevery hnext
  obtain ⟨hmissed, hle⟩ : maxZero
        (((Double.finite now).add (.finite (-base))).div (.finite everyMs)).floor =
      .finite (steps everyMs now base - 1 : ℤ) ∧ steps everyMs now base ≤ t - base := by
    rcases lt_or_ge now (base : ℤ) with hlt | hle
    · rw [missed_of_lt hevery hlt, steps_of_lt hevery hlt]
      exact ⟨rfl, by omega⟩
    · refine ⟨missed_of_le hevery hle hnow hnext ht, ?_⟩
      exact steps_le_distance hsteps (distance_eq hnext) (steps_sub_one_mul_le hevery hle) (by omega)
  have hsucc : (Double.finite (steps everyMs now base - 1 : ℤ)).add (.finite 1) =
      .finite (steps everyMs now base) := by
    have hround : Double.round (steps everyMs now base) = .finite (steps everyMs now base) :=
      Double.round_intCast (by rw [abs_of_nonneg] <;> omega)
    rw [Double.add, ← hround]
    push_cast
    rw [sub_add_cancel]
  have hmul : (Double.finite (steps everyMs now base)).mul (.finite everyMs) =
      .finite (t - base : ℤ) := by
    rw [Double.mul, ← distance_eq hnext]
    exact Double.round_intCast (by rw [abs_of_nonneg] <;> omega)
  have hadd : (Double.finite base).add (.finite (t - base : ℤ)) = .finite t := by
    have hround : Double.round t = .finite t :=
      Double.round_intCast (by rw [abs_of_nonneg] <;> omega)
    rw [Double.add, ← hround]
    push_cast
    rw [add_sub_cancel]
  have hnonneg : (0 : ℚ) ≤ t := by exact_mod_cast (show (0 : ℤ) ≤ t by omega)
  have hrange : |(t : ℚ)| ≤ maxTime := by
    rw [abs_of_nonneg hnonneg]
    exact_mod_cast ht
  unfold nextIntervalRunAt
  dsimp only
  rw [hmissed, hsucc, hmul, hadd, toDate, if_pos hrange, if_pos hnonneg, Int.floor_intCast]

theorem toDate_le {d : Double} (h : toDate d = some t) : t ≤ maxTime := by
  cases d with
  | finite value =>
    rw [toDate] at h
    split at h
    · next hrange =>
      have hle : value ≤ maxTime := (le_abs_self value).trans hrange
      cases h
      split
      · have hfloor : (⌊value⌋ : ℚ) ≤ maxTime := (Int.floor_le value).trans hle
        exact_mod_cast hfloor
      · next hneg =>
        have hceil : ⌈value⌉ ≤ 0 := Int.ceil_le.mpr (by rw [Int.cast_zero]; linarith)
        exact hceil.trans (Int.natCast_nonneg _)
    · cases h
  | infinite _ | nan => cases h

/-- The next time of a schedule is right exactly if that of its grid is a whole number and a
date. -/
theorem right_iff {d : Double} (hd : d.positive = true) (hnow : now ≤ maxTime) :
    Right d now base ↔ Whole d now base := by
  constructor
  · rintro ⟨value, t, rfl, hnext, hright⟩
    have hvalue : 0 < value := of_decide_eq_true hd
    exact ⟨value, t, rfl, (next_iff hvalue).mp hright, toDate_le hnext⟩
  · rintro ⟨value, t, rfl, hnext, ht⟩
    have hvalue : 0 < value := of_decide_eq_true hd
    exact ⟨value, t, rfl, nextIntervalRunAt_eq hvalue hnow hnext ht, (next_iff hvalue).mpr hnext⟩

/-! ## Firing -/

/-- A stored schedule with `every`; an invalid date is `none`. -/
structure Schedule where
  everyMs : Double
  enabled : Bool
  nextRunAt : Option ℕ
  lastSlotAt : Option ℕ
deriving DecidableEq

structure Scheduler where
  schedules : OrdMap String Schedule
  /-- The slots that were fired, with the names of their schedules. -/
  fired : List (String × ℕ)

/-- A call of `fireDue`, with how many starts succeed before one throws. -/
structure FireDue where
  date : ℤ
  valid : date ≤ maxTime
  limit : Option Int
  started : ℕ

namespace Scheduler

variable (localeCompare : String → String → Ordering) (s : Scheduler)

/-- `schedule.enabled && schedule.nextRunAt <= date` -/
def isDue (date : ℤ) (schedule : Schedule) : Bool :=
  schedule.enabled && schedule.nextRunAt.any fun slot : ℕ => (slot : ℤ) ≤ date

def compareSchedulesByDueDate (left right : String × Schedule) : Prop :=
  left.2.nextRunAt.getD 0 < right.2.nextRunAt.getD 0 ∨
    (left.2.nextRunAt.getD 0 = right.2.nextRunAt.getD 0 ∧ localeCompare left.1 right.1 ≠ .gt)

instance (left right : String × Schedule) :
    Decidable (compareSchedulesByDueDate localeCompare left right) :=
  inferInstanceAs (Decidable (_ ∨ _))

/-- The schedules that a call starts. -/
def batch (call : FireDue) : List (String × Schedule) :=
  (((s.schedules.entries.filter fun entry => isDue call.date entry.2).insertionSort
    (compareSchedulesByDueDate localeCompare)).take (normalizeScheduleLimit call.limit).toNat).take
      call.started

/-- The body of the loop. -/
def fire (date : ℤ) (s : Scheduler) (entry : String × Schedule) : Scheduler :=
  let (name, schedule) := entry
  match schedule.nextRunAt with
  | none => s
  | some slot =>
    { schedules := s.schedules.set name
        { schedule with
          lastSlotAt := some slot
          nextRunAt := (nextIntervalRunAt schedule.everyMs date slot).map Int.toNat }
      fired := s.fired ++ [(name, slot)] }

def fireDue (s : Scheduler) (call : FireDue) : Scheduler :=
  (s.batch localeCompare call).foldl (fire call.date) s

/-! The schedules of the in-memory runtime, as far as the arithmetic goes. -/

section
variable {V : Type} [JsRuntime V]

def ofStored (schedule : StoredWorkflowSchedule V) : Schedule where
  everyMs := schedule.everyMs.getD .nan
  enabled := schedule.enabled
  nextRunAt := schedule.nextRunAt
  lastSlotAt := schedule.lastSlotAt

def Views (s : Scheduler) (stored : OrdMap String (StoredWorkflowSchedule V)) : Prop :=
  s.schedules.entries = stored.entries.map (Prod.map id ofStored)

variable {s}

/-- The loop of the in-memory `fireDue` goes over the batch. -/
theorem batch_eq {stored : OrdMap String (StoredWorkflowSchedule V)} (h : s.Views stored)
    (hnamed : ∀ entry ∈ stored.entries, entry.2.name = entry.1) (call : FireDue) :
    s.batch (JsRuntime.localeCompare V) call =
      ((dueSchedules (JsRuntime.localeCompare V) stored call.date call.limit).map
        fun schedule => (schedule.name, ofStored schedule)).take call.started := by
  have hentries : s.schedules.entries =
      stored.values.map fun schedule => (schedule.name, ofStored schedule) := by
    rw [h, OrdMap.values, List.map_map]
    refine List.map_congr_left fun entry hentry => ?_
    rw [Function.comp_apply, hnamed entry hentry]
    rfl
  rw [batch, hentries, dueSchedules, List.filter_map, List.map_take]
  refine congrArg _ (congrArg _ (Eq.symm ?_))
  exact List.map_insertionSort (Workflows.compareSchedulesByDueDate (JsRuntime.localeCompare V))
    (compareSchedulesByDueDate (JsRuntime.localeCompare V)) _ _ fun _ _ _ _ => Iff.rfl

/-- One round of it is a round of the loop here. -/
theorem fire_eq {state : SchedulerState V} (h : s.Views state.schedules) {caller date : ℕ}
    {schedule : StoredWorkflowSchedule V} {rest : List (StoredWorkflowSchedule V)} {slot : ℕ}
    {every : Double} (hfiring : state.firings.get? caller = some ⟨date, schedule, rest⟩)
    (hcron : schedule.cron = none) (hevery : schedule.everyMs = some every)
    (hpositive : every.positive = true) (hslot : schedule.nextRunAt = some slot)
    (cronNext : String → Nat → Option Nat) :
    (fire date s (schedule.name, ofStored schedule)).Views
      (state.fired cronNext caller).schedules := by
  have hnext : nextStoredScheduleRunAt cronNext schedule date =
      some ((nextIntervalRunAt every date slot).map Int.toNat) := by
    rw [nextStoredScheduleRunAt, hcron, hevery, hslot]
    exact if_pos hpositive
  simp only [SchedulerState.fired, hfiring, hnext]
  rw [SchedulerState.fireNext_schedules]
  have hset := OrdMap.entries_set_map h schedule.name { schedule with
    lastSlotAt := schedule.nextRunAt
    nextRunAt := (nextIntervalRunAt every date slot).map Int.toNat
    updatedAt := state.mem.now.1 }
  refine Eq.trans ?_ hset
  simp only [fire, ofStored, hslot, hevery, Option.getD_some]

end

/-- The slots of a schedule that were fired. -/
def slots (name : String) : List ℕ := (s.fired.filter (·.1 = name)).map Prod.snd

/-- The next times of the schedules that a call starts are whole. -/
def Steady (s : Scheduler) (call : FireDue) : Prop :=
  ∀ name schedule slot, (name, schedule) ∈ s.batch localeCompare call →
    schedule.nextRunAt = some slot → Whole schedule.everyMs call.date slot

/-- A time of the grid that begins at `base`. -/
def Slot (everyMs : Double) (base t : ℕ) : Prop :=
  t = base ∨ ∃ (value : ℚ) (k : ℕ), everyMs = .finite value ∧ (t : ℚ) = base + k * value

/-- The slots of a schedule are times of one grid, each later than the one before, and the next time
is later than all of them. -/
structure OnTrack (everyMs : Double) (base : ℕ) (s : Scheduler) (name : String) : Prop where
  next : ∃ schedule next, s.schedules.get? name = some schedule ∧ schedule.everyMs = everyMs ∧
    schedule.nextRunAt = some next ∧ Slot everyMs base next ∧ ∀ slot ∈ s.slots name, slot < next
  slots : ∀ slot ∈ s.slots name, Slot everyMs base slot
  increasing : (s.slots name).Pairwise (· < ·)

variable {localeCompare s}

theorem slots_fire_of_ne (date : ℤ) {entry : String × Schedule} {name : String}
    (h : entry.1 ≠ name) : (fire date s entry).slots name = s.slots name ∧
      (fire date s entry).schedules.get? name = s.schedules.get? name := by
  obtain ⟨entryName, schedule⟩ := entry
  unfold fire
  dsimp only
  split
  · exact ⟨rfl, rfl⟩
  · constructor
    · rw [slots, List.filter_append, List.filter_singleton, decide_eq_false h]
      exact congrArg _ (List.append_nil _)
    · exact OrdMap.get?_set_of_ne (Ne.symm h)

theorem fire_self (date : ℤ) (name : String) {schedule : Schedule} {slot : ℕ}
    (h : schedule.nextRunAt = some slot) :
    (fire date s (name, schedule)).slots name = s.slots name ++ [slot] ∧
      (fire date s (name, schedule)).schedules.get? name = some { schedule with
        lastSlotAt := some slot
        nextRunAt := (nextIntervalRunAt schedule.everyMs date slot).map Int.toNat } := by
  unfold fire
  dsimp only
  rw [h]
  constructor
  · rw [slots, List.filter_append, List.filter_singleton, decide_eq_true rfl, List.map_append]
    rfl
  · exact OrdMap.get?_set_self _ _ _

theorem foldl_fire_of_ne (date : ℤ) {name : String} {l : List (String × Schedule)}
    (h : ∀ entry ∈ l, entry.1 ≠ name) : (l.foldl (fire date) s).slots name = s.slots name ∧
      (l.foldl (fire date) s).schedules.get? name = s.schedules.get? name := by
  induction l generalizing s with
  | nil => exact ⟨rfl, rfl⟩
  | cons entry l ih =>
    obtain ⟨hslots, hget⟩ := slots_fire_of_ne date (s := s) (h entry List.mem_cons_self)
    obtain ⟨hslots', hget'⟩ := ih (s := fire date s entry) fun e he =>
      h e (List.mem_cons_of_mem entry he)
    exact ⟨hslots'.trans hslots, hget'.trans hget⟩

/-- A schedule is fired where the loop comes to it, and the others leave it as it is. -/
theorem foldl_fire_of_mem (date : ℤ) {name : String} {schedule : Schedule} {slot : ℕ}
    {l : List (String × Schedule)} (hnodup : (l.map Prod.fst).Nodup) (hmem : (name, schedule) ∈ l)
    (hslot : schedule.nextRunAt = some slot) :
    (l.foldl (fire date) s).slots name = s.slots name ++ [slot] ∧
      (l.foldl (fire date) s).schedules.get? name = some { schedule with
        lastSlotAt := some slot
        nextRunAt := (nextIntervalRunAt schedule.everyMs date slot).map Int.toNat } := by
  obtain ⟨before, after, rfl⟩ := List.append_of_mem hmem
  rw [List.map_append, List.map_cons, List.nodup_append, List.nodup_cons] at hnodup
  obtain ⟨-, ⟨hafter, -⟩, hbefore⟩ := hnodup
  have hne : ∀ entry ∈ before, entry.1 ≠ name := fun entry he heq =>
    hbefore entry.1 (List.mem_map_of_mem he) name List.mem_cons_self heq
  have hne' : ∀ entry ∈ after, entry.1 ≠ name := fun entry he heq =>
    hafter (List.mem_map.mpr ⟨entry, he, heq⟩)
  rw [List.foldl_append, List.foldl_cons]
  obtain ⟨hslots, -⟩ := foldl_fire_of_ne date (s := s) hne
  obtain ⟨hself, hgets⟩ := fire_self date name
    (s := before.foldl (fire date) s) hslot
  obtain ⟨hslots', hget'⟩ := foldl_fire_of_ne date
    (s := fire date (before.foldl (fire date) s) (name, schedule)) hne'
  rw [hslots', hget', hself, hgets, hslots]
  exact ⟨rfl, rfl⟩

theorem mem_batch {call : FireDue} {entry : String × Schedule}
    (h : entry ∈ s.batch localeCompare call) :
    s.schedules.get? entry.1 = some entry.2 ∧
      ∃ slot : ℕ, entry.2.nextRunAt = some slot ∧ (slot : ℤ) ≤ call.date := by
  have hmem := (List.perm_insertionSort _ _).mem_iff.mp
    (List.mem_of_mem_take (List.mem_of_mem_take h))
  obtain ⟨hentry, hdue⟩ := List.mem_filter.mp hmem
  refine ⟨OrdMap.get?_eq_some_iff.mpr hentry, ?_⟩
  have hdate := (Bool.and_eq_true _ _ ▸ hdue).2
  obtain ⟨slot, hslot, hle⟩ := (Option.any_eq_true _ _).mp hdate
  exact ⟨slot, hslot, of_decide_eq_true hle⟩

theorem nodup_batch (call : FireDue) : ((s.batch localeCompare call).map Prod.fst).Nodup := by
  have hsub : (s.batch localeCompare call).Sublist _ := (List.take_sublist call.started _).trans
    (List.take_sublist (normalizeScheduleLimit call.limit).toNat _)
  refine List.Nodup.sublist (hsub.map Prod.fst) ?_
  have hperm := (List.perm_insertionSort (compareSchedulesByDueDate localeCompare)
    (s.schedules.entries.filter fun entry => isDue call.date entry.2)).map Prod.fst
  rw [hperm.nodup_iff]
  exact s.schedules.nodup.sublist (List.filter_sublist.map _)

/-- A call fires a schedule at most once. -/
theorem slots_fireDue (s : Scheduler) (call : FireDue) (name : String) :
    ∃ fired : List ℕ, (s.fireDue localeCompare call).slots name = s.slots name ++ fired ∧
      fired.length ≤ 1 := by
  by_cases hmem : ∃ schedule, (name, schedule) ∈ s.batch localeCompare call
  · obtain ⟨schedule, hmem⟩ := hmem
    obtain ⟨-, slot, hslot, -⟩ := mem_batch hmem
    exact ⟨[slot], (foldl_fire_of_mem call.date (nodup_batch call) hmem hslot).1, le_refl _⟩
  · have hne : ∀ entry ∈ s.batch localeCompare call, entry.1 ≠ name := by
      rintro ⟨entryName, schedule⟩ hentry rfl
      exact hmem ⟨schedule, hentry⟩
    exact ⟨[], by rw [List.append_nil]; exact (foldl_fire_of_ne call.date hne).1, Nat.zero_le _⟩

/-- A slot of the grid and the steps to the next time make a slot of the grid. -/
theorem Slot.next {value : ℚ} {base slot : ℕ} {date t : ℤ} (h : Slot (.finite value) base slot)
    (hnext : slot + steps value date slot * value = t) (hnonneg : 0 ≤ t) :
    Slot (.finite value) base t.toNat := by
  obtain ⟨n, hn⟩ := Int.eq_ofNat_of_zero_le (steps_pos value date slot).le
  obtain ⟨m, rfl⟩ := Int.eq_ofNat_of_zero_le hnonneg
  rw [hn] at hnext
  push_cast at hnext
  rcases h with rfl | ⟨value', k, heq, hslot⟩
  · exact .inr ⟨value, n, rfl, hnext.symm⟩
  · cases heq
    refine .inr ⟨value, k + n, rfl, ?_⟩
    rw [Int.toNat_natCast, ← hnext, hslot]
    push_cast
    ring

theorem OnTrack.fireDue {everyMs : Double} {base : ℕ} {name : String}
    (hevery : everyMs.positive = true) (H : OnTrack everyMs base s name) {call : FireDue}
    (hsteady : s.Steady localeCompare call) :
    OnTrack everyMs base (s.fireDue localeCompare call) name := by
  obtain ⟨schedule, next, hget, rfl, hnext, hslot, hlt⟩ := H.next
  by_cases hmem : ∃ schedule, (name, schedule) ∈ s.batch localeCompare call
  · obtain ⟨schedule', hmem⟩ := hmem
    obtain rfl : schedule = schedule' := Option.some.inj (hget.symm.trans (mem_batch hmem).1)
    obtain ⟨hslots, hget'⟩ := foldl_fire_of_mem call.date (s := s) (nodup_batch call)
      hmem hnext
    obtain ⟨value, t, hvalue, ht, hrange⟩ := hsteady name schedule next hmem hnext
    rw [hvalue] at hevery hslot
    have hpos : 0 < value := of_decide_eq_true hevery
    have hlater := lt_of_next hpos ht
    have hrun := nextIntervalRunAt_eq hpos call.valid ht hrange
    have hnew : ∀ slot ∈ s.slots name ++ [next], slot < t.toNat := by
      intro slot h
      rcases List.mem_append.mp h with h | h
      · have hbefore := hlt slot h
        omega
      · cases List.mem_singleton.mp h
        omega
    refine ⟨⟨_, t.toNat, hget', rfl, ?_, ?_, ?_⟩, fun slot h => ?_, ?_⟩
    · dsimp only
      rw [hvalue, hrun]
      rfl
    · rw [hvalue]
      exact hslot.next ht (by omega)
    · exact fun slot h => hnew slot (hslots ▸ h)
    · rw [Scheduler.fireDue, hslots] at h
      rcases List.mem_append.mp h with h | h
      · exact H.slots slot h
      · cases List.mem_singleton.mp h
        rw [hvalue]
        exact hslot
    · rw [Scheduler.fireDue, hslots]
      refine List.pairwise_append.mpr ⟨H.increasing, List.pairwise_singleton _ _, ?_⟩
      intro slot h slot' h'
      cases List.mem_singleton.mp h'
      exact hlt slot h
  · have hne : ∀ entry ∈ s.batch localeCompare call, entry.1 ≠ name := by
      rintro ⟨entryName, schedule⟩ hentry rfl
      exact hmem ⟨schedule, hentry⟩
    obtain ⟨hslots, hget'⟩ := foldl_fire_of_ne call.date (s := s) hne
    have hslots' : (s.fireDue localeCompare call).slots name = s.slots name := hslots
    refine ⟨⟨schedule, next, hget'.trans hget, rfl, hnext, hslot, ?_⟩, ?_, ?_⟩
    · rw [hslots']
      exact hlt
    · rw [hslots']
      exact H.slots
    · rw [hslots']
      exact H.increasing

theorem onTrack_start {name : String} {schedule : Schedule} {base : ℕ}
    (hget : s.schedules.get? name = some schedule) (hbase : schedule.nextRunAt = some base)
    (hfired : s.fired = []) : OnTrack schedule.everyMs base s name := by
  have hslots : s.slots name = [] := by rw [slots, hfired]; rfl
  refine ⟨⟨schedule, base, hget, rfl, hbase, .inl rfl, ?_⟩, ?_, ?_⟩
  · rw [hslots]
    nofun
  · rw [hslots]
    nofun
  · rw [hslots]
    exact .nil

/-- The next time of an accepted duration is right exactly if that of its grid is whole; where it is
at each call, the slots of a schedule are fired in order on one grid. -/
theorem interval_arithmetic (localeCompare : String → String → Ordering) :
    (∀ every d, normalizeEvery every = some d → ∀ (now : ℤ) (base : ℕ), now ≤ maxTime →
      (Right d now base ↔ Whole d now base)) ∧
    (∀ (s : Scheduler) name schedule base, s.schedules.get? name = some schedule →
      schedule.everyMs.positive = true → schedule.nextRunAt = some base → s.fired = [] →
      ∀ l, Trace.Admits (fireDue localeCompare) (Steady localeCompare) s l →
        OnTrack schedule.everyMs base (Trace.run (fireDue localeCompare) s l) name) ∧
    ∀ (s : Scheduler) (call : FireDue) name, ∃ fired : List ℕ,
      (s.fireDue localeCompare call).slots name = s.slots name ++ fired ∧ fired.length ≤ 1 := by
  refine ⟨fun every d hevery now base hnow => ?_, ?_, slots_fireDue⟩
  · exact right_iff (Option.filter_eq_some_iff.mp hevery).2 hnow
  · intro s name schedule base hget hpositive hbase hfired l hl
    exact Trace.run_inv_of_admits _ (I := fun s => OnTrack schedule.everyMs base s name)
      (fun s call hsteady H => H.fireDue hpositive hsteady) hl (onTrack_start hget hbase hfired)

/-- A schedule that is due at the time zero. -/
def ticking (everyMs : ℚ) : Scheduler where
  schedules := OrdMap.empty.set "tick" ⟨.finite everyMs, true, some 0, none⟩
  fired := []

/-- A schedule for every second fires at the time zero, and then the slot of the first second, two
and a half seconds after it began. -/
theorem interval_arithmetic_seconds :
    (Trace.run (fireDue compare) (ticking 1000)
      [⟨0, by decide, none, 1⟩, ⟨2500, by decide, none, 1⟩]).slots "tick" = [0, 1000] ∧
    OnTrack (.finite 1000) 0 (Trace.run (fireDue compare) (ticking 1000)
      [⟨0, by decide, none, 1⟩, ⟨2500, by decide, none, 1⟩]) "tick" := by
  refine ⟨by decide +kernel, (interval_arithmetic compare).2.1 _ "tick"
    ⟨.finite 1000, true, some 0, none⟩ 0 (by decide +kernel) rfl rfl rfl _ ⟨?_, ?_, trivial⟩⟩
  · intro name schedule slot hmem hslot
    have hbatch : (ticking 1000).batch compare ⟨0, by decide, none, 1⟩ =
        [("tick", ⟨.finite 1000, true, some 0, none⟩)] := by decide +kernel
    rw [hbatch, List.mem_singleton] at hmem
    cases hmem
    cases hslot
    exact ⟨1000, 1000, rfl, by decide +kernel, by decide⟩
  · intro name schedule slot hmem hslot
    have hbatch : ((ticking 1000).fireDue compare ⟨0, by decide, none, 1⟩).batch compare
        ⟨2500, by decide, none, 1⟩ = [("tick", ⟨.finite 1000, true, some 1000, some 0⟩)] := by
      decide +kernel
    rw [hbatch, List.mem_singleton] at hmem
    cases hmem
    cases hslot
    exact ⟨1000, 3000, rfl, by decide +kernel, by decide⟩

/-- The next time is truncated to the slot itself, which is fired again. -/
theorem slot_fired_twice :
    normalizeEvery "0.5ms" = some (.finite (1 / 2)) ∧ ¬ Right (.finite (1 / 2)) 0 0 ∧
      (Trace.run (fireDue compare) (ticking (1 / 2))
        [⟨0, by decide, none, 1⟩, ⟨0, by decide, none, 1⟩]).slots "tick" = [0, 0] := by
  have hnext : nextIntervalRunAt (.finite (1 / 2)) 0 0 = some 0 := by decide +kernel
  refine ⟨by decide +kernel, ?_, by decide +kernel⟩
  rintro ⟨value, t, -, ht, hright⟩
  cases hnext.symm.trans ht
  exact absurd (hright.later (by decide)) (by decide)

end Scheduler

end Neemata.Workflows.Intervals
