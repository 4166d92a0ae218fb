import Mathlib.Algebra.Order.Ring.Rat
import Mathlib.Algebra.Field.Rat
import Mathlib.Data.Nat.Find
import Mathlib.Tactic.Common

/-!
# The recovery of a runtime

`handleFailure` and `recover` of `neem/src/internal/host/runtime.ts` with the policies of
`recovery.ts`, while nobody else stops the runtime. What the steps of `stop` and `start` throw is
given (`Attempt`); a delay is an exact rational. `start` clears `stopped`, `stop` sets it, and a
`start` that fails ends with a `stop`: `recover` then takes its own `stop` for one from outside.
-/

namespace Neemata.Host.Recovery

/-- A number, up to rounding. -/
inductive Number where
  | nan
  | infinite (negative : Bool)
  | finite (value : Rat)
deriving DecidableEq

inductive NeemMode where
  | development | production
deriving DecidableEq

structure RecoveryPolicy where
  attempts : Nat
  delayMs : Nat
  factor : Rat
  maxDelayMs : Nat
deriving DecidableEq

structure RecoveryOptions where
  attempts : Option Number := none
  delayMs : Option Number := none
  factor : Option Number := none
  maxDelayMs : Option Number := none
deriving DecidableEq

def nonNegativeInteger (value : Option Number) (fallback : Nat) : Nat :=
  match value with
  | some (.finite value) => if value < 0 then fallback else value.floor.toNat
  | _ => fallback

def positiveNumber (value : Option Number) (fallback : Rat) : Rat :=
  match value with
  | some (.finite value) => if value ≤ 0 then fallback else value
  | _ => fallback

def createRecoveryPolicy (mode : NeemMode) (options : RecoveryOptions) : RecoveryPolicy :=
  let defaults : RecoveryPolicy := match mode with
    | .production => { attempts := 3, delayMs := 1000, factor := 1, maxDelayMs := 1000 }
    | .development => { attempts := 0, delayMs := 0, factor := 1, maxDelayMs := 0 }
  { attempts := nonNegativeInteger options.attempts defaults.attempts
    delayMs := nonNegativeInteger options.delayMs defaults.delayMs
    factor := positiveNumber options.factor defaults.factor
    maxDelayMs := nonNegativeInteger options.maxDelayMs defaults.maxDelayMs }

def getRecoveryDelay (policy : RecoveryPolicy) (attempt : Nat) : Rat :=
  min (policy.delayMs * policy.factor ^ (attempt - 1)) policy.maxDelayMs

/-- What the steps of a `stop` throw. -/
structure StopOutcome (ε : Type) where
  callStop : Option ε := none
  threads : List (Option ε) := []
  shutdown : Option ε := none
  hook : Option ε := none
deriving DecidableEq

inductive StartStep where
  | startHook | createHostRunner | hostStart | plan | topology | threads | callStart | readyHook
deriving DecidableEq

/-- The step of a `start` that throws, if one does, and what its `stop` then throws. -/
structure StartOutcome (ε : Type) where
  failure : Option (StartStep × ε) := none
  cleanup : StopOutcome ε := {}
deriving DecidableEq

/-- What a restart throws: its `stop`, its `start` and the callback `onRecovered`. -/
structure Attempt (ε : Type) where
  stop : StopOutcome ε := {}
  start : StartOutcome ε := {}
  onRecovered : Option ε := none
deriving DecidableEq

inductive RecoveryEvent (ε : Type) where
  | waited (attempt : Nat) (delayMs : Rat)
  /-- The `stop` of a restart is called. -/
  | restart
  | onRecovered
  | onFailure (error : ε)
deriving DecidableEq

/-- `recovering` says that `recoveryPromise` is set. -/
structure RuntimeController where
  stopped : Bool := true
  recovering : Bool := false
  restartAttempts : Nat := 0
deriving DecidableEq

variable {ε : Type}

def StopOutcome.error (outcome : StopOutcome ε) : Option ε :=
  (outcome.callStop.or outcome.shutdown).or ((outcome.threads.findSome? id).or outcome.hook)

namespace RuntimeController

def stop (s : RuntimeController) (outcome : StopOutcome ε) : RuntimeController × Option ε :=
  ({ s with stopped := true }, outcome.error)

def start (s : RuntimeController) (outcome : StartOutcome ε) : RuntimeController × Option ε :=
  match outcome.failure with
  | none => ({ s with stopped := false }, none)
  | some (_, error) =>
    -- what the cleanup throws is logged
    (({ s with stopped := false }.stop outcome.cleanup).1, some error)

/-- The `try` of `recover`. -/
def restart (s : RuntimeController) (a : Attempt ε) :
    RuntimeController × Option ε × List (RecoveryEvent ε) :=
  match s.stop a.stop with
  | (s, some error) => (s, some error, [.restart])
  | (s, none) =>
    match s.start a.start with
    | (s, some error) => (s, some error, [.restart])
    | (s, none) => (s, a.onRecovered, [.restart, .onRecovered])

/-- The loop of `recover`, with `remaining` the attempts that `restartAttempts` leaves. -/
def recover (policy : RecoveryPolicy) (outcomes : Nat → Attempt ε) :
    Nat → RuntimeController → ε → RuntimeController × List (RecoveryEvent ε)
  | 0, s, lastError => (s, [.onFailure lastError])
  | remaining + 1, s, _ =>
    let attempt := s.restartAttempts + 1
    let s := { s with restartAttempts := attempt }
    let waited := .waited attempt (getRecoveryDelay policy attempt)
    if s.stopped then (s, [waited])
    else match s.restart (outcomes 0) with
      | (s, none, log) => ({ s with restartAttempts := 0 }, waited :: log)
      | (s, some error, log) =>
        let (s, rest) := recover policy (fun i => outcomes (i + 1)) remaining s error
        (s, waited :: log ++ rest)

def handleFailure (policy : RecoveryPolicy) (outcomes : Nat → Attempt ε) (s : RuntimeController)
    (error : ε) : RuntimeController × List (RecoveryEvent ε) :=
  if s.recovering then (s, [])
  else if policy.attempts = 0 then (s, [.onFailure error])
  else
    let (s, log) :=
      recover policy outcomes (policy.attempts - s.restartAttempts) { s with recovering := true }
        error
    ({ s with recovering := false }, log)

end RuntimeController

/-! ## What a recovery promises -/

def RecoveryEvent.isRestart : RecoveryEvent ε → Bool
  | .restart => true
  | _ => false

def RecoveryEvent.isFailure : RecoveryEvent ε → Bool
  | .onFailure _ => true
  | _ => false

def restarts (log : List (RecoveryEvent ε)) : Nat := log.countP RecoveryEvent.isRestart

def failures (log : List (RecoveryEvent ε)) : Nat := log.countP RecoveryEvent.isFailure

namespace Attempt

/-- The runtime is up again, and the callback has taken it. -/
def Succeeds (a : Attempt ε) : Prop :=
  a.stop.error = none ∧ a.start.failure = none ∧ a.onRecovered = none

/-- The runtime is up again, and the callback has thrown. -/
def Misses (a : Attempt ε) : Prop :=
  a.stop.error = none ∧ a.start.failure = none ∧ a.onRecovered ≠ none

end Attempt

/-- With `n` attempts, the runtime is restarted until a restart succeeds or `n` of them have failed,
and then `onFailure` is called once. -/
structure KeepsPromise (n : Nat) (outcomes : Nat → Attempt ε) (after : RuntimeController)
    (log : List (RecoveryEvent ε)) : Prop where
  recovers : ∀ m < n, (∀ i < m, ¬ (outcomes i).Succeeds) → (outcomes m).Succeeds →
    restarts log = m + 1 ∧ failures log = 0 ∧ .onRecovered ∈ log ∧ after.stopped = false
  givesUp : (∀ i < n, ¬ (outcomes i).Succeeds) → restarts log = n ∧ failures log = 1
  notSilent : after.stopped = true → .onRecovered ∈ log ∨ 0 < failures log

/-- No recovery is in flight, and a restart fails other than in its callback only as the last one of
all `n`. -/
def Fits (n : Nat) (outcomes : Nat → Attempt ε) (s : RuntimeController) : Prop :=
  s.recovering = false ∧ ∃ m, (∀ i < m, (outcomes i).Misses) ∧
    ((outcomes m).Succeeds ∧ s.restartAttempts + m < n ∨
      ¬ (outcomes m).Succeeds ∧ s.restartAttempts = 0 ∧ m + 1 = n)

theorem Attempt.Misses.not_succeeds {a : Attempt ε} (h : a.Misses) : ¬ a.Succeeds :=
  fun hs => h.2.2 hs.2.2

/-- How the loop of `recover` ends after its at most `remaining` attempts. -/
inductive Ends (outcomes : Nat → Attempt ε) (remaining : Nat) (after : RuntimeController)
    (log : List (RecoveryEvent ε)) : Prop where
  | recovered (m : Nat) (hm : m < remaining) (misses : ∀ i < m, (outcomes i).Misses)
      (succeeds : (outcomes m).Succeeds) (running : after.stopped = false)
      (restarts_eq : restarts log = m + 1) (failures_eq : failures log = 0)
      (mem : .onRecovered ∈ log)
  | silent (m : Nat) (hm : m + 1 < remaining) (fails : ∀ i ≤ m, ¬ (outcomes i).Succeeds)
      (down : ¬ (outcomes m).Misses) (misses : ∀ i < m, (outcomes i).Misses)
      (restarts_eq : restarts log = m + 1) (failures_eq : failures log = 0)
  | exhausted (misses : ∀ i, i + 1 < remaining → (outcomes i).Misses)
      (fails : ∀ i < remaining, ¬ (outcomes i).Succeeds)
      (restarts_eq : restarts log = remaining) (failures_eq : failures log = 1)

namespace RuntimeController

theorem restart_cases (s : RuntimeController) (a : Attempt ε) :
    (a.Succeeds ∧
      s.restart a = ({ s with stopped := false }, none, [.restart, .onRecovered])) ∨
    (a.Misses ∧ ∃ error,
      s.restart a = ({ s with stopped := false }, some error, [.restart, .onRecovered])) ∨
    (¬ a.Succeeds ∧ ¬ a.Misses ∧ ∃ error,
      s.restart a = ({ s with stopped := true }, some error, [.restart])) := by
  cases hstop : a.stop.error with
  | some error =>
    refine .inr (.inr ⟨fun h => ?_, fun h => ?_, error, ?_⟩)
    · rw [Attempt.Succeeds, hstop] at h
      cases h.1
    · rw [Attempt.Misses, hstop] at h
      cases h.1
    · simp only [restart, stop, hstop]
  | none =>
    cases hstart : a.start.failure with
    | some failure =>
      refine .inr (.inr ⟨fun h => ?_, fun h => ?_, failure.2, ?_⟩)
      · rw [Attempt.Succeeds, hstart] at h
        cases h.2.1
      · rw [Attempt.Misses, hstart] at h
        cases h.2.1
      · simp only [restart, stop, start, hstop, hstart]
    | none =>
      cases hcallback : a.onRecovered with
      | none =>
        refine .inl ⟨⟨hstop, hstart, hcallback⟩, ?_⟩
        simp only [restart, stop, start, hstop, hstart, hcallback]
      | some error =>
        refine .inr (.inl ⟨⟨hstop, hstart, ?_⟩, error, ?_⟩)
        · rw [hcallback]
          exact Option.some_ne_none error
        · simp only [restart, stop, start, hstop, hstart, hcallback]

theorem restarts_again (attempt : Nat) (delayMs : Rat) (rest : List (RecoveryEvent ε)) :
    restarts (.waited attempt delayMs :: [.restart, .onRecovered] ++ rest) = restarts rest + 1 := by
  simp only [restarts, List.countP_append]
  exact Nat.add_comm _ _

theorem failures_again (attempt : Nat) (delayMs : Rat) (rest : List (RecoveryEvent ε)) :
    failures (.waited attempt delayMs :: [.restart, .onRecovered] ++ rest) = failures rest := by
  simp only [failures, List.countP_append]
  exact Nat.zero_add _

theorem recover_ends (policy : RecoveryPolicy) (outcomes : Nat → Attempt ε) (remaining : Nat)
    (s : RuntimeController) (lastError : ε) (running : s.stopped = false) :
    Ends outcomes remaining (recover policy outcomes remaining s lastError).1
      (recover policy outcomes remaining s lastError).2 := by
  induction remaining generalizing outcomes s lastError with
  | zero =>
    exact .exhausted (fun i hi => absurd hi (Nat.not_lt_zero _))
      (fun i hi => absurd hi (Nat.not_lt_zero i)) rfl rfl
  | succ remaining ih =>
    have hrun : ¬ ({ s with restartAttempts := s.restartAttempts + 1 } : RuntimeController).stopped
        = true := by
      rw [running]
      exact Bool.false_ne_true
    simp only [recover, if_neg hrun]
    rcases restart_cases { s with restartAttempts := s.restartAttempts + 1 } (outcomes 0) with
      ⟨succeeds, heq⟩ | ⟨misses, error, heq⟩ | ⟨fails, down, error, heq⟩
    · rw [heq]
      exact .recovered 0 (Nat.zero_lt_succ _) (fun i hi => absurd hi (Nat.not_lt_zero i)) succeeds
        rfl rfl rfl (by simp)
    · -- the runtime is up: what follows is a recovery with the other outcomes
      rw [heq]
      have hrest := ih (fun i => outcomes (i + 1))
        { s with restartAttempts := s.restartAttempts + 1, stopped := false } error rfl
      have hmisses : ∀ m, (∀ i < m, (outcomes (i + 1)).Misses) →
          ∀ i < m + 1, (outcomes i).Misses := by
        intro m h i hi
        cases i with
        | zero => exact misses
        | succ i => exact h i (Nat.lt_of_succ_lt_succ hi)
      have hfails : ∀ m, (∀ i < m, ¬ (outcomes (i + 1)).Succeeds) →
          ∀ i < m + 1, ¬ (outcomes i).Succeeds := by
        intro m h i hi
        cases i with
        | zero => exact misses.not_succeeds
        | succ i => exact h i (Nat.lt_of_succ_lt_succ hi)
      cases hrest with
      | recovered m hm before succeeds hrunning hrestarts hfailures =>
        refine .recovered (m + 1) (Nat.succ_lt_succ hm) (hmisses m before) succeeds hrunning ?_ ?_
          (by simp)
        · rw [restarts_again, hrestarts]
        · rw [failures_again, hfailures]
      | silent m hm fails down before hrestarts hfailures =>
        refine .silent (m + 1) (Nat.succ_lt_succ hm) (fun i hi => ?_) down (hmisses m before) ?_ ?_
        · exact hfails (m + 1) (fun i hi => fails i (Nat.le_of_lt_succ hi)) i (Nat.lt_succ_of_le hi)
        · rw [restarts_again, hrestarts]
        · rw [failures_again, hfailures]
      | exhausted before fails hrestarts hfailures =>
        refine .exhausted (fun i hi => ?_) (hfails remaining fails) ?_ ?_
        · cases i with
          | zero => exact misses
          | succ i => exact before i (Nat.lt_of_succ_lt_succ hi)
        · rw [restarts_again, hrestarts]
        · rw [failures_again, hfailures]
    · rw [heq]
      cases remaining with
      | zero =>
        refine .exhausted (fun i hi => absurd hi (by omega)) (fun i hi => ?_) rfl rfl
        rw [Nat.lt_one_iff.mp hi]
        exact fails
      | succ remaining =>
        refine .silent 0 (by omega) (fun i hi => ?_) down
          (fun i hi => absurd hi (Nat.not_lt_zero i)) rfl rfl
        rw [Nat.le_zero.mp hi]
        exact fails

end RuntimeController

theorem exists_first {n : Nat} {outcomes : Nat → Attempt ε}
    (h : ¬ ∀ i < n, ¬ (outcomes i).Succeeds) :
    ∃ m < n, (∀ i < m, ¬ (outcomes i).Succeeds) ∧ (outcomes m).Succeeds := by
  classical
  simp only [not_forall, not_not] at h
  obtain ⟨j, hj, succeeds⟩ := h
  have hex : ∃ j, (outcomes j).Succeeds := ⟨j, succeeds⟩
  have hle : Nat.find hex ≤ j := Nat.find_min' hex succeeds
  exact ⟨Nat.find hex, Nat.lt_of_le_of_lt hle hj, fun i hi => Nat.find_min hex hi,
    Nat.find_spec hex⟩

theorem KeepsPromise.heard {n : Nat} {outcomes : Nat → Attempt ε} {after : RuntimeController}
    {log : List (RecoveryEvent ε)} (h : KeepsPromise n outcomes after log) :
    (restarts log = n ∧ failures log = 1 ∧ ∀ i < n, ¬ (outcomes i).Succeeds) ∨
      ∃ m < n, restarts log = m + 1 ∧ failures log = 0 ∧ (outcomes m).Succeeds := by
  by_cases hall : ∀ i < n, ¬ (outcomes i).Succeeds
  · exact .inl ⟨(h.givesUp hall).1, (h.givesUp hall).2, hall⟩
  · obtain ⟨m, hm, before, succeeds⟩ := exists_first hall
    obtain ⟨hrestarts, hfailures, -, -⟩ := h.recovers m hm before succeeds
    exact .inr ⟨m, hm, hrestarts, hfailures, succeeds⟩

theorem Ends.keepsPromise_iff {n k : Nat} {outcomes : Nat → Attempt ε} {after : RuntimeController}
    {log : List (RecoveryEvent ε)} (hn : 1 ≤ n) (h : Ends outcomes (n - k) after log) :
    KeepsPromise n outcomes after log ↔ ∃ m, (∀ i < m, (outcomes i).Misses) ∧
      ((outcomes m).Succeeds ∧ k + m < n ∨ ¬ (outcomes m).Succeeds ∧ k = 0 ∧ m + 1 = n) := by
  cases h with
  | recovered m hm before succeeds running hrestarts hfailures mem =>
    refine iff_of_true ⟨fun j hj hbefore hsucceeds => ?_, fun hall => ?_, fun hstopped => ?_⟩
      ⟨m, before, .inl ⟨succeeds, by omega⟩⟩
    · have hj : j = m := by
        rcases Nat.lt_trichotomy j m with hlt | heq | hgt
        · exact absurd hsucceeds (before j hlt).not_succeeds
        · exact heq
        · exact absurd succeeds (hbefore m hgt)
      exact ⟨hj ▸ hrestarts, hfailures, mem, running⟩
    · exact absurd succeeds (hall m (by omega))
    · exact .inl mem
  | silent m hm fails down before hrestarts hfailures =>
    refine iff_of_false (fun h => ?_) (fun ⟨j, misses, hj⟩ => ?_)
    · rcases h.heard with ⟨-, hone, -⟩ | ⟨j, -, heq, -, succeeds⟩
      · omega
      · exact fails m (Nat.le_refl m) ((by omega : j = m) ▸ succeeds)
    · rcases Nat.lt_or_ge m j with hlt | hge
      · exact down (misses m hlt)
      · rcases hj with ⟨succeeds, -⟩ | ⟨-, hk, hlast⟩
        · exact fails j hge succeeds
        · omega
  | exhausted before fails hrestarts hfailures =>
    by_cases hk : k = 0
    · subst hk
      refine iff_of_true ⟨fun j hj _ hsucceeds => ?_, fun _ => ⟨hrestarts, hfailures⟩, fun _ => ?_⟩
        ⟨n - 1, fun i hi => before i (by omega), .inr ⟨fails _ (by omega), rfl, by omega⟩⟩
      · exact absurd hsucceeds (fails j hj)
      · exact .inr (by omega)
    · refine iff_of_false (fun h => ?_) (fun ⟨j, _, hj⟩ => ?_)
      · rcases h.heard with ⟨hall, -, -⟩ | ⟨j, -, -, hnone, -⟩ <;> omega
      · rcases hj with ⟨succeeds, hlt⟩ | ⟨-, hzero, -⟩
        · exact fails j (by omega) succeeds
        · exact hk hzero

/-- A recovery keeps its promise exactly if no other is in flight and the runtime is up after every
restart but the last one of `n`. -/
theorem recovery (mode : NeemMode) (options : RecoveryOptions) (outcomes : Nat → Attempt ε)
    (s : RuntimeController) (error : ε) (running : s.stopped = false)
    (hn : 1 ≤ (createRecoveryPolicy mode options).attempts) :
    let policy := createRecoveryPolicy mode options
    let result := s.handleFailure policy outcomes error
    KeepsPromise policy.attempts outcomes result.1 result.2 ↔
      Fits policy.attempts outcomes s := by
  generalize createRecoveryPolicy mode options = policy at hn
  intro policy' result
  have hattempts : ¬ policy.attempts = 0 := by omega
  by_cases hrecovering : s.recovering = true
  · have hresult : result = (s, []) := if_pos hrecovering
    refine iff_of_false (fun h => ?_) fun h => ?_
    · rw [hresult] at h
      rcases h.heard with ⟨heq, -, -⟩ | ⟨m, -, heq, -, -⟩
      · exact hattempts heq.symm
      · cases heq
    · rw [h.1] at hrecovering
      cases hrecovering
  · let r := RuntimeController.recover policy outcomes (policy.attempts - s.restartAttempts)
      { s with recovering := true } error
    have hresult : result = ({ r.1 with recovering := false }, r.2) :=
      (if_neg hrecovering).trans (if_neg hattempts)
    have hends : Ends outcomes (policy.attempts - s.restartAttempts) r.1 r.2 :=
      RuntimeController.recover_ends policy outcomes _ { s with recovering := true } error running
    have hkeeps : KeepsPromise policy.attempts outcomes result.1 result.2 ↔
        KeepsPromise policy.attempts outcomes r.1 r.2 := by
      rw [hresult]
      exact ⟨fun h => ⟨h.recovers, h.givesUp, h.notSilent⟩,
        fun h => ⟨h.recovers, h.givesUp, h.notSilent⟩⟩
    rw [hkeeps, hends.keepsPromise_iff hn]
    exact ⟨fun h => ⟨Bool.eq_false_iff.mpr hrecovering, h⟩, fun h => h.2⟩

/-- The second of three restarts succeeds after the callback of the first one has thrown. -/
theorem recovery_of_callback :
    KeepsPromise 3 (fun i => if i = 0 then { onRecovered := some "proxy" } else {})
      (RuntimeController.handleFailure (createRecoveryPolicy .production {})
        (fun i => if i = 0 then { onRecovered := some "proxy" } else {}) { stopped := false }
        "exited").1
      (RuntimeController.handleFailure (createRecoveryPolicy .production {})
        (fun i => if i = 0 then { onRecovered := some "proxy" } else {}) { stopped := false }
        "exited").2 := by
  refine (recovery .production {} _ { stopped := false } "exited" rfl (by decide)).mpr
    ⟨rfl, 1, fun i hi => ?_, .inl ⟨⟨rfl, rfl, rfl⟩, by decide⟩⟩
  rw [Nat.lt_one_iff.mp hi]
  exact ⟨rfl, rfl, Option.some_ne_none _⟩

/-- The first of three restarts fails while the worker starts, and the second one would succeed: the
runtime stays stopped, and nobody hears of it. -/
theorem silent_recovery :
    let outcomes (i : Nat) : Attempt String :=
      if i = 0 then { start := { failure := some (.threads, "exited") } } else {}
    let result := RuntimeController.handleFailure (createRecoveryPolicy .production {}) outcomes
      { stopped := false } "exited"
    result = ({ stopped := true, restartAttempts := 2 },
        [.waited 1 1000, .restart, .waited 2 1000]) ∧
      ¬ KeepsPromise 3 outcomes result.1 result.2 := by
  refine ⟨by decide +kernel, fun h => ?_⟩
  rcases h.notSilent rfl with hmem | hfailures
  · exact absurd hmem (by decide +kernel)
  · exact absurd hfailures (by decide +kernel)

end Neemata.Host.Recovery
