import Neemata.Workflows.Worker.Pool

/-!
# The accounts of a run of the worker pool

The history says what happened to the pool, event by event (`reported`), and what the pool did about
it (`Sound`). A pool that has stopped settles when what it awaits has been answered, and no pool
waits for nothing.
-/

namespace Neemata.Workflows

namespace PoolEntry

variable {κ ε : Type}

/-- Entries for what happens to the pool; the others are for what it does itself. -/
def observed : PoolEntry κ ε → Bool
  | .claim | .execute _ | .abandon _ | .stopped => false
  | _ => true

end PoolEntry

/-- How many answers the loop takes at most once the pool has stopped. -/
def PoolPhase.left : PoolPhase → Nat
  | .settled => 0
  | .closing => 1
  | .blocked _ | .resuming | .abandoning | .maintaining => 2
  | .notified | .claiming => 3

namespace WorkerPool

open PoolEntry

variable {κ ε : Type} {o : PoolOptions} {p : WorkerPool κ ε} {event : PoolEvent κ ε}

/-! ## What an event means to the pool it finds -/

/-- What happens with an event: claims, executions and tasks report to the pool that awaits them,
wakes and the signal to every pool that has not settled. -/
def report (p : WorkerPool κ ε) : PoolEvent κ ε → Option (PoolEntry κ ε)
  | .claimReturned command => if p.phase = .claiming then some (.claimed command) else none
  | .claimThrew error => if p.phase = .claiming then some (.failed error) else none
  | .abandoned error => if p.phase = .abandoning then error.map .failed else none
  | .executionReturned position didProcess =>
    match p.active[position]?, didProcess with
    | some ⟨command, false⟩, .ok didProcess => some (.returned command didProcess)
    | some ⟨_, false⟩, .error error => some (.failed error)
    | _, _ => none
  | .executionFinished position =>
    match p.active[position]? with
    | some ⟨command, true⟩ => some (.finished command)
    | _ => none
  | .wake => if p.phase = .settled then none else some .wake
  | .abort => if p.phase = .settled then none else some .signalled
  | .maintained error => if p.phase = .maintaining then error.map .failed else none
  | .periodicEnded error => if p.periodic = true then error.map .failed else none
  | .timeout | .resume | .settle => none

/-- The events that a pool cannot do without: the answers to what it has called, its own
microtasks and its timer. -/
def Awaits (p : WorkerPool κ ε) : PoolEvent κ ε → Prop
  | .claimReturned _ | .claimThrew _ => p.phase = .claiming
  | .abandoned _ => p.phase = .abandoning
  | .executionReturned position _ => ∃ command, p.active[position]? = some ⟨command, false⟩
  | .executionFinished position => ∃ command, p.active[position]? = some ⟨command, true⟩
  | .timeout => p.phase = .blocked true
  | .resume => p.phase = .notified ∨ p.phase = .resuming
  | .maintained _ => p.phase = .maintaining
  | .periodicEnded error => p.periodic = true ∧ (p.aborted = true ∨ error.isSome = true)
  | .settle => p.phase = .closing ∧ p.active = [] ∧ p.periodic = false
  | .wake | .abort => False

/-- What happens to the pool in a run, the latest first. -/
def reported (o : PoolOptions) : WorkerPool κ ε → List (PoolEvent κ ε) → List (PoolEntry κ ε)
  | _, [] => []
  | p, event :: events => reported o (p.step o event) events ++ (p.report event).toList

/-! ## The history keeps the reports -/

/-- From `p` on only the pool itself has added to the history. -/
def Own (p q : WorkerPool κ ε) : Prop :=
  q.history.filter observed = p.history.filter observed

theorem own_notify (p : WorkerPool κ ε) : Own p p.notify := rfl

theorem own_stop (p : WorkerPool κ ε) : Own p p.stop := by
  unfold stop
  split <;> rfl

theorem own_halt (p : WorkerPool κ ε) : Own p p.stop.notify := own_stop p

theorem own_close (p : WorkerPool κ ε) : Own p p.close := own_halt { p with phase := .closing }

theorem own_wait (p : WorkerPool κ ε) (timed : Bool) : Own p (p.wait timed) := by
  unfold wait
  split
  · rfl
  · split <;> rfl

theorem own_head (o : PoolOptions) (p : WorkerPool κ ε) : Own p (p.head o) := by
  unfold head
  split
  · exact own_close p
  · split
    · rfl
    · exact own_wait p false

theorem own_empty (o : PoolOptions) (p : WorkerPool κ ε) : Own p (p.empty o) := by
  unfold empty
  split
  · exact own_close p
  · split
    · exact own_wait p true
    · split
      · exact own_head o { p with pending := false }
      · split
        · split
          · rfl
          · exact own_close p
        · exact own_wait p true

/-- After `p` the entry was recorded, and then only what the pool did. -/
def Records (p q : WorkerPool κ ε) (entry : Option (PoolEntry κ ε)) : Prop :=
  q.history.filter observed = entry.toList ++ p.history.filter observed

theorem records_fail (p : WorkerPool κ ε) (error : ε) :
    Records p (p.fail error) (some (.failed error)) := by
  have hown : Own ({ p with firstError := p.firstError.or (some error) }.record (.failed error))
      (p.fail error) := own_halt _
  exact hown

theorem records_failIf (p : WorkerPool κ ε) (error : Option ε) :
    Records p (p.failIf error) (error.map .failed) := by
  cases error with
  | none => rfl
  | some error => exact records_fail p error

theorem Records.own {q r : WorkerPool κ ε} {entry : Option (PoolEntry κ ε)}
    (h : Records p q entry) (hown : Own q r) : Records p r entry := Eq.trans hown h

theorem records_claimReturned (p : WorkerPool κ ε) (claimed : Option κ) :
    Records p (p.claimReturned o claimed) (some (.claimed claimed)) := by
  cases claimed with
  | none => exact own_empty o (p.record (.claimed none))
  | some command =>
    unfold claimReturned
    dsimp only
    split
    · rfl
    · exact own_head o _

theorem records_executionReturned (p : WorkerPool κ ε) (position : Nat)
    (didProcess : Except ε Bool) : Records p (p.executionReturned position didProcess)
      (p.report (.executionReturned position didProcess)) := by
  simp only [executionReturned, report]
  rcases p.active[position]? with _ | ⟨command, _ | _⟩
  · exact rfl
  · cases didProcess with
    | ok didProcess => exact rfl
    | error error => exact records_fail _ error
  · exact rfl

theorem records_executionFinished (p : WorkerPool κ ε) (position : Nat) :
    Records p (p.executionFinished position) (p.report (.executionFinished position)) := by
  simp only [executionFinished, report]
  rcases p.active[position]? with _ | ⟨command, _ | _⟩
  · exact rfl
  · exact rfl
  · exact own_notify _

section

variable (o : PoolOptions)

theorem step_settled (h : p.phase = .settled) (event : PoolEvent κ ε) : p.step o event = p := by
  unfold step
  rw [h]

theorem step_claimReturned (h : p.phase = .claiming) (command : Option κ) :
    p.step o (.claimReturned command) = p.claimReturned o command := by
  unfold step
  rw [h]

theorem step_claimThrew (h : p.phase = .claiming) (error : ε) :
    p.step o (.claimThrew error) = (p.fail error).close := by
  unfold step
  rw [h]

theorem step_abandoned (h : p.phase = .abandoning) (error : Option ε) :
    p.step o (.abandoned error) = (p.failIf error).close := by
  unfold step
  rw [h]

theorem step_timeout (h : p.phase = .blocked true) :
    p.step o .timeout = { p with phase := .resuming } := by
  unfold step
  rw [h]

theorem step_notified (h : p.phase = .notified) :
    p.step o .resume = { p with pending := false, phase := .resuming } := by
  unfold step
  rw [h]

theorem step_resuming (h : p.phase = .resuming) : p.step o .resume = p.head o := by
  unfold step
  rw [h]

theorem step_maintained (h : p.phase = .maintaining) :
    p.step o (.maintained none) = p.head o := by
  unfold step
  rw [h]

theorem step_maintained_error (h : p.phase = .maintaining) (error : ε) :
    p.step o (.maintained (some error)) = (p.fail error).close := by
  unfold step
  rw [h]

theorem step_settle (h : p.phase = .closing) (hclosed : p.active = [] ∧ p.periodic = false) :
    p.step o .settle = { p with phase := .settled } := by
  unfold step
  rw [h]
  exact if_pos hclosed

variable (hsettled : p.phase ≠ .settled)
include hsettled

theorem step_executionReturned (position : Nat) (didProcess : Except ε Bool) :
    p.step o (.executionReturned position didProcess) =
      p.executionReturned position didProcess := by
  unfold step
  split <;> simp_all

theorem step_executionFinished (position : Nat) :
    p.step o (.executionFinished position) = p.executionFinished position := by
  unfold step
  split <;> simp_all

theorem step_wake : p.step o .wake = (p.record .wake).notify := by
  unfold step
  split <;> simp_all

theorem step_abort : p.step o .abort = p.forwardAbort := by
  unfold step
  split <;> simp_all

theorem step_periodicEnded {error : Option ε}
    (h : p.periodic = true ∧ (p.aborted = true ∨ error.isSome = true)) :
    p.step o (.periodicEnded error) = { p with periodic := false }.failIf error := by
  cases hphase : p.phase with
  | settled => exact absurd hphase hsettled
  | _ =>
    unfold step
    rw [hphase]
    exact if_pos h

end

/-- An event that the pool does not await changes nothing, unless it is a wake or the signal. -/
theorem step_of_not_awaits (hevent : ¬ p.Awaits event) (hwake : event ≠ .wake)
    (habort : event ≠ .abort) : p.step o event = p := by
  unfold step
  split
  · rfl
  · next hphase => exact absurd hphase hevent
  · next hphase => exact absurd hphase hevent
  · next hphase => exact absurd hphase hevent
  · unfold executionReturned
    split
    · next command hget => exact absurd ⟨command, hget⟩ hevent
    · rfl
  · unfold executionFinished
    split
    · next command hget => exact absurd ⟨command, hget⟩ hevent
    · rfl
  · exact absurd rfl hwake
  · exact absurd rfl habort
  · next hphase => exact absurd hphase hevent
  · next hphase => exact absurd (.inl hphase) hevent
  · next hphase => exact absurd (.inr hphase) hevent
  · next hphase => exact absurd hphase hevent
  · next hphase => exact absurd hphase hevent
  · split
    · next hends => exact absurd hends hevent
    · rfl
  · next hphase =>
    split
    · next hclosed => exact absurd ⟨hphase, hclosed⟩ hevent
    · rfl
  · rfl

theorem report_of_not_awaits (hevent : ¬ p.Awaits event) (hwake : event ≠ .wake)
    (habort : event ≠ .abort) : p.report event = none := by
  cases event with
  | claimReturned _ | claimThrew _ | abandoned _ | maintained _ => exact if_neg hevent
  | executionReturned position didProcess =>
    simp only [report]
    split
    · next command _ hget => exact absurd ⟨command, hget⟩ hevent
    · next command _ hget => exact absurd ⟨command, hget⟩ hevent
    · rfl
  | executionFinished position =>
    simp only [report]
    split
    · next command hget => exact absurd ⟨command, hget⟩ hevent
    · rfl
  | periodicEnded error =>
    simp only [report]
    split
    · next hperiodic =>
      cases error with
      | none => rfl
      | some error => exact absurd ⟨hperiodic, .inr rfl⟩ hevent
    · rfl
  | wake => exact absurd rfl hwake
  | abort => exact absurd rfl habort
  | timeout | resume | settle => rfl

theorem Accounted.not_settled (H : Accounted o p) (hevent : p.Awaits event) :
    p.phase ≠ .settled := by
  intro hphase
  obtain ⟨hactive, hperiodic⟩ := H.settled hphase
  cases event <;> simp [Awaits, hphase, hactive, hperiodic] at hevent

theorem records_awaited (H : Accounted o p) (hevent : p.Awaits event) :
    Records p (p.step o event) (p.report event) := by
  have hsettled := H.not_settled hevent
  cases event with
  | claimReturned command =>
    have hphase : p.phase = .claiming := hevent
    rw [report, if_pos hphase, step_claimReturned o hphase]
    exact records_claimReturned p command
  | claimThrew error =>
    have hphase : p.phase = .claiming := hevent
    rw [report, if_pos hphase, step_claimThrew o hphase]
    exact (records_fail p error).own (own_close _)
  | abandoned error =>
    have hphase : p.phase = .abandoning := hevent
    rw [report, if_pos hphase, step_abandoned o hphase]
    exact (records_failIf p error).own (own_close _)
  | executionReturned position didProcess =>
    rw [step_executionReturned o hsettled]
    exact records_executionReturned p position didProcess
  | executionFinished position =>
    rw [step_executionFinished o hsettled]
    exact records_executionFinished p position
  | timeout =>
    rw [step_timeout o hevent]
    exact rfl
  | resume =>
    rcases hevent with hphase | hphase
    · rw [step_notified o hphase]
      exact rfl
    · rw [step_resuming o hphase]
      exact own_head o p
  | maintained error =>
    have hphase : p.phase = .maintaining := hevent
    rw [report, if_pos hphase]
    cases error with
    | none =>
      rw [step_maintained o hphase]
      exact own_head o p
    | some error =>
      rw [step_maintained_error o hphase]
      exact (records_fail p error).own (own_close _)
  | periodicEnded error =>
    rw [report, if_pos hevent.1, step_periodicEnded o hsettled hevent]
    exact records_failIf { p with periodic := false } error
  | settle =>
    rw [step_settle o hevent.1 hevent.2]
    exact rfl
  | wake | abort => exact hevent.elim

theorem records_step (H : Accounted o p) (event : PoolEvent κ ε) :
    Records p (p.step o event) (p.report event) := by
  by_cases hevent : p.Awaits event
  · exact records_awaited H hevent
  · have hstill (hwake : event ≠ .wake) (habort : event ≠ .abort) :
        Records p (p.step o event) (p.report event) := by
      rw [step_of_not_awaits hevent hwake habort, report_of_not_awaits hevent hwake habort]
      exact rfl
    cases event with
    | wake =>
      by_cases hphase : p.phase = .settled
      · rw [report, if_pos hphase, step_settled o hphase]
        exact rfl
      · rw [report, if_neg hphase, step_wake o hphase]
        exact own_notify _
    | abort =>
      by_cases hphase : p.phase = .settled
      · rw [report, if_pos hphase, step_settled o hphase]
        exact rfl
      · rw [report, if_neg hphase, step_abort o hphase]
        exact own_halt _
    | _ => exact hstill (by simp) (by simp)

theorem reported_run (H : Accounted o p) (events : List (PoolEvent κ ε)) :
    (Trace.run (step o) p events).history.filter observed =
      reported o p events ++ p.history.filter observed := by
  induction events generalizing p with
  | nil => rfl
  | cons event events ih =>
    rw [Trace.run_cons, ih (H.step event), reported, List.append_assoc]
    exact congrArg _ (records_step H event)

/-! ## A pool that has stopped settles -/

/-- What is to come besides the await of the loop. -/
def load (p : WorkerPool κ ε) : Nat :=
  p.periodic.toNat + p.active.length + p.active.countP (!·.returned)

def left (p : WorkerPool κ ε) : Nat := p.phase.left + p.load

/-- A pool that has stopped is where it was. -/
structure Stays (p q : WorkerPool κ ε) : Prop where
  aborted : q.aborted = true
  phase : q.phase = p.phase
  load : q.load = p.load

theorem Stays.left_eq {q : WorkerPool κ ε} (H : Stays p q) : q.left = p.left := by
  rw [left, left, H.phase, H.load]

theorem stays_notify (haborted : p.aborted = true) (hphase : ∀ timed, p.phase ≠ .blocked timed) :
    Stays p p.notify := by
  refine ⟨haborted, ?_, rfl⟩
  unfold notify
  dsimp only
  split
  · next timed hblocked => exact absurd hblocked (hphase timed)
  · rfl

theorem stays_failIf (p : WorkerPool κ ε) (haborted : p.aborted = true)
    (hphase : ∀ timed, p.phase ≠ .blocked timed) (error : Option ε) : Stays p (p.failIf error) := by
  cases error with
  | none => exact ⟨haborted, rfl, rfl⟩
  | some error =>
    let q := { p with firstError := p.firstError.or (some error) }.record (.failed error)
    have hstop : q.stop = q := if_pos haborted
    have hstays : Stays q q.notify := stays_notify haborted hphase
    rw [failIf, fail, hstop]
    exact ⟨hstays.aborted, hstays.phase, hstays.load⟩

theorem left_close (haborted : p.aborted = true) :
    p.close.aborted = true ∧ p.close.left = p.load + 1 := by
  have hstop : ({ p with phase := .closing } : WorkerPool κ ε).stop = { p with phase := .closing } :=
    if_pos haborted
  rw [close, hstop]
  exact ⟨haborted, Nat.add_comm 1 _⟩

theorem left_claimReturned (haborted : p.aborted = true) (claimed : Option κ) :
    (p.claimReturned o claimed).aborted = true ∧ (p.claimReturned o claimed).left ≤ p.load + 2 := by
  cases claimed with
  | none =>
    have hempty : p.claimReturned o none = (p.record (.claimed none)).close := if_pos haborted
    obtain ⟨haborted', hleft⟩ := left_close (p := p.record (.claimed none)) haborted
    rw [hempty]
    exact ⟨haborted', Nat.le_trans (Nat.le_of_eq hleft) (Nat.le_succ _)⟩
  | some command =>
    have habandon : p.claimReturned o (some command) =
        { p.record (.claimed (some command)) with phase := .abandoning }.record (.abandon command) :=
      if_pos haborted
    rw [habandon]
    exact ⟨haborted, Nat.le_of_eq (Nat.add_comm 2 _)⟩

theorem left_executionReturned (haborted : p.aborted = true)
    (hphase : ∀ timed, p.phase ≠ .blocked timed) (position : Nat) (didProcess : Except ε Bool)
    (hevent : p.Awaits (.executionReturned position didProcess)) :
    (p.executionReturned position didProcess).aborted = true ∧
      (p.executionReturned position didProcess).left < p.left := by
  obtain ⟨command, hget⟩ := hevent
  obtain ⟨hlt, hrunning⟩ := List.getElem?_eq_some_iff.mp hget
  let q : WorkerPool κ ε := { p with active := p.active.set position ⟨command, true⟩ }
  have hcount : (p.active.set position ⟨command, true⟩).countP (!·.returned) + 1 =
      p.active.countP (!·.returned) := by
    have hpos : 0 < p.active.countP (!·.returned) :=
      List.countP_pos_iff.mpr ⟨_, List.getElem_mem hlt, by rw [hrunning]; rfl⟩
    rw [List.countP_set hlt, hrunning]
    simp
    omega
  have hleft : q.left < p.left := by
    simp only [q, left, load, List.length_set]
    omega
  unfold executionReturned
  rw [hget]
  cases didProcess with
  | ok didProcess => exact ⟨haborted, hleft⟩
  | error error =>
    have hstays : Stays q (q.failIf (some error)) := stays_failIf q haborted hphase _
    exact ⟨hstays.aborted, Nat.lt_of_le_of_lt (Nat.le_of_eq hstays.left_eq) hleft⟩

theorem left_executionFinished (haborted : p.aborted = true)
    (hphase : ∀ timed, p.phase ≠ .blocked timed) (position : Nat)
    (hevent : p.Awaits (.executionFinished position)) :
    (p.executionFinished position).aborted = true ∧
      (p.executionFinished position).left < p.left := by
  obtain ⟨command, hget⟩ := hevent
  obtain ⟨hlt, -⟩ := List.getElem?_eq_some_iff.mp hget
  let q : WorkerPool κ ε :=
    { p with active := p.active.eraseIdx position }.record (.finished command)
  have hleft : q.left < p.left := by
    have hcount : (p.active.eraseIdx position).countP (!·.returned) ≤
        p.active.countP (!·.returned) := (List.eraseIdx_sublist ..).countP_le
    have hlength := List.length_eraseIdx_add_one hlt
    simp only [q, left, load, record]
    omega
  have hstays : Stays q q.notify := stays_notify haborted hphase
  unfold executionFinished
  rw [hget]
  exact ⟨hstays.aborted, Nat.lt_of_le_of_lt (Nat.le_of_eq hstays.left_eq) hleft⟩

/-- Every answer to a pool that has stopped is one less to come. -/
theorem left_step (H : Accounted o p) (haborted : p.aborted = true) (hevent : p.Awaits event) :
    (p.step o event).aborted = true ∧ (p.step o event).left < p.left := by
  have hsettled := H.not_settled hevent
  have hunblocked (timed : Bool) : p.phase ≠ .blocked timed := fun hphase =>
    Bool.false_ne_true ((H.blocked timed hphase).unstopped.symm.trans haborted)
  have hcloses {q : WorkerPool κ ε} (hq : Stays p q) (hphase : 1 < p.phase.left) :
      q.close.aborted = true ∧ q.close.left < p.left := by
    obtain ⟨haborted', hleft⟩ := left_close hq.aborted
    refine ⟨haborted', ?_⟩
    rw [hleft, hq.load, left]
    omega
  have hhead (hphase : 1 < p.phase.left) :
      (p.head o).aborted = true ∧ (p.head o).left < p.left := by
    rw [head, if_pos haborted]
    exact hcloses ⟨haborted, rfl, rfl⟩ hphase
  have hfails (error : Option ε) : Stays p (p.failIf error) :=
    stays_failIf p haborted hunblocked error
  cases event with
  | claimReturned command =>
    have hphase : p.phase = .claiming := hevent
    obtain ⟨haborted', hleft⟩ := left_claimReturned (o := o) haborted command
    rw [step_claimReturned o hphase]
    refine ⟨haborted', Nat.lt_of_le_of_lt hleft ?_⟩
    rw [left, hphase]
    simp only [PoolPhase.left]
    omega
  | claimThrew error =>
    have hphase : p.phase = .claiming := hevent
    rw [step_claimThrew o hphase]
    exact hcloses (hfails (some error)) (by rw [hphase]; decide)
  | abandoned error =>
    have hphase : p.phase = .abandoning := hevent
    rw [step_abandoned o hphase]
    exact hcloses (hfails error) (by rw [hphase]; decide)
  | executionReturned position didProcess =>
    rw [step_executionReturned o hsettled]
    exact left_executionReturned haborted hunblocked position didProcess hevent
  | executionFinished position =>
    rw [step_executionFinished o hsettled]
    exact left_executionFinished haborted hunblocked position hevent
  | timeout => exact absurd hevent (hunblocked true)
  | resume =>
    rcases hevent with hphase | hphase
    · rw [step_notified o hphase]
      refine ⟨haborted, ?_⟩
      rw [left, left, hphase]
      exact Nat.add_lt_add_right (show 2 < 3 by decide) p.load
    · rw [step_resuming o hphase]
      exact hhead (by rw [hphase]; decide)
  | maintained error =>
    have hphase : p.phase = .maintaining := hevent
    cases error with
    | none =>
      rw [step_maintained o hphase]
      exact hhead (by rw [hphase]; decide)
    | some error =>
      rw [step_maintained_error o hphase]
      exact hcloses (hfails (some error)) (by rw [hphase]; decide)
  | periodicEnded error =>
    have hstays := stays_failIf { p with periodic := false } haborted hunblocked error
    rw [step_periodicEnded o hsettled hevent, hstays.left_eq]
    refine ⟨hstays.aborted, ?_⟩
    simp only [left, load, hevent.1, Bool.toNat_true, Bool.toNat_false]
    omega
  | settle =>
    rw [step_settle o hevent.1 hevent.2]
    refine ⟨haborted, ?_⟩
    rw [left, left, hevent.1]
    exact Nat.add_lt_add_right (show 0 < 1 by decide) p.load
  | wake | abort => exact hevent.elim

theorem length_answers (H : Accounted o p) (haborted : p.aborted = true)
    (answers : List (PoolEvent κ ε)) (hanswers : Trace.Admits (step o) Awaits p answers) :
    answers.length ≤ p.left := by
  induction answers generalizing p with
  | nil => exact Nat.zero_le _
  | cons event answers ih =>
    obtain ⟨haborted', hstep⟩ := left_step H haborted hanswers.1
    have hrest := ih (H.step event) haborted' hanswers.2
    rw [List.length_cons]
    omega

theorem Accounted.exists_awaited (H : Accounted o p) (hsettled : p.phase ≠ .settled) :
    ∃ event, p.Awaits event := by
  have hactive (hne : p.active ≠ []) : ∃ event, p.Awaits event := by
    obtain ⟨⟨command, returned⟩, rest, heq⟩ := List.exists_cons_of_ne_nil hne
    cases returned with
    | false => exact ⟨.executionReturned 0 (.ok false), command, by rw [heq]; rfl⟩
    | true => exact ⟨.executionFinished 0, command, by rw [heq]; rfl⟩
  cases hphase : p.phase with
  | claiming => exact ⟨.claimReturned none, hphase⟩
  | abandoning => exact ⟨.abandoned none, hphase⟩
  | notified => exact ⟨.resume, .inl hphase⟩
  | resuming => exact ⟨.resume, .inr hphase⟩
  | maintaining => exact ⟨.maintained none, hphase⟩
  | settled => exact absurd hphase hsettled
  | blocked timed =>
    cases timed with
    | true => exact ⟨.timeout, hphase⟩
    | false =>
      -- the pool is full
      have hfull := (H.blocked false hphase).full rfl
      exact hactive fun hempty => by
        have hpos := o.concurrency_pos
        rw [hempty, List.length_nil] at hfull
        omega
  | closing =>
    by_cases hempty : p.active = []
    · cases hperiodic : p.periodic with
      | false => exact ⟨.settle, hphase, hempty, hperiodic⟩
      | true =>
        exact ⟨.periodicEnded none, hperiodic, .inl (H.ending (by rw [hphase]; rfl))⟩
    · exact hactive hempty

/-! ## The accounts of a run -/

structure Sound (o : PoolOptions) (p : WorkerPool κ ε) : Prop where
  /-- What was executed is in flight or has finished, and no more than `concurrency` is in flight. -/
  inFlight : ∃ running : List κ, running.length ≤ o.concurrency ∧
    (executed p.history).Perm (running ++ finishes p.history) ∧ (p.phase = .settled → running = [])
  /-- Each command a claim returned is executed or abandoned, in turn and once. -/
  claims_handled : claims p.history = handled p.history
  /-- No claim comes after the stop, an abandon only after it, and a drain stops when it may. -/
  allowed : Allowed o.mode p.history
  /-- The signal and every failure stop the pool. -/
  halted : halts p.history = true → .stopped ∈ p.history
  result : p.phase = .settled → p.result =
    (failures p.history).getLast?.elim (.ok (PoolEntry.processed p.history)) .error
  /-- No wake is lost. -/
  waits : ∀ timed, p.phase = .blocked timed → Waits o timed p
  answerable : p.phase ≠ .settled → ∃ event, p.Awaits event
  /-- A pool that has stopped settles once it is answered. -/
  advances : p.aborted = true → ∃ bound, ∀ answers, Trace.Admits (step o) Awaits p answers →
    answers.length ≤ bound

theorem Accounted.sound (H : Accounted o p) : Sound o p := by
  refine ⟨⟨p.active.map Running.claimed, ?_, H.running, fun h => ?_⟩, H.handled, H.allowed,
    fun h => H.stopped.mp (H.halted h), fun _ => ?_, H.blocked, H.exists_awaited,
    fun h => ⟨p.left, length_answers H h⟩⟩
  · simpa only [List.length_map] using H.bound
  · exact congrArg (List.map Running.claimed) (H.settled h).1
  · unfold WorkerPool.result
    rw [H.error, H.processed]
    cases p.firstError <;> rfl

theorem observed_start (o : PoolOptions) (signalAborted : Bool) :
    (start o signalAborted : WorkerPool κ ε).history.filter observed =
      if signalAborted then [.signalled] else [] := by
  cases signalAborted with
  | true =>
    have hhead : Own (init o).forwardAbort (start o true : WorkerPool κ ε) := own_head o _
    have hhalt : Own (({ init o with executionsAborted := true } : WorkerPool κ ε).record .signalled)
        (init o).forwardAbort := own_halt _
    exact Eq.trans hhead hhalt
  | false =>
    have hhead : Own (init o) (start o false : WorkerPool κ ε) := own_head o _
    exact hhead

theorem pool_sound (o : PoolOptions) (signalAborted : Bool) (events : List (PoolEvent κ ε)) :
    Sound o (Trace.run (step o) (start o signalAborted) events) ∧
      (Trace.run (step o) (start o signalAborted) events).history.filter observed =
        reported o (start o signalAborted) events ++
          if signalAborted then [.signalled] else [] := by
  have hstart : Accounted o (start o signalAborted : WorkerPool κ ε) :=
    accounted_start o signalAborted
  have H : Accounted o (Trace.run (step o) (start o signalAborted) events) :=
    Trace.run_inv (P := fun _ => True) (I := Accounted o) _ (fun _ event _ H => H.step event)
      (fun _ _ => trivial) hstart
  refine ⟨H.sound, ?_⟩
  rw [reported_run hstart, observed_start]

end WorkerPool

end Neemata.Workflows
