import Neemata.Lib.Trace
import Mathlib.Data.List.Perm.Basic

/-!
# The worker pool

`runWorkerPool` of `worker/loop.ts` with the latch of `createWakeSignal`. The pool is taken from one
await of its loop to the next; executions, wakes and the abort signal come in between. What happens
is recorded in `history`, the latest first.
-/

namespace Neemata.Workflows

inductive WorkerMode where
  | drain | serve
deriving DecidableEq

/-- The options that passed `assertPositiveInteger`. -/
structure PoolOptions where
  mode : WorkerMode
  concurrency : Nat
  concurrency_pos : 0 < concurrency
  /-- `periodicTasks.length > 0` -/
  hasPeriodicTasks : Bool

inductive PoolEntry (κ ε : Type) where
  /-- `driver.claim()` is called. -/
  | claim
  | claimed (claimed : Option κ)
  /-- `driver.execute` is called. -/
  | execute (claimed : κ)
  | returned (claimed : κ) (didProcess : Bool)
  /-- The execution has left `active`. -/
  | finished (claimed : κ)
  /-- `driver.abandon` is called. -/
  | abandon (claimed : κ)
  | wake
  /-- The abort signal of the options. -/
  | signalled
  | failed (error : ε)
  /-- `lifecycle` is aborted. -/
  | stopped
deriving DecidableEq

/-- An execution in `active`; `returned` once its promise has settled. -/
structure Running (κ : Type) where
  claimed : κ
  returned : Bool
deriving DecidableEq

/-- The await the loop is at. -/
inductive PoolPhase where
  | claiming
  | abandoning
  /-- The waiter of `wake.wait`; `timed` when it has a timeout. -/
  | blocked (timed : Bool)
  /-- The waiter was notified; `wake.wait` has yet to consume the latch. -/
  | notified
  /-- `wake.wait` has returned. -/
  | resuming
  /-- `runDuePeriodicTasks` of a drain. -/
  | maintaining
  /-- The `finally` block. -/
  | closing
  | settled
deriving DecidableEq

structure WorkerPool (κ ε : Type) where
  phase : PoolPhase
  /-- `lifecycle.signal.aborted` -/
  aborted : Bool
  /-- `executions.signal.aborted` -/
  executionsAborted : Bool
  /-- The latch of the wake signal. -/
  pending : Bool
  active : List (Running κ)
  processed : Nat
  /-- `firstError`, when `failed`. -/
  firstError : Option ε
  drainPeriodicPending : Bool
  /-- `runPeriodicLoop` runs. -/
  periodic : Bool
  history : List (PoolEntry κ ε)
deriving DecidableEq

inductive PoolEvent (κ ε : Type) where
  | claimReturned (claimed : Option κ)
  | claimThrew (error : ε)
  | abandoned (error : Option ε)
  | executionReturned (position : Nat) (didProcess : Except ε Bool)
  /-- The `finally` of the execution at a position. -/
  | executionFinished (position : Nat)
  | wake
  | abort
  | timeout
  | resume
  | maintained (error : Option ε)
  | periodicEnded (error : Option ε)
  | settle

namespace WorkerPool

variable {κ ε : Type}

def record (p : WorkerPool κ ε) (entry : PoolEntry κ ε) : WorkerPool κ ε :=
  { p with history := entry :: p.history }

/-- `wake.notify` -/
def notify (p : WorkerPool κ ε) : WorkerPool κ ε :=
  { p with
    pending := true
    phase := match p.phase with
      | .blocked _ => .notified
      | phase => phase }

/-- `lifecycle.abort`, which resolves a waiter. -/
def stop (p : WorkerPool κ ε) : WorkerPool κ ε :=
  if p.aborted then p
  else
    { p with
      aborted := true
      history := .stopped :: p.history
      phase := match p.phase with
        | .blocked _ => .resuming
        | phase => phase }

def fail (p : WorkerPool κ ε) (error : ε) : WorkerPool κ ε :=
  ({ p with firstError := p.firstError.or (some error) }.record (.failed error)).stop.notify

/-- `forwardAbort` -/
def forwardAbort (p : WorkerPool κ ε) : WorkerPool κ ε :=
  ({ p with executionsAborted := true }.record .signalled).stop.notify

def close (p : WorkerPool κ ε) : WorkerPool κ ε := { p with phase := .closing }.stop.notify

def claim (p : WorkerPool κ ε) : WorkerPool κ ε := { p with phase := .claiming }.record .claim

/-- `wake.wait` -/
def wait (p : WorkerPool κ ε) (timed : Bool) : WorkerPool κ ε :=
  if p.aborted then { p with phase := .resuming }
  else if p.pending then { p with pending := false, phase := .resuming }
  else { p with phase := .blocked timed }

/-- The head of the loop; a full pool waits for a completion. -/
def head (o : PoolOptions) (p : WorkerPool κ ε) : WorkerPool κ ε :=
  if p.aborted then p.close
  else if p.active.length < o.concurrency then p.claim
  else p.wait false

/-- The queue is empty. -/
def empty (o : PoolOptions) (p : WorkerPool κ ε) : WorkerPool κ ε :=
  if p.aborted then p.close
  else if p.active ≠ [] then p.wait true
  else if p.pending then head o { p with pending := false }
  else
    match o.mode with
    | .drain =>
      if p.drainPeriodicPending then { p with drainPeriodicPending := false, phase := .maintaining }
      else p.close
    | .serve => p.wait true

def claimReturned (o : PoolOptions) (p : WorkerPool κ ε) (claimed : Option κ) : WorkerPool κ ε :=
  let p := p.record (.claimed claimed)
  match claimed with
  | none => p.empty o
  | some claimed =>
    if p.aborted then { p with phase := .abandoning }.record (.abandon claimed)
    else
      let p : WorkerPool κ ε := { p with active := p.active ++ [⟨claimed, false⟩] }
      (p.record (.execute claimed)).head o

def failIf (p : WorkerPool κ ε) : Option ε → WorkerPool κ ε
  | none => p
  | some error => p.fail error

def executionReturned (p : WorkerPool κ ε) (position : Nat) (didProcess : Except ε Bool) :
    WorkerPool κ ε :=
  match p.active[position]? with
  | some ⟨claimed, false⟩ =>
    let p := { p with active := p.active.set position ⟨claimed, true⟩ }
    match didProcess with
    | .ok didProcess =>
      { p with processed := p.processed + if didProcess then 1 else 0 }.record
        (.returned claimed didProcess)
    | .error error => p.fail error
  | _ => p

def executionFinished (p : WorkerPool κ ε) (position : Nat) : WorkerPool κ ε :=
  match p.active[position]? with
  | some ⟨claimed, true⟩ =>
    ({ p with active := p.active.eraseIdx position }.record (.finished claimed)).notify
  | _ => p

/-- An event that the phase does not wait for changes nothing, and a settled pool has let go of the
signal and of the wakes. -/
def step (o : PoolOptions) (p : WorkerPool κ ε) (event : PoolEvent κ ε) : WorkerPool κ ε :=
  match event, p.phase with
  | _, .settled => p
  | .claimReturned claimed, .claiming => p.claimReturned o claimed
  | .claimThrew error, .claiming => (p.fail error).close
  | .abandoned error, .abandoning => (p.failIf error).close
  | .executionReturned position didProcess, _ => p.executionReturned position didProcess
  | .executionFinished position, _ => p.executionFinished position
  | .wake, _ => (p.record .wake).notify
  | .abort, _ => p.forwardAbort
  | .timeout, .blocked true => { p with phase := .resuming }
  | .resume, .notified => { p with pending := false, phase := .resuming }
  | .resume, .resuming => p.head o
  | .maintained none, .maintaining => p.head o
  | .maintained (some error), .maintaining => (p.fail error).close
  | .periodicEnded error, _ =>
    if p.periodic ∧ (p.aborted = true ∨ error.isSome = true) then
      { p with periodic := false }.failIf error
    else p
  | .settle, .closing => if p.active = [] ∧ p.periodic = false then { p with phase := .settled } else p
  | _, _ => p

/-- The pool before its loop. -/
def init (o : PoolOptions) : WorkerPool κ ε where
  phase := .resuming
  aborted := false
  executionsAborted := false
  pending := false
  active := []
  processed := 0
  firstError := none
  drainPeriodicPending := o.mode = .drain ∧ o.hasPeriodicTasks = true
  periodic := o.mode = .serve ∧ o.hasPeriodicTasks = true
  history := []

/-- The pool at the first await of its loop; `signalAborted` when the signal was aborted before. -/
def start (o : PoolOptions) (signalAborted : Bool) : WorkerPool κ ε :=
  if signalAborted then ((init o).forwardAbort).head o else (init o).head o

/-- What the promise of the pool settles with. -/
def result (p : WorkerPool κ ε) : Except ε Nat :=
  match p.firstError with
  | some error => .error error
  | none => .ok p.processed

end WorkerPool

/-! ## What the history of a pool shows -/

namespace PoolEntry

variable {κ ε : Type}

/-- The commands that claims returned. -/
def claims : List (PoolEntry κ ε) → List κ
  | [] => []
  | .claimed (some command) :: past => command :: claims past
  | _ :: past => claims past

/-- The commands that were handed to `execute` or to `abandon`. -/
def handled : List (PoolEntry κ ε) → List κ
  | [] => []
  | .execute command :: past | .abandon command :: past => command :: handled past
  | _ :: past => handled past

def executed : List (PoolEntry κ ε) → List κ
  | [] => []
  | .execute command :: past => command :: executed past
  | _ :: past => executed past

def finishes : List (PoolEntry κ ε) → List κ
  | [] => []
  | .finished command :: past => command :: finishes past
  | _ :: past => finishes past

def failures : List (PoolEntry κ ε) → List ε
  | [] => []
  | .failed error :: past => error :: failures past
  | _ :: past => failures past

/-- The number of executions that returned `true`. -/
def processed : List (PoolEntry κ ε) → Nat
  | [] => 0
  | .returned _ true :: past => processed past + 1
  | _ :: past => processed past

/-- The signal was aborted, or something failed. -/
def halts : List (PoolEntry κ ε) → Bool
  | [] => false
  | .signalled :: _ | .failed _ :: _ => true
  | _ :: past => halts past

/-- What was recorded since the last claim was made. -/
def sinceClaim : List (PoolEntry κ ε) → List (PoolEntry κ ε)
  | [] => []
  | .claim :: _ => []
  | entry :: past => entry :: sinceClaim past

/-- Entries after which a drain has to claim once more. -/
def wakes : PoolEntry κ ε → Bool
  | .wake | .finished _ => true
  | _ => false

/-- A claim made after the last wake and after the last execution finished returned null. -/
def Drained (past : List (PoolEntry κ ε)) : Prop :=
  ∃ mid before, past = .claimed none :: (mid ++ .claim :: before) ∧
    (∀ entry ∈ mid, entry.wakes = false) ∧ (executed before).Perm (finishes before)

/-- Why the pool stops: the signal, a failure, or the end of a drain. -/
def StopsFor (mode : WorkerMode) (past : List (PoolEntry κ ε)) : Prop :=
  (∃ before, past = .signalled :: before) ∨ (∃ error before, past = .failed error :: before) ∨
    (mode = .drain ∧ Drained past)

/-- Every entry comes when it may: no claim once the pool has stopped, an abandon only then, and one
stop, for a reason. -/
def Allowed (mode : WorkerMode) : List (PoolEntry κ ε) → Prop
  | [] => True
  | .claim :: past => .stopped ∉ past ∧ Allowed mode past
  | .abandon _ :: past => .stopped ∈ past ∧ Allowed mode past
  | .stopped :: past => .stopped ∉ past ∧ StopsFor mode past ∧ Allowed mode past
  | _ :: past => Allowed mode past

end PoolEntry

/-- The loop has ended, or is about to. -/
def PoolPhase.ending : PoolPhase → Bool
  | .abandoning | .closing | .settled => true
  | _ => false

namespace PoolEntry

variable {κ ε : Type}

theorem executed_append (l l' : List (PoolEntry κ ε)) :
    executed (l ++ l') = executed l ++ executed l' := by
  induction l with
  | nil => rfl
  | cons entry l ih => cases entry <;> simp [executed, ih]

theorem finishes_append (l l' : List (PoolEntry κ ε)) :
    finishes (l ++ l') = finishes l ++ finishes l' := by
  induction l with
  | nil => rfl
  | cons entry l ih => cases entry <;> simp [finishes, ih]

theorem finishes_of_quiet {l : List (PoolEntry κ ε)} (h : ∀ entry ∈ l, entry.wakes = false) :
    finishes l = [] := by
  induction l with
  | nil => rfl
  | cons entry l ih =>
    have hentry := h entry List.mem_cons_self
    have ih := ih fun entry' h' => h entry' (List.mem_cons_of_mem _ h')
    cases entry with
    | finished command => cases hentry
    | _ => exact ih

theorem exists_sinceClaim {l : List (PoolEntry κ ε)} (h : .claim ∈ l) :
    ∃ before, l = sinceClaim l ++ .claim :: before := by
  induction l with
  | nil => cases h
  | cons entry l ih =>
    cases entry with
    | claim => exact ⟨l, rfl⟩
    | _ =>
      obtain ⟨before, hbefore⟩ := ih ((List.mem_cons.mp h).resolve_left (by simp))
      exact ⟨before, congrArg (_ :: ·) hbefore⟩

end PoolEntry

namespace WorkerPool

open PoolEntry

variable {κ ε : Type} {o : PoolOptions} {p : WorkerPool κ ε}

structure Books (o : PoolOptions) (p : WorkerPool κ ε) : Prop where
  bound : p.active.length ≤ o.concurrency
  room : p.phase = .claiming → p.active.length < o.concurrency
  handled : claims p.history = handled p.history
  stopped : p.aborted = true ↔ .stopped ∈ p.history
  allowed : Allowed o.mode p.history
  running : (executed p.history).Perm (p.active.map Running.claimed ++ finishes p.history)
  settled : p.phase = .settled → p.active = [] ∧ p.periodic = false
  error : (failures p.history).getLast? = p.firstError
  processed : p.processed = PoolEntry.processed p.history
  claiming : p.phase = .claiming → .claim ∈ p.history ∧ executed (sinceClaim p.history) = []

/-- A waiter waits for room in a full pool, or it has missed no wake. -/
structure Waits (o : PoolOptions) (timed : Bool) (p : WorkerPool κ ε) : Prop where
  unstopped : p.aborted = false
  unlatched : p.pending = false
  full : timed = false → p.active.length = o.concurrency
  missed_none : timed = true → ∀ entry ∈ sinceClaim p.history, entry.wakes = false

structure Accounted (o : PoolOptions) (p : WorkerPool κ ε) : Prop extends Books o p where
  halted : halts p.history = true → p.aborted = true
  ending : p.phase.ending = true → p.aborted = true
  /-- While a claim is out, the latch tells whether a wake came after it. -/
  quiet : p.phase = .claiming → p.pending = false →
    ∀ entry ∈ sinceClaim p.history, entry.wakes = false
  blocked : ∀ timed, p.phase = .blocked timed → Waits o timed p

theorem phase_notify : p.notify.phase = p.phase ∨
    ∃ timed, p.phase = .blocked timed ∧ p.notify.phase = .notified := by
  unfold notify
  cases hphase : p.phase with
  | blocked timed => exact .inr ⟨timed, rfl, by simp⟩
  | _ => exact .inl (by simp)

theorem phase_stop : p.stop.phase = p.phase ∨
    ∃ timed, p.phase = .blocked timed ∧ p.stop.phase = .resuming := by
  unfold stop
  split
  · exact .inl rfl
  · cases hphase : p.phase with
    | blocked timed => exact .inr ⟨timed, rfl, by simp⟩
    | _ => exact .inl (by simp)

theorem Books.atPhase (H : Books o p) (phase : PoolPhase) (hclaiming : phase ≠ .claiming)
    (hsettled : phase ≠ .settled) : Books o { p with phase } :=
  { H with
    room := fun h => absurd h hclaiming
    settled := fun h => absurd h hsettled
    claiming := fun h => absurd h hclaiming }

theorem Books.resuming (H : Books o p) (hhalted : halts p.history = true → p.aborted = true)
    (pending : Bool) : Accounted o { p with pending, phase := .resuming } :=
  { H.atPhase .resuming (by simp) (by simp) with
    halted := hhalted
    ending := fun h => by cases h
    quiet := fun h => by cases h
    blocked := fun _ h => by cases h }

theorem phase_notify_ne (timed : Bool) : p.notify.phase ≠ .blocked timed := by
  unfold WorkerPool.notify
  cases hphase : p.phase <;> simp

theorem Books.notify (H : Books o p) (hhalted : halts p.history = true → p.aborted = true)
    (hending : p.phase.ending = true → p.aborted = true) : Accounted o p.notify := by
  have hbooks : Books o p.notify := by
    rcases phase_notify (p := p) with hphase | ⟨timed, -, hphase⟩
    · exact
        { H with
          room := fun h => H.room (hphase ▸ h)
          settled := fun h => H.settled (hphase ▸ h)
          claiming := fun h => H.claiming (hphase ▸ h) }
    · exact
        { H with
          room := fun h => by rw [hphase] at h; cases h
          settled := fun h => by rw [hphase] at h; cases h
          claiming := fun h => by rw [hphase] at h; cases h }
  refine
    { hbooks with
      halted := hhalted
      ending := fun h => ?_
      quiet := fun _ h => by cases h
      blocked := fun timed h => absurd h (phase_notify_ne timed) }
  rcases phase_notify (p := p) with hphase | ⟨timed, -, hphase⟩
  · exact hending (hphase ▸ h)
  · rw [hphase] at h
    cases h

theorem aborted_stop : p.stop.aborted = true := by
  unfold stop
  split
  · assumption
  · rfl

theorem Books.stop (H : Books o p) (hstops : p.aborted = false → StopsFor o.mode p.history) :
    Books o p.stop := by
  have hphase := phase_stop (p := p)
  have hpush {phase : PoolPhase} : p.stop.phase = phase → phase = .claiming ∨ phase = .settled →
      p.phase = phase := by
    rintro rfl h
    rcases hphase with hphase | ⟨timed, -, hphase⟩
    · exact hphase.symm
    · rw [hphase] at h
      rcases h with h | h <;> cases h
  cases haborted : p.aborted with
  | true =>
    have hp : p.stop = p := if_pos haborted
    rw [hp]
    exact H
  | false =>
    have hnot : .stopped ∉ p.history := fun h => by
      rw [H.stopped.mpr h] at haborted
      cases haborted
    have hhistory : p.stop.history = .stopped :: p.history := by
      unfold WorkerPool.stop
      rw [haborted]
      rfl
    have hactive : p.stop.active = p.active := by
      unfold WorkerPool.stop
      split <;> rfl
    have hperiodic : p.stop.periodic = p.periodic := by
      unfold WorkerPool.stop
      split <;> rfl
    have herror : p.stop.firstError = p.firstError := by
      unfold WorkerPool.stop
      split <;> rfl
    have hprocessed : p.stop.processed = p.processed := by
      unfold WorkerPool.stop
      split <;> rfl
    refine ⟨?_, ?_, ?_, ?_, ?_, ?_, ?_, ?_, ?_, ?_⟩
    · rw [hactive]; exact H.bound
    · rw [hactive]; exact fun h => H.room (hpush h (.inl rfl))
    · rw [hhistory]; exact H.handled
    · rw [hhistory]; exact iff_of_true aborted_stop List.mem_cons_self
    · rw [hhistory]; exact ⟨hnot, hstops haborted, H.allowed⟩
    · rw [hhistory, hactive]; exact H.running
    · rw [hactive, hperiodic]; exact fun h => H.settled (hpush h (.inr rfl))
    · rw [hhistory, herror]; exact H.error
    · rw [hhistory, hprocessed]; exact H.processed
    · rw [hhistory]
      intro h
      obtain ⟨hmem, hexecuted⟩ := H.claiming (hpush h (.inl rfl))
      exact ⟨List.mem_cons_of_mem _ hmem, hexecuted⟩

theorem Books.halt (H : Books o p) (hstops : p.aborted = false → StopsFor o.mode p.history) :
    Accounted o p.stop.notify :=
  (H.stop hstops).notify (fun _ => aborted_stop) fun _ => aborted_stop

theorem Books.close (H : Books o p) (hstops : p.aborted = false → StopsFor o.mode p.history) :
    Accounted o p.close :=
  Books.halt (H.atPhase .closing (by simp) (by simp)) hstops

theorem Books.fail (H : Books o p) (error : ε) : Accounted o (p.fail error) := by
  refine Books.halt ⟨H.bound, H.room, H.handled, ?_, H.allowed, H.running, H.settled, ?_,
    H.processed, ?_⟩ fun _ => .inr (.inl ⟨error, p.history, rfl⟩)
  · exact H.stopped.trans (by simp [record])
  · change (error :: failures p.history).getLast? = p.firstError.or (some error)
    rw [List.getLast?_cons, ← H.error]
    cases (failures p.history).getLast? <;> rfl
  · intro h
    obtain ⟨hmem, hexecuted⟩ := H.claiming h
    exact ⟨List.mem_cons_of_mem _ hmem, hexecuted⟩

theorem Books.forwardAbort (H : Books o p) : Accounted o p.forwardAbort := by
  refine Books.halt ⟨H.bound, H.room, H.handled, ?_, H.allowed, H.running, H.settled, H.error,
    H.processed, ?_⟩ fun _ => .inl ⟨p.history, rfl⟩
  · exact H.stopped.trans (by simp [record])
  · intro h
    obtain ⟨hmem, hexecuted⟩ := H.claiming h
    exact ⟨List.mem_cons_of_mem _ hmem, hexecuted⟩

theorem Books.claim (H : Books o p) (hhalted : halts p.history = true → p.aborted = true)
    (haborted : p.aborted = false)
    (hroom : p.active.length < o.concurrency) : Accounted o p.claim := by
  have hnot : .stopped ∉ p.history := fun h => by
    rw [H.stopped.mpr h] at haborted
    cases haborted
  have hbooks : Books o p.claim := by
    refine ⟨H.bound, fun _ => hroom, H.handled, ?_, ⟨hnot, H.allowed⟩, H.running, ?_, H.error,
      H.processed, fun _ => ⟨List.mem_cons_self, rfl⟩⟩
    · exact H.stopped.trans (by simp [WorkerPool.claim, record])
    · intro h
      cases h
  refine ⟨hbooks, hhalted, ?_, ?_, ?_⟩
  · intro h
    cases h
  · intro _ _ entry h
    cases h
  · intro timed h
    cases h

theorem Books.wait (H : Books o p) (hhalted : halts p.history = true → p.aborted = true)
    (timed : Bool)
    (hfull : timed = false → o.concurrency ≤ p.active.length)
    (hmissed : timed = true → p.pending = false → ∀ entry ∈ sinceClaim p.history,
      entry.wakes = false) : Accounted o (p.wait timed) := by
  unfold WorkerPool.wait
  split
  · exact H.resuming hhalted p.pending
  · next haborted =>
    split
    · exact H.resuming hhalted false
    · next hpending =>
      have hpending : p.pending = false := (Bool.not_eq_true _).mp hpending
      have hwaits : Waits o timed { p with phase := .blocked timed } :=
        ⟨(Bool.not_eq_true _).mp haborted, hpending, fun h => Nat.le_antisymm H.bound (hfull h),
          fun h => hmissed h hpending⟩
      exact
        { H.atPhase (.blocked timed) (by simp) (by simp) with
          halted := hhalted
          ending := fun h => by cases h
          quiet := fun h => by cases h
          blocked := fun timed' h => by
            cases h
            exact hwaits }

theorem Books.head (H : Books o p) (hhalted : halts p.history = true → p.aborted = true) :
    Accounted o (p.head o) := by
  unfold WorkerPool.head
  split
  · next haborted => exact H.close fun h => by rw [haborted] at h; cases h
  · next haborted =>
    split
    · next hroom => exact H.claim hhalted ((Bool.not_eq_true _).mp haborted) hroom
    · next hroom =>
      exact H.wait hhalted false (fun _ => Nat.le_of_not_lt hroom) fun h => by cases h

/-! ## Every event keeps the accounts -/

theorem Accounted.empty (H : Accounted o p) (hphase : p.phase = .claiming) :
    Accounted o ((p.record (.claimed none)).empty o) := by
  obtain ⟨hmem, hexecuted⟩ := H.claiming hphase
  have hbooks : Books o (p.record (.claimed none)) := by
    refine ⟨H.bound, H.room, H.handled, ?_, H.allowed, H.running, H.settled, H.error, H.processed,
      fun _ => ⟨List.mem_cons_of_mem _ hmem, hexecuted⟩⟩
    exact H.stopped.trans (by simp [record])
  have hwait : Accounted o ((p.record (.claimed none)).wait true) := by
    refine hbooks.wait H.halted true (fun h => by cases h) fun _ hpending entry hentry => ?_
    rcases List.mem_cons.mp hentry with rfl | hentry
    · rfl
    · exact H.quiet hphase hpending entry hentry
  unfold WorkerPool.empty
  split
  · next haborted => exact hbooks.close fun h => by rw [haborted] at h; cases h
  · split
    · exact hwait
    · next hactive =>
      split
      · have hbooks' : Books o { p.record (.claimed none) with pending := false } := { hbooks with }
        exact hbooks'.head H.halted
      · next hpending =>
        split
        · next hmode =>
          split
          · exact
              { hbooks.atPhase .maintaining (by simp) (by simp) with
                halted := H.halted
                ending := fun h => by cases h
                quiet := fun h => by cases h
                blocked := fun _ h => by cases h }
          · refine hbooks.close fun _ => .inr (.inr ⟨hmode, ?_⟩)
            -- no execution runs, and none finished since the claim was made
            obtain ⟨before, hbefore⟩ := exists_sinceClaim hmem
            have hquiet := H.quiet hphase ((Bool.not_eq_true _).mp hpending)
            refine ⟨sinceClaim p.history, before, congrArg (_ :: ·) hbefore, hquiet, ?_⟩
            have hempty : p.active = [] := not_not.mp hactive
            have hrunning := H.running
            rw [hempty, hbefore, executed_append, finishes_append, hexecuted,
              finishes_of_quiet hquiet] at hrunning
            exact hrunning
        · exact hwait

theorem Accounted.claimReturned (H : Accounted o p) (hphase : p.phase = .claiming)
    (claimed : Option κ) : Accounted o (p.claimReturned o claimed) := by
  obtain ⟨hmem, hexecuted⟩ := H.claiming hphase
  cases claimed with
  | none => exact H.empty hphase
  | some command =>
    unfold WorkerPool.claimReturned
    dsimp only
    split
    · next haborted =>
      have hbooks : Books o ({ p.record (.claimed (some command)) with
          phase := .abandoning }.record (.abandon command)) := by
        refine ⟨H.bound, ?_, congrArg (command :: ·) H.handled, ?_, ?_, H.running, ?_, H.error,
          H.processed, ?_⟩
        · intro h
          cases h
        · exact H.stopped.trans (by simp [record])
        · exact ⟨List.mem_cons_of_mem _ (H.stopped.mp haborted), H.allowed⟩
        · intro h
          cases h
        · intro h
          cases h
      refine ⟨hbooks, H.halted, fun _ => haborted, ?_, ?_⟩
      · intro h
        cases h
      · intro _ h
        cases h
    · have hlength : (p.active ++ [(⟨command, false⟩ : Running κ)]).length ≤ o.concurrency := by
        rw [List.length_append]
        exact H.room hphase
      have hbooks : Books o ({ p.record (.claimed (some command)) with
          phase := .resuming
          active := p.active ++ [(⟨command, false⟩ : Running κ)] }.record (.execute command)) := by
        refine ⟨hlength, ?_, congrArg (command :: ·) H.handled, ?_, H.allowed, ?_, ?_, H.error,
          H.processed, ?_⟩
        · intro h
          cases h
        · exact H.stopped.trans (by simp [record])
        · change (command :: executed p.history).Perm
            ((p.active ++ [(⟨command, false⟩ : Running κ)]).map Running.claimed ++ finishes p.history)
          rw [List.map_append, List.append_assoc]
          exact (H.running.cons command).trans List.perm_middle.symm
        · intro h
          cases h
        · intro h
          cases h
      exact hbooks.head H.halted

theorem Accounted.wake (H : Accounted o p) : Accounted o (p.record .wake).notify := by
  refine Books.notify ⟨H.bound, H.room, H.handled, ?_, H.allowed, H.running, H.settled, H.error,
    H.processed, ?_⟩ H.halted H.ending
  · exact H.stopped.trans (by simp [record])
  · intro h
    obtain ⟨hmem, hexecuted⟩ := H.claiming h
    exact ⟨List.mem_cons_of_mem _ hmem, hexecuted⟩

theorem Accounted.executionReturned (H : Accounted o p) (position : Nat)
    (didProcess : Except ε Bool) : Accounted o (p.executionReturned position didProcess) := by
  unfold WorkerPool.executionReturned
  split
  · next command hget =>
    have hmap : (p.active.set position ⟨command, true⟩).map Running.claimed =
        p.active.map Running.claimed := by
      apply List.ext_getElem?
      intro i
      rw [List.getElem?_map, List.getElem?_map, List.getElem?_set]
      split
      · next hi =>
        subst hi
        obtain ⟨hlt, -⟩ := List.getElem?_eq_some_iff.mp hget
        rw [if_pos hlt, hget]
        rfl
      · rfl
    have hlength : (p.active.set position ⟨command, true⟩).length = p.active.length :=
      List.length_set
    have hbooks : Books o { p with active := p.active.set position ⟨command, true⟩ } := by
      refine { H.toBooks with bound := ?_, room := ?_, running := ?_, settled := ?_ }
      · exact Nat.le_trans (Nat.le_of_eq hlength) H.bound
      · exact fun h => Nat.lt_of_le_of_lt (Nat.le_of_eq hlength) (H.room h)
      · rw [hmap]
        exact H.running
      · intro h
        obtain ⟨hempty, hperiodic⟩ := H.settled h
        exact ⟨by rw [hempty, List.set_nil], hperiodic⟩
    dsimp only
    split
    · next did =>
      have hbooks' : Books o ({ p with
          active := p.active.set position ⟨command, true⟩
          processed := p.processed + if did then 1 else 0 }.record (.returned command did)) := by
        refine ⟨hbooks.bound, hbooks.room, H.handled, ?_, H.allowed, hbooks.running, hbooks.settled,
          H.error, ?_, ?_⟩
        · exact H.stopped.trans (by simp [record])
        · cases did <;> simp [record, PoolEntry.processed, H.processed]
        · intro h
          obtain ⟨hmem, hexecuted⟩ := H.claiming h
          exact ⟨List.mem_cons_of_mem _ hmem, hexecuted⟩
      refine ⟨hbooks', H.halted, H.ending, fun hphase hpending entry hentry => ?_, fun timed hphase => ?_⟩
      · rcases List.mem_cons.mp hentry with rfl | hentry
        · rfl
        · exact H.quiet hphase hpending entry hentry
      · have hwaits := H.blocked timed hphase
        refine ⟨hwaits.unstopped, hwaits.unlatched, fun h => hlength.trans (hwaits.full h), ?_⟩
        intro h entry hentry
        rcases List.mem_cons.mp hentry with rfl | hentry
        · rfl
        · exact hwaits.missed_none h entry hentry
    · exact hbooks.fail _
  · exact H

theorem Accounted.executionFinished (H : Accounted o p) (position : Nat) :
    Accounted o (p.executionFinished position) := by
  unfold WorkerPool.executionFinished
  split
  · next command hget =>
    obtain ⟨hlt, hcommand⟩ := List.getElem?_eq_some_iff.mp hget
    have hlength : (p.active.eraseIdx position).length ≤ p.active.length :=
      List.length_eraseIdx_le ..
    have hperm : (p.active.map Running.claimed).Perm
        (command :: (p.active.eraseIdx position).map Running.claimed) := by
      have h := (List.getElem_cons_eraseIdx_perm hlt).symm.map Running.claimed
      rw [hcommand] at h
      exact h
    refine Books.notify ⟨?_, ?_, H.handled, ?_, H.allowed, ?_, ?_, H.error, H.processed, ?_⟩ H.halted
      H.ending
    · exact Nat.le_trans hlength H.bound
    · exact fun h => Nat.lt_of_le_of_lt hlength (H.room h)
    · exact H.stopped.trans (by simp [record])
    · exact (H.running.trans (hperm.append_right _)).trans List.perm_middle.symm
    · intro h
      obtain ⟨hempty, hperiodic⟩ := H.settled h
      refine ⟨?_, hperiodic⟩
      change p.active.eraseIdx position = []
      rw [hempty, List.eraseIdx_nil]
    · intro h
      obtain ⟨hmem, hexecuted⟩ := H.claiming h
      exact ⟨List.mem_cons_of_mem _ hmem, hexecuted⟩
  · exact H

theorem Accounted.failIf (H : Accounted o p) (error : Option ε) : Accounted o (p.failIf error) := by
  cases error with
  | none => exact H
  | some error => exact H.toBooks.fail error

/-- After a failure the pool has stopped. -/
theorem aborted_fail (error : ε) : (p.fail error).aborted = true := aborted_stop

theorem Accounted.closeAfter (H : Accounted o p) (haborted : p.aborted = true) :
    Accounted o p.close :=
  H.toBooks.close fun h => by rw [haborted] at h; cases h

theorem Accounted.step (H : Accounted o p) (event : PoolEvent κ ε) :
    Accounted o (p.step o event) := by
  unfold WorkerPool.step
  split
  · exact H
  · next hphase => exact H.claimReturned hphase _
  · exact (H.toBooks.fail _).closeAfter (aborted_fail _)
  · next error hphase =>
    have haborted : (p.failIf error).aborted = true := by
      cases error with
      | none => exact H.ending (by rw [hphase]; rfl)
      | some error => exact aborted_fail error
    exact (H.failIf error).closeAfter haborted
  · exact H.executionReturned _ _
  · exact H.executionFinished _
  · exact H.wake
  · exact H.toBooks.forwardAbort
  · exact H.toBooks.resuming H.halted p.pending
  · exact H.toBooks.resuming H.halted false
  · exact H.toBooks.head H.halted
  · exact H.toBooks.head H.halted
  · exact (H.toBooks.fail _).closeAfter (aborted_fail _)
  · split
    · have hends : Accounted o { p with periodic := false } :=
        { H with
          settled := fun h => ⟨(H.settled h).1, rfl⟩
          blocked := fun timed h => { H.blocked timed h with } }
      exact hends.failIf _
    · exact H
  · next hphase =>
    split
    · next hclosed =>
      have hbooks : Books o { p with phase := .settled } :=
        { H with
          room := fun h => by cases h
          settled := fun _ => hclosed
          claiming := fun h => by cases h }
      refine ⟨hbooks, H.halted, fun _ => H.ending (by rw [hphase]; rfl), ?_, ?_⟩
      · intro h
        cases h
      · intro _ h
        cases h
    · exact H
  · exact H

theorem accounted_start (o : PoolOptions) (signalAborted : Bool) :
    Accounted o (start o signalAborted : WorkerPool κ ε) := by
  have hbooks : Books o (init o : WorkerPool κ ε) := by
    refine ⟨Nat.zero_le _, ?_, rfl, ?_, trivial, .refl _, ?_, rfl, rfl, ?_⟩
    · intro h
      cases h
    · exact iff_of_false (by simp [init]) List.not_mem_nil
    · intro h
      cases h
    · intro h
      cases h
  unfold start
  split
  · exact hbooks.forwardAbort.toBooks.head hbooks.forwardAbort.halted
  · exact hbooks.head fun h => by cases h

end WorkerPool

end Neemata.Workflows
