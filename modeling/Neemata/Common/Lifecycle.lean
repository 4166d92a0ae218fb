import Neemata.Lib.Trace
import Mathlib.Algebra.GroupWithZero.Nat

/-!
# The start/stop lifecycle

`Lifecycle` with its `TeardownStack` of `common/src/lifecycle.ts`. Every call enqueues an operation
behind the one before it; an operation is taken from one await to the next, and calls come in
between. An operation records the teardowns that were deferred while it ran and the ones it called.
`Turn` says what an operation is to do on its own, and `serialized` that the operations of a
lifecycle are turns taken one after another.
-/

namespace Neemata.Common

inductive LifecycleState where
  | idle | starting | running | stopping
deriving DecidableEq

/-- What an operation rejects with. -/
inductive LifecycleError (ε : Type) where
  | error (message : String)
  | raised (error : ε)
  | aggregate (errors : List ε) (message : String)
deriving DecidableEq

inductive LifecycleCall where
  | start | stop
deriving DecidableEq

/-- The await an operation is at. -/
inductive LifecyclePhase (τ ε ρ : Type) where
  | queued
  /-- The run function of a start. -/
  | running
  /-- The first of the teardowns; without one, the end of `unwind`. The cause is the error of the
  run function. -/
  | unwinding (cause : Option ε) (teardowns : List τ)
  | settled (outcome : Except (LifecycleError ε) (Option ρ))
deriving DecidableEq

structure Operation (τ ε ρ : Type) where
  call : LifecycleCall
  phase : LifecyclePhase τ ε ρ := .queued
  /-- The run function of a start has been called. -/
  ran : Bool := false
  deferred : List τ := []
  called : List τ := []
  /-- What its teardowns threw. -/
  errors : List ε := []
deriving DecidableEq

structure Lifecycle (τ ε ρ : Type) where
  name : String
  state : LifecycleState := .idle
  /-- The teardowns of `#stack`, the latest last. -/
  stack : List τ := []
  /-- In the order of the calls. -/
  operations : List (Operation τ ε ρ) := []
deriving DecidableEq

/-- What an operation waits for. -/
inductive OperationEvent (τ ε ρ : Type) where
  /-- The promise before it has settled. -/
  | begin
  /-- The run function calls `defer`. -/
  | defer (teardown : τ)
  | returned (result : Except ε ρ)
  | tornDown (error : Option ε)
  /-- `unwind` has returned. -/
  | unwound

inductive LifecycleEvent (τ ε ρ : Type) where
  | call (call : LifecycleCall)
  | operation (position : Nat) (event : OperationEvent τ ε ρ)

variable {τ ε ρ : Type}

namespace Operation

/-- The operation of a call, which waits for the one before it. -/
def enqueue (call : LifecycleCall) : Operation τ ε ρ := { call }

def hasBegun (o : Operation τ ε ρ) : Bool :=
  match o.phase with
  | .queued => false
  | _ => true

def isSettled (o : Operation τ ε ρ) : Bool :=
  match o.phase with
  | .settled _ => true
  | _ => false

def settle (o : Operation τ ε ρ) (outcome : Except (LifecycleError ε) (Option ρ)) :
    Operation τ ε ρ :=
  { o with phase := .settled outcome }

/-- Await the first of the teardowns, which is called now. -/
def unwind (o : Operation τ ε ρ) (cause : Option ε) (teardowns : List τ) : Operation τ ε ρ :=
  { o with phase := .unwinding cause teardowns, called := o.called ++ teardowns.take 1 }

/-- The teardowns a component is up with, if it is up: a start that has succeeded brings it up, a
stop that has begun takes it down. -/
def leaves (component : Option (List τ)) (o : Operation τ ε ρ) : Option (List τ) :=
  match o.call, o.phase with
  | .start, .settled (.ok (some _)) => some o.deferred
  | .start, _ | .stop, .queued => component
  | .stop, _ => none

end Operation

namespace Lifecycle

def alreadyStarted (name : String) : LifecycleError ε :=
  .error s!"The {name} is already started"

/-- What a start rejects with whose run function has thrown. -/
def startFailure (name : String) (error : ε) : (rollbackErrors : List ε) → LifecycleError ε
  | [] => .raised error
  | rollbackErrors =>
    .aggregate (error :: rollbackErrors) s!"Failed to start the {name} and roll back resources"

def stopOutcome (name : String) : (errors : List ε) → Except (LifecycleError ε) (Option ρ)
  | [] => .ok none
  | errors => .error (.aggregate errors s!"Failed to stop the {name}")

/-- How an operation ends that has unwound the stack. -/
def unwoundOutcome (name : String) (errors : List ε) :
    (cause : Option ε) → Except (LifecycleError ε) (Option ρ)
  | some error => .error (startFailure name error errors)
  | none => stopOutcome name errors

/-- The state and the stack that an operation leaves, with the operation. -/
abbrev Advance (τ ε ρ : Type) := LifecycleState × List τ × Operation τ ε ρ

def begin (l : Lifecycle τ ε ρ) (o : Operation τ ε ρ) : Advance τ ε ρ :=
  match o.call with
  | .start =>
    if l.state = .idle then (.starting, l.stack, { o with phase := .running, ran := true })
    else (l.state, l.stack, o.settle (.error (alreadyStarted l.name)))
  | .stop =>
    if l.state = .running then (.stopping, [], o.unwind none l.stack.reverse)
    else (l.state, l.stack, o.settle (.ok none))

def returned (l : Lifecycle τ ε ρ) (o : Operation τ ε ρ) : Except ε ρ → Advance τ ε ρ
  | .ok result => (.running, l.stack, o.settle (.ok (some result)))
  | .error error => (l.state, [], o.unwind (some error) l.stack.reverse)

/-- An event that the operation does not wait for changes nothing. -/
def advance (l : Lifecycle τ ε ρ) (isNext : Bool) (o : Operation τ ε ρ)
    (event : OperationEvent τ ε ρ) : Option (Advance τ ε ρ) :=
  match event, o.phase with
  | .begin, .queued => if isNext then some (l.begin o) else none
  | .defer teardown, .running =>
    some (l.state, l.stack ++ [teardown], { o with deferred := o.deferred ++ [teardown] })
  | .returned result, .running => some (l.returned o result)
  | .tornDown error, .unwinding cause (_ :: teardowns) =>
    some (l.state, l.stack,
      { o with errors := o.errors ++ error.toList }.unwind cause teardowns)
  | .unwound, .unwinding cause [] =>
    some (.idle, l.stack, o.settle (unwoundOutcome l.name o.errors cause))
  | _, _ => none

/-- `this.#queue` has settled for the operation at a position. -/
def isNext (l : Lifecycle τ ε ρ) (position : Nat) : Bool :=
  match position with
  | 0 => true
  | before + 1 => l.operations[before]?.any Operation.isSettled

def step (l : Lifecycle τ ε ρ) (event : LifecycleEvent τ ε ρ) : Lifecycle τ ε ρ :=
  match event with
  | .call call => { l with operations := l.operations ++ [.enqueue call] }
  | .operation position event =>
    match l.operations[position]?.bind (l.advance (l.isNext position) · event) with
    | none => l
    | some (state, stack, o) =>
      { l with state, stack, operations := l.operations.set position o }

/-- A lifecycle of the given name after some events. -/
def after (name : String) (events : List (LifecycleEvent τ ε ρ)) : Lifecycle τ ε ρ :=
  Trace.run step { name } events

/-! ## Turns -/

/-- What an operation does on its own to a component that is down or is up with the teardowns
deferred by its start. -/
inductive Turn (name : String) :
    Option (List τ) → Operation τ ε ρ → Option (List τ) → Prop where
  | started (deferred : List τ) (result : ρ) :
    Turn name none
      { call := .start, phase := .settled (.ok (some result)), ran := true, deferred }
      (some deferred)
  | rolledBack (deferred : List τ) (error : ε) (errors : List ε) :
    Turn name none
      { call := .start, phase := .settled (.error (startFailure name error errors)), ran := true,
        deferred, called := deferred.reverse, errors } none
  | rejected (deferred : List τ) :
    Turn name (some deferred)
      { call := .start, phase := .settled (.error (alreadyStarted name)) } (some deferred)
  | stopped (deferred : List τ) (errors : List ε) :
    Turn name (some deferred)
      { call := .stop, phase := .settled (stopOutcome name errors), called := deferred.reverse,
        errors } none
  | ignored : Turn name none { call := .stop, phase := .settled (.ok none) } none

inductive Turns (name : String) :
    Option (List τ) → List (Operation τ ε ρ) → Option (List τ) → Prop where
  | nil (component : Option (List τ)) : Turns name component [] component
  | cons {component next last : Option (List τ)} {o : Operation τ ε ρ}
    {rest : List (Operation τ ε ρ)} (turn : Turn name component o next)
    (turns : Turns name next rest last) : Turns name component (o :: rest) last

/-- The turn that an operation has begun and not ended, with the state and the stack meanwhile. -/
inductive Begun : Option (List τ) → LifecycleState → List τ → Operation τ ε ρ → Prop where
  | starting (deferred : List τ) :
    Begun none .starting deferred { call := .start, phase := .running, ran := true, deferred }
  | rollingBack (deferred called teardowns : List τ) (error : ε) (errors : List ε)
    (order : called ++ teardowns.drop 1 = deferred.reverse) :
    Begun none .starting []
      { call := .start, phase := .unwinding (some error) teardowns, ran := true, deferred, called,
        errors }
  | stopping (deferred called teardowns : List τ) (errors : List ε)
    (order : called ++ teardowns.drop 1 = deferred.reverse) :
    Begun (some deferred) .stopping []
      { call := .stop, phase := .unwinding none teardowns, called, errors }

/-- The state and the stack between two turns. -/
inductive Resting : Option (List τ) → LifecycleState → List τ → Prop where
  | down : Resting none .idle []
  | up (deferred : List τ) : Resting (some deferred) .running deferred

/-- The operations of a lifecycle: turns that have ended, the one that has begun, if there is one,
and those that wait. -/
inductive Serial (l : Lifecycle τ ε ρ) : Prop where
  | resting (ended waiting : List (Operation τ ε ρ)) (component : Option (List τ))
    (operations : l.operations = ended ++ waiting)
    (turns : Turns l.name none ended component)
    (rest : Resting component l.state l.stack)
    (queued : ∀ o ∈ waiting, o = .enqueue o.call)
  | begun (ended : List (Operation τ ε ρ)) (o : Operation τ ε ρ)
    (waiting : List (Operation τ ε ρ)) (component : Option (List τ))
    (operations : l.operations = ended ++ o :: waiting)
    (turns : Turns l.name none ended component)
    (begun : Begun component l.state l.stack o)
    (queued : ∀ o ∈ waiting, o = .enqueue o.call)

section Turns

variable {name : String} {component next last : Option (List τ)} {o : Operation τ ε ρ}
  {state : LifecycleState} {stack : List τ}

theorem Turn.isSettled (H : Turn name component o next) : o.isSettled := by
  cases H <;> rfl

theorem Begun.unsettled (H : Begun component state stack o) : o.isSettled = false := by
  cases H <;> rfl

theorem Turns.snoc {ended : List (Operation τ ε ρ)} (H : Turns name component ended next)
    (turn : Turn name next o last) : Turns name component (ended ++ [o]) last := by
  induction H with
  | nil component => exact .cons turn (.nil last)
  | cons first _ ih => exact .cons first (ih turn)

theorem Turn.leaves (H : Turn name component o next) : o.leaves component = next := by
  cases H <;> rfl

theorem Turns.leaves {ended : List (Operation τ ε ρ)} (H : Turns name component ended next) :
    ended.foldl Operation.leaves component = next := by
  induction H with
  | nil => rfl
  | cons turn _ ih => rw [List.foldl_cons, turn.leaves, ih]

theorem Begun.leaves (H : Begun component state stack o) :
    o.leaves component = none ∧ state ≠ .running := by
  cases H <;> exact ⟨rfl, LifecycleState.noConfusion⟩

theorem Resting.running_iff (H : Resting component state stack) :
    state = .running ↔ component.isSome := by
  cases H <;> simp

theorem leaves_of_queued {waiting : List (Operation τ ε ρ)}
    (h : ∀ o ∈ waiting, o = .enqueue o.call) :
    waiting.foldl Operation.leaves component = component := by
  induction waiting with
  | nil => rfl
  | cons o waiting ih =>
    have h := List.forall_mem_cons.mp h
    have ho : o.leaves component = component := by
      rw [h.1]
      cases o.call <;> rfl
    rw [List.foldl_cons, ho, ih h.2]

theorem Turns.isSettled {ended : List (Operation τ ε ρ)} (H : Turns name component ended next) :
    ∀ o ∈ ended, o.isSettled := by
  induction H with
  | nil => simp
  | cons turn _ ih => exact List.forall_mem_cons.mpr ⟨turn.isSettled, ih⟩

/-- An operation goes on with its turn, or ends it. -/
inductive Advanced (name : String) (component : Option (List τ)) (state : LifecycleState)
    (stack : List τ) (o : Operation τ ε ρ) : Prop where
  | ended (next : Option (List τ)) (turn : Turn name component o next)
    (rest : Resting next state stack)
  | begun (begun : Begun component state stack o)

end Turns

section Steps

variable {l : Lifecycle τ ε ρ} {component : Option (List τ)} {o o' : Operation τ ε ρ}
  {state : LifecycleState} {stack : List τ}

theorem begin_advanced (H : Resting component l.state l.stack) (hqueued : o = .enqueue o.call)
    (h : l.begin o = (state, stack, o')) : Advanced l.name component state stack o' := by
  obtain ⟨name, lifecycleState, lifecycleStack, operations⟩ := l
  rw [hqueued] at h
  cases hcall : o.call with
  | start =>
    rw [hcall] at h
    cases H with
    | down =>
      obtain ⟨rfl, rfl, rfl⟩ := h
      exact .begun (.starting [])
    | up =>
      obtain ⟨rfl, rfl, rfl⟩ := h
      exact .ended _ (.rejected _) (.up _)
  | stop =>
    rw [hcall] at h
    cases H with
    | down =>
      obtain ⟨rfl, rfl, rfl⟩ := h
      exact .ended _ .ignored .down
    | up =>
      obtain ⟨rfl, rfl, rfl⟩ := h
      exact .begun (.stopping _ _ _ [] (List.take_append_drop 1 _))

/-- The teardowns called and those to come are the deferred ones. -/
theorem unwind_order {called teardowns deferred : List τ} {teardown : τ}
    (order : called ++ (teardown :: teardowns).drop 1 = deferred) :
    (called ++ teardowns.take 1) ++ teardowns.drop 1 = deferred := by
  rw [List.append_assoc, List.take_append_drop]
  exact order

theorem advance_advanced (H : Begun component l.state l.stack o) {isNext : Bool}
    {event : OperationEvent τ ε ρ} (h : l.advance isNext o event = some (state, stack, o')) :
    Advanced l.name component state stack o' := by
  obtain ⟨name, lifecycleState, lifecycleStack, operations⟩ := l
  cases H with
  | starting =>
    cases event with
    | begin | tornDown | unwound => cases h
    | defer teardown =>
      obtain ⟨rfl, rfl, rfl⟩ := h
      exact .begun (.starting _)
    | returned result =>
      cases result with
      | ok result =>
        obtain ⟨rfl, rfl, rfl⟩ := h
        exact .ended _ (.started _ result) (.up _)
      | error error =>
        obtain ⟨rfl, rfl, rfl⟩ := h
        exact .begun (.rollingBack _ _ _ error [] (List.take_append_drop 1 _))
  | rollingBack deferred called teardowns error errors order =>
    cases teardowns with
    | nil =>
      cases event with
      | begin | tornDown | defer | returned => cases h
      | unwound =>
        obtain ⟨rfl, rfl, rfl⟩ := h
        obtain rfl : called = deferred.reverse := by simpa using order
        exact .ended _ (.rolledBack deferred error errors) .down
    | cons teardown teardowns =>
      cases event with
      | begin | unwound | defer | returned => cases h
      | tornDown error =>
        obtain ⟨rfl, rfl, rfl⟩ := h
        exact .begun (.rollingBack deferred _ _ _ _ (unwind_order order))
  | stopping deferred called teardowns errors order =>
    cases teardowns with
    | nil =>
      cases event with
      | begin | tornDown | defer | returned => cases h
      | unwound =>
        obtain ⟨rfl, rfl, rfl⟩ := h
        obtain rfl : called = deferred.reverse := by simpa using order
        exact .ended _ (.stopped deferred errors) .down
    | cons teardown teardowns =>
      cases event with
      | begin | unwound | defer | returned => cases h
      | tornDown error =>
        obtain ⟨rfl, rfl, rfl⟩ := h
        exact .begun (.stopping deferred _ _ _ (unwind_order order))

end Steps

theorem advance_of_settled {l : Lifecycle τ ε ρ} {isNext : Bool} {o : Operation τ ε ρ}
    (h : o.isSettled) (event : OperationEvent τ ε ρ) : l.advance isNext o event = none := by
  obtain ⟨call, phase, ran, deferred, called, errors⟩ := o
  cases phase with
  | settled outcome => cases event <;> rfl
  | _ => cases h

theorem advance_of_queued {l : Lifecycle τ ε ρ} {isNext : Bool} {o : Operation τ ε ρ}
    (hqueued : o = .enqueue o.call) {event : OperationEvent τ ε ρ} {advance : Advance τ ε ρ}
    (h : l.advance isNext o event = some advance) : isNext ∧ l.begin o = advance := by
  rw [hqueued] at h ⊢
  cases event with
  | begin =>
    cases isNext with
    | false => cases h
    | true => exact ⟨rfl, Option.some.inj h⟩
  | _ => cases h

/-- Behind an operation that has not settled nobody is next. -/
theorem isNext_eq_false {l : Lifecycle τ ε ρ} {before : Nat}
    (h : ∀ o, l.operations[before]? = some o → o.isSettled = false) :
    l.isNext (before + 1) = false := by
  cases ho : l.operations[before]? with
  | none => simp only [isNext, ho, Option.any_none]
  | some o => simp only [isNext, ho, Option.any_some, h o ho]

namespace Serial

variable {l : Lifecycle τ ε ρ}

/-- The operation at the end of the ended turns has gone on. -/
theorem of_advanced {l' : Lifecycle τ ε ρ} {ended waiting : List (Operation τ ε ρ)}
    {component : Option (List τ)} {o : Operation τ ε ρ}
    (operations : l'.operations = ended ++ o :: waiting)
    (turns : Turns l'.name none ended component)
    (advanced : Advanced l'.name component l'.state l'.stack o)
    (queued : ∀ o ∈ waiting, o = .enqueue o.call) : Serial l' := by
  cases advanced with
  | ended next turn rest =>
    exact .resting (ended ++ [o]) waiting next (by simp [operations]) (turns.snoc turn) rest queued
  | begun begun => exact .begun ended o waiting component operations turns begun queued

theorem call (H : Serial l) (call : LifecycleCall) : Serial (l.step (.call call)) := by
  have hqueued : ∀ waiting : List (Operation τ ε ρ), (∀ o ∈ waiting, o = .enqueue o.call) →
      ∀ o ∈ waiting ++ [.enqueue call], o = .enqueue o.call := by
    intro waiting queued o ho
    rcases List.mem_append.mp ho with ho | ho
    · exact queued o ho
    · rw [List.mem_singleton.mp ho]
      rfl
  cases H with
  | resting ended waiting component operations turns rest queued =>
    exact .resting ended (waiting ++ [.enqueue call]) component (by simp [step, operations]) turns
      rest (hqueued waiting queued)
  | begun ended o waiting component operations turns begun queued =>
    exact .begun ended o (waiting ++ [.enqueue call]) component (by simp [step, operations]) turns
      begun (hqueued waiting queued)

theorem operation (H : Serial l) (position : Nat) (event : OperationEvent τ ε ρ) :
    Serial (l.step (.operation position event)) := by
  unfold step
  dsimp only
  split
  · exact H
  · next state stack o' hadvance =>
    obtain ⟨o, ho, hadvance⟩ := Option.bind_eq_some_iff.mp hadvance
    cases H with
    | resting ended waiting component operations turns rest queued =>
      rcases Nat.lt_or_ge position ended.length with hlt | hge
      · rw [operations, List.getElem?_append_left hlt] at ho
        rw [advance_of_settled (turns.isSettled o (List.mem_of_getElem? ho))] at hadvance
        cases hadvance
      · rw [operations, List.getElem?_append_right hge] at ho
        obtain ⟨hnext, hbegin⟩ := advance_of_queued (queued o (List.mem_of_getElem? ho)) hadvance
        cases hposition : position - ended.length with
        | succ before =>
          -- the operation before it waits as well
          have hbefore : position = (ended.length + before) + 1 := by omega
          rw [hbefore, isNext_eq_false] at hnext
          · cases hnext
          · intro o ho
            rw [operations, List.getElem?_append_right (by omega), Nat.add_sub_cancel_left] at ho
            rw [queued o (List.mem_of_getElem? ho)]
            rfl
        | zero =>
          obtain rfl : position = ended.length := by omega
          cases waiting with
          | nil => simp at ho
          | cons first waiting =>
            obtain rfl : first = o := by simpa using ho
            have queued := List.forall_mem_cons.mp queued
            have hadvanced := begin_advanced rest queued.1 hbegin
            exact of_advanced (o := o') (by simp [operations]) turns hadvanced queued.2
    | begun ended current waiting component operations turns begun queued =>
      rcases Nat.lt_or_ge position ended.length with hlt | hge
      · rw [operations, List.getElem?_append_left hlt] at ho
        rw [advance_of_settled (turns.isSettled o (List.mem_of_getElem? ho))] at hadvance
        cases hadvance
      · rw [operations, List.getElem?_append_right hge] at ho
        cases hposition : position - ended.length with
        | zero =>
          obtain rfl : position = ended.length := by omega
          obtain rfl : current = o := by simpa using ho
          have hadvanced := advance_advanced begun hadvance
          exact of_advanced (o := o') (by simp [operations]) turns hadvanced queued
        | succ before =>
          rw [hposition, List.getElem?_cons_succ] at ho
          obtain ⟨hnext, -⟩ := advance_of_queued (queued o (List.mem_of_getElem? ho)) hadvance
          have hbefore : position = (ended.length + before) + 1 := by omega
          rw [hbefore, isNext_eq_false] at hnext
          · cases hnext
          · intro o ho
            rw [operations, List.getElem?_append_right (by omega), Nat.add_sub_cancel_left] at ho
            rcases List.mem_cons.mp (List.mem_of_getElem? ho) with rfl | ho
            · exact begun.unsettled
            · rw [queued o ho]
              rfl

theorem step (H : Serial l) (event : LifecycleEvent τ ε ρ) : Serial (l.step event) := by
  cases event with
  | call call => exact H.call call
  | operation position event => exact H.operation position event

theorem after (name : String) (events : List (LifecycleEvent τ ε ρ)) :
    Serial (Lifecycle.after name events) := by
  have hempty : Serial ({ name } : Lifecycle τ ε ρ) :=
    .resting [] [] none rfl (.nil none) .down (by simp)
  exact Trace.run_inv Lifecycle.step (P := fun _ => True) (fun _ event _ H => H.step event)
    (fun _ _ => trivial) hempty

/-- An operation begins once all before it have settled. -/
theorem inOrder (H : Serial l) {before later : Nat} {o o' : Operation τ ε ρ} (hlt : before < later)
    (ho : l.operations[before]? = some o) (ho' : l.operations[later]? = some o')
    (hbegun : o'.hasBegun) : o.isSettled := by
  have hwaits : ∀ waiting : List (Operation τ ε ρ), (∀ o ∈ waiting, o = .enqueue o.call) →
      o' ∉ waiting := by
    intro waiting queued hmem
    rw [queued o' hmem] at hbegun
    cases hbegun
  cases H with
  | resting ended waiting component operations turns rest queued =>
    rw [operations] at ho ho'
    rcases Nat.lt_or_ge later ended.length with hlater | hlater
    · rw [List.getElem?_append_left (Nat.lt_trans hlt hlater)] at ho
      exact turns.isSettled o (List.mem_of_getElem? ho)
    · rw [List.getElem?_append_right hlater] at ho'
      exact absurd (List.mem_of_getElem? ho') (hwaits waiting queued)
  | begun ended current waiting component operations turns begun queued =>
    rw [operations] at ho ho'
    rcases Nat.lt_or_ge before ended.length with hbefore | hbefore
    · rw [List.getElem?_append_left hbefore] at ho
      exact turns.isSettled o (List.mem_of_getElem? ho)
    · rw [List.getElem?_append_right (by omega)] at ho'
      obtain ⟨index, hindex⟩ : ∃ index, later - ended.length = index + 1 :=
        ⟨later - ended.length - 1, by omega⟩
      rw [hindex, List.getElem?_cons_succ] at ho'
      exact absurd (List.mem_of_getElem? ho') (hwaits waiting queued)

theorem running_iff (H : Serial l) :
    l.state = .running ↔ (l.operations.foldl Operation.leaves none).isSome := by
  cases H with
  | resting ended waiting component operations turns rest queued =>
    rw [operations, List.foldl_append, turns.leaves, leaves_of_queued queued]
    exact rest.running_iff
  | begun ended o waiting component operations turns begun queued =>
    obtain ⟨hleaves, hstate⟩ := begun.leaves
    rw [operations, List.foldl_append, turns.leaves, List.foldl_cons, hleaves,
      leaves_of_queued queued]
    exact iff_of_false hstate Bool.false_ne_true

end Serial

/-! ## What an operation hears -/

end Lifecycle

namespace OperationEvent

def deferred : OperationEvent τ ε ρ → List τ
  | .defer teardown => [teardown]
  | _ => []

def thrown : OperationEvent τ ε ρ → List ε
  | .tornDown error => error.toList
  | _ => []

end OperationEvent

namespace Operation

variable {o : Operation τ ε ρ}

/-- The events that are still to come for an operation. -/
def Awaits (o : Operation τ ε ρ) : OperationEvent τ ε ρ → Prop
  | .begin => o.phase = .queued
  | .defer _ | .returned _ => o.phase = .running
  | .tornDown _ => ∃ cause teardown teardowns, o.phase = .unwinding cause (teardown :: teardowns)
  | .unwound => ∃ cause, o.phase = .unwinding cause []

/-- The phase that an event takes the operation to. -/
def Follows (name : String) (o o' : Operation τ ε ρ) : OperationEvent τ ε ρ → Prop
  | .begin => o'.hasBegun
  | .defer _ => o'.phase = .running
  | .returned (.ok result) => o'.phase = .settled (.ok (some result))
  | .returned (.error error) => ∃ teardowns, o'.phase = .unwinding (some error) teardowns
  | .tornDown _ => ∃ cause teardown teardowns,
    o.phase = .unwinding cause (teardown :: teardowns) ∧ o'.phase = .unwinding cause teardowns
  | .unwound => ∃ cause, o.phase = .unwinding cause [] ∧
    o'.phase = .settled (Lifecycle.unwoundOutcome name o.errors cause)

/-- What becomes of an operation with an event that it awaits. -/
structure Heard (name : String) (o : Operation τ ε ρ) (event : OperationEvent τ ε ρ)
    (o' : Operation τ ε ρ) : Prop where
  call : o'.call = o.call
  deferred : o'.deferred = o.deferred ++ event.deferred
  errors : o'.errors = o.errors ++ event.thrown
  phase : o.Follows name o' event

/-- A bound on the answers an operation takes, deferrals and the teardowns of the stack aside. -/
def weight (o : Operation τ ε ρ) : Nat :=
  match o.phase with
  | .queued => 3
  | .running => 2
  | .unwinding _ teardowns => teardowns.length + 1
  | .settled _ => 0

end Operation

namespace Lifecycle

open Operation

/-- The events that have to come; the operations before one that begins have settled. -/
def Awaits (l : Lifecycle τ ε ρ) : LifecycleEvent τ ε ρ → Prop
  | .call _ => False
  | .operation position event => ∃ o, l.operations[position]? = some o ∧ o.Awaits event ∧
    (event = .begin → ∀ o ∈ l.operations.take position, o.isSettled)

section Answers

variable {l : Lifecycle τ ε ρ} {o : Operation τ ε ρ} {isNext : Bool}
  {event : OperationEvent τ ε ρ}

theorem weight_unwind (o : Operation τ ε ρ) (cause : Option ε) (teardowns : List τ) :
    (o.unwind cause teardowns).weight = teardowns.length + 1 := rfl

theorem begin_heard (hphase : o.phase = .queued) :
    o.Heard l.name .begin (l.begin o).2.2 ∧
      (l.begin o).2.2.weight + (l.begin o).2.1.length + 1 ≤ o.weight + l.stack.length := by
  obtain ⟨call, phase, ran, deferred, called, errors⟩ := o
  obtain rfl : phase = .queued := hphase
  unfold begin
  cases call with
  | start =>
    dsimp only
    split
    · exact ⟨⟨rfl, (List.append_nil _).symm, (List.append_nil _).symm, rfl⟩,
        by dsimp only [weight]; omega⟩
    · exact ⟨⟨rfl, (List.append_nil _).symm, (List.append_nil _).symm, rfl⟩,
        by dsimp only [weight, settle]; omega⟩
  | stop =>
    dsimp only
    split
    · refine ⟨⟨rfl, (List.append_nil _).symm, (List.append_nil _).symm, rfl⟩, ?_⟩
      rw [weight_unwind, List.length_reverse]
      simp [weight]
      omega
    · exact ⟨⟨rfl, (List.append_nil _).symm, (List.append_nil _).symm, rfl⟩,
        by dsimp only [weight, settle]; omega⟩

theorem advance_of_awaits (hevent : o.Awaits event) (hnext : event = .begin → isNext = true) :
    ∃ state stack o', l.advance isNext o event = some (state, stack, o') ∧
      o.Heard l.name event o' ∧
      o'.weight + stack.length + 1 ≤ o.weight + l.stack.length + 2 * event.deferred.length := by
  obtain ⟨call, phase, ran, deferred, called, errors⟩ := o
  cases event with
  | begin =>
    obtain rfl : phase = .queued := hevent
    rw [hnext rfl]
    exact ⟨_, _, _, rfl, begin_heard rfl⟩
  | defer teardown =>
    obtain rfl : phase = .running := hevent
    refine ⟨_, _, _, rfl, ⟨rfl, rfl, (List.append_nil _).symm, rfl⟩, ?_⟩
    simp [weight, OperationEvent.deferred]
    omega
  | returned result =>
    obtain rfl : phase = .running := hevent
    refine ⟨_, _, _, rfl, ?_⟩
    cases result with
    | ok result =>
      exact ⟨⟨rfl, (List.append_nil _).symm, (List.append_nil _).symm, rfl⟩,
        by dsimp only [weight, settle]; omega⟩
    | error error =>
      refine ⟨⟨rfl, (List.append_nil _).symm, (List.append_nil _).symm, _, rfl⟩, ?_⟩
      rw [weight_unwind, List.length_reverse]
      simp [weight]
      omega
  | tornDown error =>
    obtain ⟨cause, teardown, teardowns, hphase⟩ := hevent
    obtain rfl : phase = _ := hphase
    refine ⟨_, _, _, rfl, ⟨rfl, (List.append_nil _).symm, rfl, _, _, _, rfl, rfl⟩, ?_⟩
    simp only [weight_unwind]
    simp [weight]
    omega
  | unwound =>
    obtain ⟨cause, hphase⟩ := hevent
    obtain rfl : phase = _ := hphase
    exact ⟨_, _, _, rfl, ⟨rfl, (List.append_nil _).symm, (List.append_nil _).symm, _, rfl, rfl⟩,
      by simp [weight, settle]; omega⟩

theorem advance_of_not_awaits (hevent : ¬ o.Awaits event) : l.advance isNext o event = none := by
  unfold advance
  split
  · next hphase => exact absurd hphase hevent
  · next hphase => exact absurd hphase hevent
  · next hphase => exact absurd hphase hevent
  · next hphase => exact absurd ⟨_, _, _, hphase⟩ hevent
  · next hphase => exact absurd ⟨_, hphase⟩ hevent
  · rfl

theorem Serial.isNext_iff (H : Serial l) {position : Nat}
    (ho : l.operations[position]? = some o) :
    l.isNext position = true ↔ ∀ o ∈ l.operations.take position, o.isSettled := by
  cases position with
  | zero => simp [isNext]
  | succ before =>
    have hlt : before < l.operations.length := by
      have := (List.getElem?_eq_some_iff.mp ho).1
      omega
    simp only [isNext, List.getElem?_eq_getElem hlt, Option.any_some]
    constructor
    · intro hsettled o' ho'
      obtain ⟨index, hindex, rfl⟩ := List.mem_take_iff_getElem.mp ho'
      rcases Nat.lt_or_ge index before with hbefore | hbefore
      · refine H.inOrder hbefore (List.getElem?_eq_getElem _) (List.getElem?_eq_getElem hlt) ?_
        revert hsettled
        unfold isSettled hasBegun
        cases l.operations[before].phase <;> simp
      · obtain rfl : index = before := by omega
        exact hsettled
    · exact fun h => h _ (List.mem_take_iff_getElem.mpr ⟨before, by omega, rfl⟩)

/-- An event that no operation awaits changes nothing. -/
theorem Serial.stays (H : Serial l) {position : Nat}
    (hevent : ¬ l.Awaits (.operation position event)) :
    l.step (.operation position event) = l := by
  have hnone : l.operations[position]?.bind (l.advance (l.isNext position) · event) = none := by
    refine Option.bind_eq_none_iff.mpr fun o ho => ?_
    by_cases hawaits : o.Awaits event
    · -- the operation has to wait for those before it
      have hnot : ¬ (event = .begin → l.isNext position = true) := fun h =>
        hevent ⟨o, ho, hawaits, fun hbegin => (H.isNext_iff ho).mp (h hbegin)⟩
      obtain ⟨rfl, hnext⟩ := Classical.not_imp.mp hnot
      have hphase : o.phase = .queued := hawaits
      unfold advance
      rw [hphase]
      exact if_neg hnext
    · exact advance_of_not_awaits hawaits
  simp only [Lifecycle.step, hnone]

/-- The answers that the operations can still take. -/
def weight (l : Lifecycle τ ε ρ) : Nat := (l.operations.map Operation.weight).sum + l.stack.length

theorem sum_set {operations : List (Operation τ ε ρ)} {position : Nat} {o : Operation τ ε ρ}
    (ho : operations[position]? = some o) (o' : Operation τ ε ρ) :
    ((operations.set position o').map Operation.weight).sum + o.weight =
      (operations.map Operation.weight).sum + o'.weight := by
  induction operations generalizing position with
  | nil => cases ho
  | cons first rest ih =>
    cases position with
    | zero =>
      obtain rfl : first = o := by simpa using ho
      simp
      omega
    | succ position =>
      have hrest := ih (by simpa using ho)
      rw [List.set_cons_succ, List.map_cons, List.sum_cons, List.map_cons, List.sum_cons]
      omega

def deferrals : LifecycleEvent τ ε ρ → Nat
  | .operation _ event => event.deferred.length
  | .call _ => 0

theorem Serial.heeds (H : Serial l) {position : Nat} (ho : l.operations[position]? = some o)
    (hevent : l.Awaits (.operation position event)) :
    ∃ o', (l.step (.operation position event)).operations = l.operations.set position o' ∧
      o.Heard l.name event o' ∧
      (l.step (.operation position event)).weight + 1 ≤
        l.weight + 2 * deferrals (.operation position event) := by
  obtain ⟨o₁, ho₁, hawaits, hbegin⟩ := hevent
  obtain rfl : o₁ = o := Option.some.inj (ho₁.symm.trans ho)
  obtain ⟨state, stack, o', hadvance, heard, hweight⟩ :=
    advance_of_awaits (l := l) hawaits fun h => (H.isNext_iff ho).mpr (hbegin h)
  have hstep : l.step (.operation position event) =
      { l with state, stack, operations := l.operations.set position o' } := by
    simp only [Lifecycle.step, ho, Option.bind_some, hadvance]
  refine ⟨o', by rw [hstep], heard, ?_⟩
  have hsum := sum_set ho o'
  rw [hstep]
  simp only [Lifecycle.weight, deferrals]
  omega

theorem length_answers (H : Serial l) (answers : List (LifecycleEvent τ ε ρ))
    (hanswers : Trace.Admits step Awaits l answers) :
    answers.length ≤ l.weight + 2 * (answers.map deferrals).sum := by
  induction answers generalizing l with
  | nil => exact Nat.zero_le _
  | cons event answers ih =>
    cases event with
    | call call => exact hanswers.1.elim
    | operation position event =>
      obtain ⟨o, ho, -⟩ := hanswers.1
      obtain ⟨o', -, -, hweight⟩ := H.heeds ho hanswers.1
      have hrest := ih (H.step _) hanswers.2
      rw [List.length_cons, List.map_cons, List.sum_cons]
      omega

theorem Begun.awaits {component : Option (List τ)} {state : LifecycleState} {stack : List τ}
    (H : Begun component state stack o) (result : Except ε ρ) :
    ∃ event, event ≠ .begin ∧ o.Awaits event := by
  cases H with
  | starting => exact ⟨.returned result, by simp, rfl⟩
  | rollingBack _ _ teardowns | stopping _ _ teardowns =>
    cases teardowns with
    | nil => exact ⟨.unwound, by simp, _, rfl⟩
    | cons teardown teardowns => exact ⟨.tornDown none, by simp, _, _, _, rfl⟩

/-- Whatever its run function returns, an operation that is next waits for something. -/
theorem Serial.answerable (H : Serial l) (result : Except ε ρ)
    (hsettled : ¬ ∀ o ∈ l.operations, o.isSettled) : ∃ event, l.Awaits event := by
  cases H with
  | resting ended waiting component operations turns rest queued =>
    cases waiting with
    | nil =>
      refine absurd (fun o ho => turns.isSettled o ?_) hsettled
      simpa [operations] using ho
    | cons o waiting =>
      have hqueued := queued o List.mem_cons_self
      refine ⟨.operation ended.length .begin, o, by simp [operations], ?_, fun _ => ?_⟩
      · rw [hqueued]
        rfl
      · rw [operations, List.take_left]
        exact turns.isSettled
  | begun ended o waiting component operations turns begun queued =>
    obtain ⟨event, hbegin, hawaits⟩ := begun.awaits result
    exact ⟨.operation ended.length event, o, by simp [operations], hawaits,
      fun h => absurd h hbegin⟩

end Answers

/-- Calls are enqueued, events reach the operation that awaits them, and what the operations wait
for brings them to an end. -/
structure Handled (l : Lifecycle τ ε ρ) : Prop where
  call : ∀ call, (l.step (.call call)).operations = l.operations ++ [.enqueue call]
  heeds : ∀ position event o, l.operations[position]? = some o →
    l.Awaits (.operation position event) → ∃ o',
      (l.step (.operation position event)).operations = l.operations.set position o' ∧
        o.Heard l.name event o'
  stays : ∀ position event, ¬ l.Awaits (.operation position event) →
    l.step (.operation position event) = l
  answerable : ∀ _ : Except ε ρ, (∀ o ∈ l.operations, o.isSettled) ∨ ∃ event, l.Awaits event
  advances : ∃ bound, ∀ answers, Trace.Admits step Awaits l answers →
    answers.length ≤ bound + 2 * (answers.map deferrals).sum

theorem Serial.handled {l : Lifecycle τ ε ρ} (H : Serial l) : Handled l where
  call _ := rfl
  heeds position event o ho hevent := by
    obtain ⟨o', hoperations, heard, -⟩ := H.heeds ho hevent
    exact ⟨o', hoperations, heard⟩
  stays _ _ := H.stays
  answerable result := or_iff_not_imp_left.mpr (H.answerable result)
  advances := ⟨l.weight, length_answers H⟩

/-- The operations take their turns one at a time in the order of the calls, every event is handled,
and the state is `running` exactly from a start that has succeeded to the next stop. -/
theorem serialized (name : String) (events : List (LifecycleEvent τ ε ρ)) :
    let l := after name events
    Serial l ∧ Handled l ∧
      (∀ (before later : Nat) (o o' : Operation τ ε ρ), before < later →
        l.operations[before]? = some o → l.operations[later]? = some o' → o'.hasBegun →
        o.isSettled) ∧
      (l.state = .running ↔ (l.operations.foldl Operation.leaves none).isSome) := by
  have H : Serial (after name events) := .after name events
  exact ⟨H, H.handled, fun _ _ _ _ hlt ho ho' hbegun => H.inOrder hlt ho ho' hbegun, H.running_iff⟩

end Lifecycle

end Neemata.Common
