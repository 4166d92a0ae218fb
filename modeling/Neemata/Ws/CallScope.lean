import Neemata.Ws.RpcSession
import Neemata.Lib.Trace

/-!
# The scope of a call

`Gateway.onRpc` forks a container for every call and disposes it when the call ends. For a stream
that is up to the generator of `handleIterableOutput`, which calls the dispose function in its
`finally`; `handleRpc` advances the generator and returns it when it leaves. The generator follows
the specification of asynchronous generators: its requests are queued, and to return one that has
never been advanced runs none of its body.

What `handleRpc` can do with the generator at each of its awaits is `Held`; how it goes from one to
the next is `Moves`.
-/

namespace Neemata.Ws

inductive GeneratorState where
  | suspendedStart
  | executing
  | suspendedYield
  /-- The body has been resumed with a return. -/
  | closing
  | completed
deriving DecidableEq

inductive GeneratorRequest where
  | next
  | return
deriving DecidableEq

/-- What a `next` has settled with. -/
inductive Settled where
  | value
  | done
  | thrown
deriving DecidableEq

structure AsyncGenerator where
  state : GeneratorState := .suspendedStart
  /-- The requests that have not settled; the first one is being served. -/
  requests : List GeneratorRequest := []
  /-- The last `next` has settled. -/
  settled : Option Settled := none
deriving DecidableEq

namespace AsyncGenerator

/-- The generator takes up its first request, unless its body is running. -/
def serve (g : AsyncGenerator) : AsyncGenerator :=
  match g.state, g.requests with
  | .suspendedStart, .next :: _ | .suspendedYield, .next :: _ => { g with state := .executing }
  | .suspendedStart, .return :: _ => { g with state := .completed, requests := [] }
  | .suspendedYield, .return :: _ => { g with state := .closing }
  | .completed, _ => { g with requests := [] }
  | _, _ => g

def request (g : AsyncGenerator) (request : GeneratorRequest) : AsyncGenerator :=
  serve { g with
    requests := g.requests ++ [request]
    settled := if request = .next then none else g.settled }

/-- The body yields. -/
def yields (g : AsyncGenerator) : AsyncGenerator :=
  match g.state, g.requests with
  | .executing, _ :: requests =>
    serve { g with state := .suspendedYield, requests, settled := some .value }
  | .closing, _ :: requests => serve { g with state := .suspendedYield, requests }
  | _, _ => g

/-- The body is running. -/
def isRunning (g : AsyncGenerator) : Bool := g.state = .executing || g.state = .closing

/-- The body ends; its `finally` has run. -/
def finish (g : AsyncGenerator) (throws : Bool) : AsyncGenerator :=
  { g with
    state := .completed
    requests := []
    settled := if g.state = .executing then some (if throws then .thrown else .done)
      else g.settled }

end AsyncGenerator

/-- What `api.call` comes to. -/
inductive CallResult where
  /-- It throws, or its result is not a function. -/
  | plain
  /-- The function that `handleIterableOutput` returns. -/
  | stream
  /-- The procedure's value is itself a function, which runs `dispose` that often. -/
  | function (disposals : Nat)
deriving DecidableEq

/-- A call with its scope. -/
structure ScopedCall where
  call : Call
  generator : Option AsyncGenerator := none
  /-- How often `dispose` has been called. -/
  disposals : Nat := 0
  /-- The controller of the call is in `connectionCalls`. -/
  tracked : Bool := true

inductive ScopeEvent where
  /-- `onRpc` returns; `response` is what it comes to unless the call is a stream. -/
  | onRpc (result : CallResult) (response : Response) (errorEncodes : Bool) (sent : SendResult)
  /-- Anything else that happens in `handleRpc`. -/
  | call (event : CallEvent)
  /-- The body of the generator yields. -/
  | yields
  /-- The body of the generator ends. -/
  | finish (throws : Bool)
  /-- `abortCalls` takes the calls of the connection. -/
  | abortCalls

/-- `handleRpc` has an iterator. -/
def Phase.iterating : Phase → Bool
  | .awaitingCredit _ | .awaitingNext | .sendingChunk _ => true
  | .dispatching | .opening _ | .unwinding | .settled | .rejected => false

/-- The head of the streaming loop comes next. -/
def Phase.looping : Phase → Bool
  | .opening _ | .awaitingCredit _ | .sendingChunk _ => true
  | .dispatching | .awaitingNext | .unwinding | .settled | .rejected => false

/-- The result of `next` that a settled `next` has. -/
def Settled.agrees : Settled → Next → Bool
  | .value, .value _ | .done, .done | .thrown, .thrown => true
  | _, _ => false

/-- `handleRpc` calls `next` on its way to the await of a step, and `return` on its way out of the
loop. -/
def AsyncGenerator.drive (phase phase' : Phase) (g : AsyncGenerator) : AsyncGenerator :=
  if phase' = .awaitingNext ∧ phase ≠ .awaitingNext then g.request .next
  else if phase' = .unwinding ∧ phase.iterating then g.request .return
  else g

namespace ScopedCall

variable (s : ScopedCall)

/-- `onRpc` has been called. -/
def new (callId : Nat) : ScopedCall where
  call := Call.new callId

/-- The dispose function of the call. -/
def dispose : ScopedCall := { s with disposals := s.disposals + 1, tracked := false }

def follow (call : Call) : ScopedCall :=
  { s with call, generator := s.generator.map (·.drive s.call.phase call.phase) }

def onRpc (result : CallResult) (response : Response) (errorEncodes : Bool) (sent : SendResult) :
    ScopedCall :=
  if s.call.phase = .dispatching then
    let call response := s.call.step (.onRpc response errorEncodes sent)
    match result with
    | .plain => { s.dispose with call := call response }
    | .stream => { s with call := call .asyncIterable, generator := some {} }
    | .function disposals =>
      { s with
        call := call response
        disposals := s.disposals + disposals
        tracked := s.tracked && disposals = 0 }
  else s

/-- A `next` goes on with what the generator has settled it with; a generator is its own
iterator. -/
def admits (event : CallEvent) : Bool :=
  match event, s.generator with
  | .onRpc _ _ _, _ => false
  | .opened iterates _, some _ => iterates
  | .next result _, some g => g.settled.any (·.agrees result)
  | _, _ => true

def yields : ScopedCall := { s with generator := s.generator.map (·.yields) }

/-- `onDone` is called in the `finally` of the generator. -/
def finish (throws : Bool) : ScopedCall :=
  match s.generator with
  | some g => if g.isRunning then { s.dispose with generator := some (g.finish throws) } else s
  | none => s

def step (s : ScopedCall) : ScopeEvent → ScopedCall
  | .onRpc result response errorEncodes sent => s.onRpc result response errorEncodes sent
  | .call event => if s.admits event then s.follow (s.call.step event) else s
  | .yields => s.yields
  | .finish throws => s.finish throws
  | .abortCalls => { s with tracked := false }

/-- The scope is released at most once, and it is released when `handleRpc` has returned and every
step of the generator has settled. -/
structure Released : Prop where
  once : s.disposals ≤ 1
  released : s.call.phase.over = true → (∀ g, s.generator = some g → g.requests = []) →
    s.disposals = 1 ∧ s.tracked = false

/-- The condition on what happens to a stream in `handleRpc`: nothing ends it before its first
step. -/
def Advances (c : Call) (g : AsyncGenerator) (event : CallEvent) : Prop :=
  match c.phase, event with
  | .opening openingSent, .opened _ _ => openingSent ≠ .dropped ∧ c.aborted = false
  | .awaitingCredit true, .granted _ => g.state = .suspendedStart → c.aborted = false
  | .awaitingCredit _, .flowRejected _ => g.state = .suspendedStart → c.flow = none
  | _, _ => True

/-- Besides, a stream that is returned does not yield another value, and a procedure whose value is
a function has it run `dispose` once. -/
def Fits (s : ScopedCall) : ScopeEvent → Prop
  | .onRpc .plain _ _ _ => True
  | .onRpc .stream _ _ _ => s.call.aborted = false
  | .onRpc (.function disposals) _ _ _ => disposals = 1
  | .call event => ∀ g, s.generator = some g → Advances s.call g event
  | .yields => ∀ g, s.generator = some g → g.state ≠ .closing
  | .finish _ | .abortCalls => True

end ScopedCall

/-! ## The generator at each await -/

/-- The generator while `handleRpc` is in a phase. -/
def Held (g : AsyncGenerator) : Phase → Prop
  | .opening _ => g.state = .suspendedStart ∧ g.requests = []
  | .awaitingCredit _ =>
    (g.state = .suspendedStart ∨ g.state = .suspendedYield) ∧ g.requests = []
  | .awaitingNext =>
    (g.state = .executing ∧ g.requests = [.next] ∧ g.settled = none) ∨
      (g.state = .suspendedYield ∧ g.requests = [] ∧ g.settled = some .value) ∨
      (g.state = .completed ∧ g.requests = [] ∧ g.settled ≠ some .value)
  | .sendingChunk _ => g.state = .suspendedYield ∧ g.requests = []
  | .unwinding | .settled =>
    (g.state = .executing ∧ g.requests = [.next, .return]) ∨
      (g.state = .closing ∧ g.requests = [.return]) ∨ (g.state = .completed ∧ g.requests = [])
  | .dispatching | .rejected => False

/-- How `handleRpc` goes from one phase to the next while it has the generator. -/
inductive Moves (g : AsyncGenerator) : Phase → Phase → Prop where
  | stays (phase : Phase) : Moves g phase phase
  | granted (granted : Bool) : Moves g (.awaitingCredit granted) (.awaitingCredit true)
  | waits {phase : Phase} : phase.looping = true → Moves g phase (.awaitingCredit false)
  | pulls {phase : Phase} : phase.looping = true → Moves g phase .awaitingNext
  | sends (sent : SendResult) : g.settled = some .value → Moves g .awaitingNext (.sendingChunk sent)
  | leaves {phase : Phase} : phase.iterating = true → g.state ≠ .suspendedStart →
      Moves g phase .unwinding
  | unwound : Moves g .unwinding .settled

namespace Held

variable {g : AsyncGenerator} {phase phase' : Phase}

/-- At the head of the loop the generator is suspended. -/
theorem suspended (H : Held g phase) (hlooping : phase.looping = true) :
    (g.state = .suspendedStart ∨ g.state = .suspendedYield) ∧ g.requests = [] := by
  cases phase with
  | opening sent => exact ⟨.inl H.1, H.2⟩
  | awaitingCredit granted => exact H
  | sendingChunk sent => exact ⟨.inr H.1, H.2⟩
  | dispatching | awaitingNext | unwinding | settled | rejected => cases hlooping

theorem request_next (hstate : g.state = .suspendedStart ∨ g.state = .suspendedYield)
    (hrequests : g.requests = []) :
    g.request .next = { g with state := .executing, requests := [.next], settled := none } := by
  obtain hstate | hstate := hstate
  all_goals simp only [AsyncGenerator.request, AsyncGenerator.serve, hstate, hrequests,
    List.nil_append, if_true]

/-- What is left of a step when the generator is returned. -/
theorem request_return (H : Held g phase) (hiterating : phase.iterating = true)
    (hstart : g.state ≠ .suspendedStart) :
    Held (g.request .return) .unwinding ∧
      ((g.request .return).state = .completed ↔ g.state = .completed) := by
  have hyield (hstate : g.state = .suspendedYield) (hrequests : g.requests = []) :
      g.request .return = { g with state := .closing, requests := [.return] } := by
    simp [AsyncGenerator.request, AsyncGenerator.serve, hstate, hrequests]
  cases phase with
  | awaitingCredit granted =>
    rw [hyield (H.1.resolve_left hstart) H.2, H.1.resolve_left hstart]
    exact ⟨.inr (.inl ⟨rfl, rfl⟩), by simp⟩
  | sendingChunk sent =>
    rw [hyield H.1 H.2, H.1]
    exact ⟨.inr (.inl ⟨rfl, rfl⟩), by simp⟩
  | awaitingNext =>
    obtain ⟨hstate, hrequests, -⟩ | ⟨hstate, hrequests, -⟩ | ⟨hstate, hrequests, -⟩ := H
    · simp [AsyncGenerator.request, AsyncGenerator.serve, hstate, hrequests, Held]
    · rw [hyield hstate hrequests, hstate]
      exact ⟨.inr (.inl ⟨rfl, rfl⟩), by simp⟩
    · simp [AsyncGenerator.request, AsyncGenerator.serve, hstate, hrequests, Held]
  | dispatching | opening _ | unwinding | settled | rejected => cases hiterating

/-- A move of `handleRpc` leaves the generator as the next phase wants it, and completes it only if
it had completed. -/
theorem drive (H : Held g phase) (M : Moves g phase phase') :
    Held (g.drive phase phase') phase' ∧
      ((g.drive phase phase').state = .completed ↔ g.state = .completed) := by
  cases M with
  | stays =>
    have hdrive : g.drive phase phase = g := by
      rw [AsyncGenerator.drive, if_neg fun h => h.2 h.1, if_neg]
      rintro ⟨rfl, hiterating⟩
      cases hiterating
    rw [hdrive]
    exact ⟨H, Iff.rfl⟩
  | granted granted => exact ⟨H, Iff.rfl⟩
  | waits hlooping => exact ⟨H.suspended hlooping, Iff.rfl⟩
  | pulls hlooping =>
    obtain ⟨hstate, hrequests⟩ := H.suspended hlooping
    have hne : phase ≠ .awaitingNext := by
      rintro rfl
      cases hlooping
    rw [AsyncGenerator.drive, if_pos ⟨rfl, hne⟩, request_next hstate hrequests]
    refine ⟨.inl ⟨rfl, rfl, rfl⟩, ?_⟩
    obtain hstate | hstate := hstate <;> simp [hstate]
  | sends sent hsettled =>
    obtain ⟨-, -, h⟩ | ⟨hstate, hrequests, -⟩ | ⟨-, -, h⟩ := H
    · cases hsettled.symm.trans h
    · exact ⟨⟨hstate, hrequests⟩, Iff.rfl⟩
    · exact absurd hsettled h
  | leaves hiterating hstart =>
    rw [AsyncGenerator.drive, if_neg (fun h => by cases h.1), if_pos ⟨rfl, hiterating⟩]
    exact H.request_return hiterating hstart
  | unwound => exact ⟨H, Iff.rfl⟩

/-- The phases in which the generator can be running. -/
theorem of_running (H : Held g phase) (hrunning : g.isRunning = true) :
    (phase = .awaitingNext ∧ g.state = .executing ∧ g.requests = [.next]) ∨
      ((phase = .unwinding ∨ phase = .settled) ∧
        (g.state = .executing ∧ g.requests = [.next, .return] ∨
          g.state = .closing ∧ g.requests = [.return])) := by
  have hnot {state : GeneratorState} (hstate : g.state = state)
      (h : state ≠ .executing ∧ state ≠ .closing) : False := by
    simp [AsyncGenerator.isRunning, hstate, h] at hrunning
  cases phase with
  | opening sent => exact (hnot H.1 (by decide)).elim
  | awaitingCredit granted =>
    obtain ⟨hstate | hstate, -⟩ := H
    · exact (hnot hstate (by decide)).elim
    · exact (hnot hstate (by decide)).elim
  | sendingChunk sent => exact (hnot H.1 (by decide)).elim
  | awaitingNext =>
    obtain ⟨hstate, hrequests, -⟩ | ⟨hstate, -, -⟩ | ⟨hstate, -, -⟩ := H
    · exact .inl ⟨rfl, hstate, hrequests⟩
    · exact (hnot hstate (by decide)).elim
    · exact (hnot hstate (by decide)).elim
  | unwinding | settled =>
    obtain h | h | ⟨hstate, -⟩ := H
    · exact .inr ⟨by simp, .inl h⟩
    · exact .inr ⟨by simp, .inr h⟩
    · exact (hnot hstate (by decide)).elim
  | dispatching | rejected => exact H.elim

theorem yields (H : Held g phase) (hclosing : g.state ≠ .closing) :
    Held g.yields phase ∧ (g.yields.state = .completed ↔ g.state = .completed) := by
  cases hrunning : g.isRunning with
  | false =>
    have hyields : g.yields = g := by
      unfold AsyncGenerator.isRunning at hrunning
      unfold AsyncGenerator.yields
      split
      · next hstate _ => simp [hstate] at hrunning
      · next hstate _ => simp [hstate] at hrunning
      · rfl
    rw [hyields]
    exact ⟨H, Iff.rfl⟩
  | true =>
    obtain ⟨rfl, hstate, hrequests⟩ | ⟨rfl | rfl, ⟨hstate, hrequests⟩ | ⟨hstate, -⟩⟩ :=
      H.of_running hrunning
    · simp [AsyncGenerator.yields, AsyncGenerator.serve, hstate, hrequests, Held]
    · simp [AsyncGenerator.yields, AsyncGenerator.serve, hstate, hrequests, Held]
    · exact absurd hstate hclosing
    · simp [AsyncGenerator.yields, AsyncGenerator.serve, hstate, hrequests, Held]
    · exact absurd hstate hclosing

theorem finish (H : Held g phase) (hrunning : g.isRunning = true) (throws : Bool) :
    Held (g.finish throws) phase := by
  obtain ⟨rfl, hstate, -⟩ | ⟨rfl | rfl, -⟩ := H.of_running hrunning
  · refine .inr (.inr ⟨rfl, rfl, ?_⟩)
    cases throws <;> simp [AsyncGenerator.finish, hstate]
  · exact .inr (.inr ⟨rfl, rfl⟩)
  · exact .inr (.inr ⟨rfl, rfl⟩)

/-- When `handleRpc` has returned and no step is left, the body has ended. -/
theorem completed (H : Held g phase) (hover : phase.over = true) (hrequests : g.requests = []) :
    g.state = .completed := by
  cases phase with
  | settled =>
    obtain ⟨-, h⟩ | ⟨-, h⟩ | ⟨hstate, -⟩ := H
    · cases hrequests.symm.trans h
    · cases hrequests.symm.trans h
    · exact hstate
  | rejected => exact H.elim
  | dispatching | opening _ | awaitingCredit _ | awaitingNext | sendingChunk _ | unwinding =>
    cases hover

end Held

/-! ## The steps of `handleRpc` -/

namespace Call

variable {c : Call} {g : AsyncGenerator}

theorem loop_phase (c : Call) :
    c.loop.phase = .awaitingCredit false ∨ c.loop.phase = .awaitingNext := by
  unfold loop
  split
  · exact .inl rfl
  · exact .inr rfl

theorem moves_loop (hlooping : c.phase.looping = true) : Moves g c.phase c.loop.phase := by
  obtain hphase | hphase := c.loop_phase
  · rw [hphase]
    exact .waits hlooping
  · rw [hphase]
    exact .pulls hlooping

theorem moves_next (hphase : c.phase = .awaitingNext) (result : Next) (sent : SendResult)
    (hsettled : g.settled.any (·.agrees result) = true) (hstart : g.state ≠ .suspendedStart) :
    Moves g c.phase (c.next result sent).phase := by
  have hleaves : Moves g c.phase .unwinding := .leaves (by rw [hphase]; rfl) hstart
  cases result with
  | done => exact hleaves
  | thrown => exact hleaves
  | value chunk =>
    change Moves g c.phase (if c.aborted = true then _ else _ : Call).phase
    split
    · exact hleaves
    · cases chunk with
      | none => exact hleaves
      | some chunk =>
        rw [hphase]
        refine .sends sent ?_
        cases hs : g.settled with
        | none => rw [hs] at hsettled; cases hsettled
        | some settled =>
          rw [hs] at hsettled
          cases settled with
          | value => rfl
          | done => cases hsettled
          | thrown => cases hsettled

theorem moves_rpcStreamPull (size : Nat) : Moves g c.phase (c.rpcStreamPull size).phase := by
  unfold rpcStreamPull
  split
  · exact .stays _
  · dsimp only
    split
    · next granted hphase =>
      rw [hphase]
      exact .granted granted
    · exact .stays _

/-- While `handleRpc` has the generator, an event that it admits takes it along. -/
theorem moves (H : Held g c.phase) (event : CallEvent)
    (hnot : ∀ response errorEncodes sent, event ≠ .onRpc response errorEncodes sent)
    (hopened : ∀ iterates sent, event = .opened iterates sent → iterates = true)
    (hnext : ∀ result sent, event = .next result sent → g.settled.any (·.agrees result) = true)
    (hadvances : ScopedCall.Advances c g event) : Moves g c.phase (c.step event).phase := by
  have hnext_started (hphase : c.phase = .awaitingNext) : g.state ≠ .suspendedStart := by
    rw [hphase] at H
    obtain ⟨h, -⟩ | ⟨h, -⟩ | ⟨h, -⟩ := H <;> simp [h]
  unfold step
  split
  · exact absurd rfl (hnot _ _ _)
  · next hphase =>
    -- the generator is its own iterator, so only the stream's end could end the call here
    simp only [ScopedCall.Advances, hphase] at hadvances
    have hiterates := hopened _ _ rfl
    simp only [opened, if_neg hadvances.1, hadvances.2, hiterates, Bool.not_true, Bool.or_self,
      Bool.false_eq_true, if_false]
    exact moves_loop (by rw [hphase]; rfl)
  · exact .stays _
  · next hphase =>
    simp only [ScopedCall.Advances, hphase] at hadvances
    split
    · next haborted =>
      refine .leaves (by rw [hphase]; rfl) fun hstart => ?_
      rw [hadvances hstart] at haborted
      cases haborted
    · exact moves_loop (by rw [hphase]; rfl)
  · next granted hphase =>
    split
    · exact .stays _
    · next rejection hflow =>
      refine .leaves (by rw [hphase]; rfl) fun hstart => ?_
      have hnone : c.flow = none := by
        cases granted
        all_goals
          simp only [ScopedCall.Advances, hphase] at hadvances
          exact hadvances hstart
      rw [hnone] at hflow
      cases hflow
  · next hphase =>
    split
    · exact .stays _
    · exact .leaves (by rw [hphase]; rfl) (hnext_started hphase)
  · next hphase => exact moves_next hphase _ _ (hnext _ _ rfl) (hnext_started hphase)
  · next hphase =>
    split
    · refine .leaves (by rw [hphase]; rfl) ?_
      rw [hphase] at H
      rw [H.1]
      decide
    · exact moves_loop (by rw [hphase]; rfl)
  · next hphase =>
    rw [hphase]
    exact .unwound
  · split
    · exact moves_rpcStreamPull _
    · exact .stays _
  · dsimp only
    split
    · exact .stays _
    · split <;> exact .stays _
  · exact .stays _

/-- `onRpc` leaves the await of `onRpc`. -/
theorem onRpc_phase (response : Response) (errorEncodes : Bool) (sent : SendResult) :
    (c.onRpc response errorEncodes sent).phase ≠ .dispatching := by
  have hrespond : (c.respondError errorEncodes sent).phase ≠ .dispatching := by
    unfold respondError
    split <;> exact fun h => by cases h
  unfold onRpc
  split
  · exact fun h => by cases h
  · exact hrespond
  · exact hrespond
  · split
    · exact hrespond
    · exact fun h => by cases h

theorem step_phase_dispatching (event : CallEvent)
    (hnot : ∀ response errorEncodes sent, event ≠ .onRpc response errorEncodes sent)
    (hphase : c.phase = .dispatching) : (c.step event).phase = .dispatching := by
  cases event with
  | onRpc response errorEncodes sent => exact absurd rfl (hnot _ _ _)
  | rpcAbort => simp only [step, hphase, Phase.over, Phase.streaming, Bool.false_eq_true, if_false]
  | rpcStreamPull size | idleTimeout | opened iterates sent | granted sent | flowRejected sent
  | next result sent | chunkSent sent | unwound =>
    simp only [step, hphase, Phase.streaming, Bool.false_eq_true, if_false]

theorem rpcStreamPull_dispatching {size : Nat} (h : (c.rpcStreamPull size).phase = .dispatching) :
    c.phase = .dispatching := by
  unfold rpcStreamPull at h
  split at h
  · exact h
  · dsimp only at h
    split at h
    · cases h
    · exact h

theorem next_dispatching (result : Next) (sent : SendResult) :
    (c.next result sent).phase ≠ .dispatching := by
  cases result with
  | done => exact fun h => by cases h
  | thrown => exact fun h => by cases h
  | value chunk =>
    change (if c.aborted = true then _ else _ : Call).phase ≠ _
    split
    · exact fun h => by cases h
    · cases chunk with
      | none => exact fun h => by cases h
      | some chunk => exact fun h => by cases h

/-- A call that has left the await of `onRpc` does not come back to it. -/
theorem dispatching_of_step {event : CallEvent} (h : (c.step event).phase = .dispatching) :
    c.phase = .dispatching := by
  have hloop : c.loop.phase ≠ .dispatching := by
    obtain hphase | hphase := c.loop_phase <;> rw [hphase] <;> exact fun h => by cases h
  unfold step at h
  split at h
  · next hphase => exact hphase
  · unfold opened at h
    split at h
    · cases h
    · split at h
      · cases h
      · exact absurd h hloop
  · exact h
  · split at h
    · cases h
    · exact absurd h hloop
  · split at h
    · exact h
    · cases h
  · split at h
    · exact h
    · cases h
  · exact absurd h (next_dispatching _ _)
  · split at h
    · cases h
    · exact absurd h hloop
  · cases h
  · split at h
    · exact rpcStreamPull_dispatching h
    · exact h
  · dsimp only at h
    split at h
    · exact h
    · split at h <;> exact h
  · exact h

end Call

/-! ## Runs -/

namespace ScopedCall

/-- The state after the events. -/
def run (s : ScopedCall) (events : List ScopeEvent) : ScopedCall := Trace.run step s events

/-- The scope of a call without a generator has been released, once `onRpc` has returned; that of a
stream is released as its generator completes. -/
def Kept (s : ScopedCall) : Prop :=
  match s.generator with
  | none =>
    (s.call.phase = .dispatching ∧ s.disposals = 0) ∨
      (s.call.phase ≠ .dispatching ∧ s.disposals = 1 ∧ s.tracked = false)
  | some g =>
    Held g s.call.phase ∧ s.disposals = (if g.state = .completed then 1 else 0) ∧
      (g.state = .completed → s.tracked = false)

variable {s : ScopedCall}

theorem kept_new (callId : Nat) : (new callId).Kept := .inl ⟨rfl, rfl⟩

theorem kept_of_none (hgenerator : s.generator = none) :
    s.Kept ↔ (s.call.phase = .dispatching ∧ s.disposals = 0) ∨
      (s.call.phase ≠ .dispatching ∧ s.disposals = 1 ∧ s.tracked = false) := by
  rw [Kept, hgenerator]

theorem kept_of_some {g : AsyncGenerator} (hgenerator : s.generator = some g) :
    s.Kept ↔ Held g s.call.phase ∧ s.disposals = (if g.state = .completed then 1 else 0) ∧
      (g.state = .completed → s.tracked = false) := by
  rw [Kept, hgenerator]

/-- No generator while `onRpc` runs. -/
theorem Kept.dispatching (H : s.Kept) (hphase : s.call.phase = .dispatching) :
    s.generator = none ∧ s.disposals = 0 := by
  cases hgenerator : s.generator with
  | none =>
    obtain ⟨-, h⟩ | ⟨h, -⟩ := (kept_of_none hgenerator).mp H
    · exact ⟨rfl, h⟩
    · exact absurd hphase h
  | some g =>
    have hheld := ((kept_of_some hgenerator).mp H).1
    rw [hphase] at hheld
    exact hheld.elim

theorem Kept.onRpc (H : s.Kept) (result : CallResult) (response : Response) (errorEncodes : Bool)
    (sent : SendResult) (hfits : s.Fits (.onRpc result response errorEncodes sent)) :
    (s.onRpc result response errorEncodes sent).Kept := by
  unfold ScopedCall.onRpc
  split
  · next hphase =>
    obtain ⟨hgenerator, hdisposals⟩ := H.dispatching hphase
    have hcall (response : Response) : s.call.step (.onRpc response errorEncodes sent) =
        s.call.onRpc response errorEncodes sent := by
      simp only [Call.step, hphase]
    dsimp only
    rw [hcall, hcall]
    cases result with
    | plain =>
      refine (kept_of_none (by exact hgenerator)).mpr (.inr ⟨Call.onRpc_phase _ _ _, ?_, rfl⟩)
      exact congrArg (· + 1) hdisposals
    | stream =>
      have hnot : s.call.aborted = false := hfits
      refine (kept_of_some (g := {}) (by rfl)).mpr ⟨?_, hdisposals, fun h => by cases h⟩
      simp only [Call.onRpc, hnot, Bool.false_eq_true, if_false]
      exact ⟨rfl, rfl⟩
    | function disposals =>
      have hone : disposals = 1 := hfits
      refine (kept_of_none (by exact hgenerator)).mpr (.inr ⟨Call.onRpc_phase _ _ _, ?_, ?_⟩)
      · change s.disposals + disposals = 1
        rw [hone, hdisposals]
      · change (s.tracked && decide (disposals = 0)) = false
        rw [hone]
        exact Bool.and_false _
  · exact H

theorem Kept.follow (H : s.Kept) (event : CallEvent) (hadmits : s.admits event = true)
    (hfits : s.Fits (.call event)) : (s.follow (s.call.step event)).Kept := by
  have hnot (response : Response) (errorEncodes : Bool) (sent : SendResult) :
      event ≠ .onRpc response errorEncodes sent := by
    rintro rfl
    cases hadmits
  cases hgenerator : s.generator with
  | none =>
    have hfollow : (s.follow (s.call.step event)).generator = none := by
      rw [ScopedCall.follow, hgenerator]
      rfl
    refine (kept_of_none hfollow).mpr ?_
    obtain ⟨hphase, hdisposals⟩ | ⟨hphase, hdisposals⟩ := (kept_of_none hgenerator).mp H
    · exact .inl ⟨Call.step_phase_dispatching event hnot hphase, hdisposals⟩
    · exact .inr ⟨fun h => hphase (Call.dispatching_of_step h), hdisposals⟩
  | some g =>
    obtain ⟨hheld, hdisposals, htracked⟩ := (kept_of_some hgenerator).mp H
    have hmoves : Moves g s.call.phase (s.call.step event).phase := by
      refine Call.moves hheld event hnot ?_ ?_ (hfits g hgenerator)
      · rintro iterates sent rfl
        simpa only [admits, hgenerator] using hadmits
      · rintro result sent rfl
        simpa only [admits, hgenerator] using hadmits
    obtain ⟨hheld', hstate⟩ := hheld.drive hmoves
    have hfollow : (s.follow (s.call.step event)).generator =
        some (g.drive s.call.phase (s.call.step event).phase) := by
      rw [ScopedCall.follow, hgenerator]
      rfl
    refine (kept_of_some hfollow).mpr ⟨hheld', ?_, fun h => htracked (hstate.mp h)⟩
    rw [show (s.follow (s.call.step event)).disposals = s.disposals from rfl, hdisposals]
    simp only [hstate]

theorem Kept.yields (H : s.Kept) (hfits : s.Fits .yields) : s.yields.Kept := by
  cases hgenerator : s.generator with
  | none =>
    have hyields : s.yields.generator = none := by
      rw [ScopedCall.yields, hgenerator]
      rfl
    exact (kept_of_none hyields).mpr ((kept_of_none hgenerator).mp H)
  | some g =>
    obtain ⟨hheld, hdisposals, htracked⟩ := (kept_of_some hgenerator).mp H
    obtain ⟨hheld', hstate⟩ := hheld.yields (hfits g hgenerator)
    have hyields : s.yields.generator = some g.yields := by
      rw [ScopedCall.yields, hgenerator]
      rfl
    refine (kept_of_some hyields).mpr ⟨hheld', ?_, fun h => htracked (hstate.mp h)⟩
    rw [show s.yields.disposals = s.disposals from rfl, hdisposals]
    simp only [hstate]

theorem Kept.finish (H : s.Kept) (throws : Bool) : (s.finish throws).Kept := by
  unfold ScopedCall.finish
  split
  · next g hgenerator =>
    split
    · next hrunning =>
      obtain ⟨hheld, hdisposals, -⟩ := (kept_of_some hgenerator).mp H
      have hstate : g.state ≠ .completed := by
        intro hstate
        simp [AsyncGenerator.isRunning, hstate] at hrunning
      refine (kept_of_some rfl).mpr ⟨hheld.finish hrunning throws, ?_, fun _ => rfl⟩
      rw [if_neg hstate] at hdisposals
      change s.disposals + 1 = 1
      rw [hdisposals]
    · exact H
  · exact H

theorem Kept.abortCalls (H : s.Kept) : { s with tracked := false }.Kept := by
  cases hgenerator : s.generator with
  | none =>
    refine (kept_of_none rfl).mpr (((kept_of_none hgenerator).mp H).imp_right ?_)
    exact fun h => ⟨h.1, h.2.1, rfl⟩
  | some g =>
    obtain ⟨hheld, hdisposals, -⟩ := (kept_of_some hgenerator).mp H
    exact (kept_of_some rfl).mpr ⟨hheld, hdisposals, fun _ => rfl⟩

theorem Kept.step (event : ScopeEvent) (hfits : s.Fits event) (H : s.Kept) :
    (s.step event).Kept := by
  cases event with
  | onRpc result response errorEncodes sent => exact H.onRpc _ _ _ _ hfits
  | call event =>
    change (if s.admits event = true then _ else s).Kept
    split
    · next hadmits => exact H.follow event hadmits hfits
    · exact H
  | yields => exact H.yields hfits
  | finish throws => exact H.finish throws
  | abortCalls => exact H.abortCalls

theorem Kept.released (H : s.Kept) : s.Released := by
  cases hgenerator : s.generator with
  | none =>
    obtain ⟨hphase, hdisposals⟩ | ⟨hphase, hdisposals, htracked⟩ := (kept_of_none hgenerator).mp H
    · refine ⟨by omega, fun hover => ?_⟩
      rw [hphase] at hover
      cases hover
    · exact ⟨by omega, fun _ _ => ⟨hdisposals, htracked⟩⟩
  | some g =>
    obtain ⟨hheld, hdisposals, htracked⟩ := (kept_of_some hgenerator).mp H
    refine ⟨by split at hdisposals <;> omega, fun hover hrequests => ?_⟩
    have hstate : g.state = .completed := hheld.completed hover (hrequests g hgenerator)
    rw [if_pos hstate] at hdisposals
    exact ⟨hdisposals, htracked hstate⟩

instance (c : Call) (g : AsyncGenerator) (event : CallEvent) : Decidable (Advances c g event) := by
  unfold Advances
  split <;> infer_instance

instance (s : ScopedCall) : (event : ScopeEvent) → Decidable (s.Fits event)
  | .onRpc .plain _ _ _ => isTrue trivial
  | .onRpc .stream _ _ _ => inferInstanceAs (Decidable (s.call.aborted = false))
  | .onRpc (.function disposals) _ _ _ => inferInstanceAs (Decidable (disposals = 1))
  | .call event => inferInstanceAs (Decidable (∀ g, s.generator = some g → Advances s.call g event))
  | .yields => inferInstanceAs (Decidable (∀ g, s.generator = some g → g.state ≠ .closing))
  | .finish _ | .abortCalls => isTrue trivial

/-- The scope of a call is released exactly once, if no stream is left before its first step. -/
theorem scope_released (callId : Nat) (events : List ScopeEvent)
    (hfits : Trace.Admits step Fits (new callId) events) : ((new callId).run events).Released :=
  (Trace.run_inv_of_admits step (fun _ event hfits H => H.step event hfits) hfits
    (kept_new callId)).released

/-- A stream that is pulled once, yields, and is aborted by the client. -/
theorem scope_released_aborted : ((new 0).run [.onRpc .stream .asyncIterable true .delivered,
    .call (.opened true .delivered), .call (.rpcStreamPull 1), .call (.granted .delivered), .yields,
    .call (.next (.value (some [])) .delivered), .call (.chunkSent .delivered), .call .rpcAbort,
    .call (.flowRejected .delivered), .finish false, .call .unwound]).Released :=
  scope_released 0 _ (by decide)

/-- The client never pulls: the idle timeout ends the stream before its first step. -/
theorem scope_leaked_idle : ¬ ∀ callId events, ((new callId).run events).Released := by
  intro h
  have hreleased := (h 0 [.onRpc .stream .asyncIterable true .delivered,
    .call (.opened true .delivered), .call .idleTimeout, .call (.flowRejected .delivered),
    .call .unwound]).released rfl fun g hg => by cases hg; rfl
  exact absurd hreleased.1 (by decide)

end ScopedCall

end Neemata.Ws
