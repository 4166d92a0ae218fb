import Neemata.Lib.Trace
import Neemata.Workflows.State
import Mathlib.Data.List.Chain

/-!
# Watching a run

`watchRun` of `runtime/client.ts`, without an abort signal. The generator stands at one of its
awaits; the store answers a read, a timer fires and the generator is resumed by events of their own,
between which the run changes its status and wakes arrive. What it yields is faithful in every state
(`watchRun_faithful`).
-/

namespace Neemata.Workflows.WatchRun

/-- What `watchRun` reads of the row of a run. -/
structure RunView where
  status : RuntimeRunStatus
  error : Option StoredError
deriving DecidableEq

def RunView.terminal (view : RunView) : Bool := isTerminalRunStatus view.status

inductive WatchEvent where
  | run (view : RunView)
  | change
deriving DecidableEq

namespace WatchEvent

def view? : WatchEvent → Option RunView
  | .run view => some view
  | .change => none

def terminal : WatchEvent → Bool
  | .run view => view.terminal
  | .change => false

end WatchEvent

/-- A call of `loadRuns`: the store has not answered, or with what it had at that moment. -/
inductive Read where
  | pending
  | answered (run : Option RunView)
deriving DecidableEq

/-- The await or the `yield` that the generator has come to. -/
inductive Phase where
  /-- The read before the subscription. -/
  | opening (read : Read)
  /-- The read of the main loop. -/
  | reading (read : Read)
  /-- `terminal`: the generator returns when it is resumed. -/
  | yielding (terminal : Bool)
  /-- `sleep(pollIntervalMs)` -/
  | sleeping (woken : Bool)
  /-- The read inside the debounce window. -/
  | peeking (read : Read)
  /-- `sleep(remaining)` -/
  | dozing (woken : Bool)
  | finished
deriving DecidableEq

namespace Phase

/-- A read or a `yield` is in progress. -/
def busy : Phase → Bool
  | .opening _ | .reading _ | .peeking _ | .yielding _ => true
  | .sleeping _ | .dozing _ | .finished => false

def asleep : Phase → Bool
  | .sleeping _ | .dozing _ => true
  | _ => false

/-- The subscription is in place. -/
def inside : Phase → Bool
  | .opening _ | .finished => false
  | _ => true

/-- The sleep is over. -/
def wake : Phase → Phase
  | .sleeping _ => .sleeping true
  | .dozing _ => .dozing true
  | phase => phase

def load (run : Option RunView) : Phase → Phase
  | .opening .pending => .opening (.answered run)
  | .reading .pending => .reading (.answered run)
  | .peeking .pending => .peeking (.answered run)
  | phase => phase

theorem asleep_of_busy {phase : Phase} (h : phase.busy = true) : phase.asleep = false := by
  cases phase <;> first | rfl | cases h

theorem wake_of_awake {phase : Phase} (h : phase.asleep = false) : phase.wake = phase := by
  cases phase <;> first | rfl | cases h

end Phase

structure Watch where
  /-- What the row has been, first to last. -/
  history : List RunView
  deleted : Bool := false
  phase : Phase := .opening .pending
  wakePending : Bool := false
  lastStatus : Option RuntimeRunStatus := none
  lastWakeConsumedAt : Nat := 0
  woke : Bool := false
  subscribed : Bool := false
  yields : List WatchEvent := []
  /-- A wake arrived in a read or a `yield`, and no read has begun since. -/
  owed : Bool := false
deriving DecidableEq

inductive Event where
  /-- The row changes. -/
  | update (view : RunView)
  | delete
  | wake
  /-- The store answers. -/
  | load
  /-- The read throws. -/
  | fail
  /-- A timer fires. -/
  | tick
  /-- The generator goes on after an await, at a time. -/
  | resume (now : Nat)
  /-- The consumer asks for the next event, at a time. -/
  | next (now : Nat)
  /-- The consumer ends the iteration. -/
  | close
deriving DecidableEq

/-- The event is what the generator waits for. -/
def Phase.waits : Phase → Event → Bool
  | .opening .pending, .load | .reading .pending, .load | .peeking .pending, .load => true
  | .opening (.answered _), .resume _ | .reading (.answered _), .resume _
  | .peeking (.answered _), .resume _ => true
  | .sleeping false, .tick | .dozing false, .tick => true
  | .sleeping true, .resume _ | .dozing true, .resume _ => true
  | .yielding _, .next _ => true
  | _, _ => false

/-- The row goes, a read throws or the consumer leaves. -/
def Event.interrupts : Event → Bool
  | .delete | .fail | .close => true
  | _ => false

namespace Watch

variable (debounceMs : Nat) (coarse : Bool) (s : Watch)

def current : Option RunView := if s.deleted then none else s.history.getLast?

def seen : List RunView := s.yields.filterMap WatchEvent.view?

/-- The `finally`. -/
def finish : Watch := { s with phase := .finished, subscribed := false }

/-- `waitForChange` returns, and the main loop reads. -/
def consume (now : Nat) : Watch :=
  { s with
    wakePending := false
    lastWakeConsumedAt := now
    woke := true
    phase := .reading .pending
    owed := false }

/-- The head of the debounce loop. -/
def debounce (now : Nat) : Watch :=
  if s.lastWakeConsumedAt + debounceMs ≤ now then s.consume now
  else { s with wakePending := false, phase := .peeking .pending, owed := false }

def waitForChange (now : Nat) : Watch :=
  if s.wakePending then s.debounce debounceMs now else { s with phase := .sleeping false }

def onRead (now : Nat) : Option RunView → Watch
  | none => s.finish
  | some view =>
    if s.lastStatus ≠ some view.status then
      { s with
        lastStatus := some view.status
        yields := s.yields ++ [.run view]
        phase := .yielding view.terminal }
    else if coarse && s.woke then
      { s with yields := s.yields ++ [.change], phase := .yielding false }
    else s.waitForChange debounceMs now

def onPeek (now : Nat) : Option RunView → Watch
  | none => s.consume now
  | some view =>
    if s.lastStatus ≠ some view.status then s.consume now
    else if s.wakePending then s.debounce debounceMs now
    else { s with phase := .dozing false }

def resume (now : Nat) : Watch :=
  match s.phase with
  | .opening (.answered none) => s.finish
  | .opening (.answered (some _)) =>
    { s with subscribed := true, phase := .reading .pending, owed := false }
  | .reading (.answered run) => s.onRead debounceMs coarse now run
  | .peeking (.answered run) => s.onPeek debounceMs now run
  | .sleeping true =>
    if s.wakePending then s.debounce debounceMs now
    else { s with woke := false, phase := .reading .pending, owed := false }
  | .dozing true => if s.wakePending then s.debounce debounceMs now else s.consume now
  | _ => s

/-- The listener of the subscription. -/
def onWake : Watch :=
  if s.subscribed then
    { s with wakePending := true, phase := s.phase.wake, owed := s.owed || s.phase.busy }
  else { s with owed := s.owed || s.phase.busy }

def step (s : Watch) : Event → Watch
  | .update view =>
    if s.current.any (!·.terminal) then { s with history := s.history ++ [view] } else s
  | .delete => { s with deleted := true }
  | .wake => s.onWake
  | .load => { s with phase := s.phase.load s.current }
  | .fail =>
    match s.phase with
    | .opening _ | .reading _ | .peeking _ => s.finish
    | _ => s
  | .tick => { s with phase := s.phase.wake }
  | .resume now => s.resume debounceMs coarse now
  | .next now =>
    match s.phase with
    | .yielding true => s.finish
    | .yielding false => s.waitForChange debounceMs now
    | _ => s
  | .close =>
    match s.phase with
    | .yielding _ => s.finish
    | _ => s

/-! ## What is kept -/

/-- A sublist that does not end as the list does ends before. -/
theorem concat_sublist {α : Type} {l l' : List α} {a : α} (h : l.Sublist l')
    (hlast : l'.getLast? = some a) (hne : l.getLast? ≠ some a) : (l ++ [a]).Sublist l' := by
  obtain ⟨init, rfl⟩ := List.getLast?_eq_some_iff.mp hlast
  obtain ⟨l₁, l₂, rfl, h₁, h₂⟩ := List.sublist_append_iff.mp h
  rcases List.sublist_singleton.mp h₂ with rfl | rfl
  · rw [List.append_nil]
    exact h₁.append (List.Sublist.refl _)
  · exact absurd List.getLast?_concat hne

/-- What holds of a watch wherever it stands. -/
structure Sound (s : Watch) : Prop where
  seen : s.seen.Sublist s.history
  /-- The answer of a read is a row that comes after those that were yielded. -/
  fresh : ∀ view, s.phase = .reading (.answered (some view)) →
    ∃ rows, rows <+: s.history ∧ rows.getLast? = some view ∧ s.seen.Sublist rows
  chain : s.seen.IsChain fun earlier later => earlier.status ≠ later.status
  last : s.lastStatus = s.seen.getLast?.map RunView.status
  quits : ∀ event ∈ s.yields, event.terminal = true →
    s.phase = .yielding true ∨ s.phase = .finished
  tail : ∀ event ∈ s.yields.dropLast, event.terminal = false
  subscribed : s.phase.inside = s.subscribed
  awake : s.owed = true → s.phase.asleep = false
  latched : s.owed = true → s.phase.inside = true → s.wakePending = true

variable {debounceMs : Nat} {coarse : Bool} {s t : Watch}

theorem sound_new (history : List RunView) : Sound { history } where
  seen := List.nil_sublist _
  fresh _ h := by cases h
  chain := .nil
  last := rfl
  quits _ h := by cases h
  tail _ h := by cases h
  subscribed := rfl
  awake h := by cases h
  latched h := by cases h

namespace Sound

/-- Before the generator returns no terminal status has been yielded. -/
theorem quiet (H : s.Sound) (hyielding : s.phase ≠ .yielding true) (hfinished : s.phase ≠ .finished)
    (event : WatchEvent) (h : event ∈ s.yields) : event.terminal = false := by
  by_contra hterminal
  rw [Bool.not_eq_false] at hterminal
  rcases H.quits event h hterminal with hphase | hphase
  · exact hyielding hphase
  · exact hfinished hphase

/-- The generator goes to another place without a `yield`. -/
theorem goes (H : s.Sound) (hyields : t.yields = s.yields) (hhistory : t.history = s.history)
    (hlast : t.lastStatus = s.lastStatus)
    (hfresh : ∀ view, t.phase ≠ .reading (.answered (some view)))
    (hquits : s.phase ≠ .yielding true ∧ s.phase ≠ .finished ∨ t.phase = .finished)
    (hsubscribed : t.phase.inside = t.subscribed)
    (howed : t.owed = true → t.phase.asleep = false ∧ (t.phase.inside = true → t.wakePending = true)) :
    t.Sound where
  seen := by
    rw [Watch.seen, hyields, hhistory]
    exact H.seen
  fresh view h := absurd h (hfresh view)
  chain := by
    rw [Watch.seen, hyields]
    exact H.chain
  last := by
    rw [Watch.seen, hyields, hlast]
    exact H.last
  quits event h hterminal := by
    rw [hyields] at h
    rcases hquits with ⟨hyielding, hfinished⟩ | hfinished
    · rw [H.quiet hyielding hfinished event h] at hterminal
      cases hterminal
    · exact .inr hfinished
  tail := by
    rw [hyields]
    exact H.tail
  subscribed := hsubscribed
  awake h := (howed h).1
  latched h := (howed h).2

theorem finish (H : s.Sound) : s.finish.Sound := by
  refine H.goes rfl rfl rfl nofun (.inr rfl) rfl fun _ => ⟨rfl, nofun⟩

theorem consume (H : s.Sound) (hinside : s.phase.inside = true) (hphase : s.phase ≠ .yielding true)
    (now : Nat) : (s.consume now).Sound := by
  refine H.goes rfl rfl rfl nofun (.inl ⟨hphase, ?_⟩) (hinside.symm.trans H.subscribed) nofun
  intro h
  rw [h] at hinside
  cases hinside

theorem debounce (H : s.Sound) (hinside : s.phase.inside = true) (hphase : s.phase ≠ .yielding true)
    (now : Nat) : (s.debounce debounceMs now).Sound := by
  unfold Watch.debounce
  split
  · exact H.consume hinside hphase now
  · refine H.goes rfl rfl rfl nofun (.inl ⟨hphase, ?_⟩) (hinside.symm.trans H.subscribed) nofun
    intro h
    rw [h] at hinside
    cases hinside

/-- Without a wake that is pending, none is owed. -/
theorem not_owed (H : s.Sound) (hinside : s.phase.inside = true) (hwake : s.wakePending = false) :
    s.owed = false := by
  by_contra h
  rw [H.latched (Bool.not_eq_false _ ▸ h) hinside] at hwake
  cases hwake

theorem waitForChange (H : s.Sound) (hinside : s.phase.inside = true)
    (hphase : s.phase ≠ .yielding true) (now : Nat) : (s.waitForChange debounceMs now).Sound := by
  unfold Watch.waitForChange
  split
  · exact H.debounce hinside hphase now
  · next hwake =>
    have hnot := H.not_owed hinside (Bool.not_eq_true _ ▸ hwake)
    refine H.goes rfl rfl rfl nofun (.inl ⟨hphase, ?_⟩) (hinside.symm.trans H.subscribed) fun h => ?_
    · intro h
      rw [h] at hinside
      cases hinside
    · rw [show s.owed = true from h] at hnot
      cases hnot

theorem onRead (H : s.Sound) {run : Option RunView} (hphase : s.phase = .reading (.answered run))
    (now : Nat) : (s.onRead debounceMs coarse now run).Sound := by
  have hinside : s.phase.inside = true := by
    rw [hphase]
    rfl
  have hne : s.phase ≠ .yielding true := by
    rw [hphase]
    nofun
  have hquiet := H.quiet hne (by rw [hphase]; nofun)
  have hlatched : s.owed = true → s.wakePending = true := fun h => H.latched h hinside
  unfold Watch.onRead
  split
  · exact H.finish
  · next view =>
    split
    · next hstatus =>
      obtain ⟨rows, hrows, hview, hseen⟩ := H.fresh view hphase
      have hlast : ∀ earlier ∈ s.seen.getLast?, earlier.status ≠ view.status := by
        intro earlier h heq
        rw [H.last, show s.seen.getLast? = some earlier from h] at hstatus
        exact hstatus (congrArg some heq)
      have hadded : (s.seen ++ [view]).Sublist rows :=
        concat_sublist hseen hview fun h => hlast view h rfl
      have hseen' : (s.yields ++ [WatchEvent.run view]).filterMap WatchEvent.view? =
          s.seen ++ [view] := List.filterMap_append
      refine ⟨?_, nofun, ?_, ?_, fun event h hterminal => ?_, ?_, hinside.symm.trans H.subscribed,
        fun _ => rfl, fun h _ => hlatched h⟩
      · rw [Watch.seen, hseen']
        exact hadded.trans hrows.sublist
      · rw [Watch.seen, hseen']
        refine List.isChain_append.mpr ⟨H.chain, .singleton _, fun earlier h later hl => ?_⟩
        cases hl
        exact hlast earlier h
      · rw [Watch.seen, hseen', List.getLast?_append]
        rfl
      · rcases List.mem_append.mp h with h | h
        · rw [hquiet event h] at hterminal
          cases hterminal
        · cases List.mem_singleton.mp h
          exact .inl (congrArg Phase.yielding hterminal)
      · rw [List.dropLast_concat]
        exact hquiet
    · split
      · have hseen' : (s.yields ++ [WatchEvent.change]).filterMap WatchEvent.view? = s.seen := by
          rw [List.filterMap_append]
          exact List.append_nil _
        refine ⟨?_, nofun, ?_, ?_, fun event h hterminal => ?_, ?_, hinside.symm.trans H.subscribed,
          fun _ => rfl, fun h _ => hlatched h⟩
        · rw [Watch.seen, hseen']
          exact H.seen
        · rw [Watch.seen, hseen']
          exact H.chain
        · rw [Watch.seen, hseen']
          exact H.last
        · rcases List.mem_append.mp h with h | h
          · rw [hquiet event h] at hterminal
            cases hterminal
          · cases List.mem_singleton.mp h
            cases hterminal
        · rw [List.dropLast_concat]
          exact hquiet
      · exact H.waitForChange hinside hne now

theorem onPeek (H : s.Sound) {run : Option RunView} (hphase : s.phase = .peeking (.answered run))
    (now : Nat) : (s.onPeek debounceMs now run).Sound := by
  have hinside : s.phase.inside = true := by
    rw [hphase]
    rfl
  have hne : s.phase ≠ .yielding true := by
    rw [hphase]
    nofun
  unfold Watch.onPeek
  split
  · exact H.consume hinside hne now
  · split
    · exact H.consume hinside hne now
    · split
      · exact H.debounce hinside hne now
      · next hwake =>
        have hnot := H.not_owed hinside (Bool.not_eq_true _ ▸ hwake)
        refine H.goes rfl rfl rfl nofun (.inl ⟨hne, by rw [hphase]; nofun⟩)
          (hinside.symm.trans H.subscribed) fun h => ?_
        rw [show s.owed = true from h] at hnot
        cases hnot

theorem resume (H : s.Sound) (now : Nat) : (s.resume debounceMs coarse now).Sound := by
  unfold Watch.resume
  split
  · exact H.finish
  · next hphase =>
    exact H.goes rfl rfl rfl nofun (.inl ⟨by rw [hphase]; nofun, by rw [hphase]; nofun⟩) rfl nofun
  · next hphase => exact H.onRead hphase now
  · next hphase => exact H.onPeek hphase now
  · next hphase =>
    have hinside : s.phase.inside = true := by
      rw [hphase]
      rfl
    have hne : s.phase ≠ .yielding true := by
      rw [hphase]
      nofun
    split
    · exact H.debounce hinside hne now
    · exact H.goes rfl rfl rfl nofun (.inl ⟨hne, by rw [hphase]; nofun⟩)
        (hinside.symm.trans H.subscribed) nofun
  · next hphase =>
    have hinside : s.phase.inside = true := by
      rw [hphase]
      rfl
    have hne : s.phase ≠ .yielding true := by
      rw [hphase]
      nofun
    split
    · exact H.debounce hinside hne now
    · exact H.consume hinside hne now
  · exact H

/-- A timer or a wake ends a sleep, and changes nothing else of what is kept. -/
theorem woken (H : s.Sound) {wakePending owed : Bool}
    (howed : owed = true → s.phase.wake.asleep = false ∧
      (s.phase.wake.inside = true → wakePending = true)) :
    Sound { s with phase := s.phase.wake, wakePending, owed } := by
  have hinside : s.phase.wake.inside = s.phase.inside := by
    cases s.phase <;> rfl
  refine ⟨H.seen, fun view h => H.fresh view ?_, H.chain, H.last, fun event h hterminal => ?_, H.tail,
    hinside.trans H.subscribed, fun h => (howed h).1, fun h => (howed h).2⟩
  · change s.phase.wake = _ at h
    cases hphase : s.phase with
    | reading read =>
      rw [hphase] at h
      exact h
    | _ =>
      rw [hphase] at h
      cases h
  · rcases H.quits event h hterminal with hphase | hphase
    · exact .inl (congrArg Phase.wake hphase)
    · exact .inr (congrArg Phase.wake hphase)

theorem onWake (H : s.Sound) : s.onWake.Sound := by
  have hawake : (s.owed || s.phase.busy) = true → s.phase.asleep = false := by
    intro h
    rcases Bool.or_eq_true _ _ ▸ h with h | h
    · exact H.awake h
    · exact Phase.asleep_of_busy h
  unfold Watch.onWake
  split
  · refine H.woken fun h => ⟨?_, fun _ => rfl⟩
    rw [Phase.wake_of_awake (hawake h)]
    exact hawake h
  · next hsubscribed =>
    refine ⟨H.seen, H.fresh, H.chain, H.last, H.quits, H.tail, H.subscribed, hawake, fun _ h => ?_⟩
    exact absurd (H.subscribed ▸ h) hsubscribed

/-- The store answers a read. -/
theorem load (H : s.Sound) : Sound { s with phase := s.phase.load s.current } := by
  unfold Phase.load
  split
  · next hphase =>
    refine H.goes rfl rfl rfl nofun (.inl ⟨by rw [hphase]; nofun, by rw [hphase]; nofun⟩) ?_
      fun h => ⟨rfl, nofun⟩
    exact (congrArg Phase.inside hphase).symm.trans H.subscribed
  · next hphase =>
    have hinside : s.phase.inside = true := by
      rw [hphase]
      rfl
    refine ⟨H.seen, fun view h => ?_, H.chain, H.last, fun event h hterminal => ?_, H.tail,
      hinside.symm.trans H.subscribed, fun _ => rfl, fun h _ => H.latched h hinside⟩
    · have hcurrent : s.current = some view := Read.answered.inj (Phase.reading.inj h)
      unfold current at hcurrent
      split at hcurrent
      · cases hcurrent
      · exact ⟨s.history, List.prefix_rfl, hcurrent, H.seen⟩
    · rcases H.quits event h hterminal with h | h
      · rw [hphase] at h
        cases h
      · rw [hphase] at h
        cases h
  · next hphase =>
    have hinside : s.phase.inside = true := by
      rw [hphase]
      rfl
    refine H.goes rfl rfl rfl nofun (.inl ⟨by rw [hphase]; nofun, by rw [hphase]; nofun⟩)
      (hinside.symm.trans H.subscribed) fun h => ⟨rfl, fun _ => H.latched h hinside⟩
  · exact H

theorem step (H : s.Sound) (e : Event) : (s.step debounceMs coarse e).Sound := by
  cases e with
  | update view =>
    simp only [Watch.step]
    split
    · have hgrows : s.history <+: s.history ++ [view] := List.prefix_append _ _
      refine ⟨H.seen.trans hgrows.sublist, fun view h => ?_, H.chain, H.last, H.quits, H.tail,
        H.subscribed, H.awake, H.latched⟩
      obtain ⟨rows, hrows, hview, hseen⟩ := H.fresh view h
      exact ⟨rows, hrows.trans hgrows, hview, hseen⟩
    · exact H
  | delete =>
    exact ⟨H.seen, H.fresh, H.chain, H.last, H.quits, H.tail, H.subscribed, H.awake, H.latched⟩
  | wake => exact H.onWake
  | load => exact H.load
  | fail =>
    simp only [Watch.step]
    split
    · exact H.finish
    · exact H.finish
    · exact H.finish
    · exact H
  | tick =>
    refine H.woken fun h => ?_
    have hawake := H.awake h
    rw [Phase.wake_of_awake hawake]
    exact ⟨hawake, H.latched h⟩
  | resume now => exact H.resume now
  | next now =>
    simp only [Watch.step]
    split
    · exact H.finish
    · next hphase =>
      exact H.waitForChange (by rw [hphase]; rfl) (by rw [hphase]; nofun) now
    · exact H
  | close =>
    simp only [Watch.step]
    split
    · exact H.finish
    · exact H

end Sound

/-! ## The terminal status is reached -/

/-- A terminal status has been yielded. -/
def Yielded (s : Watch) : Prop := ∃ event ∈ s.yields, event.terminal = true

/-- What was read of a run that is there. -/
structure Present (s : Watch) : Prop where
  alive : s.deleted = false
  row : s.history ≠ []
  answers : ∀ run, s.phase = .opening (.answered run) ∨ s.phase = .reading (.answered run) ∨
    s.phase = .peeking (.answered run) → run ≠ none
  ended : s.phase = .yielding true ∨ s.phase = .finished → s.Yielded

/-- How many times the generator goes on at most before it yields the terminal status. -/
def rank (s : Watch) : Nat :=
  match s.phase with
  | .finished => 0
  | .reading (.answered run) => if run = s.current then 1 else 10
  | .reading .pending => 2
  | .opening (.answered _) => 3
  | .peeking (.answered run) => if run = s.current then 3 else 7
  | .opening .pending | .peeking .pending => 4
  | .dozing true => 5
  | .dozing false => 6
  | .sleeping true => 7
  | .sleeping false => 8
  | .yielding _ => 9

theorem rank_le (s : Watch) : s.rank ≤ 10 := by
  unfold rank
  split <;> first | omega | (split <;> omega)

/-- The generator has gone on without a `yield` and does not look at what it read before. -/
structure Onward (s t : Watch) (bound : Nat) : Prop where
  yields : t.yields = s.yields
  history : t.history = s.history
  deleted : t.deleted = s.deleted
  rank : t.rank < bound
  answers : ∀ run, t.phase ≠ .opening (.answered run) ∧ t.phase ≠ .reading (.answered run) ∧
    t.phase ≠ .peeking (.answered run)
  goes : t.phase ≠ .yielding true ∧ t.phase ≠ .finished

/-- The main loop begins to read. -/
theorem onward_reading (hyields : t.yields = s.yields) (hhistory : t.history = s.history)
    (hdeleted : t.deleted = s.deleted) (hphase : t.phase = .reading .pending) : Onward s t 3 := by
  have hrank : t.rank = 2 := by rw [rank, hphase]
  refine ⟨hyields, hhistory, hdeleted, hrank ▸ Nat.lt_succ_self _, fun run => ?_, ?_⟩
  · rw [hphase]
    exact ⟨nofun, nofun, nofun⟩
  · rw [hphase]
    exact ⟨nofun, nofun⟩

theorem onward_consume (s : Watch) (now : Nat) : Onward s (s.consume now) 3 :=
  onward_reading rfl rfl rfl rfl

theorem onward_debounce (s : Watch) (now : Nat) : Onward s (s.debounce debounceMs now) 5 := by
  unfold debounce
  split
  · exact { onward_consume s now with rank := Nat.lt_trans (onward_consume s now).rank (by decide) }
  · exact ⟨rfl, rfl, rfl, Nat.lt_succ_self _, fun _ => ⟨nofun, nofun, nofun⟩, nofun, nofun⟩

theorem onward_waitForChange (s : Watch) (now : Nat) :
    Onward s (s.waitForChange debounceMs now) 9 := by
  unfold waitForChange
  split
  · exact { onward_debounce s now with
      rank := Nat.lt_trans (onward_debounce s now).rank (by decide) }
  · exact ⟨rfl, rfl, rfl, Nat.lt_succ_self _, fun _ => ⟨nofun, nofun, nofun⟩, nofun, nofun⟩

theorem onward_onPeek {view : RunView} (now : Nat) :
    Onward s (s.onPeek debounceMs now (some view)) 7 := by
  unfold onPeek
  dsimp only
  split
  · exact { onward_consume s now with rank := Nat.lt_trans (onward_consume s now).rank (by decide) }
  · split
    · exact { onward_debounce s now with
        rank := Nat.lt_trans (onward_debounce s now).rank (by decide) }
    · exact ⟨rfl, rfl, rfl, Nat.lt_succ_self _, fun _ => ⟨nofun, nofun, nofun⟩, nofun, nofun⟩

namespace Present

theorem onward (P : s.Present) {bound : Nat} (O : Onward s t bound) : t.Present where
  alive := O.deleted.trans P.alive
  row := O.history ▸ P.row
  answers run h := by
    obtain ⟨hopening, hreading, hpeeking⟩ := O.answers run
    rcases h with h | h | h
    · exact absurd h hopening
    · exact absurd h hreading
    · exact absurd h hpeeking
  ended h := h.elim (fun h => absurd h O.goes.1) fun h => absurd h O.goes.2

theorem current_ne_none (P : s.Present) : s.current ≠ none := by
  rw [current, P.alive, if_neg nofun]
  exact mt List.getLast?_eq_none_iff.mp P.row

/-- A read that has been answered is resumed. -/
theorem onRead (P : s.Present) {view : RunView} (now : Nat) :
    (s.onRead debounceMs coarse now (some view)).Present := by
  unfold Watch.onRead
  dsimp only
  split
  · refine ⟨P.alive, P.row, fun _ h => ?_, fun h => ?_⟩
    · rcases h with h | h | h <;> cases h
    · rcases h with h | h
      · exact ⟨.run view, List.mem_append_right _ List.mem_cons_self, Phase.yielding.inj h⟩
      · cases h
  · split
    · refine ⟨P.alive, P.row, fun _ h => ?_, fun h => ?_⟩
      · rcases h with h | h | h <;> cases h
      · rcases h with h | h <;> cases h
    · exact P.onward (onward_waitForChange s now)

theorem resume (P : s.Present) (now : Nat) : (s.resume debounceMs coarse now).Present := by
  unfold Watch.resume
  split
  · next hphase => exact absurd rfl (P.answers none (.inl hphase))
  · exact P.onward (onward_reading rfl rfl rfl rfl)
  · next run hphase =>
    cases run with
    | none => exact absurd rfl (P.answers none (.inr (.inl hphase)))
    | some view => exact P.onRead now
  · next run hphase =>
    cases run with
    | none => exact absurd rfl (P.answers none (.inr (.inr hphase)))
    | some view => exact P.onward (onward_onPeek now)
  · split
    · exact P.onward (onward_debounce s now)
    · exact P.onward (onward_reading rfl rfl rfl rfl)
  · split
    · exact P.onward (onward_debounce s now)
    · exact P.onward (onward_consume s now)
  · exact P

/-- A read is answered. -/
theorem answered (P : s.Present) {phase : Phase} (hphase : phase = .opening (.answered s.current) ∨
    phase = .reading (.answered s.current) ∨ phase = .peeking (.answered s.current)) :
    Present { s with phase } := by
  have hcurrent := P.current_ne_none
  refine ⟨P.alive, P.row, fun run h => ?_, fun h => ?_⟩
  · rcases hphase with rfl | rfl | rfl <;> rcases h with h | h | h <;> cases h <;> exact hcurrent
  · rcases hphase with rfl | rfl | rfl <;> rcases h with h | h <;> cases h

/-- A sleep ends. -/
theorem woken (P : s.Present) {wakePending owed : Bool} :
    Present { s with phase := s.phase.wake, wakePending, owed } := by
  refine ⟨P.alive, P.row, fun run h => P.answers run ?_, fun h => P.ended ?_⟩
  · cases hphase : s.phase <;> simp_all [Phase.wake]
  · cases hphase : s.phase <;> simp_all [Phase.wake]

theorem step (P : s.Present) {e : Event} (he : e.interrupts = false) :
    (s.step debounceMs coarse e).Present := by
  cases e with
  | update view =>
    simp only [Watch.step]
    split
    · exact ⟨P.alive, List.append_ne_nil_of_right_ne_nil _ nofun, P.answers, P.ended⟩
    · exact P
  | wake =>
    simp only [Watch.step, onWake]
    split
    · exact P.woken
    · exact ⟨P.alive, P.row, P.answers, P.ended⟩
  | load =>
    simp only [Watch.step, Phase.load]
    split
    · exact P.answered (.inl rfl)
    · exact P.answered (.inr (.inl rfl))
    · exact P.answered (.inr (.inr rfl))
    · exact P
  | tick => exact P.woken
  | resume now => exact P.resume now
  | next now =>
    simp only [Watch.step]
    split
    · next hphase =>
      refine ⟨P.alive, P.row, fun _ h => ?_, fun _ => P.ended (.inl hphase)⟩
      rcases h with h | h | h <;> cases h
    · exact P.onward (onward_waitForChange s now)
    · exact P
  | delete | fail | close => cases he

end Present

/-! ### Every step brings the terminal status nearer -/

theorem yields_grow (e : Event) : s.yields <+: (s.step debounceMs coarse e).yields := by
  have hdebounce : ∀ now, (s.debounce debounceMs now).yields = s.yields :=
    fun now => (onward_debounce s now).yields
  have hwait : ∀ now, (s.waitForChange debounceMs now).yields = s.yields :=
    fun now => (onward_waitForChange s now).yields
  cases e with
  | resume now =>
    simp only [step, resume]
    split
    · exact List.prefix_rfl
    · exact List.prefix_rfl
    · unfold onRead
      split
      · exact List.prefix_rfl
      · split
        · exact List.prefix_append _ _
        · split
          · exact List.prefix_append _ _
          · exact (hwait now).symm ▸ List.prefix_rfl
    · next run _ =>
      cases run with
      | none => exact List.prefix_rfl
      | some view => exact (onward_onPeek now).yields.symm ▸ List.prefix_rfl
    · split
      · exact (hdebounce now).symm ▸ List.prefix_rfl
      · exact List.prefix_rfl
    · split
      · exact (hdebounce now).symm ▸ List.prefix_rfl
      · exact List.prefix_rfl
    · exact List.prefix_rfl
  | next now =>
    simp only [step]
    split
    · exact List.prefix_rfl
    · exact (hwait now).symm ▸ List.prefix_rfl
    · exact List.prefix_rfl
  | update | fail | close =>
    simp only [step]
    split <;> exact List.prefix_rfl
  | wake =>
    simp only [step, onWake]
    split <;> exact List.prefix_rfl
  | delete | load | tick => exact List.prefix_rfl

theorem Yielded.step (h : s.Yielded) (e : Event) : (s.step debounceMs coarse e).Yielded := by
  obtain ⟨event, hmem, hterminal⟩ := h
  exact ⟨event, (yields_grow e).subset hmem, hterminal⟩

/-- The terminal status is not the one that was yielded last. -/
theorem Sound.lastStatus_ne (H : s.Sound) {view : RunView} (hterminal : view.terminal = true)
    (hnot : ¬ s.Yielded) : s.lastStatus ≠ some view.status := by
  intro heq
  rw [H.last] at heq
  obtain ⟨earlier, hlast, hstatus⟩ := Option.map_eq_some_iff.mp heq
  have hseen : earlier ∈ s.seen := List.mem_of_getLast? hlast
  obtain ⟨event, hevent, hview⟩ := List.mem_filterMap.mp hseen
  cases event with
  | run other =>
    cases hview
    refine hnot ⟨_, hevent, ?_⟩
    change isTerminalRunStatus earlier.status = true
    rw [hstatus]
    exact hterminal
  | change => cases hview

theorem Onward.current {bound : Nat} (O : Onward s t bound) : t.current = s.current := by
  rw [Watch.current, Watch.current, O.history, O.deleted]

/-- Nearer to the terminal status: it has been yielded, or the row is as it was and fewer steps of
the generator are left. -/
def Nearer (s t : Watch) : Prop := t.Yielded ∨ (t.current = s.current ∧ t.rank < s.rank)

/-- An answer that was read before the last change is not the row. -/
theorem rank_reading {run : Option RunView} (hphase : s.phase = .reading (.answered run))
    (hrun : run ≠ s.current) : s.rank = 10 := by
  simp only [rank, hphase, if_neg hrun]

theorem rank_peeking {run : Option RunView} (hphase : s.phase = .peeking (.answered run)) :
    s.rank = if run = s.current then 3 else 7 := by
  simp only [rank, hphase]

theorem waits_load {phase : Phase} (h : phase.waits .load = true) :
    phase = .opening .pending ∨ phase = .reading .pending ∨ phase = .peeking .pending := by
  match phase, h with
  | .opening .pending, _ => exact .inl rfl
  | .reading .pending, _ => exact .inr (.inl rfl)
  | .peeking .pending, _ => exact .inr (.inr rfl)

theorem waits_tick {phase : Phase} (h : phase.waits .tick = true) :
    phase = .sleeping false ∨ phase = .dozing false := by
  match phase, h with
  | .sleeping false, _ => exact .inl rfl
  | .dozing false, _ => exact .inr rfl

theorem waits_next {phase : Phase} {now : Nat} (h : phase.waits (.next now) = true) :
    phase = .yielding true ∨ phase = .yielding false := by
  match phase, h with
  | .yielding true, _ => exact .inl rfl
  | .yielding false, _ => exact .inr rfl

theorem waits_resume {phase : Phase} {now : Nat} (h : phase.waits (.resume now) = true) :
    (∃ run, phase = .opening (.answered run) ∨ phase = .reading (.answered run) ∨
      phase = .peeking (.answered run)) ∨ phase = .sleeping true ∨ phase = .dozing true := by
  match phase, h with
  | .opening (.answered _), _ => exact .inl ⟨_, .inl rfl⟩
  | .reading (.answered _), _ => exact .inl ⟨_, .inr (.inl rfl)⟩
  | .peeking (.answered _), _ => exact .inl ⟨_, .inr (.inr rfl)⟩
  | .sleeping true, _ => exact .inr (.inl rfl)
  | .dozing true, _ => exact .inr (.inr rfl)

theorem nearer_resume (H : s.Sound) (P : s.Present) {view : RunView}
    (hcurrent : s.current = some view) (hterminal : view.terminal = true) (hnot : ¬ s.Yielded)
    (now : Nat) (hwaits : s.phase.waits (.resume now) = true) :
    Nearer s (s.resume debounceMs coarse now) := by
  have hdebounce : Onward s (s.debounce debounceMs now) 5 := onward_debounce s now
  have hstatus := H.lastStatus_ne hterminal hnot
  unfold Watch.resume
  rcases waits_resume hwaits with ⟨run, hphase⟩ | hphase | hphase
  · obtain ⟨row, rfl⟩ := Option.ne_none_iff_exists'.mp (P.answers run hphase)
    rcases hphase with hphase | hphase | hphase
    · have hrank : s.rank = 3 := by rw [rank, hphase]
      rw [hphase]
      exact .inr ⟨rfl, hrank ▸ Nat.lt_succ_self _⟩
    · rw [hphase]
      unfold onRead
      dsimp only
      by_cases hrow : some row = s.current
      · cases hrow.trans hcurrent
        rw [if_pos hstatus]
        exact .inl ⟨.run view, List.mem_append_right _ List.mem_cons_self, hterminal⟩
      · have hrank := rank_reading hphase hrow
        split
        · exact .inr ⟨rfl, hrank ▸ Nat.lt_succ_self _⟩
        · split
          · exact .inr ⟨rfl, hrank ▸ Nat.lt_succ_self _⟩
          · have O : Onward s (s.waitForChange debounceMs now) 9 := onward_waitForChange s now
            exact .inr ⟨O.current, hrank ▸ Nat.lt_trans O.rank (by decide)⟩
    · have hrank := rank_peeking hphase
      rw [hphase]
      by_cases hrow : some row = s.current
      · rw [if_pos hrow] at hrank
        cases hrow.trans hcurrent
        have O := onward_consume s now
        dsimp only [onPeek]
        rw [if_pos hstatus]
        exact .inr ⟨O.current, hrank ▸ O.rank⟩
      · rw [if_neg hrow] at hrank
        have O : Onward s (s.onPeek debounceMs now (some row)) 7 := onward_onPeek now
        exact .inr ⟨O.current, hrank ▸ O.rank⟩
  · have hrank : s.rank = 7 := by rw [rank, hphase]
    rw [hphase]
    dsimp only
    split
    · exact .inr ⟨hdebounce.current, hrank ▸ Nat.lt_trans hdebounce.rank (by decide)⟩
    · have O : Onward s { s with woke := false, phase := .reading .pending, owed := false } 3 :=
        onward_reading rfl rfl rfl rfl
      exact .inr ⟨O.current, hrank ▸ Nat.lt_trans O.rank (by decide)⟩
  · have hrank : s.rank = 5 := by rw [rank, hphase]
    rw [hphase]
    dsimp only
    split
    · exact .inr ⟨hdebounce.current, hrank ▸ hdebounce.rank⟩
    · exact .inr ⟨rfl, hrank ▸ Nat.lt_trans (onward_consume s now).rank (by decide)⟩

theorem nearer_load (hwaits : s.phase.waits .load = true) :
    Nearer s { s with phase := s.phase.load s.current } := by
  rcases waits_load hwaits with hphase | hphase | hphase
  · have hrank : s.rank = 4 := by rw [rank, hphase]
    rw [hphase]
    exact .inr ⟨rfl, hrank ▸ Nat.lt_succ_self _⟩
  · have hrank : s.rank = 2 := by rw [rank, hphase]
    rw [hphase]
    exact .inr ⟨rfl, hrank ▸ (if_pos rfl).trans_lt (by decide)⟩
  · have hrank : s.rank = 4 := by rw [rank, hphase]
    rw [hphase]
    exact .inr ⟨rfl, hrank ▸ (if_pos rfl).trans_lt (by decide)⟩

theorem nearer_tick (hwaits : s.phase.waits .tick = true) :
    Nearer s { s with phase := s.phase.wake } := by
  rcases waits_tick hwaits with hphase | hphase
  · have hrank : s.rank = 8 := by rw [rank, hphase]
    rw [hphase]
    exact .inr ⟨rfl, hrank ▸ Nat.lt_succ_self _⟩
  · have hrank : s.rank = 6 := by rw [rank, hphase]
    rw [hphase]
    exact .inr ⟨rfl, hrank ▸ Nat.lt_succ_self _⟩

theorem nearer_next (P : s.Present) (hnot : ¬ s.Yielded) {now : Nat}
    (hwaits : s.phase.waits (.next now) = true) :
    Nearer s (s.step debounceMs coarse (.next now)) := by
  dsimp only [step]
  rcases waits_next hwaits with hphase | hphase
  · exact absurd (P.ended (.inl hphase)) hnot
  · have hrank : s.rank = 9 := by rw [rank, hphase]
    have O : Onward s (s.waitForChange debounceMs now) 9 := onward_waitForChange s now
    rw [hphase]
    exact .inr ⟨O.current, hrank ▸ O.rank⟩

theorem nearer_step (H : s.Sound) (P : s.Present) {view : RunView}
    (hcurrent : s.current = some view) (hterminal : view.terminal = true) (hnot : ¬ s.Yielded)
    {e : Event} (hwaits : s.phase.waits e = true) : Nearer s (s.step debounceMs coarse e) := by
  cases e with
  | load => exact nearer_load hwaits
  | tick => exact nearer_tick hwaits
  | resume now => exact nearer_resume H P hcurrent hterminal hnot now hwaits
  | next now => exact nearer_next P hnot hwaits
  | update _ | delete | wake | fail | close =>
    unfold Phase.waits at hwaits
    split at hwaits <;> contradiction

theorem rank_congr (hphase : t.phase = s.phase) (hcurrent : t.current = s.current) :
    t.rank = s.rank := by
  unfold rank
  rw [hphase, hcurrent]

theorem wake_of_not_waits {phase : Phase} (h : phase.waits .tick = false) : phase.wake = phase := by
  cases phase with
  | sleeping woken | dozing woken =>
    cases woken with
    | true => rfl
    | false => cases h
  | opening _ | reading _ | peeking _ | yielding _ | finished => rfl

/-- An event that the generator does not wait for leaves the terminal status as near as it was. -/
theorem rank_step_le {view : RunView} (hcurrent : s.current = some view)
    (hterminal : view.terminal = true) {e : Event} (he : e.interrupts = false)
    (hwaits : s.phase.waits e = false) :
    (s.step debounceMs coarse e).current = s.current ∧
      (s.step debounceMs coarse e).rank ≤ s.rank := by
  have hstay : s.step debounceMs coarse e = s →
      (s.step debounceMs coarse e).current = s.current ∧
        (s.step debounceMs coarse e).rank ≤ s.rank := fun h => by rw [h]; exact ⟨rfl, le_rfl⟩
  cases e with
  | update other =>
    refine hstay (if_neg ?_)
    rw [hcurrent, Option.any_some, hterminal]
    nofun
  | wake =>
    dsimp only [step, onWake]
    split
    · refine ⟨rfl, ?_⟩
      cases hphase : s.phase with
      | sleeping woken | dozing woken =>
        cases woken <;> simp only [rank, hphase, Phase.wake] <;> decide
      | opening _ | reading _ | peeking _ | yielding _ | finished =>
        exact Nat.le_of_eq (rank_congr hphase.symm rfl)
    · exact ⟨rfl, le_rfl⟩
  | load =>
    refine hstay ?_
    dsimp only [step, Phase.load]
    split
    · next hphase => rw [hphase] at hwaits; cases hwaits
    · next hphase => rw [hphase] at hwaits; cases hwaits
    · next hphase => rw [hphase] at hwaits; cases hwaits
    · rfl
  | tick =>
    refine hstay ?_
    dsimp only [step]
    rw [wake_of_not_waits hwaits]
  | resume now =>
    refine hstay ?_
    dsimp only [step, resume]
    split
    all_goals first | rfl | (next hphase => rw [hphase] at hwaits; cases hwaits)
  | next now =>
    refine hstay ?_
    dsimp only [step]
    split
    all_goals first | rfl | (next hphase => rw [hphase] at hwaits; cases hwaits)
  | delete | fail | close => cases he

/-- A terminal status that the row has reached is yielded when the generator goes on. -/
theorem reached (H : s.Sound) (P : s.Present) {view : RunView} (hcurrent : s.current = some view)
    (hterminal : view.terminal = true) {l : List Event} (hl : ∀ e ∈ l, e.interrupts = false) :
    (Trace.run (step debounceMs coarse) s l).Yielded ∨
      (Trace.run (step debounceMs coarse) s l).rank +
        Trace.awaited (step debounceMs coarse) (fun s e => s.phase.waits e) s l ≤ s.rank := by
  refine Trace.run_reaches (step debounceMs coarse)
    (I := fun s => s.Sound ∧ s.Present ∧ (s.current = some view ∨ s.Yielded))
    (fun s e h => h.step e) (fun s e he h => ?_) (fun s e he h hnot => ?_) hl
    ⟨H, P, .inl hcurrent⟩
  · obtain ⟨H, P, hcurrent⟩ := h
    refine ⟨H.step e, P.step he, ?_⟩
    by_cases hyielded : s.Yielded
    · exact .inr (hyielded.step e)
    have hcurrent := hcurrent.resolve_right hyielded
    cases hwaits : s.phase.waits e with
    | false => exact .inl ((rank_step_le hcurrent hterminal he hwaits).1.trans hcurrent)
    | true =>
      rcases nearer_step H P hcurrent hterminal hyielded hwaits with h | h
      · exact .inr h
      · exact .inl (h.1.trans hcurrent)
  · obtain ⟨H, P, hcurrent⟩ := h
    have hcurrent := hcurrent.resolve_right hnot
    cases hwaits : s.phase.waits e with
    | false => exact .inr (rank_step_le hcurrent hterminal he hwaits).2
    | true =>
      rcases nearer_step H P hcurrent hterminal hnot hwaits with h | h
      · exact .inl h
      · exact .inr h.2

/-- The generator waits for something until it has returned. -/
theorem exists_waits (h : s.phase ≠ .finished) : ∃ e : Event, s.phase.waits e = true := by
  cases hphase : s.phase with
  | opening read | reading read | peeking read =>
    cases read with
    | pending => exact ⟨.load, rfl⟩
    | answered run => exact ⟨.resume 0, rfl⟩
  | sleeping woken | dozing woken =>
    cases woken with
    | false => exact ⟨.tick, rfl⟩
    | true => exact ⟨.resume 0, rfl⟩
  | yielding terminal => exact ⟨.next 0, rfl⟩
  | finished => exact absurd hphase h

/-- What a watch of a run owes to the one who reads it. -/
structure Faithful (s : Watch) : Prop where
  /-- What was yielded is a part of the row's history, in its order. -/
  history : s.seen.Sublist s.history
  changes : (s.seen.map RunView.status).IsChain (· ≠ ·)
  /-- Only the last event has a terminal status, and the generator returns after it. -/
  last : ∀ event ∈ s.yields.dropLast, event.terminal = false
  returns : s.Yielded → s.phase = .yielding true ∨ s.phase = .finished
  /-- After a wake in a read or a `yield` there is a read before the next sleep. -/
  woken : s.owed = true → s.phase.asleep = false
  unsubscribed : s.phase = .finished → s.subscribed = false
  goes : s.phase ≠ .finished → ∃ e : Event, s.phase.waits e = true

/-- A watch of a run that is there, undisturbed: a terminal status, once reached, is yielded before
the generator has gone on eleven times. -/
structure Ends (debounceMs : Nat) (coarse : Bool) (s : Watch) : Prop where
  returned : s.phase = .finished → s.Yielded
  reached : ∀ view, s.current = some view → view.terminal = true → ∀ l : List Event,
    (∀ e ∈ l, e.interrupts = false) →
    10 < Trace.awaited (step debounceMs coarse) (fun s e => s.phase.waits e) s l →
    (Trace.run (step debounceMs coarse) s l).Yielded

theorem Sound.faithful (H : s.Sound) : s.Faithful where
  history := H.seen
  changes := (List.isChain_map RunView.status).mpr H.chain
  last := H.tail
  returns := fun ⟨event, hevent, hterminal⟩ => H.quits event hevent hterminal
  woken := H.awake
  unsubscribed h := by
    rw [← H.subscribed, h]
    rfl
  goes := exists_waits

theorem Present.ends (H : s.Sound) (P : s.Present) : s.Ends debounceMs coarse where
  returned h := P.ended (.inr h)
  reached view hcurrent hterminal l hl hcount := by
    rcases reached H P hcurrent hterminal hl with h | h
    · exact h
    · have hrank := rank_le s
      omega

theorem present_new {history : List RunView} (h : history ≠ []) : Present { history } where
  alive := rfl
  row := h
  answers run h := by rcases h with h | h | h <;> cases h
  ended h := by rcases h with h | h <;> cases h

/-- A watch is faithful in every state that it reaches, whatever the order of changes, wakes, reads,
timers and requests; and it ends with the terminal status of a run that is there. -/
theorem watchRun_faithful (debounceMs : Nat) (coarse : Bool) (history : List RunView)
    (l : List Event) :
    (Trace.run (step debounceMs coarse) { history } l).Faithful ∧
      (history ≠ [] → (∀ e ∈ l, e.interrupts = false) →
        (Trace.run (step debounceMs coarse) { history } l).Ends debounceMs coarse) := by
  have H : (Trace.run (step debounceMs coarse) { history } l).Sound :=
    Trace.run_inv (step debounceMs coarse) (P := fun _ => True) (fun _ e _ H => H.step e)
      (fun _ _ => trivial) (sound_new history)
  refine ⟨H.faithful, fun hhistory hl => Present.ends H ?_⟩
  exact Trace.run_inv (step debounceMs coarse) (fun _ _ he P => P.step he) hl (present_new hhistory)

/-- The run completes while its first status is with the consumer. -/
theorem watchRun_faithful_completed :
    let t := Trace.run (step 250 false) { history := [⟨.queued, none⟩] }
      [.load, .resume 1000, .load, .resume 1000, .update ⟨.completed, none⟩, .wake, .next 1005,
        .load, .resume 1006, .next 1007]
    t.yields = [.run ⟨.queued, none⟩, .run ⟨.completed, none⟩] ∧ t.phase = .finished ∧
      t.Ends 250 false :=
  ⟨by decide, by decide, (watchRun_faithful 250 false _ _).2 (by decide) (by decide)⟩

end Watch

end Neemata.Workflows.WatchRun
