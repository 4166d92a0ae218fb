import Neemata.Lib.Trace

/-!
# Starting and stopping a server host

`start` and `stop` of `BaseServerHost` (`transports/src/http-server/host.ts`), which keep two
promises: of the socket that is bound or being bound, and of the one that is being closed. A call
that waits is a job: it stands among the reactions of the promise it waits for, and in the queue of
microtasks once that promise has settled. `bind` and `close` give promises that settle at any time,
in any order and either way, and a `bind` may throw at once; calls are made between any two jobs.
-/

namespace Neemata.Http

/-- What a waiting call does when it goes on. -/
inductive HostJob where
  /-- The `catch` on the closing promise, for which a `start` waits. -/
  | startCaught
  /-- A `start` goes on after a close. -/
  | startResumed
  /-- A `start` goes on with the outcome of the bind. -/
  | startBound (bind : Nat)
  /-- The `catch` on the promise of the bind, for which a `stop` waits. -/
  | stopCaught (bind : Nat)
  /-- A `stop` goes on after the bind. -/
  | stopResumed (bind : Nat)
  /-- A `stop` goes on after its close. -/
  | stopClosed (close : Nat)
deriving DecidableEq

inductive PromiseState where
  | pending | resolved | rejected
deriving DecidableEq

/-- A call of `bind`. -/
structure HostBind where
  state : PromiseState := .pending
  reactions : List HostJob
deriving DecidableEq

/-- A call of `close`, for the socket of a bind. -/
structure HostClose where
  bind : Nat
  state : PromiseState := .pending
  reactions : List HostJob
deriving DecidableEq

inductive HostCall where
  | start | stop
deriving DecidableEq

structure ServerHost where
  /-- `#bound` -/
  bound : Option Nat := none
  /-- `#closing` -/
  closing : Option Nat := none
  binds : List HostBind := []
  closes : List HostClose := []
  /-- The jobs that are due, in order. -/
  queue : List HostJob := []
  /-- The call made last. -/
  last : Option HostCall := none
deriving DecidableEq

inductive HostEvent where
  /-- A call of `start`; one that is not valid throws on its requirements. Here and below, `throws`
  says of a `bind` that is called now whether it throws instead of giving a promise. -/
  | start (valid throws : Bool)
  | stop
  /-- The job that is due first. -/
  | job (throws : Bool)
  | bindSettles (bind : Nat) (resolves : Bool)
  | closeSettles (close : Nat) (resolves : Bool)
deriving DecidableEq

namespace ServerHost

variable (s : ServerHost)

def outcome (resolves : Bool) : PromiseState := if resolves then .resolved else .rejected

/-- Wait for a bind: at once if it has settled. -/
def awaitBind (b : Nat) (job : HostJob) : ServerHost :=
  match s.binds[b]? with
  | some ⟨.pending, reactions⟩ =>
    { s with binds := s.binds.set b { reactions := reactions ++ [job] } }
  | _ => { s with queue := s.queue ++ [job] }

def awaitClose (c : Nat) (job : HostJob) : ServerHost :=
  match s.closes[c]? with
  | some ⟨bind, .pending, reactions⟩ =>
    { s with closes := s.closes.set c { bind, reactions := reactions ++ [job] } }
  | _ => { s with queue := s.queue ++ [job] }

/-- `start` from `this.#bound ??= this.bind()` on. -/
def join (throws : Bool) : ServerHost :=
  match s.bound with
  | some b => s.awaitBind b (.startBound b)
  | none =>
    if throws then
      { s with binds := s.binds ++ [{ state := .rejected, reactions := [] }] }
    else
      { s with
        bound := some s.binds.length
        binds := s.binds ++ [{ reactions := [.startBound s.binds.length] }] }

def start (valid throws : Bool) : ServerHost :=
  if valid then
    match s.closing with
    | some c => s.awaitClose c .startCaught
    | none => s.join throws
  else s

def stop : ServerHost :=
  match s.bound with
  | none => s
  | some b => s.awaitBind b (.stopCaught b)

/-- The `catch` of `start`. -/
def startBound (b : Nat) : ServerHost :=
  if (s.binds[b]?.map HostBind.state) = some .rejected ∧ s.bound = some b then
    { s with bound := none }
  else s

/-- `stop` after the bind. -/
def stopResumed (b : Nat) : ServerHost :=
  if s.bound = some b then
    { s with
      bound := none
      closing := some s.closes.length
      closes := s.closes ++ [{ bind := b, reactions := [.stopClosed s.closes.length] }] }
  else s

def runJob (throws : Bool) : HostJob → ServerHost
  | .startCaught => { s with queue := s.queue ++ [.startResumed] }
  | .startResumed => s.join throws
  | .startBound b => s.startBound b
  | .stopCaught b => { s with queue := s.queue ++ [.stopResumed b] }
  | .stopResumed b => s.stopResumed b
  | .stopClosed _ => { s with closing := none }

def step (s : ServerHost) : HostEvent → ServerHost
  | .start valid throws => { s.start valid throws with last := some .start }
  | .stop => { s.stop with last := some .stop }
  | .job throws =>
    match s.queue with
    | [] => s
    | job :: rest => runJob { s with queue := rest } throws job
  | .bindSettles b resolves =>
    match s.binds[b]? with
    | some ⟨.pending, reactions⟩ =>
      { s with
        binds := s.binds.set b { state := outcome resolves, reactions := [] }
        queue := s.queue ++ reactions }
    | _ => s
  | .closeSettles c resolves =>
    match s.closes[c]? with
    | some ⟨bind, .pending, reactions⟩ =>
      { s with
        closes := s.closes.set c { bind, state := outcome resolves, reactions := [] }
        queue := s.queue ++ reactions }
    | _ => s

/-! ## What the states say -/

/-- The bind has failed, or its socket has been closed. -/
def Over (b : Nat) : Prop :=
  s.binds[b]?.map HostBind.state = some .rejected ∨ b ∈ s.closes.map HostClose.bind

/-- A close is in progress. -/
def Closing : Prop := ∃ c ∈ s.closes, c.state = .pending

/-- Nothing is bound or being bound. -/
def Unbound : Prop := ∀ b < s.binds.length, s.Over b

/-- All calls have settled. -/
def Settled : Prop :=
  s.queue = [] ∧ (∀ b ∈ s.binds, b.reactions = []) ∧ ∀ c ∈ s.closes, c.reactions = []

end ServerHost

end Neemata.Http
