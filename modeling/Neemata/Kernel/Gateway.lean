import Neemata.Lib.Entries
import Neemata.Lib.Trace

/-!
# The connections of a gateway

`Gateway` of `gateway/src/gateway.ts`: `onConnect`, `onDisconnect`, `onRpc` and `stop` are taken
from one await to the next, in any order. A connection keeps what the maps of the gateway have under
its id, and its calls and the runs of `teardownConnection` in the order in which they began; the
manager keeps the order in which `stop` sweeps. What a step of a teardown throws is caught by its
guard, and one that does not settle is given up after a time, so a step comes to an end whatever it
does.
-/

namespace Neemata.Kernel

inductive ConnectPhase where
  /-- `await container.resolve(this.options.identity)` -/
  | resolving
  /-- The identity has failed: `await container.dispose()` -/
  | failing
  | rejected
  | connected
deriving DecidableEq

/-- The awaits of `teardownConnection`. -/
inductive TeardownPhase where
  /-- `abortController.abort()` has been called. -/
  | aborting
  /-- `abortCalls` has been called. -/
  | abortingCalls
  /-- `container.dispose()` has been called. -/
  | disposing
  | finished
deriving DecidableEq

structure GatewayCall where
  /-- `callSignal.aborted` -/
  aborted : Bool := false
  /-- The dispose function of the call has run. -/
  settled : Bool := false
  /-- It was running when the teardown of its connection began, or began later. -/
  overlaps : Bool := false
deriving DecidableEq

/-- A call of `closeConnection`. -/
structure Closer where
  /-- The teardown whose promise it returns. -/
  awaiting : Option Nat
  /-- It begins a teardown, or one is in flight. -/
  concurrent : Bool
deriving DecidableEq

structure GatewayConnection where
  phase : ConnectPhase := .resolving
  calls : List GatewayCall := []
  teardowns : List TeardownPhase := []
  closers : List Closer := []
  /-- The entry of `closingConnections`. -/
  closing : Option Nat := none
  /-- The entry of `connectionCalls`. -/
  connectionCalls : Option (List Nat) := none
  /-- `abortCalls` has run. -/
  callsAborted : Bool := false
  /-- How often `container.dispose` has been called. -/
  disposals : Nat := 0
deriving DecidableEq

namespace GatewayConnection

/-- The teardown of the connection has begun. -/
def tornDown (c : GatewayConnection) : Bool := c.teardowns ≠ []

/-- A teardown is in flight. -/
def inFlight (c : GatewayConnection) : Bool := c.teardowns.any (· ≠ .finished)

def resolved (c : GatewayConnection) : GatewayConnection := { c with phase := .connected }

def failed (c : GatewayConnection) : GatewayConnection :=
  { c with phase := .failing, disposals := c.disposals + 1 }

def rejected (c : GatewayConnection) : GatewayConnection := { c with phase := .rejected }

def trackCall (c : GatewayConnection) (call : Nat) : GatewayConnection :=
  { c with connectionCalls := some (c.connectionCalls.getD [] ++ [call]) }

def untrackCall (c : GatewayConnection) (call : Nat) : GatewayConnection :=
  match c.connectionCalls with
  | none => c
  | some calls =>
    let calls := calls.erase call
    { c with connectionCalls := if calls = [] then none else some calls }

def abortCalls (c : GatewayConnection) : GatewayConnection :=
  let tracked := c.connectionCalls.getD []
  { c with
    connectionCalls := none
    callsAborted := true
    calls := c.calls.mapIdx fun i call =>
      if i ∈ tracked then { call with aborted := true } else call }

/-- The connection has been claimed: `teardownConnection` begins. -/
def beginTeardown (c : GatewayConnection) : GatewayConnection :=
  { c with
    teardowns := c.teardowns ++ [.aborting]
    closing := some c.teardowns.length
    calls := c.calls.map fun call => { call with overlaps := call.overlaps || !call.settled } }

/-- The next await of a teardown. -/
def advance (c : GatewayConnection) (teardown : Nat) : GatewayConnection :=
  match c.teardowns[teardown]? with
  | some .aborting => { c.abortCalls with teardowns := c.teardowns.set teardown .abortingCalls }
  | some .abortingCalls =>
    { c with teardowns := c.teardowns.set teardown .disposing, disposals := c.disposals + 1 }
  | some .disposing =>
    { c with teardowns := c.teardowns.set teardown .finished, closing := none }
  | some .finished | none => c

def onRpc (c : GatewayConnection) : GatewayConnection :=
  { c.trackCall c.calls.length with calls := c.calls ++ [{ overlaps := c.tornDown }] }

/-- The signal that the transport has given to a call. -/
def signal (c : GatewayConnection) (call : Nat) : GatewayConnection :=
  { c with calls := c.calls.modify call fun call => { call with aborted := true } }

/-- The dispose function of a call. -/
def settle (c : GatewayConnection) (call : Nat) : GatewayConnection :=
  { c.untrackCall call with
    calls := c.calls.modify call fun call => { call with settled := true } }

end GatewayConnection

/-- The awaits of `stop`. -/
inductive StopPhase where
  | transports
  /-- The sweep awaits a teardown of a connection. -/
  | sweeping (awaiting : Option (Nat × Nat))
  /-- `Promise.all(this.closingConnections.values())` -/
  | closing (awaiting : List (Nat × Nat))
  | settled
deriving DecidableEq

structure Gateway where
  /-- Every connection that `onConnect` has begun to make. -/
  connections : List GatewayConnection := []
  /-- The ids of `this.connections`. -/
  manager : List Nat := []
  stops : List StopPhase := []
deriving DecidableEq

/-- `teardown` counts the teardowns of a connection, `call` its calls. -/
inductive GatewayEvent where
  | onConnect
  | resolved (connection : Nat)
  | failed (connection : Nat)
  /-- The container of a connection that has failed is disposed. -/
  | rejected (connection : Nat)
  | onDisconnect (connection : Nat)
  | teardown (connection teardown : Nat)
  | onRpc (connection : Nat)
  | signal (connection call : Nat)
  | settle (connection call : Nat)
  | stop
  /-- What a `stop` awaits has settled. -/
  | stopAwaited (stop : Nat)

namespace Gateway

variable (g : Gateway)

def update (connection : Nat) (f : GatewayConnection → GatewayConnection) : Gateway :=
  { g with connections := g.connections.modify connection f }

/-- A call of `closeConnection` that returns a promise. -/
def addCloser (connection : Nat) (closer : Closer) : Gateway :=
  g.update connection fun c => { c with closers := c.closers ++ [closer] }

/-- The gateway, with the teardown whose promise is returned. -/
def closeConnection (connection : Nat) : Gateway × Option Nat :=
  match g.connections[connection]? with
  | none => (g, none)
  | some c =>
    match c.closing with
    | some teardown => (g.addCloser connection ⟨some teardown, c.inFlight⟩, some teardown)
    | none =>
      if connection ∈ g.manager then
        let claimed := { g with manager := g.manager.erase connection }.update connection
          (·.beginTeardown)
        (claimed.addCloser connection ⟨some c.teardowns.length, true⟩, some c.teardowns.length)
      else (g.addCloser connection ⟨none, c.inFlight⟩, none)

/-- The promises of `closingConnections`. -/
def closingConnections : List (Nat × Nat) :=
  (g.connections.mapIdx fun i c => c.closing.map (i, ·)).filterMap id

/-- A teardown has settled. -/
def hasFinished (awaiting : Nat × Nat) : Bool :=
  match g.connections[awaiting.1]?.bind (·.teardowns[awaiting.2]?) with
  | some .finished => true
  | _ => false

/-- The sweep goes on: the map is read as it is now, without what has been visited. -/
def sweep : Gateway × StopPhase :=
  match g.manager with
  | [] => (g, .closing g.closingConnections)
  | connection :: _ =>
    let (closed, teardown) := g.closeConnection connection
    (closed, .sweeping (teardown.map (connection, ·)))

def stopAwaited (stop : Nat) : Gateway :=
  match g.stops[stop]? with
  | some .transports =>
    let (swept, phase) := g.sweep
    { swept with stops := swept.stops.set stop phase }
  | some (.sweeping awaiting) =>
    if awaiting.all g.hasFinished then
      let (swept, phase) := g.sweep
      { swept with stops := swept.stops.set stop phase }
    else g
  | some (.closing awaiting) =>
    if awaiting.all g.hasFinished then { g with stops := g.stops.set stop .settled } else g
  | some .settled | none => g

/-- A connection is handed to a transport by `onConnect`. -/
def isConnected (connection : Nat) : Bool :=
  g.connections[connection]?.any (·.phase = .connected)

def isResolving (connection : Nat) : Bool :=
  g.connections[connection]?.any (·.phase = .resolving)

/-- An event that nothing waits for changes nothing. -/
def step (g : Gateway) : GatewayEvent → Gateway
  | .onConnect => { g with connections := g.connections ++ [{}] }
  | .resolved connection =>
    if g.isResolving connection then
      { g.update connection (·.resolved) with manager := g.manager ++ [connection] }
    else g
  | .failed connection =>
    if g.isResolving connection then g.update connection (·.failed) else g
  | .rejected connection =>
    g.update connection fun c => if c.phase = .failing then c.rejected else c
  | .onDisconnect connection => (g.closeConnection connection).1
  | .teardown connection teardown => g.update connection (·.advance teardown)
  | .onRpc connection => if g.isConnected connection then g.update connection (·.onRpc) else g
  | .signal connection call => g.update connection (·.signal call)
  | .settle connection call => g.update connection (·.settle call)
  | .stop => { g with stops := g.stops ++ [.transports] }
  | .stopAwaited stop => g.stopAwaited stop

/-- The gateway after some events. -/
def after (events : List GatewayEvent) : Gateway := Trace.run step {} events

end Gateway

end Neemata.Kernel
