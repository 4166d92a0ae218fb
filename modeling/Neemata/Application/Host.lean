import Neemata.Common.Lifecycle
import Neemata.Common.TeardownStack

/-!
# The application host

`ApplicationHost` of `application/src/host.ts`, with the lifecycle of `common/src/lifecycle.ts` that
it starts and stops by. Every call is made after the one before it has settled; which steps of a
call throw is given by a function. An application, a gateway and the teardown that a Start hook
returns are numbered as they come up.
-/

namespace Neemata.Application

open Common (LifecycleState LifecycleError unwind)
open Fallible (outcome)

/-- A step that can throw. -/
inductive HostStep where
  /-- The constructor of `NeemataApplication`. -/
  | construct
  | initialization
  | dispose
  /-- The options of a transport are resolved. -/
  | transportOptions (key : String)
  | transportFactory (key : String)
  | gatewayStart
  | gatewayStop
  | gatewayReload
  | startHook (index : Nat)
  /-- The Stop hooks. -/
  | stopHooks
  | teardown (id : Nat)
deriving DecidableEq

inductive HostError where
  | raised (step : HostStep)
  | aggregate (errors : List HostStep) (message : String)
  /-- A property of `undefined` is read. -/
  | typeError
deriving DecidableEq

/-- What `start` defers. -/
inductive HostTeardown where
  | application
  | services
  | gateway
deriving DecidableEq

/-- What is deferred on `appServices`. -/
inductive Service where
  | stopHooks
  | teardown (id : Nat)
deriving DecidableEq

structure ApplicationHost where
  /-- The keys of `options.transports`. -/
  transports : List String
  /-- The state and the stack of `#lifecycle`. -/
  state : LifecycleState := .idle
  stack : List HostTeardown := []
  /-- The teardowns of the last `appServices`. -/
  services : List Service := []
  application : Option Nat := none
  gateway : Option Nat := none
  /-- How many applications and gateways have been constructed. -/
  constructed : Nat := 0
  gateways : Nat := 0
  /-- The applications `dispose` has been called on. -/
  disposed : List Nat := []
  /-- The gateways whose `start` has returned, and those whose `stop` has been called. -/
  started : List Nat := []
  stopped : List Nat := []
  /-- How many teardowns the Start hooks have returned, and the ones that have run. -/
  returned : Nat := 0
  ran : List Nat := []
deriving DecidableEq

/-- `hooks` tells of every Start hook whether it returns a teardown. -/
inductive ApplicationHostEvent where
  | start (hooks : List Bool) (throws : HostStep → Bool)
  | reload (throws : HostStep → Bool)
  | stop (throws : HostStep → Bool)

namespace ApplicationHost

/-- A program of the host that throws a value of type `ε`. -/
abbrev Program (ε α : Type) := EStateM ε ApplicationHost α

variable (throws : HostStep → Bool)

def perform (step : HostStep) : Program HostError Unit :=
  if throws step then throw (.raised step) else pure ()

/-- `this.application.dispose()` -/
def disposeApplication : Program HostError Unit := do
  let host ← get
  match host.application with
  | none => throw .typeError
  | some application => do
    modify fun host => { host with disposed := application :: host.disposed }
    perform throws .dispose

def createApplication : Program HostError Nat := do
  perform throws .construct
  let host ← get
  modify fun host => { host with constructed := host.constructed + 1 }
  perform throws .initialization
  pure host.constructed

def createTransports : Program HostError Unit := do
  let host ← get
  host.transports.forM fun key => do
    perform throws (.transportOptions key)
    perform throws (.transportFactory key)

def runService : Service → Program HostStep Unit
  | .stopHooks => if throws .stopHooks then throw .stopHooks else pure ()
  | .teardown id => do
    modify fun host => { host with ran := id :: host.ran }
    if throws (.teardown id) then throw (.teardown id) else pure ()

def unwindServices : Program HostError Unit := do
  let host ← get
  match ← unwind (runService throws) host.services with
  | [] => pure ()
  | errors => throw (.aggregate errors "Failed to stop application services")

def stopGateway : Program HostError Unit := do
  let host ← get
  match host.gateway with
  | none => throw .typeError
  | some gateway => do
    modify fun host => { host with stopped := gateway :: host.stopped }
    perform throws .gatewayStop

def runTeardown : HostTeardown → Program HostError Unit
  | .application => disposeApplication throws
  | .services => unwindServices throws
  | .gateway => stopGateway throws

def defer (teardown : HostTeardown) : Program HostError Unit :=
  modify fun host => { host with stack := host.stack ++ [teardown] }

def deferService (service : Service) : Program HostError Unit :=
  modify fun host => { host with services := host.services ++ [service] }

/-- `new Gateway(..)` -/
def createGateway : Program HostError Unit :=
  modify fun host => { host with gateway := some host.gateways, gateways := host.gateways + 1 }

def startGateway : Program HostError Unit := do
  perform throws .gatewayStart
  modify fun host => { host with started := host.gateway.toList ++ host.started }

/-- The Start hooks from an index on. -/
def runStartHooks : List Bool → Nat → Program HostError Unit
  | [], _ => pure ()
  | returnsTeardown :: hooks, index => do
    perform throws (.startHook index)
    if returnsTeardown then do
      let host ← get
      modify fun host => { host with returned := host.returned + 1 }
      deferService (.teardown host.returned)
    runStartHooks hooks (index + 1)

/-- The function that `start` gives to the lifecycle. -/
def bringUp (hooks : List Bool) : Program HostError Unit := do
  let application ← createApplication throws
  modify fun host => { host with application := some application }
  defer .application
  modify fun host => { host with services := [] }
  defer .services
  createTransports throws
  createGateway
  startGateway throws
  defer .gateway
  deferService .stopHooks
  runStartHooks throws hooks 0

/-- `this.#stack.unwind()`, after which the lifecycle is idle. -/
def unwindStack : Program (LifecycleError HostError) (List HostError) := do
  let host ← get
  modify fun host => { host with stack := [] }
  let errors ← unwind (runTeardown throws) host.stack
  modify fun host => { host with state := .idle }
  pure errors

def name : String := "application host"

def start (hooks : List Bool) : Program (LifecycleError HostError) Unit := do
  let host ← get
  if host.state ≠ .idle then throw (Common.Lifecycle.alreadyStarted name)
  else do
    modify fun host => { host with state := .starting }
    match ← outcome (bringUp throws hooks) with
    | .ok _ => modify fun host => { host with state := .running }
    | .error error => do
      let rollbackErrors ← unwindStack throws
      throw (Common.Lifecycle.startFailure name error rollbackErrors)

def stop : Program (LifecycleError HostError) Unit := do
  let host ← get
  if host.state ≠ .running then pure ()
  else do
    modify fun host => { host with state := .stopping }
    match ← unwindStack throws with
    | [] => pure ()
    | errors => throw (.aggregate errors s!"Failed to stop the {name}")

def reloadApplication : Program HostError Unit := do
  disposeApplication throws
  let application ← createApplication throws
  modify fun host => { host with application := some application }
  let host ← get
  match host.gateway with
  | none => throw .typeError
  | some _ => perform throws .gatewayReload

def step (host : ApplicationHost) : ApplicationHostEvent → ApplicationHost
  | .start hooks throws => Fallible.after (start throws hooks) host
  | .reload throws => Fallible.after (reloadApplication throws) host
  | .stop throws => Fallible.after (stop throws) host

end ApplicationHost

end Neemata.Application
