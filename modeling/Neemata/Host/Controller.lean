import Neemata.Lib.Fallible
import Neemata.Lib.OrdMap
import Neemata.Lib.Trace

/-!
# The host controller

`HostController` of `neem/src/internal/host/controller.ts`. Its operations run one at a time; which
of their steps throw is given (`StopThrows`, `BringUpThrows`, `ReloadThrows`). A subsystem is
`started` when its `start` or `initialize` has returned, a runtime when its `start` is called, and
`released` when its `stop` or `dispose` is called.
-/

namespace Neemata.Host

inductive ServerState where
  | idle | starting | running | reloading | failed | stopping | stopped
deriving DecidableEq

structure HealthConfig where
  hostname : Option String := none
  port : Nat
  healthPath : Option String := none
  readyPath : Option String := none
deriving DecidableEq

def normalizePath (path : Option String) (fallback : String) : String :=
  match path with
  | none => fallback
  | some path => if path = "" then fallback else if path.front = '/' then path else "/" ++ path

/-- `matches`, of the configuration of a probe. -/
def HealthConfig.covers (probe config : HealthConfig) : Bool :=
  probe.hostname.getD "127.0.0.1" = config.hostname.getD "127.0.0.1" &&
    probe.port = config.port &&
    normalizePath probe.healthPath "/health" = normalizePath config.healthPath "/health" &&
    normalizePath probe.readyPath "/ready" = normalizePath config.readyPath "/ready"

structure HostSnapshot where
  production : Bool := true
  /-- The names of the runtimes of the manifest. -/
  runtimes : List String
  proxy : Bool
  health : Option HealthConfig
deriving DecidableEq

/-- A subsystem by its number. -/
inductive Subsystem where
  | plugins (id : Nat)
  | healthProbe (id : Nat)
  | runtime (id : Nat)
  | proxy (id : Nat)
deriving DecidableEq

structure HostController where
  failOnWorkerError : Option Bool := none
  state : ServerState := .idle
  snapshot : HostSnapshot
  runtimes : OrdMap String Nat := .empty
  proxy : Option Nat := none
  healthProbe : Option (Nat × HealthConfig) := none
  plugins : Option Nat := none
  /-- How many subsystems have been created. -/
  created : Nat := 0
  started : List Subsystem := []
  released : List Subsystem := []
deriving DecidableEq

/-- What throws in `stopSubsystems`. -/
structure StopThrows where
  proxy : Bool := false
  health : Bool := false
  plugins : Bool := false
deriving DecidableEq

/-- What throws in `bringUp`. -/
structure BringUpThrows where
  prepare : StopThrows := {}
  plugins : Bool := false
  healthStop : Bool := false
  healthStart : Bool := false
  startHook : Bool := false
  runtimes : Bool := false
  proxy : Bool := false
  readyHook : Bool := false
  cleanup : StopThrows := {}
deriving DecidableEq

/-- What throws in `reloadRuntime`. -/
structure ReloadThrows where
  detachProxy : Bool := false
  stop : Bool := false
  start : Bool := false
  attachProxy : Bool := false
  hook : Bool := false
deriving DecidableEq

inductive HostEvent where
  | start (throws : BringUpThrows)
  | reload (snapshot : HostSnapshot) (throws : BringUpThrows)
  | reloadRuntime (runtimeName : String) (snapshot : HostSnapshot) (throws : ReloadThrows)
  | stop (hookThrows : Bool) (throws : StopThrows)
  /-- `onFailure` of a runtime. -/
  | runtimeFailed
deriving DecidableEq

namespace HostController

/-- A program of the controller that throws a value of type `ε`. -/
abbrev Step (ε : Type) := EStateM ε HostController

def call (throws : Bool) : Step Unit Unit := if throws then throw () else pure ()

def markState (state : ServerState) : Step Unit Unit := modify fun s => { s with state }

/-- The `stop` or `dispose` of some subsystems is called. -/
def release {ε : Type} (subsystems : List Subsystem) : Step ε Unit :=
  modify fun s => { s with released := subsystems ++ s.released }

def stopHealthProbe (throws : Bool) : Step Unit Unit := do
  let s ← get
  modify fun s => { s with healthProbe := none }
  match s.healthProbe with
  | none => pure ()
  | some (probe, _) =>
    release [.healthProbe probe]
    call throws

def stopProxy (proxy : Option Nat) (throws : Bool) : Step Unit Unit :=
  match proxy with
  | none => pure ()
  | some proxy => do
    release [.proxy proxy]
    call throws

def disposePlugins (plugins : Option Nat) (throws : Bool) : Step Unit Unit :=
  match plugins with
  | none => pure ()
  | some plugins => do
    release [.plugins plugins]
    call throws

def stopSubsystems (throws : StopThrows) : Step Unit Unit := do
  let s ← get
  modify fun s => { s with proxy := none, runtimes := .empty, plugins := none }
  stopProxy s.proxy throws.proxy
  release (s.runtimes.values.map .runtime)
  stopHealthProbe throws.health
  disposePlugins s.plugins throws.plugins

def startPlugins (throws : Bool) : Step Unit Unit := do
  call throws
  modify fun s => { s with
    plugins := some s.created
    created := s.created + 1
    started := .plugins s.created :: s.started }

def startHealthProbe (config : HealthConfig) (throws : Bool) : Step Unit Unit := do
  call throws
  modify fun s => { s with
    healthProbe := some (s.created, config)
    created := s.created + 1
    started := .healthProbe s.created :: s.started }

/-- The probe stays as it is. -/
def keepsProbe (s : HostController) : Bool :=
  match s.healthProbe, s.snapshot.health with
  | some (_, probe), some config => probe.covers config
  | _, _ => false

def syncHealthProbe (throws : BringUpThrows) : Step Unit Unit := do
  let s ← get
  if s.keepsProbe then pure ()
  else do
    stopHealthProbe throws.healthStop
    match s.snapshot.health with
    | none => pure ()
    | some config => startHealthProbe config throws.healthStart

/-- New controllers for the runtimes of the manifest. -/
def createRuntimes : List String → Nat → OrdMap String Nat
  | [], _ => .empty
  | runtimeName :: rest, id => (createRuntimes rest (id + 1)).set runtimeName id

def startRuntimes (throws : Bool) : Step Unit Unit := do
  let s ← get
  let runtimes := createRuntimes s.snapshot.runtimes s.created
  modify fun s => { s with
    created := s.created + s.snapshot.runtimes.length
    started := runtimes.values.map .runtime ++ s.started }
  if throws then do
    release (runtimes.values.map .runtime)
    throw ()
  else modify fun s => { s with runtimes }

def startProxy (throws : Bool) : Step Unit Unit := do
  let s ← get
  if s.snapshot.proxy then do
    call throws
    modify fun s => { s with
      proxy := some s.created
      created := s.created + 1
      started := .proxy s.created :: s.started }
  else pure ()

def bringUp (throws : BringUpThrows) (prepare : Step Unit Unit) : Step Unit Unit := do
  try
    prepare
    startPlugins throws.plugins
    syncHealthProbe throws
    call throws.startHook
    startRuntimes throws.runtimes
    startProxy throws.proxy
    markState .running
    call throws.readyHook
  catch _ =>
    markState .failed
    try stopSubsystems throws.cleanup catch _ => pure ()
    throw ()

def start (throws : BringUpThrows) : Step Unit Unit := do
  let s ← get
  if s.state = .running then pure ()
  else do
    markState .starting
    bringUp throws (pure ())

def replaceSnapshot {ε : Type} (snapshot : HostSnapshot) : Step ε Unit :=
  modify fun s => { s with snapshot }

def reload (snapshot : HostSnapshot) (throws : BringUpThrows) : Step Unit Unit := do
  markState .reloading
  bringUp throws do
    stopSubsystems throws.prepare
    replaceSnapshot snapshot

/-- The local variables of `reloadRuntime` that its `catch` reads. -/
structure Reloading where
  currentStopped : Bool
  next : Option Nat

/-- A step of `reloadRuntime`. -/
def callWith (locals : Reloading) (throws : Bool) : Step Reloading Unit :=
  if throws then throw locals else pure ()

/-- Without a proxy there is nothing to throw. -/
def syncProxyUpstreams (locals : Reloading) (throws : Bool) : Step Reloading Unit := do
  let s ← get
  if s.proxy.isSome then callWith locals throws else pure ()

def detachRuntime (runtimeName : String) (current : Nat) (throws : ReloadThrows) :
    Step Reloading Unit := do
  modify fun s => { s with runtimes := s.runtimes.erase runtimeName }
  syncProxyUpstreams ⟨false, none⟩ throws.detachProxy
  release [.runtime current]
  callWith ⟨false, none⟩ throws.stop

/-- The next controller of a runtime that the manifest still has. -/
def attachRuntime (runtimeName : String) (throws : Bool) : Step Reloading (Option Nat) := do
  let s ← get
  if runtimeName ∈ s.snapshot.runtimes then do
    modify fun s => { s with
      runtimes := s.runtimes.set runtimeName s.created
      created := s.created + 1
      started := .runtime s.created :: s.started }
    callWith ⟨true, some s.created⟩ throws
    pure (some s.created)
  else pure none

/-- The `try` of `reloadRuntime`. -/
def replaceRuntime (runtimeName : String) (snapshot : HostSnapshot) (current : Option Nat)
    (throws : ReloadThrows) : Step Reloading Unit := do
  match current with
  | none => pure ()
  | some current => detachRuntime runtimeName current throws
  replaceSnapshot snapshot
  let next ← attachRuntime runtimeName throws.start
  syncProxyUpstreams ⟨true, next⟩ throws.attachProxy
  modify fun s => { s with state := .running }
  callWith ⟨true, next⟩ throws.hook

/-- The `catch` of `reloadRuntime`: nothing it does throws. -/
def abandonRuntime (runtimeName : String) (current : Option Nat) (locals : Reloading) :
    Step Reloading Unit := do
  modify fun s => { s with runtimes := s.runtimes.erase runtimeName }
  release (if locals.currentStopped then [] else (current.map .runtime).toList)
  release (locals.next.map .runtime).toList
  modify fun s => { s with state := .failed }

def reloadRuntime (runtimeName : String) (snapshot : HostSnapshot) (throws : ReloadThrows) :
    Step Reloading Unit := do
  let s ← get
  let current := s.runtimes.get? runtimeName
  modify fun s => { s with state := .reloading }
  tryCatch (replaceRuntime runtimeName snapshot current throws)
    (abandonRuntime runtimeName current)

/-- Whether a program throws. -/
def threw (x : Step Unit Unit) : Step Unit Bool :=
  tryCatch (do x; pure false) fun _ => pure true

def stop (hookThrows : Bool) (throws : StopThrows) : Step Unit Unit := do
  let s ← get
  if s.state = .stopped then pure ()
  else do
    markState .stopping
    let hook ← threw (call hookThrows)
    let subsystems ← threw (stopSubsystems throws)
    markState .stopped
    call (hook || subsystems)

/-- `onFailure` of a runtime whose recovery has failed. -/
def runtimeFailed (s : HostController) : HostController :=
  if s.failOnWorkerError.getD s.snapshot.production then { s with state := .failed } else s

def step (s : HostController) : HostEvent → HostController
  | .start throws => Fallible.after (start throws) s
  | .reload snapshot throws => Fallible.after (reload snapshot throws) s
  | .reloadRuntime runtimeName snapshot throws =>
    Fallible.after (reloadRuntime runtimeName snapshot throws) s
  | .stop hookThrows throws => Fallible.after (stop hookThrows throws) s
  | .runtimeFailed => s.runtimeFailed

end HostController

end Neemata.Host
