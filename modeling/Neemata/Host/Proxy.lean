import Neemata.Lib.OrdMap
import Neemata.Lib.Trace

/-!
# Upstreams of the proxy

`ProxyController` of `neem/src/internal/host/proxy.ts` once it has started. `setUpstreams` enqueues
a mutation with the difference between what is desired and what is applied; the native calls of a
mutation are made one at a time, the mutations one after another, and further calls come in between.
The native proxy is the set of upstreams that its successful calls leave.
-/

namespace Neemata.Host

/-- The parts of a parsed URL; `rest` is what follows the port. -/
structure Url where
  protocol : String
  credentials : String := ""
  hostname : String
  port : Option Nat
  rest : String
deriving DecidableEq

def Url.toString (url : Url) : String :=
  url.protocol ++ "//" ++ url.credentials ++ url.hostname ++
    url.port.elim "" (fun port => s!":{port}") ++ url.rest

inductive UpstreamType where
  | http | http2 | ws
deriving DecidableEq

def UpstreamType.text : UpstreamType → String
  | .http => "http"
  | .http2 => "http2"
  | .ws => "ws"

structure RuntimeUpstream where
  type : UpstreamType
  url : String
deriving DecidableEq

structure ProxyUpstream where
  transport : UpstreamType
  secure : Bool
  hostname : String
  port : Nat
deriving DecidableEq

structure UpstreamSnapshot where
  runtimeName : String
  upstream : RuntimeUpstream
  proxyUpstream : ProxyUpstream
  count : Nat
deriving DecidableEq

structure RuntimeUpstreams where
  runtimeName : String
  upstreams : List RuntimeUpstream
deriving DecidableEq

/-- What the controller reads: `new URL` (none when it throws) and the runtimes with a proxy
configuration. -/
structure ProxyConfig where
  parseUrl : String → Option Url
  proxied : List String

def upstreamKey (upstream : UpstreamSnapshot) : String :=
  s!"{upstream.runtimeName}:{upstream.upstream.type.text}:{upstream.upstream.url}"

/-- What the native proxy is told of an upstream. -/
def UpstreamSnapshot.native (upstream : UpstreamSnapshot) : String × ProxyUpstream :=
  (upstream.runtimeName, upstream.proxyUpstream)

section Desired

variable (c : ProxyConfig)

def normalizeRuntimeUpstream (upstream : RuntimeUpstream) : Option RuntimeUpstream := do
  let url ← c.parseUrl upstream.url
  let url := if url.hostname = "0.0.0.0" then { url with hostname := "127.0.0.1" } else url
  return { type := upstream.type, url := url.toString }

def toProxyUpstream (upstream : RuntimeUpstream) : Option ProxyUpstream := do
  let url ← c.parseUrl upstream.url
  let secure := url.protocol = "https:" || url.protocol = "wss:"
  return { transport := upstream.type, secure, hostname := url.hostname,
           port := url.port.getD (if secure then 443 else 80) }

def addDesired (runtimeName : String) (desired : OrdMap String UpstreamSnapshot)
    (upstream : RuntimeUpstream) : Option (OrdMap String UpstreamSnapshot) := do
  let normalized ← normalizeRuntimeUpstream c upstream
  let proxyUpstream ← toProxyUpstream c normalized
  let snapshot : UpstreamSnapshot :=
    { runtimeName, upstream := normalized, proxyUpstream, count := 1 }
  let key := upstreamKey snapshot
  match desired.get? key with
  | some current => return desired.set key { current with count := current.count + 1 }
  | none => return desired.set key snapshot

/-- A URL that does not parse throws. -/
def createDesiredUpstreams (upstreams : List RuntimeUpstreams) :
    Option (OrdMap String UpstreamSnapshot) :=
  upstreams.foldlM (fun desired runtime =>
    runtime.upstreams.foldlM (addDesired c runtime.runtimeName) desired) .empty

def filterRuntimeUpstreams (upstreams : List RuntimeUpstreams) : List RuntimeUpstreams :=
  upstreams.filter fun runtime => runtime.runtimeName ∈ c.proxied

end Desired

/-! ## The controller -/

inductive UpstreamOperation where
  | add | remove
deriving DecidableEq

structure UpstreamFailure (ε : Type) where
  operation : UpstreamOperation
  upstream : UpstreamSnapshot
  error : ε
deriving DecidableEq

/-- An enqueued difference: the native calls still to make, and what one of them threw. -/
structure Mutation (ε : Type) where
  /-- The number of the `setUpstreams` call. -/
  call : Nat
  rest : List (UpstreamOperation × UpstreamSnapshot)
  error : Option ε := none
deriving DecidableEq

/-- `native` are the native calls that have succeeded, the latest first, and `failed` the
`setUpstreams` calls one of whose native calls has failed. -/
structure ProxyController (ε : Type) where
  running : Bool
  desired : OrdMap String UpstreamSnapshot
  applied : OrdMap String UpstreamSnapshot
  failures : OrdMap String (UpstreamFailure ε) := .empty
  mutationError : Option ε := none
  /-- The operations of the queue that have not finished; the first one runs. -/
  mutations : List (Mutation ε) := []
  calls : Nat := 0
  native : List (UpstreamOperation × String × ProxyUpstream)
  failed : List Nat := []
deriving DecidableEq

inductive ProxyEvent (ε : Type) where
  | setUpstreams (upstreams : List RuntimeUpstreams)
  /-- The native call that the first mutation awaits returns or throws. -/
  | settled (error : Option ε)
  /-- The first mutation leaves the queue. -/
  | finished
  /-- `waitForIdle` returns. -/
  | idle

structure ProxyHealth (ε : Type) where
  running : Bool
  ready : Bool
  upstreams : List UpstreamSnapshot
  appliedUpstreams : List UpstreamSnapshot
  pending : Nat
  failedUpstreams : List (UpstreamFailure ε)
  lastError : Option ε

/-- The upstreams that the native proxy holds after some calls, the latest first. -/
def nativeHolds (upstream : String × ProxyUpstream) :
    List (UpstreamOperation × String × ProxyUpstream) → Bool
  | [] => false
  | (.add, added) :: before => upstream = added || nativeHolds upstream before
  | (.remove, removed) :: before => upstream ≠ removed && nativeHolds upstream before

/-- No upstream is added that is held already. -/
def addsOnce : List (UpstreamOperation × String × ProxyUpstream) → Bool
  | [] => true
  | (.add, added) :: before => !nativeHolds added before && addsOnce before
  | (.remove, _) :: before => addsOnce before

/-- What the additions of `start` leave of the applied upstreams. -/
def addUpstreams (upstreams : List UpstreamSnapshot) (applied : OrdMap String UpstreamSnapshot) :
    OrdMap String UpstreamSnapshot :=
  upstreams.foldl (fun applied upstream => applied.set (upstreamKey upstream) upstream) applied

namespace ProxyController

variable {ε : Type}

/-- A controller whose `start` has succeeded. -/
def start (c : ProxyConfig) (upstreams : List RuntimeUpstreams) : Option (ProxyController ε) := do
  let desired ← createDesiredUpstreams c (filterRuntimeUpstreams c upstreams)
  return {
    running := true
    desired
    applied := addUpstreams desired.values .empty
    native := (desired.values.map fun upstream => (.add, upstream.native)).reverse }

def removals (p : ProxyController ε) : List UpstreamSnapshot :=
  p.applied.values.filter fun upstream => (p.desired.get? (upstreamKey upstream)).isNone

def additions (p : ProxyController ε) : List UpstreamSnapshot :=
  p.desired.values.filter fun upstream => (p.applied.get? (upstreamKey upstream)).isNone

def reconcile (p : ProxyController ε) : ProxyController ε :=
  { p with
    mutations := p.mutations ++ [{
      call := p.calls
      rest := p.removals.map (.remove, ·) ++ p.additions.map (.add, ·) }] }

def setUpstreams (c : ProxyConfig) (p : ProxyController ε) (upstreams : List RuntimeUpstreams) :
    ProxyController ε :=
  match createDesiredUpstreams c (filterRuntimeUpstreams c upstreams) with
  | none => p
  | some desired => reconcile { p with desired, calls := p.calls + 1 }

/-- A native call has returned. -/
def succeed (p : ProxyController ε) (operation : UpstreamOperation) (upstream : UpstreamSnapshot) :
    ProxyController ε :=
  let key := upstreamKey upstream
  { p with
    applied := match operation with
      | .add => p.applied.set key upstream
      | .remove => p.applied.erase key
    failures := p.failures.erase key
    native := (operation, upstream.native) :: p.native }

/-- A native call has thrown. -/
def fail (p : ProxyController ε) (operation : UpstreamOperation) (upstream : UpstreamSnapshot)
    (error : ε) : ProxyController ε :=
  { p with failures := p.failures.set (upstreamKey upstream) { operation, upstream, error } }

def settled (p : ProxyController ε) (error : Option ε) : ProxyController ε :=
  match p.mutations with
  | [] => p
  | mutation :: mutations =>
    match mutation.rest, error with
    | [], _ => p
    | (operation, upstream) :: rest, none =>
      { p.succeed operation upstream with mutations := { mutation with rest } :: mutations }
    | (operation, upstream) :: _, some error =>
      { p.fail operation upstream error with
        mutations := { mutation with rest := [], error := some error } :: mutations
        failed := mutation.call :: p.failed }

def finished (p : ProxyController ε) : ProxyController ε :=
  match p.mutations with
  | [] => p
  | mutation :: mutations =>
    if mutation.rest = [] then
      { p with mutations, mutationError := p.mutationError.or mutation.error }
    else p

def step (c : ProxyConfig) (p : ProxyController ε) : ProxyEvent ε → ProxyController ε
  | .setUpstreams upstreams => p.setUpstreams c upstreams
  | .settled error => p.settled error
  | .finished => p.finished
  | .idle => if p.mutations = [] then { p with mutationError := none } else p

def getHealth (p : ProxyController ε) : ProxyHealth ε :=
  let desired := p.desired.values
  let applied := p.applied.values
  let failedUpstreams := p.failures.values
  let synced := desired.length = applied.length &&
    desired.all fun upstream => (p.applied.get? (upstreamKey upstream)).isSome
  { running := p.running
    ready := p.running && p.mutations.length = 0 && failedUpstreams.length = 0 && synced
    upstreams := desired
    appliedUpstreams := applied
    pending := p.mutations.length
    failedUpstreams
    lastError := failedUpstreams.getLast?.map UpstreamFailure.error }

end ProxyController

end Neemata.Host
