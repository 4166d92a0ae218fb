import Neemata.Lib.Trace

/-!
# The connection of the client

`ClientCore` of `client/src/core.ts` over `WsTransportClient` of `client/src/transports/ws/index.ts`.
Sockets are numbered in the order in which `transport.connect` makes them, and each belongs to one
attempt, whose promise is `#connecting`. The continuations of the promises are events of their own,
in any order; the events of the sockets are tasks, which come when no continuation is due, and the
`close` event of a socket that failed is still to come after its `error` event. The plugins' hooks
of a disconnect may take any time.
-/

namespace Neemata.Client

inductive ConnectionState where
  | idle
  | connecting
  | connected
  | disconnecting
  | disconnected
deriving DecidableEq

inductive DisconnectReason where
  | client
  | server
  /-- `DEFAULT_CONNECT_ERROR_REASON` -/
  | connectError
  | other (reason : String)
deriving DecidableEq

inductive ReadyState where
  | connecting
  | open
  /-- The `close` event is still to come. -/
  | closing
  | closed
deriving DecidableEq

structure Socket where
  readyState : ReadyState := .connecting
  /-- The `open` event has come. -/
  opened : Bool := false
deriving DecidableEq

/-- `close()` -/
def Socket.beginClose (socket : Socket) : Socket :=
  if socket.readyState = .closed then socket else { socket with readyState := .closing }

def Socket.close (socket : Socket) : Socket := { socket with readyState := .closed }

/-- The continuation that `#connecting` has come to. -/
inductive AttemptPhase where
  | pending
  /-- The promise of the transport has rejected. -/
  | rejected
  /-- In `#handleDisconnected`, for the hooks of the plugins. -/
  | handling
  /-- The `finally` is due. -/
  | finalizing
deriving DecidableEq

structure Attempt where
  socket : Nat
  phase : AttemptPhase := .pending
deriving DecidableEq

/-- A call of `disconnect` that waits for the `close` event of a socket, or for nothing more. -/
structure Disconnect where
  reason : DisconnectReason
  socket : Option Nat
deriving DecidableEq

/-- The `close` event of the socket comes. -/
def Disconnect.closed (k : Nat) (disconnect : Disconnect) : Disconnect :=
  if disconnect.socket = some k then { disconnect with socket := none } else disconnect

/-- A call of `#handleDisconnected` in the hooks of the plugins. -/
structure Hooks where
  effectiveReason : DisconnectReason
  /-- It was called in the `catch` of an attempt. -/
  ofAttempt : Bool
deriving DecidableEq

structure Connection where
  state : ConnectionState := .idle
  /-- The message context, by the socket it was made for. -/
  messageContext : Option Nat := none
  connecting : Option Attempt := none
  disposed : Bool := false
  lastDisconnectReason : DisconnectReason := .server
  clientDisconnectAsReconnect : Bool := false
  clientDisconnectOverrideReason : Option DisconnectReason := none
  /-- `WsTransportClient.webSocket` -/
  webSocket : Option Nat := none
  /-- `WsTransportClient.closingByClient` -/
  closingByClient : Bool := false
  sockets : List Socket := []
  disconnects : List Disconnect := []
  hooks : List Hooks := []
  /-- The sockets whose messages were delivered. -/
  delivered : List Nat := []
deriving DecidableEq

namespace Connection

variable (c : Connection)

def socket? (k : Nat) : Option Socket := c.sockets[k]?

def modifySocket (k : Nat) (f : Socket → Socket) : Connection :=
  { c with sockets := c.sockets.modify k f }

def setPhase (phase : AttemptPhase) : Connection :=
  { c with connecting := c.connecting.map fun attempt : Attempt => { attempt with phase } }

/-- A continuation is due that does not wait for the plugins. -/
def due : Bool :=
  (match c.connecting with
    | some attempt => attempt.phase = .rejected || attempt.phase = .finalizing
    | none => false) ||
  c.disconnects.any fun disconnect => disconnect.socket = none

/-- `connect()` gets to `transport.connect`. -/
def makesSocket : Bool := !c.disposed && c.state ≠ .connected && c.connecting.isNone

def connect : Connection :=
  if c.makesSocket then
    { c with
      state := .connecting
      messageContext := some c.sockets.length
      connecting := some { socket := c.sockets.length }
      webSocket := some c.sockets.length
      closingByClient := false
      sockets := c.sockets ++ [{}] }
  else c

/-- `#handleConnected`, but for the timeout of the reconnect loop. -/
def handleConnected : Connection := { c with state := .connected, lastDisconnectReason := .server }

def effectiveReason (reason : DisconnectReason) : DisconnectReason :=
  if reason = .client ∧ c.clientDisconnectAsReconnect = true then
    c.clientDisconnectOverrideReason.getD .server
  else reason

def shouldSkip (reason : DisconnectReason) : Bool :=
  c.state = .disconnected && c.messageContext = none &&
    c.lastDisconnectReason = c.effectiveReason reason

/-- `#handleDisconnected` up to the hooks of the plugins. -/
def handleDisconnected (reason : DisconnectReason) (ofAttempt : Bool) : Connection :=
  let cleared := { c with
    clientDisconnectAsReconnect := false
    clientDisconnectOverrideReason := none
    messageContext := none }
  if c.shouldSkip reason then if ofAttempt then cleared.setPhase .finalizing else cleared
  else
    let cleared := { cleared with
      lastDisconnectReason := c.effectiveReason reason
      state := .disconnected
      hooks := c.hooks ++ [{ effectiveReason := c.effectiveReason reason, ofAttempt }] }
    if ofAttempt then cleared.setPhase .handling else cleared

/-- `WsTransportClient.disconnect` up to its wait. -/
def closeTransport : Connection :=
  match c.webSocket with
  | none => c
  | some k =>
    { c with closingByClient := true }.modifySocket k Socket.beginClose

/-- `disconnect` without the end of the reconnect loop. -/
def disconnect (reason : DisconnectReason) : Connection :=
  if c.state = .idle ∨ c.state = .disconnected then
    { c with lastDisconnectReason := reason, state := .disconnected }
  else
    { c with
      state := .disconnecting
      disconnects := c.disconnects ++ [Disconnect.mk reason c.webSocket] }.closeTransport

/-- `dispose` without the end of the reconnect loop. -/
def dispose : Connection :=
  let c := { c with disposed := true, messageContext := none }
  if c.state = .connecting ∨ c.state = .connected then c.closeTransport else c

/-- The continuation of a `disconnect` whose transport has closed. -/
def resumeDisconnect (i : Nat) : Connection :=
  match c.disconnects[i]? with
  | some { reason, socket := none } =>
    let c := { c with disconnects := c.disconnects.eraseIdx i }
    if c.state = .disconnecting then c.handleDisconnected reason false else c
  | _ => c

/-- The continuation of `#connecting`. -/
def resumeAttempt : Connection :=
  match c.connecting with
  | some { socket := _, phase := .rejected } =>
    { c with messageContext := none }.handleDisconnected .connectError true
  | some { socket := _, phase := .finalizing } => { c with connecting := none }
  | _ => c

/-- The promise of the transport, which settles once. -/
def settle (k : Nat) (phase : AttemptPhase) : Connection :=
  if c.connecting = some { socket := k } then c.setPhase phase else c

/-! ### The events of a socket -/

def onMessage (k : Nat) : Connection :=
  if c.messageContext.isSome then { c with delivered := c.delivered ++ [k] } else c

def onError (k : Nat) : Connection :=
  (c.modifySocket k .beginClose).settle k .rejected

/-- `client`: the reason of the event is that of the client. -/
def onClose (k : Nat) (opened client : Bool) : Connection :=
  let c := { c with
    sockets := c.sockets.modify k .close
    webSocket := none
    disconnects := c.disconnects.map (.closed k) }
  if opened then
    c.handleDisconnected (if c.closingByClient || client then .client else .server) false
  else c.settle k .rejected

end Connection

/-! ## The reconnect loop -/

structure ReconnectConfig where
  initialTimeout : Option Nat
  maxTimeout : Option Nat
deriving DecidableEq

def defaultReconnectTimeout : Nat := 1000

def defaultMaxReconnectTimeout : Nat := 60000

/-- Where a loop stands. -/
inductive LoopPhase where
  /-- At the condition of the loop. -/
  | heading
  /-- In the sleep of a pause. -/
  | pausing
  /-- In the sleep before a reconnect. -/
  | sleeping
  /-- In the wait for `connect()`, which is settled or is that of the socket's attempt. -/
  | connecting (socket : Option Nat) (previousTimeout : Nat)
  /-- The `finally` is due. -/
  | finishing
  | finished
deriving DecidableEq

structure ReconnectLoop where
  phase : LoopPhase := .heading
  aborted : Bool := false
deriving DecidableEq

/-- The loop goes on when it is resumed. -/
def ReconnectLoop.running (loop : ReconnectLoop) : Bool :=
  !loop.aborted && loop.phase ≠ .finishing && loop.phase ≠ .finished

structure Reconnecting where
  reconnectConfig : Option ReconnectConfig := none
  reconnectPauseReasons : List String := []
  reconnectController : Option Nat := none
  reconnectPromise : Option Nat := none
  reconnectTimeout : Nat := defaultReconnectTimeout
  reconnectImmediate : Bool := false
  loops : List ReconnectLoop := []
deriving DecidableEq

namespace Reconnecting

variable (r : Reconnecting)

def initialTimeout : Nat :=
  (r.reconnectConfig.bind (·.initialTimeout)).getD defaultReconnectTimeout

def cancelReconnectLoop : Reconnecting :=
  { r with
    reconnectImmediate := false
    reconnectController := none
    reconnectPromise := none
    loops := match r.reconnectController with
      | some i => r.loops.modify i fun loop => { loop with aborted := true }
      | none => r.loops }

def ensureReconnectLoop : Reconnecting :=
  if r.reconnectPromise.isSome || r.reconnectConfig.isNone then r
  else
    { r with
      reconnectController := some r.loops.length
      reconnectPromise := some r.loops.length
      loops := r.loops ++ [{}] }

def setLoop (i : Nat) (phase : LoopPhase) : Reconnecting :=
  { r with loops := r.loops.modify i fun loop => { loop with phase } }

/-- The `finally` of a loop. -/
def finish (i : Nat) : Reconnecting :=
  { r.setLoop i .finished with
    reconnectController :=
      if r.reconnectController = some i then none else r.reconnectController
    reconnectPromise := none }

end Reconnecting

/-! ## The client -/

inductive ClientEvent where
  | connect
  /-- A call of the RPC layer, which may connect. -/
  | call
  | disconnect (reason : DisconnectReason)
  | requestReconnect (reason : DisconnectReason)
  | triggerReconnect
  | configureReconnect (config : Option ReconnectConfig)
  | setReconnectPauseReason (reason : String) (active : Bool)
  | dispose
  | open (socket : Nat)
  | message (socket : Nat)
  | error (socket : Nat)
  /-- The server begins to close. -/
  | closing (socket : Nat)
  | close (socket : Nat) (client : Bool)
  | resumeAttempt
  | resumeDisconnect (disconnect : Nat)
  /-- The hooks of the plugins have returned. -/
  | hooks (hooks : Nat)
  /-- The loop is resumed; `jitter` is added to its timeout. -/
  | loop (loop jitter : Nat)
deriving DecidableEq

structure ClientCore where
  autoConnect : Bool := false
  connection : Connection := {}
  reconnecting : Reconnecting := {}
  /-- The last of the application's calls of `connect`, `disconnect` and `requestReconnect` was
  `disconnect('client')`. -/
  left : Bool := false
  /-- The sockets that reconnect loops made after that, or after `dispose`. -/
  strayReconnects : Nat := 0
deriving DecidableEq

namespace ClientCore

variable (s : ClientCore)

/-- `shouldConnectOnCall` -/
def shouldConnectOnCall : Bool :=
  s.autoConnect && !s.connection.disposed && s.connection.lastDisconnectReason ≠ .client &&
    (s.connection.state = .connecting || s.reconnecting.reconnectPromise.isNone) &&
    (s.connection.state = .idle || s.connection.state = .connecting ||
      s.connection.state = .disconnected)

def shouldReconnect (reason : DisconnectReason) : Bool :=
  !s.connection.disposed && s.reconnecting.reconnectConfig.isSome && reason ≠ .client

def disconnect (reason : DisconnectReason) : ClientCore :=
  { s with
    reconnecting := s.reconnecting.cancelReconnectLoop
    connection := s.connection.disconnect reason }

def requestReconnect (reason : DisconnectReason) : ClientCore :=
  { s with connection := { s.connection with
      clientDisconnectAsReconnect := true
      clientDisconnectOverrideReason := some reason } }.disconnect .client

def triggerReconnect : ClientCore :=
  if s.connection.disposed || s.reconnecting.reconnectConfig.isNone then s
  else
    let reconnecting := { s.reconnecting with reconnectImmediate := true }
    if s.connection.state = .disconnected ∨ s.connection.state = .idle then
      { s with reconnecting := reconnecting.ensureReconnectLoop }
    else { s with reconnecting }

def configureReconnect (config : Option ReconnectConfig) : ClientCore :=
  let reconnecting := { s.reconnecting with reconnectConfig := config, reconnectImmediate := false }
  let reconnecting := { reconnecting with reconnectTimeout := reconnecting.initialTimeout }
  if config.isNone then { s with reconnecting := reconnecting.cancelReconnectLoop }
  else if s.connection.state = .disconnected ∧ s.connection.lastDisconnectReason ≠ .client then
    { s with reconnecting := reconnecting.ensureReconnectLoop }
  else { s with reconnecting }

def setReconnectPauseReason (reason : String) (active : Bool) : ClientCore :=
  { s with reconnecting := { s.reconnecting with
    reconnectPauseReasons :=
      if active then s.reconnecting.reconnectPauseReasons.insert reason
      else s.reconnecting.reconnectPauseReasons.erase reason } }

def dispose : ClientCore :=
  if s.connection.disposed then s
  else
    { s with
      reconnecting := s.reconnecting.cancelReconnectLoop
      connection := s.connection.dispose }

/-- The `open` event. -/
def onOpen (k : Nat) : ClientCore :=
  let connection := s.connection.modifySocket k fun _ => { readyState := .open, opened := true }
  if s.connection.connecting = some { socket := k } then
    { s with
      connection := (connection.setPhase .finalizing).handleConnected
      reconnecting := { s.reconnecting with
        reconnectTimeout := s.reconnecting.initialTimeout
        reconnectImmediate := false } }
  else { s with connection }

def onHooks (i : Nat) : ClientCore :=
  match s.connection.hooks[i]? with
  | none => s
  | some hooks =>
    let connection := { s.connection with hooks := s.connection.hooks.eraseIdx i }
    { s with
      connection := if hooks.ofAttempt then connection.setPhase .finalizing else connection
      reconnecting :=
        if s.shouldReconnect hooks.effectiveReason then s.reconnecting.ensureReconnectLoop
        else s.reconnecting }

/-- The condition of the loop. -/
def loops (loop : ReconnectLoop) : Bool :=
  !loop.aborted && !s.connection.disposed && s.reconnecting.reconnectConfig.isSome &&
    (s.connection.state = .disconnected || s.connection.state = .idle) &&
    s.connection.lastDisconnectReason ≠ .client

/-- What is asked again after the sleep. -/
def breaks (loop : ReconnectLoop) : Bool :=
  loop.aborted || s.connection.disposed || s.reconnecting.reconnectConfig.isNone ||
    s.connection.state = .connected || s.connection.state = .connecting

def delay (jitter : Nat) : Nat :=
  if s.reconnecting.reconnectImmediate then 0
  else s.reconnecting.reconnectTimeout + min jitter (s.reconnecting.reconnectTimeout / 5)

/-- What the loop waits for has settled. -/
def settledFor (socket : Option Nat) : Bool :=
  match socket, s.connection.connecting with
  | some k, some attempt => decide (attempt.socket ≠ k)
  | _, _ => true

/-- What a loop does when it is resumed. -/
inductive LoopMove where
  | wait
  | pause
  | sleep
  /-- `reconnectImmediate` is what it has been set to. -/
  | connect (reconnectImmediate : Bool)
  | resume (previousTimeout : Nat)
  | leave
  | finish
deriving DecidableEq

def loopMove (loop : ReconnectLoop) (jitter : Nat) : LoopMove :=
  match loop.phase with
  | .heading | .pausing =>
    if s.loops loop = false then .leave
    else if s.reconnecting.reconnectPauseReasons ≠ [] then .pause
    else if s.delay jitter > 0 then .sleep
    else if s.breaks loop then .leave
    else .connect false
  | .sleeping =>
    if s.breaks loop then .leave else .connect s.reconnecting.reconnectImmediate
  | .connecting socket previousTimeout =>
    if s.settledFor socket then .resume previousTimeout else .wait
  | .finishing => .finish
  | .finished => .wait

/-- `connect()` in a loop. -/
def reconnect (i : Nat) (reconnectImmediate : Bool) : ClientCore :=
  let connection := s.connection.connect
  { s with
    connection
    reconnecting := ({ s.reconnecting with reconnectImmediate }).setLoop i
      (.connecting (connection.connecting.map Attempt.socket) s.reconnecting.reconnectTimeout)
    strayReconnects :=
      if s.connection.makesSocket && (s.left || s.connection.disposed) then s.strayReconnects + 1
      else s.strayReconnects }

/-- The attempt has settled. -/
def afterReconnect (i previousTimeout : Nat) : ClientCore :=
  let reconnecting := s.reconnecting.setLoop i .heading
  match s.reconnecting.reconnectConfig with
  | some config =>
    if s.connection.state ≠ .connected then
      { s with reconnecting := { reconnecting with
        reconnectTimeout :=
          min (previousTimeout * 2) (config.maxTimeout.getD defaultMaxReconnectTimeout) } }
    else { s with reconnecting }
  | none => { s with reconnecting }

def move (i : Nat) : LoopMove → ClientCore
  | .wait => s
  | .pause => { s with reconnecting := s.reconnecting.setLoop i .pausing }
  | .sleep =>
    { s with reconnecting :=
      ({ s.reconnecting with reconnectImmediate := false }).setLoop i .sleeping }
  | .connect reconnectImmediate => s.reconnect i reconnectImmediate
  | .resume previousTimeout => s.afterReconnect i previousTimeout
  | .leave => { s with reconnecting := s.reconnecting.setLoop i .finishing }
  | .finish => { s with reconnecting := s.reconnecting.finish i }

/-- The events that may come from a socket. -/
def fires (k : Nat) (p : ReadyState → Bool) : Bool :=
  !s.connection.due &&
    match s.connection.socket? k with
    | some socket => p socket.readyState
    | none => false

def step (s : ClientCore) : ClientEvent → ClientCore
  | .connect => { s with connection := s.connection.connect, left := false }
  | .call => if s.shouldConnectOnCall then { s with connection := s.connection.connect } else s
  | .disconnect reason => { s.disconnect reason with left := reason = .client }
  | .requestReconnect reason => { s.requestReconnect reason with left := false }
  | .triggerReconnect => s.triggerReconnect
  | .configureReconnect config => s.configureReconnect config
  | .setReconnectPauseReason reason active => s.setReconnectPauseReason reason active
  | .dispose => s.dispose
  | .open k => if s.fires k (· = .connecting) then s.onOpen k else s
  | .message k =>
    if s.fires k fun state => state = .open || state = .closing then
      { s with connection := s.connection.onMessage k }
    else s
  | .error k =>
    if s.fires k (· ≠ .closed) then { s with connection := s.connection.onError k } else s
  | .closing k =>
    if s.fires k (· = .open) then
      { s with connection := s.connection.modifySocket k .beginClose }
    else s
  | .close k client =>
    if s.fires k (· ≠ .closed) then
      { s with connection :=
        s.connection.onClose k ((s.connection.socket? k).any (·.opened)) client }
    else s
  | .resumeAttempt => { s with connection := s.connection.resumeAttempt }
  | .resumeDisconnect i => { s with connection := s.connection.resumeDisconnect i }
  | .hooks i => s.onHooks i
  | .loop i jitter =>
    match s.reconnecting.loops[i]? with
    | some loop => s.move i (s.loopMove loop jitter)
    | none => s

end ClientCore

end Neemata.Client
