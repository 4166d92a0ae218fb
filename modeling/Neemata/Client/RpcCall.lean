import Neemata.Lib.Trace

/-!
# A call of the client's RPC layer

`createRpcLayer` of `client/src/layers/rpc.ts` over a bidirectional transport, as one call id sees
it: `callInternal` with the continuation of its promise, the entries of the id in `calls` and
`rpcStreams`, the listeners on the call's signal, and the handlers of the messages and of
`disconnected`. Connections are numbered in the order in which `connect` begins them; the message
context and the abort controller of the core are named by the number of their connection. The
transport of `client/src/transports/ws/index.ts` has an await before it hands a frame to the socket;
the `Rpc` frame, which is given to it with the signal of the call, is dropped when the signal is
aborted by then. An `RpcAbort` frame has no signal and counts as sent when it is given to `core.send`.

A frame of the server, a timer and an action of the application come when the continuation of the
call's promise is not due, and a frame of the call comes on the connection of its `Rpc` frame.
-/

namespace Neemata.Client

/-- What `call` has been settled with. -/
inductive CallFuture where
  | pending
  | value
  | blob
  | stream
  | rejected
deriving DecidableEq

/-- Where `callInternal` stands. -/
inductive CallPhase where
  | uncalled
  /-- In `ensureConnectedForCall`. -/
  | connecting
  /-- In `core.send`, at the await of the transport. -/
  | sending
  | left
deriving DecidableEq

/-- What the history of a call is made of. -/
inductive CallNote where
  /-- The `Rpc` frame is sent. -/
  | request (connection : Nat)
  /-- An `RpcAbort` frame is sent. -/
  | abort (connection : Nat)
  /-- An `RpcResponse`, `RpcStreamEnd` or `RpcStreamAbort` frame is received. -/
  | terminal
  /-- The caller aborts or stops reading while the call is open on a live connection. -/
  | stopped
deriving DecidableEq

def CallNote.isAbort : CallNote → Bool
  | .abort _ => true
  | _ => false

/-- A terminal `RpcResponse`. One that does not decode is an error as well. -/
inductive CallResponse where
  | value
  | blob
  | error
deriving DecidableEq

inductive CallEvent where
  /-- `core.connect()` -/
  | connect
  /-- `handleConnected` of the core. -/
  | opened
  /-- `core.disconnect()` of a connection that is up. -/
  | disconnecting
  /-- `handleDisconnected` of the core; where `shouldSkip` holds it emits nothing. -/
  | disconnected (shouldSkip : Bool)
  /-- The `catch` of `core.connect()`. -/
  | connectFailed (shouldSkip : Bool)
  /-- `core.dispose()` -/
  | dispose
  /-- `callInternal` is called. -/
  | call (callerAborted autoConnect encodes : Bool)
  /-- `ensureConnectedForCall` returns or throws. -/
  | resumed (throws encodes : Bool)
  /-- The transport goes on with the `Rpc` frame. -/
  | sent
  | sendFailed
  /-- The continuation of the call's promise. -/
  | settle
  /-- The caller's signal. -/
  | callerAbort
  | timeout
  | response (response : CallResponse)
  /-- An `RpcStreamResponse` with an error. -/
  | streamError
  | streamResponse
  | streamChunk
  | streamEnd
  | streamAbort
  /-- A push of a chunk rejects. -/
  | pushFailed
  | pushed
  /-- An `end`, `abort` or `clear` of `rpcStreams` gets to its removal. -/
  | removed
  /-- The consumer reads to the end. -/
  | readDone
  /-- The consumer calls `return` or `throw` of its iterator. -/
  | returned

structure RpcCall where
  /-- How many connections the core has begun. -/
  connections : Nat := 0
  messageContext : Option Nat := none
  /-- `core.#cab` -/
  cab : Option Nat := none
  cabAborted : Bool := false
  /-- `core.state === 'connected'` -/
  connected : Bool := false
  phase : CallPhase := .uncalled
  /-- `core.connectionSignal` when the call was made. -/
  connectionSignal : Option Nat := none
  signalAborted : Bool := false
  /-- The connection that the `Rpc` frame is encoded for. -/
  frame : Option Nat := none
  /-- The connection that the `Rpc` frame has gone out on. -/
  sentOn : Option Nat := none
  /-- The listener of `callInternal` is on the signal. -/
  listening : Bool := false
  future : CallFuture := .pending
  /-- The continuation has run. -/
  settled : Bool := false
  /-- `calls.has(callId)` -/
  registered : Bool := false
  /-- `rpcStreams.has(callId)` -/
  streamed : Bool := false
  /-- The listener of the stream, which `call.cleanup` takes off the signal. -/
  streamListening : Bool := false
  /-- The pushes that have not settled. -/
  pushes : Nat := 0
  /-- An `end`, `abort` or `clear` of `rpcStreams` has begun. -/
  leaving : Bool := false
  /-- A terminal frame has been received. -/
  terminated : Bool := false
  history : List CallNote := []
deriving DecidableEq

namespace RpcCall

variable (s : RpcCall)

/-- The continuation of the call's promise is due. -/
def due : Bool := s.future ≠ .pending && !s.settled

/-- The `Rpc` frame has gone out on the connection that is up. -/
def requested : Bool :=
  s.messageContext.isSome && s.sentOn = s.messageContext

def note (note : CallNote) : RpcCall := { s with history := s.history ++ [note] }

/-- `call.resolve` and `call.reject`, which do nothing the second time. -/
def settleWith (future : CallFuture) : RpcCall :=
  if s.future = .pending then { s with future } else s

def sendAbort : RpcCall :=
  match s.messageContext with
  | some connection => s.note (.abort connection)
  | none => s

/-- The listener that `callInternal` puts on the signal. -/
def onSignal : RpcCall := ({ s with listening := false }.settleWith .rejected).sendAbort

/-- `onAbort` of the stream. -/
def onStreamSignal : RpcCall :=
  let s := { s with streamListening := false }
  if s.streamed then { s with leaving := true }.sendAbort else s

def ring : RpcCall := if s.listening then s.onSignal else s

def ringStream : RpcCall := if s.streamListening then s.onStreamSignal else s

/-- The signal of the call is aborted, and its listeners run in the order they were added in. -/
def abortSignal : RpcCall :=
  if s.signalAborted then s else ({ s with signalAborted := true }.ring).ringStream

/-- `call.cleanup?.()` -/
def cleanup : RpcCall := { s with streamListening := false }

/-- `callInternal` from where the listener is put on the signal. -/
def dispatch (encodes : Bool) : RpcCall :=
  let s := { s with listening := true, phase := .left }
  if encodes = false then s.settleWith .rejected
  else
    match s.messageContext with
    | none => s.settleWith .rejected
    | some connection => { s with phase := .sending, frame := some connection }

/-- `transport.send` after its await. -/
def onSent : RpcCall :=
  let s := { s with phase := .left }
  match s.frame with
  | some connection =>
    if s.signalAborted then s else { s with sentOn := some connection }.note (.request connection)
  | none => s

/-- `callInternal` -/
def onCall (callerAborted autoConnect encodes : Bool) : RpcCall :=
  let s := { s with
    connectionSignal := s.cab
    signalAborted := callerAborted || (s.cab.isSome && s.cabAborted)
    registered := true }
  if s.signalAborted then { s with phase := .left }.settleWith .rejected
  else if autoConnect then { s with phase := .connecting }
  else s.dispatch encodes

def onResumed (throws encodes : Bool) : RpcCall :=
  if throws || !s.connected || s.signalAborted then { s with phase := .left }.settleWith .rejected
  else s.dispatch encodes

/-- The `abort` of the core's controller, which the signal of the call follows. -/
def abortCab : RpcCall :=
  if s.cab.isSome && !s.cabAborted then
    if s.connectionSignal = s.cab then { s with cabAborted := true }.abortSignal
    else { s with cabAborted := true }
  else s

/-- The listener of the layer on `disconnected`. -/
def onDisconnected : RpcCall :=
  let s := if s.registered then (s.cleanup).settleWith .rejected else s
  { s with registered := false, leaving := true }

/-- `#handleDisconnected` -/
def handleDisconnected (shouldSkip : Bool) : RpcCall :=
  let skipped := shouldSkip && s.messageContext.isNone
  let s := { s with messageContext := none }.abortCab
  let s := { s with cab := none, connected := false }
  if skipped then s else s.onDisconnected

/-- The then and catch of the promise, and its `finally`. -/
def onSettled : RpcCall :=
  let s := { s with settled := true, registered := false }
  match s.future with
  | .value | .rejected => s.abortSignal
  | .pending | .blob | .stream => s

/-- The caller aborts, or the consumer stops reading. -/
def stop : RpcCall :=
  if s.requested && !s.terminated then s.note .stopped else s

/-- A terminal frame comes. -/
def terminate : RpcCall := { s with terminated := true }.note .terminal

def onResponse (response : CallResponse) : RpcCall :=
  let s := s.terminate
  if s.registered then
    s.settleWith (match response with | .value => .value | .blob => .blob | .error => .rejected)
  else s

/-- `handleRPCStreamResponseMessage` -/
def onStreamResponse : RpcCall :=
  if s.registered then
    { s with streamListening := !s.signalAborted, streamed := true }.settleWith .stream
  else s.sendAbort

def onStreamEnd : RpcCall :=
  let s := s.terminate
  let s := if s.registered then s.cleanup else s
  { s with leaving := true, registered := false }

def onStreamAbort : RpcCall :=
  let s := s.terminate
  let s := if s.registered then (s.cleanup).settleWith .rejected else s
  { s with leaving := true, registered := false }

/-- `abortRpcStreamOnPushFailure` -/
def onPushFailed : RpcCall :=
  if s.streamed then
    let s := if s.registered then s.cleanup else s
    { s with registered := false, leaving := true }.sendAbort
  else s

/-- A frame of the call may come. -/
def receiving : Bool := s.requested && !s.due

/-- The consumer has the stream. -/
def reading : Bool := s.settled && s.future = .stream

def step (s : RpcCall) : CallEvent → RpcCall
  | .connect =>
    if s.connected then s
    else
      { s with
        connections := s.connections + 1
        messageContext := some s.connections
        cab := some s.connections
        cabAborted := false }
  | .opened => { s with connected := true }
  | .disconnecting => { s with connected := false }.abortCab
  | .disconnected shouldSkip => s.handleDisconnected shouldSkip
  | .connectFailed shouldSkip =>
    { s with messageContext := none, cab := none }.handleDisconnected shouldSkip
  | .dispose => { s with messageContext := none }.abortCab
  | .call callerAborted autoConnect encodes =>
    if s.phase = .uncalled then s.onCall callerAborted autoConnect encodes else s
  | .resumed throws encodes => if s.phase = .connecting then s.onResumed throws encodes else s
  | .sent => if s.phase = .sending then s.onSent else s
  | .sendFailed =>
    if s.phase = .sending then { s with phase := .left }.settleWith .rejected else s
  | .settle => if s.due then s.onSettled else s
  | .callerAbort => if s.phase = .uncalled then s else s.stop.abortSignal
  | .timeout => if s.phase = .uncalled then s else s.abortSignal
  | .response response => if s.receiving then s.onResponse response else s
  | .streamError => if s.receiving && s.registered then s.settleWith .rejected else s
  | .streamResponse => if s.receiving then s.onStreamResponse else s
  | .streamChunk => if s.receiving && s.streamed then { s with pushes := s.pushes + 1 } else s
  | .streamEnd => if s.receiving then s.onStreamEnd else s
  | .streamAbort => if s.receiving then s.onStreamAbort else s
  | .pushFailed =>
    if s.pushes = 0 then s else { s with pushes := s.pushes - 1 }.onPushFailed
  | .pushed => { s with pushes := s.pushes - 1 }
  | .removed => if s.leaving then { s with streamed := false } else s
  | .readDone => if s.reading then s.cleanup else s
  | .returned => if s.reading then s.stop.abortSignal.cleanup else s

end RpcCall

end Neemata.Client
