import Neemata.Ws.BlobStreams
import Neemata.Protocol.PumpSafety
import Mathlib.Algebra.Group.Nat.Defs

/-!
# The blob frames of a connection

What `WsSessionEngine` makes of the blob frames of one connection: the streams of
`BlobStreamsManager`, the pump behind each download, and the frames that the callbacks of the
streams send. A frame of the peer may come while a pull or a chunk is being sent, so what is done
with the transport's answer to those is an event of its own.
-/

namespace Neemata.Ws

open Protocol (MAX_STREAM_CREDITS StreamEvent StreamRun SinkCall)

def MAX_UINT32 : Nat := 2 ^ 32 - 1

/-- The blob frames that the server sends. -/
inductive BlobFrame where
  | clientBlobPull (size : Nat)
  | clientBlobAbort (reason : String)
  | serverBlobPush (chunk : List UInt8)
  | serverBlobEnd
  | serverBlobAbort (reason : String)
deriving DecidableEq

namespace BlobFrame

def terminal : BlobFrame → Bool
  | .clientBlobAbort _ | .serverBlobEnd | .serverBlobAbort _ => true
  | .clientBlobPull _ | .serverBlobPush _ => false

def data : BlobFrame → Bool
  | .serverBlobPush _ => true
  | .clientBlobPull _ | .clientBlobAbort _ | .serverBlobEnd | .serverBlobAbort _ => false

end BlobFrame

/-- What happens to a stream on the wire. -/
inductive WireEvent where
  | sent (frame : BlobFrame)
  /-- The peer aborts the stream. -/
  | peerAborted
deriving DecidableEq

namespace WireEvent

/-- Nothing may be sent for the stream any more. -/
def closes : WireEvent → Bool
  | .sent frame => frame.terminal
  | .peerAborted => true

/-- An abort, an end or data is sent. -/
def speaks : WireEvent → Bool
  | .sent frame => frame.terminal || frame.data
  | .peerAborted => false

end WireEvent

/-- At most one abort or end, none of them after an abort of the peer, and no data after either. -/
def Quiet (life : List WireEvent) : Prop :=
  life.Pairwise fun earlier later => earlier.closes = true → later.speaks = false

instance (life : List WireEvent) : Decidable (Quiet life) :=
  inferInstanceAs (Decidable (life.Pairwise _))

/-- The account of an upload. -/
structure Upload where
  /-- The credit that was granted. -/
  granted : Nat
  /-- What revokes took back of it. -/
  revoked : Nat
  /-- The bytes that `pushToClientStream` accepted. -/
  accepted : Nat
  life : List WireEvent
deriving DecidableEq

/-- The stream of a download, with its source. -/
structure Download where
  stream : StreamRun
  life : List WireEvent
deriving DecidableEq

/-- `uploads` and `downloads` are addressed by the handles of the manager's states. -/
structure BlobSession where
  connectionId : String
  manager : BlobStreamsManager
  uploads : List Upload
  downloads : List Download
  nextStreamId : Nat

namespace BlobSession

def start (connectionId : String) : BlobSession := ⟨connectionId, .empty, [], [], 0⟩

def logUpload (s : BlobSession) (handle : Nat) (events : List WireEvent) : BlobSession :=
  { s with
    uploads := s.uploads.modify handle fun upload => { upload with life := upload.life ++ events } }

def logDownload (s : BlobSession) (handle : Nat) (events : List WireEvent) : BlobSession :=
  { s with
    downloads := s.downloads.modify handle fun download =>
      { download with life := download.life ++ events } }

/-! ## Uploads -/

/-- `context.addClientStream`. -/
def addClientStream (s : BlobSession) (callId streamId : Nat) : BlobSession :=
  { s with
    manager := s.manager.createClientStream s.connectionId callId streamId
    uploads := s.uploads ++ [⟨0, 0, 0, []⟩] }

def grantClientStream (s : BlobSession) (streamId size : Nat) : BlobSession :=
  match s.manager.client.lookup s.connectionId streamId with
  | none => s
  | some (handle, _) =>
    { s with
      manager := s.manager.grantClientStream s.connectionId streamId size
      uploads := s.uploads.modify handle fun upload =>
        { upload with granted := upload.granted + size } }

def revokeClientStreamGrant (s : BlobSession) (streamId size : Nat) : BlobSession :=
  match s.manager.client.lookup s.connectionId streamId with
  | none => s
  | some (handle, state) =>
    { s with
      manager := s.manager.revokeClientStreamGrant s.connectionId streamId size
      uploads := s.uploads.modify handle fun upload =>
        { upload with revoked := upload.revoked + min size state.data.granted } }

/-- `abortClientStream`, where `notify` sends the abort. -/
def abortClientStream (s : BlobSession) (streamId : Nat) (error : String) (notifyPeer : Bool) :
    BlobSession :=
  match s.manager.client.lookup s.connectionId streamId with
  | none => s
  | some (handle, state) =>
    let s := s.logUpload handle
      (if notifyPeer && !state.data.notified then [.sent (.clientBlobAbort error)] else [])
    { s with manager := s.manager.abortClientStream s.connectionId streamId error notifyPeer }

/-- The `read` of an upload up to the send of its pull. -/
def read (s : BlobSession) (handle size : Nat) : BlobSession :=
  match s.manager.client.heap[handle]? with
  | none => s
  | some state =>
    let pullSize := if size = 0 then 65535 else size
    (s.grantClientStream state.id pullSize).logUpload handle [.sent (.clientBlobPull pullSize)]

/-- The pull of an upload was dropped. -/
def pullDropped (s : BlobSession) (handle pullSize : Nat) : BlobSession :=
  match s.manager.client.heap[handle]? with
  | none => s
  | some state =>
    (s.revokeClientStreamGrant state.id pullSize).abortClientStream state.id
      STREAM_TRANSPORT_DROP_REASON true

def clientBlobPush (s : BlobSession) (streamId byteLength : Nat) : BlobSession :=
  match s.manager.pushToClientStream s.connectionId streamId byteLength with
  | (manager, .returned true) => { s with manager }
  | (manager, .returned false) =>
    { s with manager }.abortClientStream streamId STREAM_CREDIT_VIOLATION_REASON true
  | (manager, .writing handle) =>
    { s with
      manager
      uploads := s.uploads.modify handle fun upload =>
        { upload with accepted := upload.accepted + byteLength } }

def clientBlobAbort (s : BlobSession) (streamId : Nat) (reason : String) : BlobSession :=
  match s.manager.client.lookup s.connectionId streamId with
  | none => s
  | some (handle, _) =>
    (s.logUpload handle [.peerAborted]).abortClientStream streamId reason false

def abortClientStreams (s : BlobSession) (streamIds : List Nat) (reason : String)
    (notifyPeer : Bool) : BlobSession :=
  streamIds.foldl (fun s streamId => s.abortClientStream streamId reason notifyPeer) s

/-- The `finally` of a call. -/
def callCompleted (s : BlobSession) (callId : Nat) : BlobSession :=
  s.abortClientStreams (s.manager.getClientCallStreamIds s.connectionId callId)
    "Blob was not consumed before handler completed" true

/-- The idle timer of an upload's state fires. -/
def clientIdle (s : BlobSession) (handle : Nat) : BlobSession :=
  match s.manager.client.heap[handle]? with
  | none => s
  | some state =>
    if state.idleTimer then
      let manager := { s.manager with client := s.manager.client.modify handle (.setTimer false) }
      { s with manager }.abortClientStream state.id STREAM_IDLE_TIMEOUT_REASON true
    else s

/-! ## Downloads -/

/-- `context.streamId()`. -/
def streamId (s : BlobSession) : Nat :=
  if s.nextStreamId ≥ MAX_UINT32 then 0 else s.nextStreamId

def createBlob (s : BlobSession) (callId : Nat) (objectMode : Bool) : BlobSession :=
  { s with
    nextStreamId := s.streamId + 1
    manager := s.manager.createServerStream s.connectionId callId s.streamId
    downloads := s.downloads ++ [⟨.start objectMode, []⟩] }

/-- `state?.suppressNotify ?? false`. -/
def suppressed (s : BlobSession) (streamId : Nat) : Bool :=
  match s.manager.server.lookup s.connectionId streamId with
  | none => false
  | some (_, state) => state.data.suppressNotify

/-- The sink of a download; `message` is that of the error. -/
def report (s : BlobSession) (handle streamId : Nat) (message : String) : SinkCall → BlobSession
  | .chunk bytes =>
    let s := { s with manager := s.manager.chunk s.connectionId streamId false }
    s.logDownload handle [.sent (.serverBlobPush bytes)]
  | .end =>
    let s := { s with manager := s.manager.removeServerStream s.connectionId streamId }
    s.logDownload handle [.sent .serverBlobEnd]
  | .error =>
    let suppress := s.suppressed streamId
    let s := { s with manager := s.manager.failed s.connectionId streamId message }
    s.logDownload handle (if suppress then [] else [.sent (.serverBlobAbort message)])

/-- Something happens to the stream of a download, and its sink is told. -/
def drive (s : BlobSession) (handle : Nat) (message : String) (event : StreamEvent) :
    BlobSession :=
  match s.manager.server.heap[handle]?, s.downloads[handle]? with
  | some state, some download =>
    let run := download.stream.step event
    (run.stream.sink.drop download.stream.stream.sink.length).foldl
      (fun s call => s.report handle state.id message call)
      { s with
        downloads := s.downloads.modify handle fun download => { download with stream := run } }
  | _, _ => s

/-- What `abortServerStream` does before the stream is destroyed. -/
def suppress (s : BlobSession) (streamId : Nat) (notifyPeer : Bool) : BlobSession :=
  if notifyPeer then s
  else
    let server := s.manager.server.update s.connectionId streamId fun state =>
      { state with data := ⟨true⟩ }
    { s with manager := { s.manager with server } }

def abortServerStream (s : BlobSession) (streamId : Nat) (error : String) (notifyPeer : Bool) :
    BlobSession :=
  match s.manager.server.lookup s.connectionId streamId with
  | none => s
  | some (handle, _) =>
    let s := (s.suppress streamId notifyPeer).drive handle error (.destroy true)
    { s with manager := s.manager.removeServerStream s.connectionId streamId }

/-- A chunk of a download was dropped. -/
def chunkDropped (s : BlobSession) (handle : Nat) : BlobSession :=
  match s.manager.server.heap[handle]? with
  | none => s
  | some state => s.abortServerStream state.id STREAM_TRANSPORT_DROP_REASON true

/-- `message` is that of a source error that was held back. -/
def pullServerStream (s : BlobSession) (streamId size : Nat) (message : String) : BlobSession :=
  match s.manager.server.lookup s.connectionId streamId with
  | none => s
  | some (handle, _) =>
    let server := s.manager.server.update s.connectionId streamId (.setTimer true)
    let s := { s with manager := { s.manager with server } }
    let granted := (s.downloads[handle]?).all fun download =>
      (download.stream.stream.grant size).1
    let s := s.drive handle message (.grant size)
    if granted then s
    else s.abortServerStream streamId STREAM_CREDIT_VIOLATION_REASON true

def serverBlobPull (s : BlobSession) (streamId size : Nat) (message : String) : BlobSession :=
  if size = 0 then s.abortServerStream streamId STREAM_CREDIT_VIOLATION_REASON true
  else s.pullServerStream streamId size message

def serverBlobAbort (s : BlobSession) (streamId : Nat) (reason : String) : BlobSession :=
  match s.manager.server.lookup s.connectionId streamId with
  | none => s
  | some (handle, _) =>
    (s.logDownload handle [.peerAborted]).abortServerStream streamId reason false

/-- The idle timer of a download's state fires. -/
def serverIdle (s : BlobSession) (handle : Nat) : BlobSession :=
  match s.manager.server.heap[handle]? with
  | none => s
  | some state =>
    if state.idleTimer then
      let manager := { s.manager with server := s.manager.server.modify handle (.setTimer false) }
      { s with manager }.abortServerStream state.id STREAM_IDLE_TIMEOUT_REASON true
    else s

/-- `cleanupConnection`. -/
def close (s : BlobSession) : BlobSession :=
  let s := s.abortClientStreams
    ((s.manager.client.connectionStreams.get? s.connectionId).getD []) "Connection closed" false
  ((s.manager.server.connectionStreams.get? s.connectionId).getD []).foldl
    (fun s streamId => s.abortServerStream streamId "Connection closed" false) s

/-! ## Runs -/

inductive Event where
  /-- An Rpc frame with a blob is decoded. -/
  | addClientStream (callId streamId : Nat)
  | read (handle size : Nat)
  | pullDropped (handle pullSize : Nat)
  | clientBlobPush (streamId byteLength : Nat)
  /-- The write of an accepted push returns. -/
  | written (handle : Nat)
  | clientBlobEnd (streamId : Nat)
  | clientBlobAbort (streamId : Nat) (reason : String)
  | consumeBlob (callId streamId : Nat)
  | callCompleted (callId : Nat)
  | clientIdle (handle : Nat)
  | createBlob (callId : Nat) (objectMode : Bool)
  /-- The source of a download, or its pump, gets on. -/
  | source (handle : Nat) (event : StreamEvent) (message : String)
  | chunkDropped (handle : Nat)
  | serverBlobPull (streamId size : Nat) (message : String)
  | serverBlobAbort (streamId : Nat) (reason : String)
  | serverIdle (handle : Nat)
  | close

/-- What the session does not bring about itself. -/
def ofSource : StreamEvent → Bool
  | .grant _ | .destroy _ => false
  | .push _ | .close | .readable | .end | .error | .iterate => true

/-- An event that cannot happen changes nothing. -/
def step (s : BlobSession) : Event → BlobSession
  | .addClientStream callId streamId => s.addClientStream callId streamId
  | .read handle size => s.read handle size
  | .pullDropped handle pullSize => s.pullDropped handle pullSize
  | .clientBlobPush streamId byteLength => s.clientBlobPush streamId byteLength
  | .written handle => { s with manager := s.manager.written handle }
  | .clientBlobEnd streamId =>
    { s with manager := s.manager.endClientStream s.connectionId streamId }
  | .clientBlobAbort streamId reason => s.clientBlobAbort streamId reason
  | .consumeBlob callId streamId =>
    { s with manager := s.manager.consumeClientStream s.connectionId callId streamId }
  | .callCompleted callId => s.callCompleted callId
  | .clientIdle handle => s.clientIdle handle
  | .createBlob callId objectMode => s.createBlob callId objectMode
  | .source handle event message =>
    if ofSource event then s.drive handle message event else s
  | .chunkDropped handle => s.chunkDropped handle
  | .serverBlobPull streamId size message => s.serverBlobPull streamId size message
  | .serverBlobAbort streamId reason => s.serverBlobAbort streamId reason
  | .serverIdle handle => s.serverIdle handle
  | .close => s.close

/-- A push that the credit does not cover leaves the credit alone and ends its stream. -/
def Rejects (s : BlobSession) (streamId byteLength : Nat) : Prop :=
  ∀ handle state, s.manager.client.lookup s.connectionId streamId = some (handle, state) →
    byteLength = 0 ∨ byteLength > state.data.granted →
    let s' := s.clientBlobPush streamId byteLength
    (∃ state', s'.manager.client.heap[handle]? = some state' ∧
      state'.data.granted = state.data.granted) ∧
    (∀ other : Nat, (s'.uploads[other]?).map Upload.accepted =
      (s.uploads[other]?).map Upload.accepted) ∧
    ¬ s'.manager.client.Live s.connectionId streamId

structure Disciplined (s : BlobSession) : Prop where
  within_credit : ∀ (handle : Nat) state, s.manager.client.heap[handle]? = some state →
    ∃ upload : Upload, s.uploads[handle]? = some upload ∧
      upload.accepted + upload.revoked ≤ upload.granted ∧
      state.data.granted ≤ MAX_STREAM_CREDITS
  rejects : ∀ streamId byteLength, s.Rejects streamId byteLength
  uploads : ∀ upload ∈ s.uploads, Quiet upload.life
  downloads : ∀ download ∈ s.downloads, Quiet download.life

end BlobSession

end Neemata.Ws
