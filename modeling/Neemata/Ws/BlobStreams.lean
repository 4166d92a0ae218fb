import Neemata.Ws.StreamTable
import Neemata.Lib.Trace
import Neemata.Protocol.ServerStream

/-!
# The blob streams of the connections

`BlobStreamsManager` over the tables of its uploads and downloads. An operation that calls out in
its middle is cut there: `pushToClientStream` runs up to `stream.write`, and what is left of it once
the write has returned is the step `written`; what the sink of a download is told are steps of their
own. So a run interleaves an operation with whatever its callbacks do.
-/

namespace Neemata.Ws

open Protocol (MAX_STREAM_CREDITS)

def STREAM_IDLE_TIMEOUT_REASON : String := "stream idle timeout"
def STREAM_CREDIT_VIOLATION_REASON : String := "stream credit violation"
def STREAM_TRANSPORT_DROP_REASON : String := "transport backpressure overflow (frame dropped)"

structure ClientData where
  granted : Nat
  notified : Bool
deriving DecidableEq

structure ServerData where
  suppressNotify : Bool
deriving DecidableEq

/-- A wire abort that a `notify` callback or a sink is given to send. -/
structure Notice where
  connectionId : String
  streamId : Nat
  reason : String
deriving DecidableEq

/-- `client` is `clientStreams` with `connectionClientStreams` and `clientCallStreams`, `server` the
same for downloads; `notices` logs what the owners of the streams are asked to send. -/
structure BlobStreamsManager where
  client : StreamTable ClientData
  server : StreamTable ServerData
  notices : List Notice

namespace BlobStreamsManager

def empty : BlobStreamsManager := ⟨.empty, .empty, []⟩

/-! ## Client streams (upload) -/

def createClientStream (m : BlobStreamsManager) (connectionId : String) (callId streamId : Nat) :
    BlobStreamsManager :=
  { m with client := m.client.create connectionId callId streamId ⟨0, false⟩ }

def grantClientStream (m : BlobStreamsManager) (connectionId : String) (streamId size : Nat) :
    BlobStreamsManager :=
  { m with client := m.client.update connectionId streamId fun state =>
      { state with
        data := { state.data with granted := min (state.data.granted + size) MAX_STREAM_CREDITS }
        idleTimer := true } }

def revokeClientStreamGrant (m : BlobStreamsManager) (connectionId : String)
    (streamId size : Nat) : BlobStreamsManager :=
  { m with client := m.client.update connectionId streamId fun state =>
      { state with data := { state.data with granted := state.data.granted - size } } }

/-- What `pushToClientStream` came to: it returned a value, or it is inside `stream.write` of a
state. -/
inductive Push where
  | returned (ok : Bool)
  | writing (handle : Nat)
deriving DecidableEq

def pushToClientStream (m : BlobStreamsManager) (connectionId : String)
    (streamId byteLength : Nat) : BlobStreamsManager × Push :=
  match m.client.lookup connectionId streamId with
  | none => (m, .returned true)
  | some (handle, state) =>
    if byteLength = 0 ∨ byteLength > state.data.granted then (m, .returned false)
    else
      ({ m with client := m.client.update connectionId streamId fun state =>
          { state with data := { state.data with granted := state.data.granted - byteLength } } },
        .writing handle)

/-- The rest of `pushToClientStream`: it touches the state it found before the write. -/
def written (m : BlobStreamsManager) (handle : Nat) : BlobStreamsManager :=
  { m with client := m.client.touch handle }

def endClientStream (m : BlobStreamsManager) (connectionId : String) (streamId : Nat) :
    BlobStreamsManager :=
  { m with client := m.client.remove connectionId streamId }

def abortClientStream (m : BlobStreamsManager) (connectionId : String) (streamId : Nat)
    (error : String) (notifyPeer : Bool) : BlobStreamsManager :=
  match m.client.lookup connectionId streamId with
  | none => m
  | some (_, state) =>
    let notify := notifyPeer && !state.data.notified
    { m with
      client := (m.client.update connectionId streamId fun state =>
        { state with data := { state.data with notified := state.data.notified || notify } }).remove
          connectionId streamId
      notices := m.notices ++ if notify then [⟨connectionId, streamId, error⟩] else [] }

def consumeClientStream (m : BlobStreamsManager) (connectionId : String) (callId streamId : Nat) :
    BlobStreamsManager :=
  { m with client := m.client.untrackCall connectionId callId streamId }

def getClientCallStreamIds (m : BlobStreamsManager) (connectionId : String) (callId : Nat) :
    List Nat :=
  (m.client.callStreams.get? (getKey connectionId callId)).getD []

def abortClientCallStreams (m : BlobStreamsManager) (connectionId : String) (callId : Nat)
    (reason : String) : BlobStreamsManager :=
  (m.getClientCallStreamIds connectionId callId).foldl
    (fun m streamId => m.abortClientStream connectionId streamId reason true) m

/-! ## Server streams (download) -/

def createServerStream (m : BlobStreamsManager) (connectionId : String) (callId streamId : Nat) :
    BlobStreamsManager :=
  { m with server := m.server.create connectionId callId streamId ⟨false⟩ }

def removeServerStream (m : BlobStreamsManager) (connectionId : String) (streamId : Nat) :
    BlobStreamsManager :=
  { m with server := m.server.remove connectionId streamId }

/-- `destroy(error)` reports to the sink, which sends the error unless it is suppressed. -/
def abortServerStream (m : BlobStreamsManager) (connectionId : String) (streamId : Nat)
    (error : String) (notifyPeer : Bool) : BlobStreamsManager :=
  match m.server.lookup connectionId streamId with
  | none => m
  | some (_, state) =>
    let suppress := state.data.suppressNotify || !notifyPeer
    { m with
      server := (m.server.update connectionId streamId fun state =>
        { state with data := ⟨suppress⟩ }).remove connectionId streamId
      notices := m.notices ++ if suppress then [] else [⟨connectionId, streamId, error⟩] }

/-- `sink.chunk` of the stream; `dropped` is what the transport answers. -/
def chunk (m : BlobStreamsManager) (connectionId : String) (streamId : Nat) (dropped : Bool) :
    BlobStreamsManager :=
  let m := { m with server := m.server.update connectionId streamId (.setTimer true) }
  if dropped then m.abortServerStream connectionId streamId STREAM_TRANSPORT_DROP_REASON true else m

/-- `sink.error` of the stream. -/
def failed (m : BlobStreamsManager) (connectionId : String) (streamId : Nat) (error : String) :
    BlobStreamsManager :=
  let suppress := match m.server.lookup connectionId streamId with
    | none => false
    | some (_, state) => state.data.suppressNotify
  let m := m.removeServerStream connectionId streamId
  { m with notices := m.notices ++ if suppress then [] else [⟨connectionId, streamId, error⟩] }

/-- `granted` is what `stream.grant(size)` answers; what its pump tells the sink are later steps. -/
def pullServerStream (m : BlobStreamsManager) (connectionId : String) (streamId : Nat)
    (granted : Bool) : BlobStreamsManager :=
  let m := { m with server := m.server.update connectionId streamId (.setTimer true) }
  if granted then m
  else m.abortServerStream connectionId streamId STREAM_CREDIT_VIOLATION_REASON true

/-! ## Idle timeout and cleanup -/

/-- The idle timer of an upload's state fires. -/
def clientIdle (m : BlobStreamsManager) (handle : Nat) : BlobStreamsManager :=
  match m.client.heap[handle]? with
  | none => m
  | some state =>
    if state.idleTimer then
      { m with client := m.client.modify handle (.setTimer false) }.abortClientStream
        state.connectionId state.id STREAM_IDLE_TIMEOUT_REASON true
    else m

/-- The idle timer of a download's state fires. -/
def serverIdle (m : BlobStreamsManager) (handle : Nat) : BlobStreamsManager :=
  match m.server.heap[handle]? with
  | none => m
  | some state =>
    if state.idleTimer then
      { m with server := m.server.modify handle (.setTimer false) }.abortServerStream
        state.connectionId state.id STREAM_IDLE_TIMEOUT_REASON true
    else m

def cleanupConnection (m : BlobStreamsManager) (connectionId : String) : BlobStreamsManager :=
  let m := ((m.client.connectionStreams.get? connectionId).getD []).foldl
    (fun m streamId => m.abortClientStream connectionId streamId "Connection closed" false) m
  ((m.server.connectionStreams.get? connectionId).getD []).foldl
    (fun m streamId => m.abortServerStream connectionId streamId "Connection closed" false) m

/-! ## Runs -/

inductive Step where
  | createClientStream (connectionId : String) (callId streamId : Nat)
  | grantClientStream (connectionId : String) (streamId size : Nat)
  | revokeClientStreamGrant (connectionId : String) (streamId size : Nat)
  | pushToClientStream (connectionId : String) (streamId byteLength : Nat)
  | written (handle : Nat)
  | endClientStream (connectionId : String) (streamId : Nat)
  | abortClientStream (connectionId : String) (streamId : Nat) (error : String) (notifyPeer : Bool)
  | consumeClientStream (connectionId : String) (callId streamId : Nat)
  | abortClientCallStreams (connectionId : String) (callId : Nat) (reason : String)
  | createServerStream (connectionId : String) (callId streamId : Nat)
  | chunk (connectionId : String) (streamId : Nat) (dropped : Bool)
  | failed (connectionId : String) (streamId : Nat) (error : String)
  | pullServerStream (connectionId : String) (streamId : Nat) (granted : Bool)
  | abortServerStream (connectionId : String) (streamId : Nat) (error : String) (notifyPeer : Bool)
  | removeServerStream (connectionId : String) (streamId : Nat)
  | clientIdle (handle : Nat)
  | serverIdle (handle : Nat)
  | cleanupConnection (connectionId : String)

def step (m : BlobStreamsManager) : Step → BlobStreamsManager
  | .createClientStream c callId id => m.createClientStream c callId id
  | .grantClientStream c id size => m.grantClientStream c id size
  | .revokeClientStreamGrant c id size => m.revokeClientStreamGrant c id size
  | .pushToClientStream c id byteLength => (m.pushToClientStream c id byteLength).1
  | .written handle => m.written handle
  | .endClientStream c id => m.endClientStream c id
  | .abortClientStream c id error notifyPeer => m.abortClientStream c id error notifyPeer
  | .consumeClientStream c callId id => m.consumeClientStream c callId id
  | .abortClientCallStreams c callId reason => m.abortClientCallStreams c callId reason
  | .createServerStream c callId id => m.createServerStream c callId id
  | .chunk c id dropped => m.chunk c id dropped
  | .failed c id error => m.failed c id error
  | .pullServerStream c id granted => m.pullServerStream c id granted
  | .abortServerStream c id error notifyPeer => m.abortServerStream c id error notifyPeer
  | .removeServerStream c id => m.removeServerStream c id
  | .clientIdle handle => m.clientIdle handle
  | .serverIdle handle => m.serverIdle handle
  | .cleanupConnection c => m.cleanupConnection c

/-- No stream is created under the id of a live one, and no state is touched after a write during
which it was removed. -/
def Fits (m : BlobStreamsManager) : Step → Prop
  | .createClientStream c _ id => ¬ m.client.Live c id
  | .createServerStream c _ id => ¬ m.server.Live c id
  | .written handle => ∀ state, m.client.heap[handle]? = some state →
      m.client.streams.get? state.key = some handle
  | _ => True

instance (m : BlobStreamsManager) : (s : Step) → Decidable (m.Fits s)
  | .createClientStream c _ id => inferInstanceAs (Decidable (¬ m.client.Live c id))
  | .createServerStream c _ id => inferInstanceAs (Decidable (¬ m.server.Live c id))
  | .written handle => inferInstanceAs (Decidable
      (∀ state ∈ m.client.heap[handle]?, m.client.streams.get? state.key = some handle))
  | .grantClientStream .. | .revokeClientStreamGrant .. | .pushToClientStream ..
  | .endClientStream .. | .abortClientStream .. | .consumeClientStream ..
  | .abortClientCallStreams .. | .chunk .. | .failed .. | .pullServerStream ..
  | .abortServerStream .. | .removeServerStream .. | .clientIdle .. | .serverIdle ..
  | .cleanupConnection .. => isTrue trivial

structure Tidy (m : BlobStreamsManager) : Prop where
  client : m.client.Tidy
  server : m.server.Tidy

/-- An idle timer that fires leaves every stream but its own as it is. -/
structure FiresOwn (m : BlobStreamsManager) : Prop where
  client : ∀ handle, StreamTable.SameBut handle m.client (m.clientIdle handle).client ∧
    (m.clientIdle handle).server = m.server
  server : ∀ handle, StreamTable.SameBut handle m.server (m.serverIdle handle).server ∧
    (m.serverIdle handle).client = m.client

/-! ## Every step keeps the books -/

variable {m : BlobStreamsManager}

theorem tidy_empty : empty.Tidy := ⟨StreamTable.tidy_empty, StreamTable.tidy_empty⟩

theorem abortClientStream_server (c : String) (id : Nat) (error : String) (notifyPeer : Bool) :
    (m.abortClientStream c id error notifyPeer).server = m.server := by
  unfold abortClientStream
  split <;> rfl

theorem abortServerStream_client (c : String) (id : Nat) (error : String) (notifyPeer : Bool) :
    (m.abortServerStream c id error notifyPeer).client = m.client := by
  unfold abortServerStream
  split <;> rfl

theorem abortClientStream_aborts (m : BlobStreamsManager) (c : String) (id : Nat) (error : String)
    (notifyPeer : Bool) :
    StreamTable.Aborts c id m.client (m.abortClientStream c id error notifyPeer).client := by
  unfold abortClientStream
  split
  · next hlookup => exact .inl ⟨hlookup, rfl⟩
  · exact .inr ⟨_, rfl, fun _ => ⟨rfl, rfl⟩⟩

theorem abortServerStream_aborts (m : BlobStreamsManager) (c : String) (id : Nat) (error : String)
    (notifyPeer : Bool) :
    StreamTable.Aborts c id m.server (m.abortServerStream c id error notifyPeer).server := by
  unfold abortServerStream
  split
  · next hlookup => exact .inl ⟨hlookup, rfl⟩
  · exact .inr ⟨_, rfl, fun _ => ⟨rfl, rfl⟩⟩

theorem Tidy.abortClientStream (H : m.Tidy) (c : String) (id : Nat) (error : String)
    (notifyPeer : Bool) : (m.abortClientStream c id error notifyPeer).Tidy :=
  ⟨(H.client.aborts (m.abortClientStream_aborts c id error notifyPeer)).1,
    (abortClientStream_server c id error notifyPeer).symm ▸ H.server⟩

theorem Tidy.abortServerStream (H : m.Tidy) (c : String) (id : Nat) (error : String)
    (notifyPeer : Bool) : (m.abortServerStream c id error notifyPeer).Tidy :=
  ⟨(abortServerStream_client c id error notifyPeer).symm ▸ H.client,
    (H.server.aborts (m.abortServerStream_aborts c id error notifyPeer)).1⟩

theorem Tidy.abortClientStreams (H : m.Tidy) (c reason : String) (notifyPeer : Bool)
    (ids : List Nat) :
    let m' := ids.foldl (fun m id => m.abortClientStream c id reason notifyPeer) m
    m'.Tidy ∧ ∀ c' id', m'.client.Live c' id' ↔ m.client.Live c' id' ∧ ¬ (c' = c ∧ id' ∈ ids) := by
  obtain ⟨hclient, hlive⟩ := H.client.aborts_foldl
    (fun m id => m.abortClientStream_aborts c id reason notifyPeer) ids
  have hserver := Trace.run_frame (fun m id => m.abortClientStream c id reason notifyPeer)
    (·.server) (fun _ id => abortClientStream_server c id reason notifyPeer) m ids
  exact ⟨⟨hclient, hserver.symm ▸ H.server⟩, hlive⟩

theorem Tidy.abortServerStreams (H : m.Tidy) (c reason : String) (notifyPeer : Bool)
    (ids : List Nat) :
    let m' := ids.foldl (fun m id => m.abortServerStream c id reason notifyPeer) m
    m'.Tidy ∧ m'.client = m.client ∧
      ∀ c' id', m'.server.Live c' id' ↔ m.server.Live c' id' ∧ ¬ (c' = c ∧ id' ∈ ids) := by
  obtain ⟨hserver, hlive⟩ := H.server.aborts_foldl
    (fun m id => m.abortServerStream_aborts c id reason notifyPeer) ids
  have hclient := Trace.run_frame (fun m id => m.abortServerStream c id reason notifyPeer)
    (·.client) (fun _ id => abortServerStream_client c id reason notifyPeer) m ids
  exact ⟨⟨hclient.symm ▸ H.client, hserver⟩, hclient, hlive⟩

/-- The live streams of a connection are those its cleanup aborts. -/
theorem Tidy.cleanupConnection (H : m.Tidy) (c : String) : (m.cleanupConnection c).Tidy ∧
    (m.cleanupConnection c).client.Clear c ∧ (m.cleanupConnection c).server.Clear c := by
  unfold BlobStreamsManager.cleanupConnection
  have hclients := H.abortClientStreams c "Connection closed" false
    ((m.client.connectionStreams.get? c).getD [])
  revert hclients
  generalize List.foldl _ m _ = m₁
  rintro ⟨H₁, hlive₁⟩
  have hservers := H₁.abortServerStreams c "Connection closed" false
    ((m₁.server.connectionStreams.get? c).getD [])
  revert hservers
  dsimp only
  generalize List.foldl _ m₁ _ = m₂
  rintro ⟨H₂, hclient, hlive₂⟩
  refine ⟨H₂, H₂.client.clear fun id hlive => ?_, H₂.server.clear fun id hlive => ?_⟩
  · rw [hclient, hlive₁] at hlive
    exact hlive.2 ⟨rfl, H.client.mem_connectionStreams hlive.1⟩
  · rw [hlive₂] at hlive
    exact hlive.2 ⟨rfl, H₁.server.mem_connectionStreams hlive.1⟩

theorem Tidy.clientIdle (H : m.Tidy) (handle : Nat) : (m.clientIdle handle).Tidy := by
  unfold BlobStreamsManager.clientIdle
  split
  · exact H
  · split
    · have H' : BlobStreamsManager.Tidy
          { m with client := m.client.modify handle (.setTimer false) } :=
        ⟨H.client.clearIdleTimer handle, H.server⟩
      exact H'.abortClientStream _ _ _ _
    · exact H

theorem Tidy.serverIdle (H : m.Tidy) (handle : Nat) : (m.serverIdle handle).Tidy := by
  unfold BlobStreamsManager.serverIdle
  split
  · exact H
  · split
    · have H' : BlobStreamsManager.Tidy
          { m with server := m.server.modify handle (.setTimer false) } :=
        ⟨H.client, H.server.clearIdleTimer handle⟩
      exact H'.abortServerStream _ _ _ _
    · exact H

theorem Tidy.update_client (H : m.Tidy) (c : String) (id : Nat)
    {f : StreamState ClientData → StreamState ClientData} (hkey : ∀ s, (f s).key = s.key)
    (hcall : ∀ s, (f s).callId = s.callId) :
    BlobStreamsManager.Tidy { m with client := m.client.update c id f } :=
  ⟨H.client.update c id hkey hcall, H.server⟩

theorem Tidy.touch_server (H : m.Tidy) (c : String) (id : Nat) :
    BlobStreamsManager.Tidy { m with server := m.server.update c id (.setTimer true) } :=
  ⟨H.client, H.server.update c id (fun _ => rfl) fun _ => rfl⟩

theorem Tidy.pushToClientStream (H : m.Tidy) (c : String) (id byteLength : Nat) :
    (m.pushToClientStream c id byteLength).1.Tidy := by
  unfold BlobStreamsManager.pushToClientStream
  split
  · exact H
  · split
    · exact H
    · apply H.update_client c id
      · exact fun _ => rfl
      · exact fun _ => rfl

theorem Tidy.chunk (H : m.Tidy) (c : String) (id : Nat) (dropped : Bool) :
    (m.chunk c id dropped).Tidy := by
  unfold BlobStreamsManager.chunk
  dsimp only
  split
  · exact (H.touch_server c id).abortServerStream _ _ _ _
  · exact H.touch_server c id

theorem Tidy.pullServerStream (H : m.Tidy) (c : String) (id : Nat) (granted : Bool) :
    (m.pullServerStream c id granted).Tidy := by
  unfold BlobStreamsManager.pullServerStream
  dsimp only
  split
  · exact H.touch_server c id
  · exact (H.touch_server c id).abortServerStream _ _ _ _

theorem Tidy.step (H : m.Tidy) {s : Step} (hs : m.Fits s) : (m.step s).Tidy := by
  cases s with
  | createClientStream c callId id => exact ⟨H.client.create hs callId _, H.server⟩
  | createServerStream c callId id => exact ⟨H.client, H.server.create hs callId _⟩
  | grantClientStream c id size =>
    apply H.update_client c id
    · exact fun _ => rfl
    · exact fun _ => rfl
  | revokeClientStreamGrant c id size =>
    apply H.update_client c id
    · exact fun _ => rfl
    · exact fun _ => rfl
  | pushToClientStream c id byteLength => exact H.pushToClientStream c id byteLength
  | written handle => exact ⟨H.client.touch hs, H.server⟩
  | endClientStream c id => exact ⟨H.client.remove c id, H.server⟩
  | abortClientStream c id error notifyPeer => exact H.abortClientStream c id error notifyPeer
  | consumeClientStream c callId id => exact ⟨H.client.untrackCall c callId id, H.server⟩
  | abortClientCallStreams c callId reason =>
    exact (H.abortClientStreams c reason true (m.getClientCallStreamIds c callId)).1
  | chunk c id dropped => exact H.chunk c id dropped
  | failed c id error => exact ⟨H.client, H.server.remove c id⟩
  | pullServerStream c id granted => exact H.pullServerStream c id granted
  | abortServerStream c id error notifyPeer => exact H.abortServerStream c id error notifyPeer
  | removeServerStream c id => exact ⟨H.client, H.server.remove c id⟩
  | clientIdle handle => exact H.clientIdle handle
  | serverIdle handle => exact H.serverIdle handle
  | cleanupConnection c => exact (H.cleanupConnection c).1

/-! ## Whose stream an idle timer aborts -/

theorem Tidy.firesOwn (H : m.Tidy) : m.FiresOwn := by
  refine ⟨fun handle => ?_, fun handle => ?_⟩
  · unfold BlobStreamsManager.clientIdle
    split
    · exact ⟨fun _ _ => ⟨rfl, fun _ h => h⟩, rfl⟩
    · next state hstate =>
      split
      · next harmed =>
        refine ⟨?_, abortClientStream_server _ _ _ _⟩
        exact (StreamTable.sameBut_modify m.client handle _).trans
          ((abortClientStream_aborts ..).sameBut (H.client.lookup_of_armed hstate harmed))
      · exact ⟨fun _ _ => ⟨rfl, fun _ h => h⟩, rfl⟩
  · unfold BlobStreamsManager.serverIdle
    split
    · exact ⟨fun _ _ => ⟨rfl, fun _ h => h⟩, rfl⟩
    · next state hstate =>
      split
      · next harmed =>
        refine ⟨?_, abortServerStream_client _ _ _ _⟩
        exact (StreamTable.sameBut_modify m.server handle _).trans
          ((abortServerStream_aborts ..).sameBut (H.server.lookup_of_armed hstate harmed))
      · exact ⟨fun _ _ => ⟨rfl, fun _ h => h⟩, rfl⟩

/-! ## The books over a run -/

section Runs

open Trace

theorem books_kept (steps : List Step) (hfits : Admits step Fits empty steps) :
    let m := run step empty steps
    m.Tidy ∧ m.FiresOwn ∧ ∀ c, (m.cleanupConnection c).client.Clear c ∧
      (m.cleanupConnection c).server.Clear c := by
  have H : (run step empty steps).Tidy :=
    run_inv_of_admits step (fun _ _ hs H => H.step hs) hfits tidy_empty
  exact ⟨H, H.firesOwn, fun c => (H.cleanupConnection c).2⟩

theorem books_kept_uploads :
    let steps : List Step := [.createClientStream "c" 1 7, .grantClientStream "c" 7 10,
      .pushToClientStream "c" 7 4, .written 0, .createServerStream "c" 2 0, .clientIdle 0,
      .createClientStream "c" 3 7]
    Admits step Fits empty steps ∧ (run step empty steps).Tidy := by
  have hfits : Admits step Fits empty [.createClientStream "c" 1 7, .grantClientStream "c" 7 10,
      .pushToClientStream "c" 7 4, .written 0, .createServerStream "c" 2 0, .clientIdle 0,
      .createClientStream "c" 3 7] := by decide
  exact ⟨hfits, (books_kept _ hfits).1⟩

/-- The peer picks the id of a live upload once more: the timer of the first upload stays armed, and
it aborts the second one. -/
theorem repeated_id :
    let m := run step empty [.createClientStream "c" 1 7, .createClientStream "c" 2 7]
    ¬ m.client.Tidy ∧ m.client.streams.get? (getKey "c" 7) = some 1 ∧
      (m.clientIdle 0).client.streams.get? (getKey "c" 7) = none := by
  refine ⟨fun H => ?_, by decide, by decide⟩
  have hown := H.timers 0 ⟨"c", 1, 7, true, ⟨0, false⟩⟩ (by decide) rfl
  revert hown
  decide

end Runs

end BlobStreamsManager

end Neemata.Ws
