import Neemata.Protocol.Version1
import Neemata.Protocol.JsonRoundTrip
import Neemata.Ws.BlobWire
import Neemata.Ws.RpcSession

/-!
# The admission of an Rpc frame

`WsSessionEngine.receive` at an Rpc frame, up to the call that it starts. A codec registers a stream
for each blob reference as it meets it, before it knows that the payload is good and before the
session looks for the id of the call; so a frame that is rejected leaves the connection as it was
exactly if it has no blob reference before it is rejected (`untouched_iff`).
-/

namespace Neemata.Ws

open Protocol
open Json (Value)

/-- What a codec makes of the payload of an Rpc frame: the ids that `addStream` is called with, of
which `none` is `NaN`, and the payload, unless the codec throws. The answers of `addStream` are made
of its arguments, so the rest depends on the payload alone. -/
structure Decoded (P : Type) where
  streamIds : List (Option Int)
  payload : Option P

abbrev RpcDecoder (P : Type) := ArrayBufferView → Decoded P

/-- `JSON.parse` calls the reviver when the text is known to be good. -/
def jsonDecoder : RpcDecoder (Option (Value (Option Int))) := fun buffer =>
  match JsonCodec.Server.decodeRPC JsonCodec.logged [] buffer with
  | .error _ => ⟨[], none⟩
  | .ok (payload, streamIds) =>
    -- `streams[id]` throws where the record of the streams is `null`
    match streamIds, decodeNumber buffer .Uint32 0 with
    | _ :: _, .ok streamsLength =>
      let record := JsonCodec.slice buffer 4 (4 + streamsLength)
      match JsonCodec.decode (fun view => bufferToString view 0 view.byteLength) record with
      | .ok .null => ⟨[], none⟩
      | _ => ⟨streamIds, some payload⟩
    | _, _ => ⟨streamIds, some payload⟩

/-- The codec as the server's `decodeMessage` uses it. -/
def payloadCodec {P : Type} (decoder : RpcDecoder P) : PayloadCodec Empty (Decoded P) where
  encode value := nomatch value
  decode _ := none
  encodeRPC _ := []
  decodeRPC buffer := some (decoder buffer)

/-- A connection, with the calls of `rpcs` and their credits. -/
structure Connection where
  blobs : BlobSession
  /-- The calls and ids of streams whose id is no natural number. -/
  strays : List (Nat × Option Int) := []
  rpcs : Session

inductive Admission where
  | threw
  /-- The id is that of a call in flight. -/
  | dropped
  | started
deriving DecidableEq

def Admission.rejected : Admission → Bool
  | .threw | .dropped => true
  | .started => false

namespace Connection

variable {P : Type} (decoder : RpcDecoder P) (c : Connection) (frame : ArrayBufferView)

def addClientStream (callId : Nat) : Option Int → Connection
  | some (.ofNat streamId) => { c with blobs := c.blobs.addClientStream callId streamId }
  | streamId => { c with strays := c.strays ++ [(callId, streamId)] }

def addClientStreams (callId : Nat) (streamIds : List (Option Int)) : Connection :=
  streamIds.foldl (fun c streamId => c.addClientStream callId streamId) c

/-- `none` for a frame of another type. -/
def receive : Option (Admission × Connection) :=
  match Server.decodeMessage (payloadCodec decoder) frame with
  | .error _ => some (.threw, c)
  | .ok (.rpc callId _ decoded) =>
    let c := c.addClientStreams callId decoded.streamIds
    match decoded.payload with
    | none => some (.threw, c)
    | some _ =>
      if c.rpcs.active callId then some (.dropped, c)
      else some (.started, { c with rpcs := c.rpcs ++ [Call.new callId] })
  | .ok _ => none

/-- A rejected frame changes nothing. -/
def Untouched : Prop :=
  ∀ admission c', c.receive decoder frame = some (admission, c') → admission.rejected = true →
    c' = c

/-- A frame whose payload is bad or whose call is in flight has no blob reference in it that the
codec meets. -/
def Bare : Prop :=
  match Server.decodeMessage (payloadCodec decoder) frame with
  | .ok (.rpc callId _ decoded) =>
    decoded.payload = none ∨ c.rpcs.active callId = true → decoded.streamIds = []
  | _ => True

/-! ## What the registration of streams changes -/

/-- How many streams were ever registered. -/
def registered : Nat := c.blobs.uploads.length + c.strays.length

variable {decoder c frame}

theorem registered_addClientStream (callId : Nat) (streamId : Option Int) :
    (c.addClientStream callId streamId).registered = c.registered + 1 := by
  unfold addClientStream registered
  split
  · simp only [BlobSession.addClientStream, List.length_append, List.length_singleton]
    omega
  · simp only [List.length_append, List.length_singleton]
    omega

theorem registered_addClientStreams (callId : Nat) (streamIds : List (Option Int)) :
    (c.addClientStreams callId streamIds).registered = c.registered + streamIds.length := by
  unfold addClientStreams
  induction streamIds generalizing c with
  | nil => rfl
  | cons streamId streamIds ih =>
    rw [List.foldl_cons, ih, registered_addClientStream, List.length_cons]
    omega

theorem rpcs_addClientStreams (callId : Nat) (streamIds : List (Option Int)) :
    (c.addClientStreams callId streamIds).rpcs = c.rpcs := by
  refine Trace.run_frame _ Connection.rpcs (fun c streamId => ?_) c streamIds
  unfold addClientStream
  split <;> rfl

theorem addClientStreams_eq_iff {callId : Nat} {streamIds : List (Option Int)} :
    c.addClientStreams callId streamIds = c ↔ streamIds = [] := by
  constructor
  · intro h
    have hcount := registered_addClientStreams (c := c) callId streamIds
    rw [h] at hcount
    exact List.eq_nil_of_length_eq_zero (by omega)
  · rintro rfl
    rfl

/-! ## Rejected frames -/

/-- A rejected frame leaves the connection with the streams of its references, and nothing else. -/
theorem receive_rejected {admission : Admission} {c' : Connection}
    (h : c.receive decoder frame = some (admission, c')) (hrejected : admission.rejected = true) :
    c' = c ∨ ∃ callId procedure decoded,
      Server.decodeMessage (payloadCodec decoder) frame = .ok (.rpc callId procedure decoded) ∧
      (decoded.payload = none ∨ c.rpcs.active callId = true) ∧
      c' = c.addClientStreams callId decoded.streamIds := by
  unfold receive at h
  split at h
  · cases h
    exact .inl rfl
  · next callId procedure decoded hdecode =>
    refine .inr ⟨callId, procedure, decoded, hdecode, ?_⟩
    simp only [rpcs_addClientStreams] at h
    split at h
    · next hpayload =>
      cases h
      exact ⟨.inl hpayload, rfl⟩
    · split at h
      · next hactive =>
        cases h
        exact ⟨.inr hactive, rfl⟩
      · cases h
        cases hrejected
  · cases h

/-- A frame whose payload is bad or whose call is in flight is rejected. -/
theorem rejected_of_bad {callId : Nat} {procedure : String} {decoded : Decoded P}
    (hdecode : Server.decodeMessage (payloadCodec decoder) frame =
      .ok (.rpc callId procedure decoded))
    (hbad : decoded.payload = none ∨ c.rpcs.active callId = true) :
    ∃ admission : Admission, admission.rejected = true ∧
      c.receive decoder frame =
        some (admission, c.addClientStreams callId decoded.streamIds) := by
  unfold receive
  rw [hdecode]
  simp only [rpcs_addClientStreams]
  cases hpayload : decoded.payload with
  | none => exact ⟨.threw, rfl, rfl⟩
  | some payload =>
    rcases hbad with hnone | hactive
    · cases hpayload.symm.trans hnone
    · refine ⟨.dropped, rfl, ?_⟩
      simp only [hactive, if_true]

/-- A rejected Rpc frame changes nothing exactly if the codec has met no blob reference in it. -/
theorem untouched_iff (decoder : RpcDecoder P) (c : Connection) (frame : ArrayBufferView) :
    c.Untouched decoder frame ↔ c.Bare decoder frame := by
  constructor
  · intro h
    unfold Bare
    split
    · next callId procedure decoded hdecode =>
      intro hbad
      obtain ⟨admission, hrejected, hreceive⟩ := rejected_of_bad hdecode hbad
      exact addClientStreams_eq_iff.mp (h admission _ hreceive hrejected)
    · trivial
  · intro h admission c' hreceive hrejected
    rcases receive_rejected hreceive hrejected with hsame | ⟨callId, procedure, decoded, hdecode,
      hbad, rfl⟩
    · exact hsame
    · rw [Bare, hdecode] at h
      exact addClientStreams_eq_iff.mpr (h hbad)

/-- A call whose upload was granted five bytes. -/
def uploading : Connection where
  blobs := ((BlobSession.start "c1").addClientStream 1 0).grantClientStream 0 5
  rpcs := [Call.new 1]

/-- The id of that call again, with a blob whose stream has the same id. -/
def blobFrame : ArrayBufferView :=
  let payload := JsonCodec.Client.encodeRPC JsonCodec.countUp 0 (some (.ref JsonCodec.textBlob))
  concat [encodeNumber ClientMessageType.Rpc.code .Uint8, encodeNumber 1 .Uint32,
    encodeNumber (encodeText "upload").length .Uint16, encodeText "upload", payload.1.bytes]

/-- The frame is dropped, and the bytes that the call's upload was granted are taken for a
violation. -/
theorem duplicate_takes_stream :
    ¬ uploading.Untouched jsonDecoder blobFrame ∧
      (uploading.blobs.manager.pushToClientStream "c1" 0 5).2 = .writing 0 ∧
      (uploading.receive jsonDecoder blobFrame).map
          (fun r => (r.1, (r.2.blobs.manager.pushToClientStream "c1" 0 5).2)) =
        some (.dropped, .returned false) := by
  have hreceive : (uploading.receive jsonDecoder blobFrame).map
      (fun r => (r.1, (r.2.blobs.manager.pushToClientStream "c1" 0 5).2)) =
        some (.dropped, .returned false) := by decide +kernel
  have hwriting : (uploading.blobs.manager.pushToClientStream "c1" 0 5).2 = .writing 0 := by decide
  refine ⟨fun h => ?_, hwriting, hreceive⟩
  obtain ⟨⟨admission, c'⟩, hsome, hpush⟩ := Option.map_eq_some_iff.mp hreceive
  cases (Prod.mk.inj hpush).1
  have hrefused := (Prod.mk.inj hpush).2
  rw [h _ _ hsome rfl, hwriting] at hrefused
  cases hrefused

end Connection

end Neemata.Ws
