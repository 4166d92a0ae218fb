import Neemata.Protocol.Version1

/-!
# Both directions of the wire

Every frame is a message type, an id and a rest. From these three each decoder gives back the
message that the peer's encoder was given.
-/

namespace Neemata.Protocol

/-- What every frame looks like: the code of its type, the id of its call or stream (or a nonce),
and what depends on the type. -/
structure Frame (view : ArrayBufferView) (code id : Nat) (rest : List UInt8) : Prop where
  bytes : view.bytes = encodeNumber code .Uint8 ++ (encodeNumber id .Uint32 ++ rest)
  code_holds : BinaryType.Uint8.Holds code
  id_holds : BinaryType.Uint32.Holds id

namespace Frame

variable {view : ArrayBufferView} {code id : Nat} {rest : List UInt8}

theorem messageType (H : Frame view code id rest) : decodeNumber view .Uint8 0 = .ok code :=
  decodeNumber_of_bytes (List.nil_append _ ▸ H.bytes) List.length_nil.symm H.code_holds

theorem bytes_payload (H : Frame view code id rest) :
    (view.subarray MessageByteLength.MessageType).bytes = encodeNumber id .Uint32 ++ rest := by
  rw [ArrayBufferView.bytes_subarray, H.bytes]
  exact List.drop_left' (length_encodeNumber code .Uint8)

theorem decode_id (H : Frame view code id rest) :
    decodeNumber (view.subarray MessageByteLength.MessageType) .Uint32 0 = .ok id :=
  decodeNumber_of_bytes (List.nil_append _ ▸ H.bytes_payload) List.length_nil.symm H.id_holds

/-- A number right after the id. -/
theorem decode_second (H : Frame view code id rest) {value : Nat} (type : BinaryType)
    {more : List UInt8} (hrest : rest = encodeNumber value type ++ more)
    (hvalue : type.Holds value) :
    decodeNumber (view.subarray MessageByteLength.MessageType) type 4 = .ok value := by
  have hbytes : (view.subarray MessageByteLength.MessageType).bytes =
      encodeNumber id .Uint32 ++ (encodeNumber value type ++ more) := by
    rw [H.bytes_payload, hrest]
  exact decodeNumber_of_bytes hbytes (length_encodeNumber id .Uint32).symm hvalue

theorem bytes_after_second (H : Frame view code id rest) {value : Nat} (type : BinaryType)
    {more : List UInt8} (hrest : rest = encodeNumber value type ++ more) :
    ((view.subarray MessageByteLength.MessageType).subarray
      (4 + type.bytesPerElement)).bytes = more := by
  rw [ArrayBufferView.bytes_subarray, H.bytes_payload, hrest, ← List.append_assoc]
  apply List.drop_left'
  rw [List.length_append, length_encodeNumber, length_encodeNumber]
  rfl

theorem bytes_rest (H : Frame view code id rest) :
    ((view.subarray MessageByteLength.MessageType).subarray 4).bytes = rest := by
  rw [ArrayBufferView.bytes_subarray, H.bytes_payload]
  exact List.drop_left' (length_encodeNumber id .Uint32)

theorem byteLength_payload (H : Frame view code id rest) :
    (view.subarray MessageByteLength.MessageType).byteLength = 4 + rest.length := by
  rw [← ArrayBufferView.length_bytes, H.bytes_payload, List.length_append, length_encodeNumber]
  rfl

section
variable {text : String} {more : List UInt8}
  (hrest : rest = encodeNumber (encodeText text).length .Uint16 ++ (encodeText text ++ more))
include hrest

theorem bytes_text (H : Frame view code id rest) :
    (view.subarray MessageByteLength.MessageType).bytes =
      (encodeNumber id .Uint32 ++ encodeNumber (encodeText text).length .Uint16) ++
        (encodeText text ++ more) := by
  rw [H.bytes_payload, hrest, List.append_assoc]

/-- A text after its length. -/
theorem decode_text (H : Frame view code id rest) :
    bufferToString (view.subarray MessageByteLength.MessageType) 6
      (6 + (encodeText text).length) = text := by
  have hlength : (encodeNumber id .Uint32 ++
      encodeNumber (encodeText text).length .Uint16).length = 6 := by
    rw [List.length_append, length_encodeNumber, length_encodeNumber]
    rfl
  exact bufferToString_encodeText (H.bytes_text hrest) hlength.symm (by rw [hlength])

theorem bytes_after_text (H : Frame view code id rest) :
    ((view.subarray MessageByteLength.MessageType).subarray
      (6 + (encodeText text).length)).bytes = more := by
  rw [ArrayBufferView.bytes_subarray, H.bytes_text hrest, ← List.append_assoc]
  apply List.drop_left'
  simp only [List.length_append, length_encodeNumber, BinaryType.bytesPerElement]

theorem text_fits (H : Frame view code id rest) :
    6 + (encodeText text).length ≤ (view.subarray MessageByteLength.MessageType).byteLength := by
  rw [H.byteLength_payload, hrest]
  simp only [List.length_append, length_encodeNumber, BinaryType.bytesPerElement]
  omega

end

end Frame

theorem frame_concat {code id : Nat} (hcode : BinaryType.Uint8.Holds code)
    (hid : BinaryType.Uint32.Holds id) (parts : List (List UInt8)) :
    Frame (concat (encodeNumber code .Uint8 :: encodeNumber id .Uint32 :: parts)) code id
      parts.flatten := by
  refine ⟨?_, hcode, hid⟩
  rw [concat, ArrayBufferView.bytes_ofBuffer, List.flatten_cons, List.flatten_cons]

theorem decodeReason_encodeReason {view : ArrayBufferView} {reason : Option String}
    (hbytes : view.bytes = encodeReason reason) (hreason : Reason reason) :
    decodeReason view = reason := by
  cases reason with
  | none =>
    have hlength : view.byteLength = 0 := by
      rw [← view.length_bytes, hbytes, encodeReason, List.length_nil]
    rw [decodeReason, hlength, if_neg (Nat.lt_irrefl 0)]
  | some text =>
    obtain ⟨hne, hunmarked⟩ := hreason text rfl
    rw [encodeReason, if_neg hne] at hbytes
    have hlength : view.byteLength > 0 := by
      rw [← view.length_bytes, hbytes]
      exact List.length_pos_iff.mpr (encodeText_ne_nil hne)
    rw [decodeReason, if_pos hlength, decodeText_encodeText hbytes hunmarked]

theorem ok_bind {A B : Type} (value : A) (next : A → Except DecodeError B) :
    (Except.ok value >>= next) = next value := rfl

theorem ofBuffer_bytes_concat (buffers : List (List UInt8)) :
    .ofBuffer (concat buffers).bytes = concat buffers := by
  rw [concat, ArrayBufferView.bytes_ofBuffer]

variable {V P : Type} {encoder decoder : PayloadCodec V P}

/-- What the server makes of a frame, its chunk read as bytes. -/
def Server.receive (decoder : PayloadCodec V P) (frame : ArrayBufferView) :
    Except DecodeError (ClientMessage P (List UInt8)) :=
  (Server.decodeMessage decoder frame).map (ClientMessage.mapChunk ArrayBufferView.bytes)

/-- What the client makes of a frame. -/
def Client.receive (decoder : PayloadCodec V P) (frame : ArrayBufferView) :
    Except DecodeError (ServerMessage V P (List UInt8)) :=
  (Client.decodeMessage decoder frame).map (ServerMessage.mapChunk ArrayBufferView.bytes)

/-- The server reads what the client wrote. -/
theorem Server.receive_encodeMessage (hcodec : decoder.Undoes encoder)
    {message : ClientMessage P ArrayBufferView} (H : message.WellFormed) :
    Server.receive decoder (Client.encodeMessage encoder message) =
      .ok (message.mapChunk ArrayBufferView.bytes) := by
  have hcode := message.type.holds_code
  rw [Server.receive, Server.decodeMessage]
  cases message with
  | rpc callId procedure payload =>
    simp only [ClientMessage.type] at hcode
    have hframe := frame_concat hcode H.1
      [encodeNumber (encodeText procedure).length .Uint16, encodeText procedure,
        encoder.encodeRPC payload]
    have hlength := hframe.decode_second .Uint16 rfl (Nat.lt_of_le_of_lt H.2 (by decide))
    have hprocedure := hframe.decode_text rfl
    have hpayload := hcodec.decodeRPC_encodeRPC payload _
      ((hframe.bytes_after_text rfl).trans (List.append_nil _))
    have hfits := Nat.not_lt.mpr (hframe.text_fits rfl)
    simp only [Client.encodeMessage, ClientMessage.type, hframe.messageType, ok_bind,
      ClientMessageType.ofCode_code, hframe.decode_id, MessageByteLength.CallId,
      MessageByteLength.ProcedureLength, hlength, Nat.reduceAdd, gt_iff_lt, if_neg hfits, hpayload,
      payloadResult, hprocedure]
    rfl
  | rpcAbort id reason | clientBlobAbort id reason | serverBlobAbort id reason =>
    simp only [ClientMessage.type] at hcode
    have hframe := frame_concat hcode H.1 [encodeReason reason]
    have hreason := decodeReason_encodeReason (hframe.bytes_rest.trans (List.append_nil _)) H.2
    simp only [Client.encodeMessage, ClientMessage.type, hframe.messageType, ok_bind,
      ClientMessageType.ofCode_code, hframe.decode_id, MessageByteLength.CallId,
      MessageByteLength.StreamId, hreason]
    rfl
  | rpcStreamPull id size =>
    simp only [ClientMessage.type] at hcode
    have hframe := frame_concat hcode H.1 [encodeNumber size .Uint32]
    have hsize := hframe.decode_second .Uint32 rfl H.2
    simp only [Client.encodeMessage, ClientMessage.type, hframe.messageType, ok_bind,
      ClientMessageType.ofCode_code, hframe.decode_id, MessageByteLength.CallId, hsize,
      hframe.byteLength_payload]
    rfl
  | serverBlobPull id size =>
    simp only [ClientMessage.type] at hcode
    have hframe := frame_concat hcode H.1 [encodeNumber size .Uint32]
    have hsize := hframe.decode_second .Uint32 rfl H.2
    simp only [Client.encodeMessage, ClientMessage.type, hframe.messageType, ok_bind,
      ClientMessageType.ofCode_code, hframe.decode_id, MessageByteLength.StreamId, hsize]
    rfl
  | ping id | pong id | clientBlobEnd id =>
    simp only [ClientMessage.type] at hcode
    have hframe := frame_concat hcode H []
    simp only [Client.encodeMessage, ClientMessage.type, hframe.messageType, ok_bind,
      ClientMessageType.ofCode_code, hframe.decode_id]
    rfl
  | clientBlobPush id chunk =>
    simp only [ClientMessage.type] at hcode
    have hframe := frame_concat hcode H [chunk.bytes]
    have hbytes := hframe.bytes_rest.trans (List.append_nil _)
    simp only [Client.encodeMessage, ClientMessage.type, hframe.messageType, ok_bind,
      ClientMessageType.ofCode_code, hframe.decode_id]
    exact congrArg (fun bytes => Except.ok (ClientMessage.clientBlobPush id bytes)) hbytes

/-- The client reads what the server wrote. -/
theorem Client.receive_encodeMessage (hcodec : decoder.Undoes encoder)
    {message : ServerMessage V P ArrayBufferView} (H : message.WellFormed) :
    Client.receive decoder (Server.encodeMessage encoder message) =
      .ok (message.mapChunk ArrayBufferView.bytes) := by
  have hcode := message.type.holds_code
  rw [Client.receive, Client.decodeMessage]
  cases message with
  | rpcResponse callId response =>
    simp only [ServerMessage.type] at hcode
    cases response with
    | error error =>
      have hframe := frame_concat hcode H [encodeNumber 1 .Uint8, encoder.encode error]
      have hisError := hframe.decode_second .Uint8 rfl (by decide)
      have herror := hcodec.decode_encode error _
        ((hframe.bytes_after_second .Uint8 rfl).trans (List.append_nil _))
      simp only [Server.encodeMessage, ServerMessage.type, hframe.messageType, ok_bind,
        ServerMessageType.ofCode_code, hframe.decode_id, MessageByteLength.CallId, hisError,
        MessageByteLength.MessageError, if_pos Nat.one_ne_zero]
      simp only [BinaryType.bytesPerElement] at herror
      simp only [herror, payloadResult, ok_bind]
      rfl
    | ok result =>
      have hframe := frame_concat hcode H [encodeNumber 0 .Uint8, encoder.encodeRPC result]
      have hisError := hframe.decode_second .Uint8 rfl (by decide)
      have hresult := hcodec.decodeRPC_encodeRPC result _
        ((hframe.bytes_after_second .Uint8 rfl).trans (List.append_nil _))
      simp only [Server.encodeMessage, ServerMessage.type, hframe.messageType, ok_bind,
        ServerMessageType.ofCode_code, hframe.decode_id, MessageByteLength.CallId, hisError,
        MessageByteLength.MessageError, ne_eq, not_true, if_false]
      simp only [BinaryType.bytesPerElement] at hresult
      simp only [hresult, payloadResult, ok_bind]
      rfl
  | rpcStreamResponse id error =>
    obtain ⟨hid, rfl⟩ := H
    simp only [ServerMessage.type] at hcode
    have hframe := frame_concat hcode hid []
    have hempty := congrArg List.length hframe.bytes_rest
    rw [ArrayBufferView.length_bytes] at hempty
    simp only [Server.encodeMessage, ServerMessage.type, hframe.messageType, ok_bind,
      ServerMessageType.ofCode_code, hframe.decode_id, MessageByteLength.CallId, hempty]
    rfl
  | serverBlobEnd id reason =>
    obtain ⟨hid, rfl⟩ := H
    simp only [ServerMessage.type] at hcode
    have hframe := frame_concat hcode hid []
    have hreason : decodeReason _ = none :=
      decodeReason_encodeReason hframe.bytes_rest (fun _ h => absurd h (Option.not_mem_none _))
    simp only [Server.encodeMessage, ServerMessage.type, hframe.messageType, ok_bind,
      ServerMessageType.ofCode_code, hframe.decode_id, MessageByteLength.StreamId, hreason]
    rfl
  | rpcStreamChunk id chunk | serverBlobPush id chunk =>
    simp only [ServerMessage.type] at hcode
    have hframe := frame_concat hcode H [chunk.bytes]
    have hbytes := hframe.bytes_rest.trans (List.append_nil _)
    simp only [Server.encodeMessage, ServerMessage.type, hframe.messageType, ok_bind,
      ServerMessageType.ofCode_code, hframe.decode_id, MessageByteLength.CallId,
      MessageByteLength.StreamId]
    simp only [pure, Except.pure, Except.map, ServerMessage.mapChunk, hbytes]
  | rpcStreamEnd id | pong id | ping id =>
    simp only [ServerMessage.type] at hcode
    have hframe := frame_concat hcode H []
    simp only [Server.encodeMessage, ServerMessage.type, hframe.messageType, ok_bind,
      ServerMessageType.ofCode_code, hframe.decode_id]
    rfl
  | rpcStreamAbort id reason | clientBlobAbort id reason | serverBlobAbort id reason =>
    simp only [ServerMessage.type] at hcode
    have hframe := frame_concat hcode H.1 [encodeReason reason]
    have hreason := decodeReason_encodeReason (hframe.bytes_rest.trans (List.append_nil _)) H.2
    simp only [Server.encodeMessage, ServerMessage.type, hframe.messageType, ok_bind,
      ServerMessageType.ofCode_code, hframe.decode_id, MessageByteLength.CallId,
      MessageByteLength.StreamId, hreason]
    rfl
  | clientBlobPull id size =>
    simp only [ServerMessage.type] at hcode
    have hframe := frame_concat hcode H.1 [encodeNumber size .Uint32]
    have hsize := hframe.decode_second .Uint32 rfl H.2
    simp only [Server.encodeMessage, ServerMessage.type, hframe.messageType, ok_bind,
      ServerMessageType.ofCode_code, hframe.decode_id, MessageByteLength.StreamId, hsize]
    rfl

theorem Client.ofBuffer_bytes_encodeMessage (message : ClientMessage P ArrayBufferView) :
    .ofBuffer (Client.encodeMessage encoder message).bytes =
      Client.encodeMessage encoder message := by
  cases message <;> exact ofBuffer_bytes_concat _

theorem Server.ofBuffer_bytes_encodeMessage (message : ServerMessage V P ArrayBufferView) :
    .ofBuffer (Server.encodeMessage encoder message).bytes =
      Server.encodeMessage encoder message := by
  cases message with
  | rpcResponse callId response => cases response <;> exact ofBuffer_bytes_concat _
  | _ => exact ofBuffer_bytes_concat _

/-- Messages that the server tells apart have distinct frames. -/
theorem Client.encodeMessage_bytes_ne (hcodec : decoder.Undoes encoder)
    {left right : ClientMessage P ArrayBufferView} (hleft : left.WellFormed)
    (hright : right.WellFormed)
    (hne : left.mapChunk ArrayBufferView.bytes ≠ right.mapChunk ArrayBufferView.bytes) :
    (Client.encodeMessage encoder left).bytes ≠ (Client.encodeMessage encoder right).bytes := by
  intro h
  have hframes : Client.encodeMessage encoder left = Client.encodeMessage encoder right := by
    rw [← Client.ofBuffer_bytes_encodeMessage left, h, Client.ofBuffer_bytes_encodeMessage]
  have hreceived := Server.receive_encodeMessage hcodec hleft
  rw [hframes, Server.receive_encodeMessage hcodec hright] at hreceived
  exact hne (Except.ok.inj hreceived).symm

theorem Server.encodeMessage_bytes_ne (hcodec : decoder.Undoes encoder)
    {left right : ServerMessage V P ArrayBufferView} (hleft : left.WellFormed)
    (hright : right.WellFormed)
    (hne : left.mapChunk ArrayBufferView.bytes ≠ right.mapChunk ArrayBufferView.bytes) :
    (Server.encodeMessage encoder left).bytes ≠ (Server.encodeMessage encoder right).bytes := by
  intro h
  have hframes : Server.encodeMessage encoder left = Server.encodeMessage encoder right := by
    rw [← Server.ofBuffer_bytes_encodeMessage left, h, Server.ofBuffer_bytes_encodeMessage]
  have hreceived := Client.receive_encodeMessage hcodec hleft
  rw [hframes, Client.receive_encodeMessage hcodec hright] at hreceived
  exact hne (Except.ok.inj hreceived).symm

/-- A client and a server whose payload codecs undo each other read back every message of the other
side, and no two of its messages have the same frame. -/
theorem wire_roundTrip {client server : PayloadCodec V P} (hserver : server.Undoes client)
    (hclient : client.Undoes server) :
    (∀ message : ClientMessage P ArrayBufferView, message.WellFormed →
      Server.receive server (Client.encodeMessage client message) =
        .ok (message.mapChunk ArrayBufferView.bytes)) ∧
    (∀ message : ServerMessage V P ArrayBufferView, message.WellFormed →
      Client.receive client (Server.encodeMessage server message) =
        .ok (message.mapChunk ArrayBufferView.bytes)) ∧
    (∀ left right : ClientMessage P ArrayBufferView, left.WellFormed → right.WellFormed →
      left.mapChunk ArrayBufferView.bytes ≠ right.mapChunk ArrayBufferView.bytes →
      (Client.encodeMessage client left).bytes ≠ (Client.encodeMessage client right).bytes) ∧
    (∀ left right : ServerMessage V P ArrayBufferView, left.WellFormed → right.WellFormed →
      left.mapChunk ArrayBufferView.bytes ≠ right.mapChunk ArrayBufferView.bytes →
      (Server.encodeMessage server left).bytes ≠ (Server.encodeMessage server right).bytes) :=
  ⟨fun _ H => Server.receive_encodeMessage hserver H,
    fun _ H => Client.receive_encodeMessage hclient H,
    fun _ _ hleft hright hne => Client.encodeMessage_bytes_ne hserver hleft hright hne,
    fun _ _ hleft hright hne => Server.encodeMessage_bytes_ne hclient hleft hright hne⟩

/-- A codec of byte strings, for values and payloads alike. -/
def bytesCodec : PayloadCodec (List UInt8) (List UInt8) where
  encode value := value
  decode view := some view.bytes
  encodeRPC payload := payload
  decodeRPC view := some view.bytes

theorem bytesCodec_undoes : bytesCodec.Undoes bytesCodec where
  decode_encode _ _ hbytes := congrArg some hbytes
  decodeRPC_encodeRPC _ _ hbytes := congrArg some hbytes

/-- A call with a payload of two bytes arrives. -/
theorem wire_roundTrip_call :
    Server.receive bytesCodec (Client.encodeMessage bytesCodec (.rpc 7 "users/é" [1, 2])) =
      .ok (.rpc 7 "users/é" [1, 2]) :=
  (wire_roundTrip bytesCodec_undoes bytesCodec_undoes).1 (.rpc 7 "users/é" [1, 2])
    ⟨by decide, by decide⟩

end Neemata.Protocol
