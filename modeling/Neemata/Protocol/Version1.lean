import Neemata.Protocol.Messages

/-!
# Version 1 of the protocol

The `ProtocolVersion1` classes of client and server: two encoders and two decoders, each written
on its own. A frame starts with the code of the message type, which selects what is read.
-/

namespace Neemata.Protocol

variable {V P : Type}

/-- `reason ? encodeText(reason) : new Uint8Array(0)`: an empty reason is none. -/
def encodeReason : Option String → List UInt8
  | some reason => if reason = "" then [] else encodeText reason
  | none => []

/-- `payload.byteLength > 0 ? decodeText(payload) : undefined`. -/
def decodeReason (view : ArrayBufferView) : Option String :=
  if view.byteLength > 0 then some (decodeText view) else none

def payloadResult {A : Type} : Option A → Except DecodeError A
  | some value => .ok value
  | none => .error .payload

namespace Client

def encodeMessage (encoder : PayloadCodec V P) (message : ClientMessage P ArrayBufferView) :
    ArrayBufferView :=
  let messageType := encodeNumber message.type.code .Uint8
  match message with
  | .rpc callId procedure payload =>
    concat [messageType, encodeNumber callId .Uint32,
      encodeNumber (encodeText procedure).length .Uint16, encodeText procedure,
      encoder.encodeRPC payload]
  | .rpcAbort callId reason =>
    concat [messageType, encodeNumber callId .Uint32, encodeReason reason]
  | .rpcStreamPull callId size =>
    concat [messageType, encodeNumber callId .Uint32, encodeNumber size .Uint32]
  | .ping nonce => concat [messageType, encodeNumber nonce .Uint32]
  | .pong nonce => concat [messageType, encodeNumber nonce .Uint32]
  | .clientBlobPush streamId chunk =>
    concat [messageType, encodeNumber streamId .Uint32, chunk.bytes]
  | .clientBlobEnd streamId => concat [messageType, encodeNumber streamId .Uint32]
  | .clientBlobAbort streamId reason =>
    concat [messageType, encodeNumber streamId .Uint32, encodeReason reason]
  | .serverBlobPull streamId size =>
    concat [messageType, encodeNumber streamId .Uint32, encodeNumber size .Uint32]
  | .serverBlobAbort streamId reason =>
    concat [messageType, encodeNumber streamId .Uint32, encodeReason reason]

def decodeMessage (decoder : PayloadCodec V P) (buffer : ArrayBufferView) :
    Except DecodeError (ServerMessage V P ArrayBufferView) := do
  let messageType ← decodeNumber buffer .Uint8 0
  let payload := buffer.subarray MessageByteLength.MessageType
  match ServerMessageType.ofCode messageType with
  | some .RpcResponse =>
    let callId ← decodeNumber payload .Uint32 0
    let isError ← decodeNumber payload .Uint8 MessageByteLength.CallId
    let dataPayload := payload.subarray (MessageByteLength.CallId + MessageByteLength.MessageError)
    if isError ≠ 0 then
      let error ← payloadResult (decoder.decode dataPayload)
      return .rpcResponse callId (.error error)
    else
      let result ← payloadResult (decoder.decodeRPC dataPayload)
      return .rpcResponse callId (.ok result)
  | some .RpcStreamResponse =>
    let callId ← decodeNumber payload .Uint32 0
    let errorPayload := payload.subarray MessageByteLength.CallId
    if errorPayload.byteLength > 0 then
      let error ← payloadResult (decoder.decode errorPayload)
      return .rpcStreamResponse callId (some error)
    else
      return .rpcStreamResponse callId none
  | some .RpcStreamChunk =>
    let callId ← decodeNumber payload .Uint32 0
    return .rpcStreamChunk callId (payload.subarray MessageByteLength.CallId)
  | some .RpcStreamEnd =>
    let callId ← decodeNumber payload .Uint32 0
    return .rpcStreamEnd callId
  | some .RpcStreamAbort =>
    let callId ← decodeNumber payload .Uint32 0
    return .rpcStreamAbort callId (decodeReason (payload.subarray MessageByteLength.CallId))
  | some .Pong =>
    let nonce ← decodeNumber payload .Uint32 0
    return .pong nonce
  | some .Ping =>
    let nonce ← decodeNumber payload .Uint32 0
    return .ping nonce
  | some .ClientBlobPull =>
    let streamId ← decodeNumber payload .Uint32 0
    let size ← decodeNumber payload .Uint32 MessageByteLength.StreamId
    return .clientBlobPull streamId size
  | some .ClientBlobAbort =>
    let streamId ← decodeNumber payload .Uint32 0
    return .clientBlobAbort streamId (decodeReason (payload.subarray MessageByteLength.StreamId))
  | some .ServerBlobPush =>
    let streamId ← decodeNumber payload .Uint32 0
    return .serverBlobPush streamId (payload.subarray MessageByteLength.StreamId)
  | some .ServerBlobEnd =>
    let streamId ← decodeNumber payload .Uint32 0
    return .serverBlobEnd streamId (decodeReason (payload.subarray MessageByteLength.StreamId))
  | some .ServerBlobAbort =>
    let streamId ← decodeNumber payload .Uint32 0
    return .serverBlobAbort streamId (decodeReason (payload.subarray MessageByteLength.StreamId))
  | none => .error (.unsupportedMessageType messageType)

end Client

namespace Server

def encodeMessage (encoder : PayloadCodec V P) (message : ServerMessage V P ArrayBufferView) :
    ArrayBufferView :=
  let messageType := encodeNumber message.type.code .Uint8
  match message with
  -- an error is an object, so the test `error ? 1 : 0` tells the two kinds of response apart
  | .rpcResponse callId (.error error) =>
    concat [messageType, encodeNumber callId .Uint32, encodeNumber 1 .Uint8, encoder.encode error]
  | .rpcResponse callId (.ok result) =>
    concat [messageType, encodeNumber callId .Uint32, encodeNumber 0 .Uint8,
      encoder.encodeRPC result]
  -- neither writes what its payload type does not have
  | .rpcStreamResponse callId _ => concat [messageType, encodeNumber callId .Uint32]
  | .serverBlobEnd streamId _ => concat [messageType, encodeNumber streamId .Uint32]
  | .rpcStreamChunk callId chunk =>
    concat [messageType, encodeNumber callId .Uint32, chunk.bytes]
  | .rpcStreamEnd callId => concat [messageType, encodeNumber callId .Uint32]
  | .rpcStreamAbort callId reason =>
    concat [messageType, encodeNumber callId .Uint32, encodeReason reason]
  | .pong nonce => concat [messageType, encodeNumber nonce .Uint32]
  | .ping nonce => concat [messageType, encodeNumber nonce .Uint32]
  | .clientBlobPull streamId size =>
    concat [messageType, encodeNumber streamId .Uint32, encodeNumber size .Uint32]
  | .clientBlobAbort streamId reason =>
    concat [messageType, encodeNumber streamId .Uint32, encodeReason reason]
  | .serverBlobPush streamId chunk =>
    concat [messageType, encodeNumber streamId .Uint32, chunk.bytes]
  | .serverBlobAbort streamId reason =>
    concat [messageType, encodeNumber streamId .Uint32, encodeReason reason]

def decodeMessage (decoder : PayloadCodec V P) (buffer : ArrayBufferView) :
    Except DecodeError (ClientMessage P ArrayBufferView) := do
  let messageType ← decodeNumber buffer .Uint8 0
  let messagePayload := buffer.subarray MessageByteLength.MessageType
  match ClientMessageType.ofCode messageType with
  | some .Rpc =>
    let callId ← decodeNumber messagePayload .Uint32 0
    let procedureLength ← decodeNumber messagePayload .Uint16 MessageByteLength.CallId
    let procedureOffset := MessageByteLength.CallId + MessageByteLength.ProcedureLength
    if procedureOffset + procedureLength > messagePayload.byteLength then
      .error (.malformedRpc procedureLength)
    else
      let procedure :=
        bufferToString messagePayload procedureOffset (procedureOffset + procedureLength)
      let formatPayload := messagePayload.subarray (procedureOffset + procedureLength)
      let payload ← payloadResult (decoder.decodeRPC formatPayload)
      return .rpc callId procedure payload
  | some .RpcAbort =>
    let callId ← decodeNumber messagePayload .Uint32 0
    return .rpcAbort callId (decodeReason (messagePayload.subarray MessageByteLength.CallId))
  | some .RpcStreamPull =>
    -- the one message whose length is checked
    if messagePayload.byteLength ≠ MessageByteLength.CallId + MessageByteLength.ChunkSize then
      .error (.malformedRpcStreamPull messagePayload.byteLength)
    else
      let callId ← decodeNumber messagePayload .Uint32 0
      let size ← decodeNumber messagePayload .Uint32 MessageByteLength.CallId
      return .rpcStreamPull callId size
  | some .Ping =>
    let nonce ← decodeNumber messagePayload .Uint32 0
    return .ping nonce
  | some .Pong =>
    let nonce ← decodeNumber messagePayload .Uint32 0
    return .pong nonce
  | some .ServerBlobAbort =>
    let streamId ← decodeNumber messagePayload .Uint32 0
    return .serverBlobAbort streamId
      (decodeReason (messagePayload.subarray MessageByteLength.StreamId))
  | some .ServerBlobPull =>
    let streamId ← decodeNumber messagePayload .Uint32 0
    let size ← decodeNumber messagePayload .Uint32 MessageByteLength.StreamId
    return .serverBlobPull streamId size
  | some .ClientBlobAbort =>
    let streamId ← decodeNumber messagePayload .Uint32 0
    return .clientBlobAbort streamId
      (decodeReason (messagePayload.subarray MessageByteLength.StreamId))
  | some .ClientBlobEnd =>
    let streamId ← decodeNumber messagePayload .Uint32 0
    return .clientBlobEnd streamId
  | some .ClientBlobPush =>
    let streamId ← decodeNumber messagePayload .Uint32 0
    return .clientBlobPush streamId (messagePayload.subarray MessageByteLength.StreamId)
  | none => .error (.unsupportedMessageType messageType)

end Server

end Neemata.Protocol
