import Neemata.Protocol.Binary

/-!
# Messages of the protocol

The message types of `common/enums.ts` with their codes, and the payloads of both directions. A
message carries its chunk as a value of type `C`: the views of sender and receiver differ, the
bytes they show do not.
-/

namespace Neemata.Protocol

inductive ClientMessageType where
  | Rpc | RpcAbort | RpcStreamPull | Ping | Pong
  | ClientBlobPush | ClientBlobEnd | ClientBlobAbort
  | ServerBlobAbort | ServerBlobPull
deriving DecidableEq, Repr

def ClientMessageType.code : ClientMessageType → Nat
  | Rpc => 10
  | RpcAbort => 11
  | RpcStreamPull => 12
  | Ping => 13
  | Pong => 14
  | ClientBlobPush => 20
  | ClientBlobEnd => 21
  | ClientBlobAbort => 22
  | ServerBlobAbort => 33
  | ServerBlobPull => 34

inductive ServerMessageType where
  | RpcResponse | RpcStreamResponse | RpcStreamChunk | RpcStreamEnd | RpcStreamAbort
  | Pong | Ping
  | ServerBlobPush | ServerBlobEnd | ServerBlobAbort
  | ClientBlobAbort | ClientBlobPull
deriving DecidableEq, Repr

def ServerMessageType.code : ServerMessageType → Nat
  | RpcResponse => 10
  | RpcStreamResponse => 11
  | RpcStreamChunk => 12
  | RpcStreamEnd => 13
  | RpcStreamAbort => 14
  | Pong => 15
  | Ping => 16
  | ServerBlobPush => 20
  | ServerBlobEnd => 21
  | ServerBlobAbort => 22
  | ClientBlobAbort => 33
  | ClientBlobPull => 34

/-- The case a `switch` on the type takes. -/
def ClientMessageType.ofCode (code : Nat) : Option ClientMessageType :=
  [Rpc, RpcAbort, RpcStreamPull, Ping, Pong, ClientBlobPush, ClientBlobEnd, ClientBlobAbort,
    ServerBlobAbort, ServerBlobPull].find? (·.code = code)

def ServerMessageType.ofCode (code : Nat) : Option ServerMessageType :=
  [RpcResponse, RpcStreamResponse, RpcStreamChunk, RpcStreamEnd, RpcStreamAbort, Pong, Ping,
    ServerBlobPush, ServerBlobEnd, ServerBlobAbort, ClientBlobAbort, ClientBlobPull].find?
    (·.code = code)

@[simp] theorem ClientMessageType.ofCode_code (type : ClientMessageType) :
    ofCode type.code = some type := by
  cases type <;> rfl

@[simp] theorem ServerMessageType.ofCode_code (type : ServerMessageType) :
    ofCode type.code = some type := by
  cases type <;> rfl

theorem ClientMessageType.holds_code (type : ClientMessageType) :
    BinaryType.Uint8.Holds type.code := by
  cases type <;> decide

theorem ServerMessageType.holds_code (type : ServerMessageType) :
    BinaryType.Uint8.Holds type.code := by
  cases type <;> decide

/-- `MessageByteLength`. -/
def MessageByteLength.MessageType : Nat := 1
def MessageByteLength.MessageError : Nat := 1
def MessageByteLength.ProcedureLength : Nat := 2
def MessageByteLength.CallId : Nat := 4
def MessageByteLength.StreamId : Nat := 4
def MessageByteLength.ChunkSize : Nat := 4

/-- A payload codec. `V` are the values of `encode`; an RPC payload of `P` is a value together with
the streams registered in it: what `encodeRPC` is given, and what `decodeRPC` makes of a value and
its calls of `addStream`. -/
structure PayloadCodec (V P : Type) where
  encode : V → List UInt8
  decode : ArrayBufferView → Option V
  encodeRPC : P → List UInt8
  decodeRPC : ArrayBufferView → Option P

/-- One side's decoding undoes the other side's encoding, wherever the bytes lie. -/
structure PayloadCodec.Undoes {V P : Type} (decoder encoder : PayloadCodec V P) : Prop where
  decode_encode : ∀ (value : V) (view : ArrayBufferView),
    view.bytes = encoder.encode value → decoder.decode view = some value
  decodeRPC_encodeRPC : ∀ (payload : P) (view : ArrayBufferView),
    view.bytes = encoder.encodeRPC payload → decoder.decodeRPC view = some payload

inductive ClientMessage (P C : Type) where
  | rpc (callId : Nat) (procedure : String) (payload : P)
  | rpcAbort (callId : Nat) (reason : Option String)
  | rpcStreamPull (callId size : Nat)
  | ping (nonce : Nat)
  | pong (nonce : Nat)
  | clientBlobPush (streamId : Nat) (chunk : C)
  | clientBlobEnd (streamId : Nat)
  | clientBlobAbort (streamId : Nat) (reason : Option String)
  | serverBlobPull (streamId size : Nat)
  | serverBlobAbort (streamId : Nat) (reason : Option String)
deriving DecidableEq, Repr

/-- `rpcStreamResponse` and `serverBlobEnd` have an `error` and a `reason` that only the client's
decoder knows of. -/
inductive ServerMessage (V P C : Type) where
  | rpcResponse (callId : Nat) (response : Except V P)
  | rpcStreamResponse (callId : Nat) (error : Option V)
  | rpcStreamChunk (callId : Nat) (chunk : C)
  | rpcStreamEnd (callId : Nat)
  | rpcStreamAbort (callId : Nat) (reason : Option String)
  | pong (nonce : Nat)
  | ping (nonce : Nat)
  | clientBlobPull (streamId size : Nat)
  | clientBlobAbort (streamId : Nat) (reason : Option String)
  | serverBlobPush (streamId : Nat) (chunk : C)
  | serverBlobEnd (streamId : Nat) (reason : Option String)
  | serverBlobAbort (streamId : Nat) (reason : Option String)
deriving DecidableEq

section
variable {V P C D : Type}

def ClientMessage.type : ClientMessage P C → ClientMessageType
  | rpc .. => .Rpc
  | rpcAbort .. => .RpcAbort
  | rpcStreamPull .. => .RpcStreamPull
  | ping _ => .Ping
  | pong _ => .Pong
  | clientBlobPush .. => .ClientBlobPush
  | clientBlobEnd _ => .ClientBlobEnd
  | clientBlobAbort .. => .ClientBlobAbort
  | serverBlobPull .. => .ServerBlobPull
  | serverBlobAbort .. => .ServerBlobAbort

def ServerMessage.type : ServerMessage V P C → ServerMessageType
  | rpcResponse .. => .RpcResponse
  | rpcStreamResponse .. => .RpcStreamResponse
  | rpcStreamChunk .. => .RpcStreamChunk
  | rpcStreamEnd _ => .RpcStreamEnd
  | rpcStreamAbort .. => .RpcStreamAbort
  | pong _ => .Pong
  | ping _ => .Ping
  | clientBlobPull .. => .ClientBlobPull
  | clientBlobAbort .. => .ClientBlobAbort
  | serverBlobPush .. => .ServerBlobPush
  | serverBlobEnd .. => .ServerBlobEnd
  | serverBlobAbort .. => .ServerBlobAbort

/-- The message with its chunk changed. -/
def ClientMessage.mapChunk (f : C → D) : ClientMessage P C → ClientMessage P D
  | rpc callId procedure payload => rpc callId procedure payload
  | rpcAbort callId reason => rpcAbort callId reason
  | rpcStreamPull callId size => rpcStreamPull callId size
  | ping nonce => ping nonce
  | pong nonce => pong nonce
  | clientBlobPush streamId chunk => clientBlobPush streamId (f chunk)
  | clientBlobEnd streamId => clientBlobEnd streamId
  | clientBlobAbort streamId reason => clientBlobAbort streamId reason
  | serverBlobPull streamId size => serverBlobPull streamId size
  | serverBlobAbort streamId reason => serverBlobAbort streamId reason

def ServerMessage.mapChunk (f : C → D) : ServerMessage V P C → ServerMessage V P D
  | rpcResponse callId response => rpcResponse callId response
  | rpcStreamResponse callId error => rpcStreamResponse callId error
  | rpcStreamChunk callId chunk => rpcStreamChunk callId (f chunk)
  | rpcStreamEnd callId => rpcStreamEnd callId
  | rpcStreamAbort callId reason => rpcStreamAbort callId reason
  | pong nonce => pong nonce
  | ping nonce => ping nonce
  | clientBlobPull streamId size => clientBlobPull streamId size
  | clientBlobAbort streamId reason => clientBlobAbort streamId reason
  | serverBlobPush streamId chunk => serverBlobPush streamId (f chunk)
  | serverBlobEnd streamId reason => serverBlobEnd streamId reason
  | serverBlobAbort streamId reason => serverBlobAbort streamId reason

/-- Absent, or a non-empty text without a byte order mark in front. -/
def Reason (reason : Option String) : Prop := ∀ text ∈ reason, text ≠ "" ∧ Unmarked text

/-- What a client may send: numbers in the unsigned 32-bit range, a procedure name of at most
65535 bytes, and reasons. -/
def ClientMessage.WellFormed : ClientMessage P C → Prop
  | rpc callId procedure _ =>
    BinaryType.Uint32.Holds callId ∧ (encodeText procedure).length ≤ 65535
  | rpcStreamPull id size | serverBlobPull id size =>
    BinaryType.Uint32.Holds id ∧ BinaryType.Uint32.Holds size
  | ping id | pong id | clientBlobPush id _ | clientBlobEnd id => BinaryType.Uint32.Holds id
  | rpcAbort id reason | clientBlobAbort id reason | serverBlobAbort id reason =>
    BinaryType.Uint32.Holds id ∧ Reason reason

/-- What a server may send; its payload types have no `error` at the opening of a stream and no
`reason` at its end. -/
def ServerMessage.WellFormed : ServerMessage V P C → Prop
  | rpcResponse id _ | rpcStreamChunk id _ | rpcStreamEnd id | pong id | ping id
  | serverBlobPush id _ => BinaryType.Uint32.Holds id
  | rpcStreamResponse id error => BinaryType.Uint32.Holds id ∧ error = none
  | serverBlobEnd id reason => BinaryType.Uint32.Holds id ∧ reason = none
  | clientBlobPull id size => BinaryType.Uint32.Holds id ∧ BinaryType.Uint32.Holds size
  | rpcStreamAbort id reason | clientBlobAbort id reason | serverBlobAbort id reason =>
    BinaryType.Uint32.Holds id ∧ Reason reason

end

end Neemata.Protocol
