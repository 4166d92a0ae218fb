import Neemata.Lib.Json
import Neemata.Protocol.Binary

/-!
# The JSON codec

The `JsonCodec` classes of client and server. A blob travels as a marker string, and its metadata
in a record that stands before the payload, under its stream id.
-/

namespace Neemata.Protocol.JsonCodec

open Json

def STREAM_SERIALIZE_KEY : JsString := ofString "%neemata:stream:%\x0c"

/-- The text of a number that is a natural number. -/
def numeral (n : Nat) : JsString := ofText (Nat.toDigits 10 n)

def serializeStreamId (id : Nat) : JsString := STREAM_SERIALIZE_KEY ++ numeral id

def isStreamId (value : JsString) : Bool := STREAM_SERIALIZE_KEY.isPrefixOf value

/-! ## `Number.parseInt` -/

def isWhiteSpace : JsChar → Bool
  | .scalar c =>
    c.toNat ∈ [0x9, 0xA, 0xB, 0xC, 0xD, 0x20, 0xA0, 0x1680, 0x2028, 0x2029, 0x202F, 0x205F, 0x3000,
      0xFEFF] || (0x2000 ≤ c.toNat && c.toNat ≤ 0x200A)
  | .surrogate _ => false

/-- The leading digits of a string, by their values. -/
def digits (radix : Nat) : JsString → List Nat
  | .scalar c :: rest =>
    match hexValue c with
    | some d => if d < radix then d :: digits radix rest else []
    | none => []
  | _ => []

def sign : JsString → Bool × JsString
  | .scalar '-' :: rest => (true, rest)
  | .scalar '+' :: rest => (false, rest)
  | s => (false, s)

def radix : JsString → Nat × JsString
  | .scalar '0' :: .scalar 'x' :: rest | .scalar '0' :: .scalar 'X' :: rest => (16, rest)
  | s => (10, s)

/-- Without a radix argument; `none` is `NaN`. -/
def parseInt (s : JsString) : Option Int :=
  let (negative, s) := sign (s.dropWhile isWhiteSpace)
  let (base, s) := radix s
  match digits base s with
  | [] => none
  | ds =>
    let n := ds.foldl (fun n d => base * n + d) 0
    some (if negative then -(n : Int) else n)

def deserializeStreamId (value : JsString) : Option Int :=
  parseInt (value.drop STREAM_SERIALIZE_KEY.length)

/-! ## Encoding -/

/-- A member that is undefined has no text. -/
structure ProtocolBlobMetadata where
  size : Option Number
  type : JsString
  filename : Option JsString
deriving DecidableEq

def ProtocolBlobMetadata.toJson (metadata : ProtocolBlobMetadata) : Value Empty :=
  .obj ((metadata.size.toList.map fun size => (ofString "size", .num size)) ++
    (ofString "type", .str metadata.type) ::
    metadata.filename.toList.map fun filename => (ofString "filename", .str filename))

/-- The entries of the record, by ascending id. -/
abbrev EncodeRPCStreams := List (Nat × ProtocolBlobMetadata)

/-- `streams[id] = metadata` -/
def setStream (id : Nat) (metadata : ProtocolBlobMetadata) : EncodeRPCStreams → EncodeRPCStreams
  | [] => [(id, metadata)]
  | (id', metadata') :: rest =>
    if id < id' then (id, metadata) :: (id', metadata') :: rest
    else if id = id' then (id, metadata) :: rest
    else (id', metadata') :: setStream id metadata rest

def streamsJson (streams : EncodeRPCStreams) : Value Empty :=
  .obj (streams.map fun (id, metadata) => (numeral id, metadata.toJson))

/-- `JSON.stringify` and the encoder of the text. -/
def encode (value : Value Empty) : List UInt8 := encodeText (String.ofList (stringify value))

/-- The buffers of a payload: the length of the streams, the streams, the payload. -/
def buffers (streams : Option (Value Empty)) (payload : Option (Value Empty)) : ArrayBufferView :=
  concat ((match streams with
    | some streams => [encodeNumber (encode streams).length .Uint32, encode streams]
    | none => [encodeNumber 0 .Uint32]) ++ (payload.map encode).toList)

section Client

variable {β σ : Type}

/-- What the replacer of the client has gathered: the state behind `addStream`, the streams and
`hasStreams`. -/
structure Gathered (σ : Type) where
  context : σ
  streams : EncodeRPCStreams
  hasStreams : Bool

/-- The replacer at a blob. -/
def replaceBlob (addStream : σ → β → (Nat × ProtocolBlobMetadata) × σ) (s : Gathered σ) (blob : β) :
    Value Empty × Gathered σ :=
  let stream := addStream s.context blob
  (.str (serializeStreamId stream.1.1),
    ⟨stream.2, setStream stream.1.1 stream.1.2 s.streams, true⟩)

/-- `encodeRPC` of the client; `none` is `undefined`. -/
def Client.encodeRPC (addStream : σ → β → (Nat × ProtocolBlobMetadata) × σ) (context : σ)
    (data : Option (Value β)) : ArrayBufferView × σ :=
  match data with
  | none => (buffers none none, context)
  | some data =>
    let (payload, s) := walk keep (replaceBlob addStream) ⟨context, [], false⟩ data
    (buffers (if s.hasStreams then some (streamsJson s.streams) else none) (some payload), s.context)

end Client

/-- `toJSON` of a blob that the server has given a stream. -/
def blobJson (_ : Unit) (blob : Nat × ProtocolBlobMetadata) : Value Empty × Unit :=
  (.str (serializeStreamId blob.1), ())

/-- `encodeRPC` of the server, for the streams of the call. -/
def Server.encodeRPC (data : Option (Value (Nat × ProtocolBlobMetadata)))
    (streams : EncodeRPCStreams) : ArrayBufferView :=
  buffers (if streams ≠ [] then some (streamsJson streams) else none)
    (data.map fun data => (walk keep blobJson () data).1)

/-! ## Decoding -/

section Decode

variable {γ τ : Type}

/-- The property key of a number; `NaN` and negative numbers have one too. -/
def propertyKey : Option Int → JsString
  | none => ofString "NaN"
  | some (.ofNat n) => numeral n
  | some (.negSucc n) => .scalar '-' :: numeral (n + 1)

/-- `record[key]` -/
def property (record : Value Empty) (key : JsString) : Option (Value Empty) :=
  match record with
  | .obj members => (members.find? fun m => m.1 = key).map Prod.snd
  | _ => none

/-- The reviver at a string; `addStream` is given the id and the metadata found under it. -/
def reviveString (addStream : τ → Option Int → Option (Value Empty) → γ × τ) (streams : Value Empty)
    (t : τ) (value : JsString) : Value γ × τ :=
  if isStreamId value then
    let id := deserializeStreamId value
    let stream := addStream t id (property streams (propertyKey id))
    (.ref stream.1, stream.2)
  else (.str value, t)

def noRef : τ → Empty → Value γ × τ := fun _ b => nomatch b

/-- `subarray(start, end)` -/
def slice (view : ArrayBufferView) (start stop : Nat) : ArrayBufferView :=
  .ofBuffer ((view.bytes.take stop).drop start)

def decode (toText : ArrayBufferView → String) (view : ArrayBufferView) :
    Except DecodeError (Value Empty) :=
  match parse (toText view).toList with
  | some value => .ok value
  | none => .error .payload

/-- `decodeRPC` of both classes; they differ in how bytes become a text. -/
def decodeRPC (toText : ArrayBufferView → String)
    (addStream : τ → Option Int → Option (Value Empty) → γ × τ) (context : τ)
    (buffer : ArrayBufferView) : Except DecodeError (Option (Value γ) × τ) := do
  let streamsLength ← decodeNumber buffer .Uint32 0
  let payloadBuffer := buffer.subarray (4 + streamsLength)
  let streams ← if streamsLength > 0 then decode toText (slice buffer 4 (4 + streamsLength))
    else .ok (.obj [])
  if payloadBuffer.byteLength = 0 then return (none, context)
  else
    let payload ← decode toText payloadBuffer
    if streamsLength > 0 then
      let (value, context) := walk (reviveString addStream streams) noRef context payload
      return (some value, context)
    else
      return (some (walk keep noRef context payload).1, context)

def Client.decodeRPC (addStream : τ → Option Int → Option (Value Empty) → γ × τ) (context : τ)
    (buffer : ArrayBufferView) : Except DecodeError (Option (Value γ) × τ) :=
  JsonCodec.decodeRPC decodeText addStream context buffer

def Server.decodeRPC (addStream : τ → Option Int → Option (Value Empty) → γ × τ) (context : τ)
    (buffer : ArrayBufferView) : Except DecodeError (Option (Value γ) × τ) :=
  JsonCodec.decodeRPC (fun view => bufferToString view 0 view.byteLength) addStream context buffer

end Decode

end Neemata.Protocol.JsonCodec
