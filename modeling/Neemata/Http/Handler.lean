import Neemata.Http.Cors

/-!
# The request handler

`NeemataHttpHandler.handle` of `transports/src/neemata/http/server.ts`. Its response headers are one
object that the procedure has too (`httpResponseHeaders`), that the `try` block changes as it goes
and that the `catch` block goes on with; so the block gives its headers back with its outcome. What
the gateway does with the request is a parameter.
-/

namespace Neemata.Http

open CodeUnits

variable {ν : Type}

/-! ## Requests and responses -/

structure HttpRequest where
  /-- In lower case. -/
  method : Text
  procedure : Text
  origin : Option HeaderValue
  isBlob : Bool
  contentType : Option Text
  accept : Option Text
  contentLength : Option Text
  /-- The chunks of the body, and what reading it ends with. -/
  body : Option (List (List UInt8) × Except Thrown Unit)
  /-- `url.searchParams.get('payload')` -/
  payload : Option Text

inductive ResponseBody where
  | empty
  | text (text : Text)
  | bytes (bytes : List UInt8)
  | stream

structure HttpResponse where
  status : Nat
  statusText : Text
  headers : Headers
  body : ResponseBody

/-- `HttpStatusText` -/
def httpStatusText (status : Nat) : Text :=
  units (match status with
    | 200 => "OK"
    | 400 => "Bad Request"
    | 401 => "Unauthorized"
    | 403 => "Forbidden"
    | 404 => "Not Found"
    | 406 => "Not Acceptable"
    | 408 => "Request Timeout"
    | 413 => "Payload Too Large"
    | 415 => "Unsupported Media Type"
    | 503 => "Service Unavailable"
    | 504 => "Gateway Timeout"
    | _ => "Internal Server Error")

/-- `HttpCodeMap`, and 500 for any other code. -/
def httpStatusOf (code : Text) : Nat :=
  if code = units "ValidationError" ∨ code = units "BadRequest" ∨
      code = units "ClientRequestError" then 400
  else if code = units "NotFound" then 404
  else if code = units "Forbidden" then 403
  else if code = units "Unauthorized" then 401
  else if code = units "NotAcceptable" ∨ code = units "ConnectionError" then 406
  else if code = units "RequestTimeout" then 408
  else if code = units "GatewayTimeout" then 504
  else if code = units "ServiceUnavailable" then 503
  else 500

/-! ## The gateway -/

inductive RpcPayload (ν : Type) where
  | none
  | blob (size : Option Int) (type : Text)
  | value (value : ν)

/-- A call of the procedure on the response headers. -/
inductive HeaderEdit where
  | set (name : Text) (value : HeaderValue)
  | append (name : Text) (value : HeaderValue)
  | delete (name : Text)

def HeaderEdit.apply (headers : Headers) : HeaderEdit → Headers
  | .set name value => headers.set name value
  | .append name value => headers.append name value
  | .delete name => headers.delete name

inductive RpcResult (ν : Type) where
  /-- A `Response`, with the headers that `forEach` goes through. -/
  | response (status : Nat) (statusText : Text) (headers : List (Text × HeaderValue))
  | blob (type : Text) (size : Option Nat) (filename : Option Text) (readable : Bool)
  | stream
  | void
  | value (value : ν)

structure HttpGateway (ν : Type) where
  /-- What `onConnect` throws. -/
  connect : Option Thrown
  /-- The allowed methods of the procedure, if it has any. -/
  resolve : Text → Except Thrown (Option (List Text))
  parseJson : Text → Option ν
  /-- What the procedure does to the response headers, and what it comes to. -/
  onRpc : RpcPayload ν → List HeaderEdit × Except Thrown (RpcResult ν)
  /-- What the disposal of the connection throws. -/
  dispose : Option Thrown

structure HttpHandler (ν : Type) where
  cors : Option (CorsOptions HttpRequest)
  maxRequestBodySize : Nat
  codecs : ProtocolCodecRegistry ν
  mimeType : MimeParser
  sort : ArraySort ContentTypeEntry

/-! ## The payload -/

/-- `Number.parseInt(text, 10)`, `none` where it is no number. -/
def parseInt10 (text : Text) : Option Int :=
  let (negative, rest) := signed (text.dropWhile isSpace)
  let digits := rest.takeWhile isDigit
  if digits = [] then none
  else some (if negative then -digitsValue digits else digitsValue digits)

namespace HttpHandler

variable (handler : HttpHandler ν) (gateway : HttpGateway ν) (request : HttpRequest)

def canHaveBody (request : HttpRequest) : Bool := request.method != units "get"

def negotiation (request : HttpRequest) : NegotiationRequest where
  canHaveBody := canHaveBody request
  hasBody := request.body.isSome
  isBlob := request.isBlob
  contentType := request.contentType
  accept := request.accept

/-- The bytes of the body, up to the limit. -/
def readBody (chunks : List (List UInt8)) (ending : Except Thrown Unit) (received : Nat) :
    Except Thrown (List UInt8) :=
  match chunks with
  | [] => ending.map fun _ => []
  | chunk :: chunks =>
    if received + chunk.length > handler.maxRequestBodySize then .error .payloadTooLarge
    else (readBody chunks ending (received + chunk.length)).map (chunk ++ ·)

def blobPayload : Except Thrown (RpcPayload ν) :=
  let type := match request.contentType with
    | none | some [] => units "application/octet-stream"
    | some type => type
  let size := match request.contentLength with
    | none | some [] => none
    | some length => parseInt10 length
  match size with
  | none => .ok (.blob none type)
  | some size =>
    if size > handler.maxRequestBodySize then .error .payloadTooLarge
    else .ok (.blob (some size) type)

def readPayload (decoder : Codec ν) : Except Thrown (RpcPayload ν) :=
  match canHaveBody request, request.body with
  | true, some (chunks, ending) => do
    let blob ← passesBlob handler.mimeType handler.sort handler.codecs (negotiation request)
    if blob then handler.blobPayload request
    else do
      let bytes ← handler.readBody chunks ending 0
      if bytes = [] then pure .none
      else do
        let value ← decoder.decode bytes
        pure (.value value)
  | _, _ =>
    match request.payload with
    | none | some [] => .ok .none
    | some querystring =>
      match gateway.parseJson querystring with
      | some value => .ok (.value value)
      | none => .error (.protocol ⟨units "BadRequest", some (units "Invalid payload")⟩)

/-- What comes before the call of the procedure. -/
def prepare (decoder : Codec ν) : Except Thrown (RpcPayload ν) := do
  let allowed ← gateway.resolve request.procedure
  if (allowed.getD [units "post"]).contains request.method then
    handler.readPayload gateway request decoder
  else .error (.protocol ⟨units "NotFound", none⟩)

/-! ## The response -/

/-- `headers.set` for each in turn, up to the first that throws. -/
def setAll (headers : Headers) : List (Text × Text) → Headers × Except Thrown Unit
  | [] => (headers, .ok ())
  | (name, text) :: rest =>
    match setHeader headers name text with
    | .error thrown => (headers, .error thrown)
    | .ok headers => setAll headers rest

/-- The response with the headers as they are then. -/
def ended (outcome : Headers × Except Thrown Unit) (status : Nat) (body : ResponseBody) :
    Headers × Except Thrown HttpResponse :=
  (outcome.1, outcome.2.map fun _ =>
    { status, statusText := httpStatusText status, headers := outcome.1, body })

def varyName : Text := units "vary"

def merge (headers : Headers) (entry : Text × HeaderValue) : Headers :=
  if entry.1 = varyName then headers.append entry.1 entry.2
  else headers.set entry.1 entry.2

def blobHeaders (type : Text) (size : Option Nat) (filename : Option Text) : List (Text × Text) :=
  [(units "x-neemata-blob", units "true"), (units "content-type", type)] ++
    (match size with
      | some size => [(units "content-length", units (toString size))]
      | none => []) ++
    match filename with
    | none | some [] => []
    | some filename =>
      [(units "content-disposition",
        units "attachment; filename=\"" ++ filename ++ units "\"")]

def streamHeaders (encoder : Codec ν) : List (Text × Text) := [
  (units "content-type", units "text/event-stream"),
  (units "cache-control", units "no-cache, no-transform"),
  (units "x-stream-content-type", encoder.contentType),
  (units "x-accel-buffering", units "no")]

def represent (encoder : Codec ν) (headers : Headers) :
    RpcResult ν → Headers × Except Thrown HttpResponse
  | .response status statusText entries =>
    let headers := entries.foldl merge headers
    -- the constructor takes the statuses of a response only
    if 200 ≤ status ∧ status ≤ 599 then
      (headers, .ok { status, statusText, headers, body := .stream })
    else (headers, .error .invalidResponse)
  | .blob type size filename readable =>
    let outcome := setAll headers (blobHeaders type size filename)
    if readable then ended outcome 200 .stream
    else (outcome.1, outcome.2.bind fun _ => .error .other)
  | .stream => ended (setAll headers (streamHeaders encoder)) 200 .stream
  | .void => ended (setAll headers [(units "content-type", encoder.contentType)]) 200 .empty
  | .value value =>
    match encoder.encode (.value value) with
    | .error thrown => (headers, .error thrown)
    | .ok bytes =>
      ended (setAll headers [(units "content-type", encoder.contentType)]) 200 (.bytes bytes)

/-- The `try` block. -/
def attempt (codecs : Codecs ν) (headers : Headers) : Headers × Except Thrown HttpResponse :=
  match handler.prepare gateway request codecs.decoder with
  | .error thrown => (headers, .error thrown)
  | .ok payload =>
    let headers := (gateway.onRpc payload).1.foldl HeaderEdit.apply headers
    match (gateway.onRpc payload).2 with
    | .error thrown => (headers, .error thrown)
    | .ok result => represent codecs.encoder headers result

def plain (status : Nat) (headers : Headers) : HttpResponse where
  status := status
  statusText := httpStatusText status
  headers := headers
  body := .text (httpStatusText status)

def encodedError (encoder : Codec ν) (headers : Headers) (error : ProtocolError) :
    Except Thrown HttpResponse := do
  let bytes ← encoder.encode (.error error)
  let headers ← setHeader headers (units "content-type") encoder.contentType
  let status := httpStatusOf error.code
  pure { status, statusText := httpStatusText status, headers, body := .bytes bytes }

/-- The `catch` block. -/
def recover (encoder : Codec ν) (headers : Headers) : Thrown → Except Thrown HttpResponse
  | .payloadTooLarge => .ok (plain 413 headers)
  | .unsupportedContentType => .ok (plain 415 headers)
  | .unsupportedAcceptType => .ok (plain 406 headers)
  | .protocol error => encodedError encoder headers error
  | _ => encodedError encoder headers
      ⟨units "InternalServerError", some (units "Internal Server Error")⟩

/-! ## The handler -/

def originName : HeaderValue := ⟨units "Origin", by decide, by decide⟩

/-- The headers that every response begins with. -/
def firstHeaders : Except Thrown Headers :=
  let headers : Headers := ⟨[]⟩
  let headers := if handler.cors.isSome then headers.append varyName originName else headers
  match request.origin with
  | none => .ok headers
  | some origin => applyCors handler.cors origin request headers

/-- What follows the negotiation. -/
def exchange (codecs : Codecs ν) (headers : Headers) : Except Thrown HttpResponse :=
  match gateway.connect with
  | some thrown => .error thrown
  | none =>
    let (headers, outcome) := handler.attempt gateway request codecs headers
    let response := match outcome with
      | .ok response => .ok response
      | .error thrown => recover codecs.encoder headers thrown
    match gateway.dispose with
    | some thrown => .error thrown
    | none => response

def handle : Except Thrown HttpResponse :=
  match handler.firstHeaders request with
  | .error thrown => .error thrown
  | .ok headers =>
    if request.method = units "options" then
      .ok { status := 200, statusText := [], headers, body := .empty }
    else
      match negotiate handler.mimeType handler.sort handler.codecs (negotiation request) with
      | .error .unsupportedContentType => .ok (plain 415 headers)
      | .error .unsupportedAcceptType => .ok (plain 406 headers)
      | .error thrown => .error thrown
      | .ok codecs => handler.exchange gateway request codecs headers

end HttpHandler

end Neemata.Http
