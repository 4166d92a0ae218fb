import Neemata.JsonRpc.Concurrency
import Neemata.Lib.Stringify

/-!
# The JSON-RPC handler

`JsonRpcHandler` of `transports/src/json-rpc/server.ts` from the parsed envelope on. Of a procedure
there is what `resolve` and `onRpc` come to. A value is what `JSON.stringify` makes of it, which for
a `bigint`, a cycle or a `toJSON` that throws is an error.
-/

namespace Neemata.JsonRpc

open Json (JsChar JsString Number Value ofString)

/-- A JavaScript value, as far as it goes into a response. -/
inductive Payload where
  | value (v : JsValue)
  /-- `JSON.stringify` throws on it. -/
  | unserializable

/-- What a procedure returns. -/
inductive Returned where
  | payload (p : Payload)
  /-- A `Response`, a `ProtocolBlob` or an async iterable. -/
  | stream

/-- What is thrown: a `ProtocolError`, or anything else. -/
inductive Thrown where
  | protocol (code message : JsString) (data : Payload)
  | other

/-- What `resolve` and `onRpc` come to: whether the procedure is a stream route, and its result. -/
structure Behaviour where
  resolve : Except Thrown Bool
  onRpc : Except Thrown Returned

/-! ## Errors -/

inductive JsonRpcErrorCode where
  | ParseError | InvalidRequest | MethodNotFound | InvalidParams | InternalError | Unauthorized
  | Forbidden | NotAcceptable | RequestTimeout | GatewayTimeout | ServiceUnavailable
  | ClientRequestError | ConnectionError
deriving DecidableEq

def JsonRpcErrorCode.text : JsonRpcErrorCode → List Char
  | .ParseError => "-32700".toList
  | .InvalidRequest => "-32600".toList
  | .MethodNotFound => "-32601".toList
  | .InvalidParams => "-32602".toList
  | .InternalError => "-32603".toList
  | .Unauthorized => "-32001".toList
  | .Forbidden => "-32002".toList
  | .NotAcceptable => "-32003".toList
  | .RequestTimeout => "-32004".toList
  | .GatewayTimeout => "-32005".toList
  | .ServiceUnavailable => "-32006".toList
  | .ClientRequestError => "-32007".toList
  | .ConnectionError => "-32008".toList

def JsonRpcErrorCode.number (code : JsonRpcErrorCode) : Number where
  text := code.text
  ne_nil := by cases code <;> decide
  numeral := by cases code <;> decide

def ProtocolToJsonRpcCode : List (JsString × JsonRpcErrorCode) :=
  [(ofString "ValidationError", .InvalidParams), (ofString "BadRequest", .InvalidRequest),
    (ofString "NotFound", .MethodNotFound), (ofString "InternalServerError", .InternalError),
    (ofString "Unauthorized", .Unauthorized), (ofString "Forbidden", .Forbidden),
    (ofString "NotAcceptable", .NotAcceptable), (ofString "RequestTimeout", .RequestTimeout),
    (ofString "GatewayTimeout", .GatewayTimeout),
    (ofString "ServiceUnavailable", .ServiceUnavailable),
    (ofString "ClientRequestError", .ClientRequestError),
    (ofString "ConnectionError", .ConnectionError)]

/-- What a plain object has a code from `Object.prototype` for: its functions and itself. -/
def inherited (code : JsString) : Option JsValue :=
  if code = ofString "__proto__" then some (.obj [])
  else if ["constructor", "hasOwnProperty", "isPrototypeOf", "propertyIsEnumerable",
      "toLocaleString", "toString", "valueOf", "__defineGetter__", "__defineSetter__",
      "__lookupGetter__", "__lookupSetter__"].any fun name => ofString name = code then
    some (.func 0)
  else none

def JsonRpcErrorCode.toJs (code : JsonRpcErrorCode) : JsValue := .num (.finite code.number)

/-- `ProtocolToJsonRpcCode[code] ?? JsonRpcErrorCode.InternalError` -/
def jsonRpcCode (code : JsString) : JsValue :=
  match ProtocolToJsonRpcCode.lookup code with
  | some number => number.toJs
  | none => (inherited code).getD JsonRpcErrorCode.InternalError.toJs

/-- The `data` of a mapped error: the code, and the data of the error unless that is `undefined`. -/
structure ErrorData where
  code : JsString
  data : Option Payload

structure JsonRpcErrorObject where
  code : JsValue
  message : JsString
  data : Option ErrorData := none

def mapError : Thrown → JsonRpcErrorObject
  | .protocol code message data =>
    { code := jsonRpcCode code
      message := if message = [] then code else message
      data := some ⟨code, match data with
        | .value .undefined => none
        | data => some data⟩ }
  | .other =>
    { code := JsonRpcErrorCode.InternalError.toJs, message := ofString "Internal error" }

/-! ## Entries -/

inductive JsonRpcId where
  | null
  | str (s : JsString)
  | num (n : JsNumber)
deriving DecidableEq

inductive Body where
  | result (p : Payload)
  | error (error : JsonRpcErrorObject)

structure JsonRpcResponse where
  id : JsonRpcId
  body : Body

def invalidRequest (id : JsonRpcId) (message : JsString) : JsonRpcResponse :=
  ⟨id, .error { code := JsonRpcErrorCode.InvalidRequest.toJs, message }⟩

def invalidRequestMessage : JsString := ofString "Invalid Request"

inductive ValidatedEntry where
  | error (response : JsonRpcResponse)
  | valid (id : JsonRpcId) (method : JsString) (params : JsValue) (notification : Bool)

/-- `typeof value === 'object'`, for a value that is not `null`. -/
def isObject : JsValue → Bool
  | .arr _ | .obj _ | .exotic _ _ => true
  | _ => false

/-- `typeof entry.id` is one of those that an id may have. -/
def readId : JsValue → Option JsonRpcId
  | .null => some .null
  | .str s => some (.str s)
  | .num n => some (.num n)
  | _ => none

def isVersion : JsValue → Bool
  | .str s => s = ofString "2.0"
  | _ => false

def isUndefined : JsValue → Bool
  | .undefined => true
  | _ => false

/-- `validateEntry`, for an entry that is an object. -/
def validateObject (entries : List (JsString × JsValue)) : ValidatedEntry :=
  let jsonrpc := JsValue.property entries (ofString "jsonrpc")
  let method := JsValue.property entries (ofString "method")
  let params := JsValue.property entries (ofString "params")
  let notification := !entries.any fun entry => entry.1 = ofString "id"
  let rawId := if notification then .null else JsValue.property entries (ofString "id")
  match readId rawId with
  | none => .error (invalidRequest .null (ofString "Invalid id"))
  | some id =>
    if isVersion jsonrpc then
      match method with
      | .str method =>
        if !isUndefined params && !isObject params then
          .error ⟨if notification then .null else id, .error {
            code := JsonRpcErrorCode.InvalidParams.toJs
            message := ofString "Params must be a structured value" }⟩
        else .valid id method params notification
      | _ => .error (invalidRequest (if notification then .null else id) invalidRequestMessage)
    else .error (invalidRequest (if notification then .null else id) invalidRequestMessage)

def validateEntry (entry : JsValue) : ValidatedEntry :=
  match entry.entries? with
  | some entries => validateObject entries
  | none => .error (invalidRequest .null invalidRequestMessage)

/-! ## The selection of a procedure -/

def isSegmentChar : JsChar → Bool
  | .scalar c => c.isAlphanum && c.toNat < 128 || c = '-'
  | .surrogate _ => false

/-- `JSON_RPC_METHOD_PATTERN` -/
def isMethod (method : JsString) : Bool :=
  (method.splitOn (.scalar '.')).all fun segment => !segment.isEmpty && segment.all isSegmentChar

def matchesPattern (pattern name : JsString) : Bool :=
  if pattern = ofString "*" then true
  else if (ofString "/*").isSuffixOf pattern then pattern.dropLast.isPrefixOf name
  else pattern = name

structure JsonRpcHandler where
  maxBatchSize : Nat
  include? : Option (List JsString)
  exclude? : Option (List JsString)

def notFound : Thrown := .protocol (ofString "NotFound") [] (.value .undefined)

variable (handler : JsonRpcHandler)

def selectProcedure (method : JsString) : Except Thrown JsString :=
  let name := method.map fun c => if c = .scalar '.' then .scalar '/' else c
  if !isMethod method then throw notFound
  else if handler.include?.any fun patterns => !patterns.any fun p => matchesPattern p name then
    throw notFound
  else if handler.exclude?.any fun patterns => patterns.any fun p => matchesPattern p name then
    throw notFound
  else return name

/-! ## Running an entry -/

/-- The `try` of `runEntry`. -/
def execute (method : JsString) (behaviour : Behaviour) : Except Thrown Returned := do
  let _ ← selectProcedure handler method
  let stream ← behaviour.resolve
  if stream then throw notFound
  behaviour.onRpc

def respondTo (id : JsonRpcId) : Except Thrown Returned → JsonRpcResponse
  | .ok .stream => ⟨id, .error {
      code := JsonRpcErrorCode.InternalError.toJs
      message := ofString "Result is not representable in JSON-RPC" }⟩
  | .ok (.payload (.value .undefined)) => ⟨id, .result (.value .null)⟩
  | .ok (.payload p) => ⟨id, .result p⟩
  | .error error => ⟨id, .error (mapError error)⟩

def runEntry (entry : JsValue) (behaviour : Behaviour) : Option JsonRpcResponse :=
  match validateEntry entry with
  | .error response => some response
  | .valid id method _ notification =>
    if notification then none else some (respondTo id (execute handler method behaviour))

/-! ## Answers -/

def Payload.toJs : Payload → Option JsValue
  | .value v => some v
  | .unserializable => none

def JsonRpcId.toJs : JsonRpcId → JsValue
  | .null => .null
  | .str s => .str s
  | .num n => .num n

def ErrorData.toJs (d : ErrorData) : Option JsValue :=
  match d.data with
  | none => some (.obj [(ofString "code", .str d.code)])
  | some p => p.toJs.map fun v => .obj [(ofString "code", .str d.code), (ofString "data", v)]

def JsonRpcErrorObject.toJs (e : JsonRpcErrorObject) : Option JsValue :=
  let entries :=
    [(ofString "code", e.code), (ofString "message", .str e.message)]
  match e.data with
  | none => some (.obj entries)
  | some d => d.toJs.map fun v => .obj (entries ++ [(ofString "data", v)])

def Body.toJs : Body → Option (JsString × JsValue)
  | .result p => p.toJs.map fun v => (ofString "result", v)
  | .error e => e.toJs.map fun v => (ofString "error", v)

/-- The response as an object; nothing, if there is something in it that `JSON.stringify` throws
on. -/
def JsonRpcResponse.toJs (r : JsonRpcResponse) : Option JsValue :=
  r.body.toJs.map fun body =>
    .obj [(ofString "jsonrpc", .str (ofString "2.0")), (ofString "id", r.id.toJs), body]

inductive Answer where
  | empty (status : Nat)
  | json (text : List Char)
  /-- `handle` rejects. -/
  | rejects
deriving DecidableEq

/-- `respond` -/
def respond (payload : Option JsValue) : Answer :=
  match payload.bind JsValue.image with
  | some v => .json (Json.stringify v)
  | none => .rejects

def BATCH_CONCURRENCY : Nat := 10

/-- The end of a batch that is within the limit. -/
def answerBatch (results : List (Option JsonRpcResponse)) : Answer :=
  let responses := results.filterMap id
  if responses.isEmpty then .empty 204
  else respond ((responses.mapM JsonRpcResponse.toJs).map .arr)

/-- A batch that is not within the limits is answered at once. -/
def rejectBatch (entries : List JsValue) : Option Answer :=
  if entries.isEmpty then
    some (respond (invalidRequest .null (ofString "Empty batch")).toJs)
  else if handler.maxBatchSize < entries.length then
    some (respond (invalidRequest .null (ofString "Batch size exceeds the limit of " ++
      Json.ofText (Nat.toDigits 10 handler.maxBatchSize))).toJs)
  else none

def answerEntry (entry : JsValue) (behaviour : Behaviour) : Answer :=
  match runEntry handler entry behaviour with
  | none => .empty 204
  | some response => respond response.toJs

/-- The `task` of a batch. -/
def entryTask (entries : List JsValue) (behaviours : Nat → Behaviour) (i : Nat) :
    Option JsonRpcResponse :=
  (entries[i]?).bind fun entry => runEntry handler entry (behaviours i)

/-- The workers of a batch after the tasks of some entries have ended. -/
def runBatch (entries : List JsValue) (behaviours : Nat → Behaviour) (ended : List Nat) :
    Workers (Option JsonRpcResponse) :=
  Trace.run (Workers.finish (entryTask handler entries behaviours))
    (Workers.start BATCH_CONCURRENCY entries.length) ended

/-- `handle` from the parsed envelope on, if the tasks of a batch end in the order given. -/
def handle (envelope : JsValue) (behaviours : Nat → Behaviour) (ended : List Nat) : Answer :=
  match envelope with
  | .arr entries =>
    match rejectBatch handler entries with
    | some answer => answer
    | none => answerBatch ((runBatch handler entries behaviours ended).results.map Option.join)
  | entry => answerEntry handler entry (behaviours 0)

end Neemata.JsonRpc
