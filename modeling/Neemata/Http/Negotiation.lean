import Neemata.Lib.ArraySort
import Neemata.Lib.Binary64
import Neemata.Lib.CodeUnits
import Mathlib.Order.WithBot

/-!
# Codec negotiation

`parseContentTypes` and `ProtocolCodecRegistry` of `protocol/src/server/codec.ts`, `negotiateCodecs`
of `utils.ts`, and what `NeemataHttpHandler.handle` asks of them for a request. `MIMEType` is a
parameter, and so is the order that `sort` leaves open.
-/

namespace Neemata.Binary64.Double

/-- Where a double stands in the order of the doubles that are numbers. -/
def level : Double → WithBot (WithTop ℚ)
  | .finite x => ((x : WithTop ℚ) : WithBot (WithTop ℚ))
  | .infinite true => ⊥
  | .infinite false => ((⊤ : WithTop ℚ) : WithBot (WithTop ℚ))
  | .nan => ⊥

/-- The sign of a comparator that returns `x - y`. The difference of two doubles is zero, or no
number, only where they are the same double or one of them is no number. -/
def compareDifference (x y : Double) : Ordering :=
  if x = .nan ∨ y = .nan then .eq
  else if x.level < y.level then .lt
  else if y.level < x.level then .gt
  else .eq

/-- `0 < x` -/
def Positive (x : Double) : Prop := x ≠ .nan ∧ (Double.finite 0).level < x.level

instance Positive.decidable (x : Double) : Decidable x.Positive := by
  unfold Positive; infer_instance

end Neemata.Binary64.Double

namespace Neemata.Http

open CodeUnits Binary64

/-! ## `Number.parseFloat` -/

def isDigit (u : UInt16) : Bool := 48 ≤ u && u ≤ 57

def digitsValue (digits : Text) : Nat := digits.foldl (fun n u => n * 10 + (u.toNat - 48)) 0

/-- The sign at the head, and what stands after it. -/
def signed : Text → Bool × Text
  | 45 :: rest => (true, rest)
  | 43 :: rest => (false, rest)
  | text => (false, text)

/-- The exponent at the head; a text that is none counts as zero. -/
def exponentPart : Text → Int
  | u :: rest =>
    if u = unit 'e' ∨ u = unit 'E' then
      let digits := (signed rest).2.takeWhile isDigit
      if (signed rest).1 then -digitsValue digits else digitsValue digits
    else 0
  | [] => 0

/-- The longest decimal literal at the head. -/
def decimalPrefix (text : Text) : Option ℚ :=
  let whole := text.takeWhile isDigit
  let afterWhole := text.dropWhile isDigit
  let pointed := afterWhole.head? = some (unit '.')
  let fraction := if pointed then afterWhole.tail.takeWhile isDigit else []
  let afterFraction := if pointed then afterWhole.tail.dropWhile isDigit else afterWhole
  if whole = [] ∧ fraction = [] then none
  else some (digitsValue (whole ++ fraction) * 10 ^ (exponentPart afterFraction - fraction.length))

def parseFloat (text : Text) : Double :=
  let (negative, rest) := signed (text.dropWhile isSpace)
  if units "Infinity" <+: rest then .infinite negative
  else match decimalPrefix rest with
    | none => .nan
    | some x => .round (if negative then -x else x)

/-! ## `parseContentTypes` -/

/-- What is read of a `MIMEType`. -/
structure MimeType where
  essence : Text
  /-- `params.get('q')` -/
  q : Option Text

/-- `new MIMEType(t)`, `none` where it throws. -/
structure MimeParser where
  parse : Text → Option MimeType
  parse_nil : parse [] = none

structure ContentTypeEntry where
  type : Text
  q : Double
deriving DecidableEq

def anyType : Text := units "*/*"

def contentTypeEntry (mime : MimeType) : ContentTypeEntry where
  type := mime.essence
  q := parseFloat (mime.q.getD (units "1"))

/-- The comparator. -/
def compareEntries (a b : ContentTypeEntry) : Ordering :=
  if a.type = anyType then .gt
  else if b.type = anyType then .lt
  else b.q.compareDifference a.q

/-- The parts between the commas. -/
def parts (types : Text) : List Text := ((trim types).splitOn (unit ',')).map trim

section

variable (mimeType : MimeParser) (sort : ArraySort ContentTypeEntry)

/-- `none` where it throws. -/
def parseContentTypes (types : Text) : Option (List Text) :=
  if trim types = anyType then some [anyType]
  else ((parts types).mapM fun t => (mimeType.parse t).map contentTypeEntry).map fun entries =>
    (sort.sort compareEntries entries).map ContentTypeEntry.type

end

/-! ## `ProtocolCodecRegistry` -/

inductive Pattern where
  | text (pattern : Text)
  /-- A regular expression or a function, which a map knows by its reference. -/
  | test (reference : Nat) (accepts : Text → Bool)

/-- Whether a map takes them for one key. -/
def Pattern.same : Pattern → Pattern → Bool
  | .text p, .text q => p == q
  | .test m _, .test n _ => m == n
  | _, _ => false

/-- `match` of `common/src/utils.ts` -/
def matchPattern (value : Text) : Pattern → Bool
  | .test _ accepts => accepts value
  | .text pattern =>
    if pattern = units "*" ∨ pattern = units "**" then true
    else if pattern.head? = some (unit '*') ∧ pattern.getLast? = some (unit '*') then
      (firstIndex (pattern.tail.dropLast) value).isSome
    else if pattern.getLast? = some (unit '*') then pattern.dropLast.isPrefixOf value
    else if pattern.head? = some (unit '*') then pattern.tail.isSuffixOf value
    else value == pattern

structure ProtocolError where
  code : Text
  message : Option Text
deriving DecidableEq

/-- What is thrown while a request is handled. -/
inductive Thrown where
  | payloadTooLarge
  | unsupportedContentType
  | unsupportedAcceptType
  | protocol (error : ProtocolError)
  /-- `MIMEType` throws. -/
  | invalidMimeType
  /-- `headers.set` throws, or the constructor of the response does. -/
  | invalidResponse
  | other
deriving DecidableEq

/-- What a codec is given to encode. -/
inductive Encodable (ν : Type) where
  | value (value : ν)
  | error (error : ProtocolError)

structure Codec (ν : Type) where
  contentType : Text
  accept : List Pattern
  encode : Encodable ν → Except Thrown (List UInt8)
  decode : List UInt8 → Except Thrown ν

variable {ν : Type}

/-- A `Map` keyed by patterns. -/
abbrev CodecMap (ν : Type) := List (Pattern × Codec ν)

def CodecMap.set (map : CodecMap ν) (key : Pattern) (codec : Codec ν) : CodecMap ν :=
  if map.any fun entry => key.same entry.1 then
    map.map fun entry => if key.same entry.1 then (entry.1, codec) else entry
  else map ++ [(key, codec)]

structure ProtocolCodecRegistry (ν : Type) where
  decoders : CodecMap ν
  encoders : CodecMap ν
  default : Codec ν

namespace ProtocolCodecRegistry

/-- The constructor's loop, for one codec. -/
def add (registry : ProtocolCodecRegistry ν) (codec : Codec ν) : ProtocolCodecRegistry ν :=
  { registry with
    encoders := registry.encoders.set (.text codec.contentType) codec
    decoders := codec.accept.foldl (fun map key => map.set key codec) registry.decoders }

def new (first : Codec ν) (others : List (Codec ν)) : ProtocolCodecRegistry ν :=
  (first :: others).foldl add { decoders := [], encoders := [], default := first }

end ProtocolCodecRegistry

section

variable (mimeType : MimeParser) (sort : ArraySort ContentTypeEntry)

/-- The first codec whose pattern the type matches. -/
def codecFor (codecs : CodecMap ν) (type : Text) : Option (Codec ν) :=
  (codecs.find? fun entry => type = anyType || matchPattern type entry.1).map Prod.snd

/-- `supports`; nobody asks it to throw where there is no codec. -/
def supports (codecs : CodecMap ν) (contentType : Text) : Except Thrown (Option (Codec ν)) :=
  match parseContentTypes mimeType sort contentType with
  | none => .error .invalidMimeType
  | some types => .ok (types.findSome? (codecFor codecs))

variable (registry : ProtocolCodecRegistry ν)

def supportsDecoder (contentType : Text) : Except Thrown (Option (Codec ν)) :=
  supports mimeType sort registry.decoders contentType

def supportsEncoder (contentType : Text) : Except Thrown (Option (Codec ν)) :=
  supports mimeType sort registry.encoders contentType

structure Codecs (ν : Type) where
  encoder : Codec ν
  decoder : Codec ν

def negotiateCodecs (accept contentType : Text) : Except Thrown (Codecs ν) := do
  let encoder ← if accept = [] then pure none else supportsEncoder mimeType sort registry accept
  match encoder with
  | none => throw .unsupportedAcceptType
  | some encoder =>
    let decoder ←
      if contentType = [] then pure none else supportsDecoder mimeType sort registry contentType
    match decoder with
    | none => throw .unsupportedContentType
    | some decoder => pure { encoder, decoder }

/-- What `handle` reads of a request for the negotiation. -/
structure NegotiationRequest where
  /-- The method is not GET. -/
  canHaveBody : Bool
  hasBody : Bool
  isBlob : Bool
  contentType : Option Text
  accept : Option Text

variable (request : NegotiationRequest)

/-- `request.headers.get('accept') || '*/*'` -/
def NegotiationRequest.acceptTypes : Text :=
  match request.accept with
  | none | some [] => anyType
  | some accept => accept

def negotiableAccept : Except Thrown Text :=
  if request.canHaveBody then .ok request.acceptTypes
  else do
    let encoder ← supportsEncoder mimeType sort registry request.acceptTypes
    pure (if encoder.isSome then request.acceptTypes else anyType)

def decodable : Except Thrown Bool :=
  match request.isBlob, request.contentType with
  | false, some contentType => do
    let decoder ← supportsDecoder mimeType sort registry contentType
    pure decoder.isSome
  | _, _ => .ok false

/-- The negotiation of `handle`. What is thrown by the last line is caught if it is a
`CodecNegotiationError`. -/
def negotiate : Except Thrown (Codecs ν) := do
  let accept ← negotiableAccept mimeType sort registry request
  let decodable ← decodable mimeType sort registry request
  negotiateCodecs mimeType sort registry accept
    (if decodable then request.contentType.getD anyType else anyType)

/-- Whether a body is passed through as a blob. -/
def passesBlob : Except Thrown Bool := do
  let cannotDecode ← match request.contentType with
    | none | some [] => pure true
    | some contentType => do
      let decoder ← supportsDecoder mimeType sort registry contentType
      pure decoder.isNone
  pure (request.isBlob || cannotDecode)

end

end Neemata.Http
