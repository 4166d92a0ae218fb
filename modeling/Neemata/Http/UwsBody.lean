import Neemata.Lib.Trace

/-!
# Response bodies on uWS

`handleFixedLengthStream` and `handleChunkedStream` of `transports/src/http-server/node.ts`. An
event is a result of the read that is pending, a drain event of the native response, or its abort;
what the pump does until it waits again is one step. Of the bytes it is given the native response
takes a prefix, and it reports backpressure unless it takes them all.
-/

namespace Neemata.Http.UwsBody

/-- What the native response does with the bytes of the step. -/
structure Answer where
  taken : Nat
  ok : Bool
deriving DecidableEq

def Answer.accepts (answer : Answer) (bytes : List UInt8) : Bool :=
  answer.ok && bytes.length ≤ answer.taken

inductive BodyEvent where
  /-- The read that is pending gives a chunk. -/
  | chunk (value : List UInt8) (answer : Answer)
  | done
  | failed
  | drain (answer : Answer)
  | abort
deriving DecidableEq

/-- A response, with handlers of type `H` for its drain events. -/
structure UwsResponse (H : Type) where
  aborted : Bool := false
  wire : List UInt8 := []
  ended : Bool := false
  closed : Bool := false
  handler : Option H := none
  /-- What was on the wire when the response was aborted. -/
  atAbort : Option (List UInt8) := none
deriving DecidableEq

namespace UwsResponse

variable {H : Type} (res : UwsResponse H)

/-- `write` and `tryEnd` -/
def put (bytes : List UInt8) (answer : Answer) : UwsResponse H :=
  { res with wire := res.wire ++ bytes.take answer.taken }

/-- Only the first registration is honoured. -/
def onWritable (handler : H) : UwsResponse H :=
  { res with handler := some (res.handler.getD handler) }

/-- `close`, unless the response is aborted. -/
def close : UwsResponse H := { res with closed := res.closed || !res.aborted }

/-- `end`, unless the response is aborted. -/
def finish : UwsResponse H := { res with ended := res.ended || !res.aborted }

def abort : UwsResponse H := { res with aborted := true, atAbort := some res.wire }

/-- The response when its body begins. -/
def initial (H : Type) (aborted : Bool) : UwsResponse H := if aborted then abort {} else {}

end UwsResponse

/-! ## `handleFixedLengthStream` -/

/-- A call of `handleFixedChunk`, with the number of its promise. -/
structure FixedChunk where
  chunk : List UInt8
  chunkOffset : Nat
  promise : Nat
deriving DecidableEq

/-- `relativeOffset > 0 ? chunk.subarray(relativeOffset) : chunk` -/
def FixedChunk.remaining (c : FixedChunk) (offset : Nat) : List UInt8 :=
  if c.chunkOffset < offset then c.chunk.drop (offset - c.chunkOffset) else c.chunk

inductive FixedPump where
  | reading
  /-- The promise of `handleFixedChunk` is awaited. -/
  | awaiting (c : FixedChunk)
  | settled
deriving DecidableEq

structure FixedStream where
  res : UwsResponse FixedChunk := {}
  pump : FixedPump := .reading
  /-- The bytes that have been read. -/
  given : List UInt8 := []
  /-- How often `handleFixedChunk` has been called. -/
  chunks : Nat := 0
deriving DecidableEq

namespace FixedStream

/-- The loop goes on to the next read or is left. -/
def loop (s : FixedStream) (responded : Bool) : FixedStream :=
  if responded then { s with pump := .settled }
  else if s.res.aborted then { s with pump := .settled }
  else { s with pump := .reading }

/-- The loop is left without a full response. -/
def fail (s : FixedStream) : FixedStream := { s with pump := .settled, res := s.res.close }

def start (totalSize : Nat) (aborted : Bool) : FixedStream :=
  if totalSize = 0 then { res := (UwsResponse.initial _ aborted).finish, pump := .settled }
  else loop { res := .initial _ aborted } false

variable (totalSize : Nat)

/-- `write` of `handleFixedChunk` -/
def write (s : FixedStream) (c : FixedChunk) (offset : Nat) (answer : Answer) : FixedStream :=
  if s.res.aborted then if s.pump = .awaiting c then s.fail else s
  else
    let remaining := c.remaining offset
    let res := s.res.put remaining answer
    let ok := answer.accepts remaining
    let done := decide (res.wire.length = totalSize)
    let s := { s with res := { res with ended := res.ended || done } }
    if done || ok then if s.pump = .awaiting c then s.loop done else s
    else { s with res := s.res.onWritable c }

def step (s : FixedStream) : BodyEvent → FixedStream
  | .chunk value answer =>
    if s.pump = .reading then
      let s := { s with given := s.given ++ value }
      if value = [] then s.loop false
      else
        let c := { chunk := value, chunkOffset := s.res.wire.length, promise := s.chunks }
        write totalSize { s with pump := .awaiting c, chunks := s.chunks + 1 } c c.chunkOffset
          answer
    else s
  | .done | .failed => if s.pump = .reading then s.fail else s
  | .drain answer =>
    match s.res.handler with
    | none => s
    | some c => write totalSize s c s.res.wire.length answer
  | .abort => if s.res.aborted then s else { s with res := s.res.abort }

end FixedStream

/-! ## `handleChunkedStream` -/

inductive ChunkedPump where
  | reading
  /-- The promise of `waitWritable` is awaited. -/
  | waiting
  | settled
deriving DecidableEq

/-- The handler of drain events is the one that calls `wakeWritable`. -/
structure ChunkedStream where
  res : UwsResponse Unit := {}
  wakeWritable : Bool := false
  cancelBody : Bool := true
  pump : ChunkedPump := .reading
  given : List UInt8 := []
deriving DecidableEq

namespace ChunkedStream

/-- `finally` -/
def settle (s : ChunkedStream) : ChunkedStream :=
  { s with pump := .settled, cancelBody := false }

def loop (s : ChunkedStream) : ChunkedStream :=
  if s.res.aborted then s.settle else { s with pump := .reading }

def start (aborted : Bool) : ChunkedStream := loop { res := .initial _ aborted }

def waitWritable (s : ChunkedStream) : ChunkedStream :=
  { s with res := s.res.onWritable (), wakeWritable := true, pump := .waiting }

/-- `wakeWritable?.()` -/
def wake (s : ChunkedStream) : ChunkedStream :=
  if s.wakeWritable then
    let s := { s with wakeWritable := false }
    if s.res.aborted then s.settle else s.loop
  else s

/-- `cancelBody?.()`, by which a read that is pending ends. -/
def cancel (s : ChunkedStream) : ChunkedStream :=
  if s.cancelBody && s.pump = .reading then { s.settle with res := s.res.finish } else s

def step (s : ChunkedStream) : BodyEvent → ChunkedStream
  | .chunk value answer =>
    if s.pump = .reading then
      let s := { s with given := s.given ++ value }
      if value = [] then s.loop
      else
        let s := { s with res := s.res.put value answer }
        if answer.accepts value then s.loop else s.waitWritable
    else s
  | .done => if s.pump = .reading then { s.settle with res := s.res.finish } else s
  | .failed => if s.pump = .reading then { s.settle with res := s.res.close } else s
  | .drain _ =>
    match s.res.handler with
    | none => s
    | some () => s.wake
  | .abort =>
    if s.res.aborted then s else (wake { s with res := s.res.abort }).cancel

end ChunkedStream

end Neemata.Http.UwsBody
