import Neemata.Lib.Trace
import Mathlib.Algebra.Group.Nat.Defs

/-!
# The pump of a blob download

`ProtocolServerStream` of `server/stream.ts`. The loop of `#pump` is taken iteration by iteration:
what a sink callback calls while the loop runs are the events between two iterations.
-/

namespace Neemata.Protocol

/-- Upper bound for outstanding stream credit, `MAX_UINT32`. -/
def MAX_STREAM_CREDITS : Nat := 2 ^ 32 - 1

/-- A Node readable: what `read()` can return, chunk by chunk in object mode and all at once
otherwise. -/
structure Source where
  objectMode : Bool
  buffer : List (List UInt8)
  /-- No more data is coming. -/
  ended : Bool
  destroyed : Bool
deriving DecidableEq, Repr

/-- Whether `push` takes data. -/
def Source.takes (source : Source) : Bool := !source.ended && !source.destroyed

def Source.push (source : Source) (chunk : List UInt8) : Source :=
  if source.objectMode then { source with buffer := source.buffer ++ [chunk] }
  else if chunk = [] then source
  else { source with buffer := [source.buffer.flatten ++ chunk] }

inductive SinkCall where
  | chunk (bytes : List UInt8)
  | end
  | error
deriving DecidableEq, Repr

/-- The bytes handed to `sink.chunk`. -/
def emitted : List SinkCall → List UInt8
  | [] => []
  | .chunk bytes :: calls => bytes ++ emitted calls
  | .end :: calls | .error :: calls => emitted calls

structure ProtocolServerStream where
  credits : Int
  granted : Bool
  /-- Remainder of a source chunk larger than the credits available at the time. -/
  buffered : Option (List UInt8)
  /-- A source error that arrived before the first grant. -/
  pendingError : Bool
  sourceEnded : Bool
  finished : Bool
  pumping : Bool
  source : Source
  /-- The calls of the sink so far, the last one last. -/
  sink : List SinkCall
deriving DecidableEq, Repr

namespace ProtocolServerStream

def create (objectMode : Bool) : ProtocolServerStream where
  credits := 0
  granted := false
  buffered := none
  pendingError := false
  sourceEnded := false
  finished := false
  pumping := false
  source := ⟨objectMode, [], false, false⟩
  sink := []

def fail (s : ProtocolServerStream) : ProtocolServerStream :=
  if s.finished then s
  else { s with
    finished := true, buffered := none, pendingError := false
    source := { s.source with destroyed := true }, sink := s.sink ++ [.error] }

def finish (s : ProtocolServerStream) : ProtocolServerStream :=
  if s.finished then s else { s with finished := true, sink := s.sink ++ [.end] }

/-- `#pump` up to its loop. -/
def pump (s : ProtocolServerStream) : ProtocolServerStream :=
  if s.pumping ∨ s.finished ∨ ¬ s.granted then s else { s with pumping := true }

/-- `grant(size)` and what it returns. -/
def grant (s : ProtocolServerStream) (size : Int) : Bool × ProtocolServerStream :=
  if s.finished then (true, s)
  else if size ≤ 0 then (true, s)
  else if s.credits + size > MAX_STREAM_CREDITS then (false, s)
  else
    let s := { s with granted := true }
    if s.pendingError then (true, s.fail)
    else (true, pump { s with credits := s.credits + size })

def destroy (s : ProtocolServerStream) (error : Bool) : ProtocolServerStream :=
  if error then s.fail
  else { s with
    finished := true, buffered := none, source := { s.source with destroyed := true } }

/-- The rest of an iteration that has a chunk. -/
def emit (s : ProtocolServerStream) (chunk : List UInt8) : ProtocolServerStream :=
  if s.credits ≤ 0 then { s with buffered := some chunk, pumping := false }
  else if chunk.length > s.credits then
    { s with
      buffered := some (chunk.drop s.credits.toNat)
      credits := s.credits - (chunk.take s.credits.toNat).length
      sink := s.sink ++ [.chunk (chunk.take s.credits.toNat)] }
  else
    { s with
      buffered := none, credits := s.credits - chunk.length, sink := s.sink ++ [.chunk chunk] }

/-- One iteration of the loop of `#pump`, the test of its condition first. -/
def iterate (s : ProtocolServerStream) : ProtocolServerStream :=
  if s.finished then { s with pumping := false }
  else
    match s.buffered with
    | some chunk => s.emit chunk
    | none =>
      if s.credits ≤ 0 then
        if s.sourceEnded ∧ s.source.buffer = [] then { s.finish with pumping := false }
        else { s with pumping := false }
      else
        match s.source.buffer with
        | [] =>
          if s.sourceEnded then { s.finish with pumping := false } else { s with pumping := false }
        | chunk :: rest => emit { s with source := { s.source with buffer := rest } } chunk

/-- The handler of the source's `error` event. -/
def onError (s : ProtocolServerStream) : ProtocolServerStream :=
  if ¬ s.granted ∧ ¬ s.finished then
    { s with pendingError := true, source := { s.source with destroyed := true } }
  else s.fail

end ProtocolServerStream

inductive StreamEvent where
  /-- The source gets data. -/
  | push (chunk : List UInt8)
  /-- The source gets no more data. -/
  | close
  | readable
  /-- Node emits `end` once all data has been read. -/
  | end
  | error
  | grant (size : Int)
  | destroy (error : Bool)
  /-- The running loop goes round. -/
  | iterate
deriving DecidableEq, Repr

/-- A stream with what has happened to it. -/
structure StreamRun where
  stream : ProtocolServerStream
  /-- The bytes of the source. -/
  bytes : List UInt8
  /-- The total of the positive grants for which `grant` returned true. -/
  accepted : Nat
  /-- The total added to the credits. -/
  credited : Nat
  /-- `destroy` was called with an error. -/
  destroyedWithError : Bool
deriving DecidableEq, Repr

namespace StreamRun

def start (objectMode : Bool) : StreamRun := ⟨.create objectMode, [], 0, 0, false⟩

/-- An event that cannot happen changes nothing. -/
def step (r : StreamRun) : StreamEvent → StreamRun
  | .push chunk =>
    if r.stream.source.takes then
      { r with
        stream := { r.stream with source := r.stream.source.push chunk }
        bytes := r.bytes ++ chunk }
    else r
  | .close =>
    { r with stream := { r.stream with source := { r.stream.source with ended := true } } }
  | .readable => { r with stream := r.stream.pump }
  | .end =>
    if r.stream.source.ended ∧ r.stream.source.buffer = [] then
      { r with stream := ProtocolServerStream.pump { r.stream with sourceEnded := true } }
    else r
  | .error => { r with stream := r.stream.onError }
  | .grant size =>
    let (returned, stream) := r.stream.grant size
    { r with
      stream
      accepted := if returned then r.accepted + size.toNat else r.accepted
      credited := r.credited + (stream.credits - r.stream.credits).toNat }
  | .destroy error =>
    { r with
      stream := r.stream.destroy error
      destroyedWithError := r.destroyedWithError || error }
  | .iterate => if r.stream.pumping then { r with stream := r.stream.iterate } else r

def run (objectMode : Bool) (events : List StreamEvent) : StreamRun :=
  Trace.run step (start objectMode) events

end StreamRun

end Neemata.Protocol
