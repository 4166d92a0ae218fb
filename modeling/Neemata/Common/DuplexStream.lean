import Neemata.Lib.Trace

/-!
# The duplex stream

`DuplexStream` of `common/src/streams.ts` between the two controllers of the streams standard, with
what they keep: of the readable side its queue, the reads that wait and the flags of its pull, of
the writable side the writes that wait and the write the sink is at. What `options` adds to a pull,
a cancel or a close does not touch the controller, and the promise of its pull is fulfilled at any
time.
-/

namespace Neemata.Common

/-- Whether the sizes of the queued chunks reach the high water mark: `desiredSize <= 0`. -/
structure QueuingStrategy (O : Type) where
  full : List O → Bool

structure DuplexOptions (I O : Type) where
  /-- Gives nothing if it throws. -/
  transform : I → Option O
  readableStrategy : QueuingStrategy O

inductive ReadableState where
  | readable | closed | errored
deriving DecidableEq

inductive WritableState where
  | writable | erroring | errored | closed
deriving DecidableEq

/-- The promise of a call of `sink.write`. -/
inductive SinkPromise where
  | pending | fulfilled | rejected
deriving DecidableEq

structure SinkWrite where
  id : Nat
  promise : SinkPromise
deriving DecidableEq

structure DuplexStream (I O : Type) where
  readable : ReadableState := .readable
  /-- The `start` of the readable side is over; likewise `sinkStarted`. -/
  started : Bool := false
  closeRequested : Bool := false
  cancelled : Bool := false
  queue : List O := []
  /-- The reads that wait. -/
  reads : Nat := 0
  pulling : Bool := false
  pullAgain : Bool := false
  /-- `#parkedWrites` -/
  parkedWrites : List Nat := []
  /-- `#draining` -/
  draining : Bool := false
  writable : WritableState := .writable
  sinkStarted : Bool := false
  /-- The writes that wait for the sink. -/
  pending : List I := []
  closeQueued : Bool := false
  inFlightWrite : Option SinkWrite := none
  inFlightClose : Bool := false
  pendingAbort : Bool := false
  /-- The chunks that `write` has taken, those handed to the sink, and the values read. -/
  accepted : List I := []
  written : List I := []
  values : List O := []
deriving DecidableEq

inductive DuplexEvent (I : Type) where
  | starts
  | sinkStarts
  | read
  | cancel
  /-- The promise of the pull is fulfilled. -/
  | pulled
  | write (chunk : I)
  | close
  | abort
  | releaseParkedWrites
  /-- The promise of the sink's write has settled. -/
  | wrote
  | closed
deriving DecidableEq

namespace DuplexStream

variable {I O : Type}

/-! ## The pull of the readable side -/

/-- The `resolve` of a parked write. -/
def resolve (s : DuplexStream I O) (id : Nat) : DuplexStream I O :=
  if s.inFlightWrite = some ⟨id, .pending⟩ then
    { s with inFlightWrite := some ⟨id, .fulfilled⟩ }
  else s

def pull (s : DuplexStream I O) : DuplexStream I O :=
  match s.parkedWrites with
  | [] => s
  | id :: rest => { s with parkedWrites := rest }.resolve id

def releaseParkedWrites (s : DuplexStream I O) : DuplexStream I O :=
  s.parkedWrites.foldl resolve { s with draining := true, parkedWrites := [] }

def shouldCallPull (options : DuplexOptions I O) (s : DuplexStream I O) : Bool :=
  s.readable = .readable && !s.closeRequested && s.started &&
    (0 < s.reads || !options.readableStrategy.full s.queue)

def callPullIfNeeded (options : DuplexOptions I O) (s : DuplexStream I O) : DuplexStream I O :=
  if s.shouldCallPull options then
    if s.pulling then { s with pullAgain := true } else pull { s with pulling := true }
  else s

/-- The promise of the pull is fulfilled. -/
def pulled (options : DuplexOptions I O) (s : DuplexStream I O) : DuplexStream I O :=
  if s.pulling then
    let s := { s with pulling := false }
    if s.pullAgain then callPullIfNeeded options { s with pullAgain := false } else s
  else s

/-! ## The controller of the readable side -/

def canEnqueue (s : DuplexStream I O) : Bool := s.readable = .readable && !s.closeRequested

def enqueue (options : DuplexOptions I O) (s : DuplexStream I O) (chunk : O) : DuplexStream I O :=
  if 0 < s.reads then
    callPullIfNeeded options { s with reads := s.reads - 1, values := s.values ++ [chunk] }
  else callPullIfNeeded options { s with queue := s.queue ++ [chunk] }

def controllerError (s : DuplexStream I O) : DuplexStream I O :=
  if s.readable = .readable then { s with readable := .errored, reads := 0, queue := [] } else s

def controllerClose (s : DuplexStream I O) : DuplexStream I O :=
  if s.canEnqueue then
    if s.queue.isEmpty then { s with closeRequested := true, readable := .closed, reads := 0 }
    else { s with closeRequested := true }
  else s

def read (options : DuplexOptions I O) (s : DuplexStream I O) : DuplexStream I O :=
  if s.readable = .readable then
    match s.queue with
    | [] => callPullIfNeeded options { s with reads := s.reads + 1 }
    | chunk :: rest =>
      let s := { s with queue := rest, values := s.values ++ [chunk] }
      if s.closeRequested && rest.isEmpty then { s with readable := .closed }
      else s.callPullIfNeeded options
  else s

def cancel (s : DuplexStream I O) : DuplexStream I O :=
  if s.readable = .readable then
    releaseParkedWrites { s with readable := .closed, cancelled := true, reads := 0, queue := [] }
  else s

/-! ## The sink and the controller of the writable side -/

/-- `write` of the sink. -/
def sinkWrite (options : DuplexOptions I O) (s : DuplexStream I O) (chunk : I) :
    DuplexStream I O :=
  let id := s.written.length
  let s := { s with written := s.written ++ [chunk], inFlightWrite := some ⟨id, .pending⟩ }
  match options.transform chunk with
  | none => { s.controllerError with inFlightWrite := some ⟨id, .rejected⟩ }
  | some chunk =>
    if s.canEnqueue then
      let s := s.enqueue options chunk
      if !s.draining && options.readableStrategy.full s.queue then
        { s with parkedWrites := s.parkedWrites ++ [id] }
      else { s with inFlightWrite := some ⟨id, .fulfilled⟩ }
    else { s with inFlightWrite := some ⟨id, .rejected⟩ }

/-- `FinishErroring`, with the `abort` of the sink. -/
def finishErroring (s : DuplexStream I O) : DuplexStream I O :=
  let s := { s with writable := .errored, pending := [], closeQueued := false }
  if s.pendingAbort then { s.controllerError with pendingAbort := false } else s

/-- `AdvanceQueueIfNeeded` -/
def advance (options : DuplexOptions I O) (s : DuplexStream I O) : DuplexStream I O :=
  if s.sinkStarted && s.inFlightWrite = none then
    if s.writable = .erroring then s.finishErroring
    else
      match s.pending with
      | chunk :: rest => sinkWrite options { s with pending := rest } chunk
      | [] =>
        if s.closeQueued then
          controllerClose { s with closeQueued := false, inFlightClose := true }
        else s
  else s

def closeQueuedOrInFlight (s : DuplexStream I O) : Bool := s.closeQueued || s.inFlightClose

/-- `write` of the writer; one that is refused rejects at once. -/
def write (options : DuplexOptions I O) (s : DuplexStream I O) (chunk : I) : DuplexStream I O :=
  if s.writable = .writable && !s.closeQueuedOrInFlight then
    advance options
      { s with accepted := s.accepted ++ [chunk], pending := s.pending ++ [chunk] }
  else s

def close (options : DuplexOptions I O) (s : DuplexStream I O) : DuplexStream I O :=
  if (s.writable = .writable || s.writable = .erroring) && !s.closeQueuedOrInFlight then
    advance options { s with closeQueued := true }
  else s

def abort (s : DuplexStream I O) : DuplexStream I O :=
  if s.writable = .writable then
    let s := { s with writable := .erroring, pendingAbort := true }
    if s.sinkStarted && s.inFlightWrite = none && !s.inFlightClose then s.finishErroring else s
  else s

/-- The promise of the sink's write has settled. -/
def wrote (options : DuplexOptions I O) (s : DuplexStream I O) : DuplexStream I O :=
  match s.inFlightWrite with
  | some ⟨_, .fulfilled⟩ => advance options { s with inFlightWrite := none }
  | some ⟨_, .rejected⟩ => finishErroring { s with inFlightWrite := none }
  | _ => s

def closed (s : DuplexStream I O) : DuplexStream I O :=
  if s.inFlightClose then
    { s with inFlightClose := false, writable := .closed, pendingAbort := false }
  else s

def step (options : DuplexOptions I O) (s : DuplexStream I O) : DuplexEvent I → DuplexStream I O
  | .starts => if s.started then s else callPullIfNeeded options { s with started := true }
  | .sinkStarts => if s.sinkStarted then s else advance options { s with sinkStarted := true }
  | .read => s.read options
  | .cancel => s.cancel
  | .pulled => s.pulled options
  | .write chunk => s.write options chunk
  | .close => s.close options
  | .abort => s.abort
  | .releaseParkedWrites => s.releaseParkedWrites
  | .wrote => s.wrote options
  | .closed => s.closed

/-- How many writes have not settled. -/
def outstanding (s : DuplexStream I O) : Nat :=
  s.pending.length + if s.inFlightWrite = none then 0 else 1

end DuplexStream

end Neemata.Common
