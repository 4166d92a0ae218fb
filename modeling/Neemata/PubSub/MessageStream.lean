import Neemata.Lib.Trace

/-!
# The stream of a subscription

`createMessageStream` of `pubsub/src/manager.ts`. Each call of `read` is a pump: it waits for the
iterator, or stands inside a `push` that hands the event to the consumer at once, and goes back to
the iterator. Pumps are counted, since nothing but the flag `pumping` keeps them from being many.
Node calls `read` while `reading` is not set and the stream is open, whatever its buffer holds.
-/

namespace Neemata.PubSub

inductive ErrorCode where
  | number (n : Int)
  | text (s : String)
  | other
deriving DecidableEq

/-- What is thrown: an error object, an event of the platform, or any other value. -/
inductive Thrown where
  | error (name : String) (code : Option ErrorCode) (id : Nat)
  | event (type : String)
  | value (id : Nat)
deriving DecidableEq

/-- `isAbortError` of `common/src/utils.ts` -/
def Thrown.isAbortError : Thrown → Bool
  | .error name code _ =>
    name = "AbortError" && (code = some (.number 20) || code = some (.text "ABORT_ERR"))
  | .event type => type = "abort"
  | .value _ => false

inductive StreamError where
  | thrown (error : Thrown)
  /-- `new Error('Unknown subscription error', { cause })` -/
  | unknown (cause : Thrown)
deriving DecidableEq

def Thrown.asError : Thrown → StreamError
  | .error name code id => .thrown (.error name code id)
  | cause => .unknown cause

structure Message (P : Type) where
  event : String
  payload : P
deriving DecidableEq

/-- What a call of `next` comes to. -/
inductive NextResult (P : Type) where
  | message (message : Message P)
  | done
  | throws (error : Thrown)
deriving DecidableEq

/-- The selected events, each with `decode` of its payload, which gives nothing if it throws. -/
abbrev Selected (P D : Type) := String → Option (P → Option D)

structure MessageStream (P D : Type) where
  pumping : Bool := false
  /-- Node's `reading`, set while a push is awaited. -/
  reading : Bool := false
  /-- The pumps that wait for the iterator: the calls of `next` that are pending. -/
  waiting : Nat := 0
  /-- The pumps inside a `push` that has called the consumer. -/
  emitting : Nat := 0
  /-- What `next` has come to before the stream was destroyed. -/
  received : List (NextResult P) := []
  /-- The calls of `push`; nothing stands for `null`. -/
  pushed : List (Option (Message D)) := []
  /-- Node's `ended` -/
  ended : Bool := false
  buffer : List (Message D) := []
  delivered : List (Message D) := []
  /-- Whether the stream has been destroyed, and with which error. -/
  destroyed : Option (Option StreamError) := none
deriving DecidableEq

inductive MessageStreamEvent (P : Type) where
  /-- Node calls `read`. -/
  | read
  /-- A pending `next` settles. A message that is pushed goes past the buffer to a consumer that
  listens (`direct`), if nothing is buffered. -/
  | next (result : NextResult P) (direct : Bool)
  /-- The consumer returns from the event it has been handed. -/
  | emitted
  /-- The consumer takes what is buffered first. -/
  | take
  | destroy (error : Option StreamError)
deriving DecidableEq

namespace MessageStream

variable {P D : Type}

def isOpen (s : MessageStream P D) : Bool := s.destroyed = none && !s.ended

/-- `this.destroy`, which Node ignores once the stream is destroyed. -/
def destroy (s : MessageStream P D) (error : Option StreamError) : MessageStream P D :=
  if s.destroyed = none then { s with destroyed := some error } else s

/-- The head of the loop. -/
def loop (s : MessageStream P D) : MessageStream P D :=
  if s.destroyed = none then { s with waiting := s.waiting + 1 } else s

def pushNull (s : MessageStream P D) : MessageStream P D :=
  if s.destroyed = none then
    { s with reading := false, pushed := s.pushed ++ [none], ended := true }
  else s

/-- A pushed event, and what the pump does with the answer. -/
def push (mark : Nat) (s : MessageStream P D) (event : Message D) (direct : Bool) :
    MessageStream P D :=
  let s := { s with reading := false, pushed := s.pushed ++ [some event] }
  if s.isOpen then
    if direct && s.buffer.isEmpty then
      { s with delivered := s.delivered ++ [event], emitting := s.emitting + 1 }
    else
      let s := { s with buffer := s.buffer ++ [event] }
      if s.buffer.length < mark then s.loop else { s with pumping := false }
  else { s with pumping := false }

def receive (mark : Nat) (events : Selected P D) (s : MessageStream P D) (message : Message P)
    (direct : Bool) : MessageStream P D :=
  match events message.event with
  | none => s.loop
  | some decode =>
    match decode message.payload with
    | none => s.loop
    | some payload => s.push mark { event := message.event, payload } direct

/-- The pump goes on with what `next` has come to. -/
def onNext (mark : Nat) (events : Selected P D) (s : MessageStream P D) (direct : Bool) :
    NextResult P → MessageStream P D
  | .done => s.pushNull
  | .message message => if s.destroyed = none then s.receive mark events message direct else s
  | .throws error =>
    if error.isAbortError then s.pushNull else s.destroy (some error.asError)

def step (mark : Nat) (events : Selected P D) (s : MessageStream P D) :
    MessageStreamEvent P → MessageStream P D
  | .read =>
    if s.isOpen && !s.reading then
      let s := { s with reading := true }
      if s.pumping then s else loop { s with pumping := true }
    else s
  | .next result direct =>
    if 0 < s.waiting then
      let s := { s with waiting := s.waiting - 1 }
      let s := if s.destroyed = none then { s with received := s.received ++ [result] } else s
      s.onNext mark events direct result
    else s
  | .emitted =>
    if 0 < s.emitting then
      let s := { s with emitting := s.emitting - 1 }
      if !s.ended && (s.buffer.length < mark || s.buffer.isEmpty) then s.loop
      else { s with pumping := false }
    else s
  | .take =>
    match s.buffer with
    | [] => s
    | event :: rest => { s with buffer := rest, delivered := s.delivered ++ [event] }
  | .destroy error => s.destroy error

end MessageStream

end Neemata.PubSub
