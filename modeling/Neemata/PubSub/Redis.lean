import Neemata.Lib.OrdMap
import Neemata.Lib.Entries
import Neemata.Lib.Trace

/-!
# The Redis pubsub adapter

`RedisPubSubAdapter.subscribe` of `pubsub/src/redis.ts`, a generator, with the tables it shares with
the other generators of the adapter. An event is what runs between two awaits or yields. A generator
that is returned or aborted before its subscription wait is over goes on to its next yield or to its
wait for a message, and stops there.
-/

namespace Neemata.PubSub

inductive CommandKind where
  | subscribe
  | unsubscribe
deriving DecidableEq

/-- A command sent by the subscriber client, with its reply: whether it has succeeded. -/
structure Command (κ : Type) where
  kind : CommandKind
  channel : κ
  reply : Option Bool := none
deriving DecidableEq

inductive GeneratorPhase where
  /-- Awaits the stored subscription of the channel. -/
  | waiting (subscription : Option Nat)
  /-- Waits for a message. -/
  | reading
  | yielded
  /-- In its `finally`, awaits the reply to UNSUBSCRIBE. -/
  | unsubscribing (command : Nat)
  | finished
deriving DecidableEq

structure Generator (κ : Type) where
  channel : κ
  phase : GeneratorPhase
deriving DecidableEq

structure RedisPubSub (κ : Type) where
  listeners : OrdMap κ Nat := .empty
  subscribtions : OrdMap κ Nat := .empty
  commands : List (Command κ) := []
  generators : List (Generator κ) := []

inductive RedisEvent (κ : Type) where
  /-- A generator starts; `aborted`: its signal has been aborted already. -/
  | subscribe (channel : κ) (aborted : Bool)
  | reply (command : Nat) (succeeds : Bool)
  /-- The command a generator awaits has been replied to. -/
  | resume (generator : Nat)
  | message (generator : Nat)
  | next (generator : Nat)
  /-- The signal aborts the wait for a message, or the consumer returns at a yield. -/
  | stop (generator : Nat)
deriving DecidableEq

namespace RedisPubSub

variable {κ : Type} [DecidableEq κ] (s : RedisPubSub κ)

/-- The body of the generator up to its first await. -/
def subscribe (channel : κ) (aborted : Bool) : RedisPubSub κ :=
  if aborted then { s with generators := s.generators ++ [{ channel, phase := .finished }] }
  else
    match s.listeners.get? channel with
    | none =>
      let command := s.commands.length
      { s with
        listeners := s.listeners.set channel 1
        commands := s.commands ++ [{ kind := .subscribe, channel }]
        subscribtions := s.subscribtions.set channel command
        generators := s.generators ++ [{ channel, phase := .waiting (some command) }] }
    | some listeners =>
      { s with
        listeners := s.listeners.set channel (listeners + 1)
        generators := s.generators ++
          [{ channel, phase := .waiting (s.subscribtions.get? channel) }] }

def setPhase (generator : Nat) (phase : GeneratorPhase) : RedisPubSub κ :=
  { s with generators := s.generators.modify generator fun g => { g with phase } }

def reply (command : Nat) (succeeds : Bool) : RedisPubSub κ :=
  match s.commands[command]? with
  | some ⟨_, _, none⟩ =>
    { s with commands := s.commands.modify command fun c => { c with reply := some succeeds } }
  | _ => s

/-- The reply a generator awaits; a stored subscription that does not exist has succeeded. -/
def reply? (command : Option Nat) : Option Bool :=
  match command with
  | none => some true
  | some command => s.commands[command]?.bind (·.reply)

def resume (generator : Nat) : RedisPubSub κ :=
  match s.generators[generator]? with
  | some ⟨_, .waiting subscription⟩ =>
    match s.reply? subscription with
    | some true => s.setPhase generator .reading
    | some false => s.setPhase generator .finished
    | none => s
  | some ⟨channel, .unsubscribing command⟩ =>
    match s.reply? (some command) with
    | some true =>
      { s.setPhase generator .finished with listeners := s.listeners.erase channel }
    | some false => s.setPhase generator .finished
    | none => s
  | _ => s

def message (generator : Nat) : RedisPubSub κ :=
  match s.generators[generator]? with
  | some ⟨_, .reading⟩ => s.setPhase generator .yielded
  | _ => s

def next (generator : Nat) : RedisPubSub κ :=
  match s.generators[generator]? with
  | some ⟨_, .yielded⟩ => s.setPhase generator .reading
  | _ => s

/-- The `finally` block of a registered generator, up to its await. -/
def detach (generator : Nat) (channel : κ) : RedisPubSub κ :=
  match s.listeners.get? channel with
  | none => s.setPhase generator .finished
  | some count =>
    if 1 < count then
      { s.setPhase generator .finished with listeners := s.listeners.set channel (count - 1) }
    else
      { s.setPhase generator (.unsubscribing s.commands.length) with
        commands := s.commands ++ [{ kind := .unsubscribe, channel }] }

def stop (generator : Nat) : RedisPubSub κ :=
  match s.generators[generator]? with
  | some ⟨channel, .reading⟩ | some ⟨channel, .yielded⟩ => s.detach generator channel
  | _ => s

def step (s : RedisPubSub κ) : RedisEvent κ → RedisPubSub κ
  | .subscribe channel aborted => s.subscribe channel aborted
  | .reply command succeeds => s.reply command succeeds
  | .resume generator => s.resume generator
  | .message generator => s.message generator
  | .next generator => s.next generator
  | .stop generator => s.stop generator

end RedisPubSub

/-! ## What the counts are to say -/

/-- The generator has got past its subscription wait and has not begun to leave. -/
def GeneratorPhase.isLive : GeneratorPhase → Bool
  | .reading | .yielded => true
  | .waiting _ | .unsubscribing _ | .finished => false

/-- The generator waits for its subscription or is registered. -/
def GeneratorPhase.isHeld : GeneratorPhase → Bool
  | .waiting _ | .reading | .yielded | .unsubscribing _ => true
  | .finished => false

/-- The generator has called `unsubscribe`. -/
def GeneratorPhase.isLeaving : GeneratorPhase → Bool
  | .unsubscribing _ => true
  | .waiting _ | .reading | .yielded | .finished => false

/-- The kind of a command of the channel that has succeeded or is pending. -/
def Command.kindFor {κ : Type} [DecidableEq κ] (channel : κ) (command : Command κ) :
    Option CommandKind :=
  if command.channel = channel ∧ command.reply ≠ some false then some command.kind else none

namespace RedisPubSub

variable {κ : Type} [DecidableEq κ] (s : RedisPubSub κ)

/-- The last successful or pending command of the channel. -/
def lastCommand (channel : κ) : Option CommandKind :=
  (s.commands.filterMap (Command.kindFor channel)).getLast?

/-- How many generators of the channel are in one of the phases. -/
def count (p : GeneratorPhase → Bool) (channel : κ) : Nat :=
  s.generators.countP fun g => g.channel = channel && p g.phase

/-- How many generators of the channel wait or are registered. -/
def held (channel : κ) : Nat := s.count GeneratorPhase.isHeld channel

structure Counted : Prop where
  live : ∀ g ∈ s.generators, g.phase.isLive → s.lastCommand g.channel = some .subscribe
  listeners : ∀ channel, s.listeners.get? channel =
    if s.held channel = 0 then none else some (s.held channel)
  unsubscribed : ∀ channel, s.held channel = 0 → s.lastCommand channel ≠ some .subscribe
  /-- Nobody waits for a SUBSCRIBE that has failed before. -/
  renewed : ∀ channel i c, s.subscribtions.get? channel = some i → s.commands[i]? = some c →
    c.reply = some false →
    (s.subscribe channel false).commands = s.commands ++ [{ kind := .subscribe, channel }]

/-- No command fails, and no generator starts while the last one of its channel unsubscribes. -/
def Fits (s : RedisPubSub κ) : RedisEvent κ → Prop
  | .subscribe channel aborted =>
    aborted ∨ ∀ g ∈ s.generators, g.channel = channel → g.phase.isLeaving = false
  | .reply _ succeeds => succeeds
  | .resume _ | .message _ | .next _ | .stop _ => True

instance (s : RedisPubSub κ) (event : RedisEvent κ) : Decidable (s.Fits event) :=
  match event with
  | .subscribe channel aborted => inferInstanceAs (Decidable (aborted ∨
      ∀ g ∈ s.generators, g.channel = channel → g.phase.isLeaving = false))
  | .reply _ succeeds => inferInstanceAs (Decidable (succeeds = true))
  | .resume _ | .message _ | .next _ | .stop _ => isTrue trivial

end RedisPubSub

end Neemata.PubSub
