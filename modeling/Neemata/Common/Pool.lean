import Neemata.Lib.Trace

/-!
# The pool of items

`Pool` of `common/src/pool.ts`, whose items are defined values that `===` finds again. A call of
`next` that has to wait stands in the queue until `release` shifts it out; the item reaches it in a
later timer tick (`handOver`), and its own timer may fire before (`timeout`).
-/

namespace Neemata.Common

structure PoolError where
  message : String
deriving DecidableEq

structure PoolQueueItem where
  /-- The number of the call of `next`. -/
  call : Nat
  exclusive : Bool
  /-- `resolve` is still defined. -/
  resolve : Bool := true
deriving DecidableEq

/-- The timer callback of a call sets `resolve` to `undefined` in its own item. -/
def PoolQueueItem.expire (waiting : PoolQueueItem) (call : Nat) : PoolQueueItem :=
  if waiting.call = call then { waiting with resolve := false } else waiting

/-- `timers` are the calls whose timer is armed, and `held` says which call an item is with: the
exclusive call that has taken it or the call that `release` has given it to, until the item is
released. -/
structure Pool (α : Type) where
  timeout : Option Nat := none
  items : List α := []
  free : List Bool := []
  queue : List PoolQueueItem := []
  current : Int := 0
  size : Int := 0
  available : Int := 0
  timers : List Nat := []
  /-- The waiters shifted out of the queue whose timer tick has not come. -/
  handovers : List (PoolQueueItem × α) := []
  /-- The loop of a call of `next` goes on forever. -/
  looping : Bool := false
  calls : Nat := 0
  settled : List (Nat × Except PoolError α) := []
  held : List (α × Nat) := []
deriving DecidableEq

inductive PoolEvent (α : Type) where
  | add (item : α)
  | remove (item : α)
  | capture (timeout : Option Nat)
  | next (exclusive : Bool) (timeout : Option Nat)
  | release (item : α)
  /-- The timer of a call fires. -/
  | timeout (call : Nat)
  /-- The timer tick of the oldest handover. -/
  | handOver
deriving DecidableEq

namespace Pool

variable {α : Type} [DecidableEq α]

def isFree (pool : Pool α) (item : α) : Bool :=
  let index := pool.items.idxOf item
  if index = pool.items.length then false else pool.free.getD index false

def add (pool : Pool α) (item : α) : Except PoolError (Pool α) :=
  if item ∈ pool.items then .error ⟨"Item already exists"⟩
  else .ok { pool with
    size := pool.size + 1
    available := pool.available + 1
    items := pool.items ++ [item]
    free := pool.free ++ [true] }

def remove (pool : Pool α) (item : α) : Except PoolError (Pool α) :=
  let index := pool.items.idxOf item
  if pool.size = 0 then .error ⟨"Pool is empty"⟩
  else if index = pool.items.length then .error ⟨"Item is not in the pool"⟩
  else .ok { pool with
    available := if pool.isFree item then pool.available - 1 else pool.available
    size := pool.size - 1
    current := pool.current - 1
    items := pool.items.eraseIdx index
    free := pool.free.eraseIdx index }

/-- `#capture`. -/
def setCaptured (pool : Pool α) (item : α) : Pool α :=
  { pool with
    free := pool.free.set (pool.items.idxOf item) false
    available := pool.available - 1 }

def settle (pool : Pool α) (call : Nat) (result : Except PoolError α) : Pool α :=
  { pool with settled := (call, result) :: pool.settled }

/-- The slot at a position, which `remove` can make negative. -/
def slot (pool : Pool α) (current : Int) : Option (α × Bool) :=
  if current < 0 then none else (pool.items.zip pool.free)[current.toNat]?

def advance (pool : Pool α) (current : Int) : Int :=
  if pool.size ≤ current + 1 then 0 else current + 1

/-- The loop of `next`: the item and the position it leaves. -/
def search (pool : Pool α) : Nat → Int → Option (α × Int)
  | 0, _ => none
  | fuel + 1, current =>
    match pool.slot current with
    | some (item, true) => some (item, pool.advance current)
    | _ => pool.search fuel (pool.advance current)

/-- After this many rounds the loop has seen every slot. -/
def rounds (pool : Pool α) : Nat := pool.current.natAbs + pool.items.length

/-- A call of `next` takes an item. -/
def take (pool : Pool α) (exclusive : Bool) (item : α) (current : Int) : Pool α :=
  let taken := { pool with current }.settle pool.calls (.ok item)
  if exclusive then { taken.setCaptured item with held := (item, pool.calls) :: pool.held }
  else taken

def wait (pool : Pool α) (exclusive : Bool) (timeout : Option Nat) : Pool α :=
  { pool with
    queue := pool.queue ++ [{ call := pool.calls, exclusive }]
    timers :=
      if (timeout.or pool.timeout).getD 0 = 0 then pool.timers else pool.timers ++ [pool.calls] }

def next (pool : Pool α) (exclusive : Bool) (timeout : Option Nat) : Pool α :=
  let result :=
    if pool.size = 0 then pool.settle pool.calls (.error ⟨"Pool is empty"⟩)
    else if pool.available = 0 then pool.wait exclusive timeout
    else match pool.search pool.rounds pool.current with
      | none => { pool with looping := true }
      | some (item, current) => pool.take exclusive item current
  { result with calls := pool.calls + 1 }

def release (pool : Pool α) (item : α) : Except PoolError (Pool α) :=
  let index := pool.items.idxOf item
  if index = pool.items.length then .error ⟨"Unexpected item"⟩
  else if pool.isFree item then .error ⟨"Unable to release not captured item"⟩
  else
    let freed (pool : Pool α) : Pool α :=
      { pool with free := pool.free.set index true, available := pool.available + 1 }
    match pool.queue with
    | [] => .ok (freed pool)
    | waiting :: queue =>
      let shifted := { pool with queue, timers := pool.timers.filter (· ≠ waiting.call) }
      if waiting.resolve then
        .ok { shifted with
          handovers := pool.handovers ++ [(waiting, item)]
          held := (item, waiting.call) :: pool.held }
      else .ok (freed shifted)

/-- The timer callback of a call. -/
def expire (pool : Pool α) (call : Nat) : Pool α :=
  { pool with
    timers := pool.timers.filter (· ≠ call)
    queue := (pool.queue.map (·.expire call)).tail
    settled := (call, .error ⟨"Next item timeout"⟩) :: pool.settled }

/-- The `resolve` of a waiter with its item. -/
def resolve (pool : Pool α) (waiting : PoolQueueItem) (item : α) : Pool α :=
  (if waiting.exclusive then pool.setCaptured item else pool).settle waiting.call (.ok item)

/-- A call that throws leaves the pool as it is. -/
def call (pool : Pool α) : Except PoolError (Pool α) → Pool α
  | .ok pool => pool
  | .error _ => pool

/-- Whoever has the item gives it back. -/
def giveBack (pool : Pool α) (item : α) : Pool α :=
  { pool with held := pool.held.filter (·.1 ≠ item) }

def step (pool : Pool α) (event : PoolEvent α) : Pool α :=
  if pool.looping then pool
  else match event with
    | .add item => pool.call (pool.add item)
    | .remove item => pool.call (pool.remove item)
    | .capture timeout => pool.next true timeout
    | .next exclusive timeout => pool.next exclusive timeout
    | .release item => (pool.giveBack item).call ((pool.giveBack item).release item)
    | .timeout call => if call ∈ pool.timers then pool.expire call else pool
    | .handOver =>
      match pool.handovers with
      | [] => pool
      | (waiting, item) :: handovers => { pool with handovers }.resolve waiting item

end Pool

end Neemata.Common
