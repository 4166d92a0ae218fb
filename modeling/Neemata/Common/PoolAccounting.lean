import Neemata.Lib.Column
import Neemata.Common.Pool
import Mathlib.Data.List.Nodup

/-!
# The accounts of the pool

In a run whose events fit the pool they meet (`Fits`), an item is free unless it is with one call,
the count of the available items is that of the free ones, and every call of `next` waits, is about
to be handed its item or has settled (`Accounted`); what an event does to a waiter and to an item is
`Handled`. A captured item that is released to an exclusive waiter is counted as captured twice, and
a timer that fires shifts the head of the queue, whoever waits there.
-/

namespace Neemata.Common

namespace Pool

variable {α : Type} {pool : Pool α}

/-! ## The loop of `next` -/

theorem slot_natCast (i : Nat) : pool.slot i = (pool.items.zip pool.free)[i]? := by
  rw [slot, if_neg (Int.not_lt.mpr (Int.natCast_nonneg i)), Int.toNat_natCast]

theorem advance_bound (pool : Pool α) (current : Int) : pool.advance current ≤ 0 ∨
    pool.advance current < pool.size := by
  simp only [advance]
  split
  · exact .inl (Int.le_refl 0)
  · exact .inr (by omega)

theorem search_spec {fuel : Nat} {current after : Int} {item : α}
    (h : pool.search fuel current = some (item, after)) :
    (item, true) ∈ pool.items.zip pool.free ∧ (after ≤ 0 ∨ after < pool.size) := by
  induction fuel generalizing current with
  | zero => cases h
  | succ fuel ih =>
    simp only [search] at h
    split at h
    · next hslot =>
      obtain ⟨rfl, rfl⟩ := Prod.mk.inj (Option.some.inj h)
      refine ⟨?_, advance_bound pool current⟩
      simp only [slot] at hslot
      split at hslot
      · cases hslot
      · exact List.mem_of_getElem? hslot
    · exact ih h

/-- How many slots the loop passes before it comes to `i`. -/
def distance (pool : Pool α) (i current : Int) : Int :=
  if current ≤ i then i - current else pool.size - current + i

theorem distance_advance {i current : Int} (hi : 0 ≤ i) (hsize : i < pool.size)
    (hcurrent : current < pool.size) (hne : current ≠ i) :
    pool.distance i (pool.advance current) + 1 = pool.distance i current := by
  simp only [distance, advance]
  split_ifs <;> omega

theorem exists_search {fuel i : Nat} {current : Int} {item : α}
    (hslot : (pool.items.zip pool.free)[i]? = some (item, true)) (hsize : (i : Int) < pool.size)
    (hcurrent : current < pool.size) (hfuel : pool.distance i current < fuel) :
    ∃ found, pool.search fuel current = some found := by
  induction fuel generalizing current with
  | zero =>
    have : 0 ≤ pool.distance i current := by
      simp only [distance]
      split <;> omega
    omega
  | succ fuel ih =>
    simp only [search]
    split
    · exact ⟨_, rfl⟩
    · next hother =>
      have hne : current ≠ i := by
        rintro rfl
        exact hother item (slot_natCast i ▸ hslot)
      have hstep := distance_advance (Int.natCast_nonneg i) hsize hcurrent hne
      refine ih ?_ (by omega)
      rcases pool.advance_bound current with h | h <;> omega

/-! ## Calls -/

/-- In how many places a call is: in the queue, shifted out of it, or settled. -/
def places (pool : Pool α) (call : Nat) : Nat :=
  (pool.queue.map (·.call)).count call + (pool.handovers.map (·.1.call)).count call +
    (pool.settled.map (·.1)).count call

/-- Every call is in one place, a waiter in the queue can still be resolved, and no exclusive waiter
is about to be handed an item. -/
structure Placed (pool : Pool α) : Prop where
  placed : ∀ call, pool.places call = if call < pool.calls then 1 else 0
  resolve : ∀ waiting ∈ pool.queue, waiting.resolve = true
  shared : ∀ handover ∈ pool.handovers, handover.1.exclusive = false

namespace Placed

theorem settle (h : Placed pool) (result : Except PoolError α) :
    Placed { pool.settle pool.calls result with calls := pool.calls + 1 } := by
  refine ⟨fun call => ?_, h.resolve, h.shared⟩
  have hplaced := h.placed call
  simp only [places, Pool.settle, List.map_cons, List.count_cons, beq_iff_eq] at hplaced ⊢
  split_ifs at hplaced ⊢ <;> omega

theorem wait (h : Placed pool) (exclusive : Bool) (timeout : Option Nat) :
    Placed { pool.wait exclusive timeout with calls := pool.calls + 1 } := by
  refine ⟨fun call => ?_, ?_, h.shared⟩
  · have hplaced := h.placed call
    simp only [places, Pool.wait, List.map_append, List.map_cons, List.map_nil, List.count_append,
      List.count_singleton, beq_iff_eq] at hplaced ⊢
    split_ifs at hplaced ⊢ <;> omega
  · intro waiting hwaiting
    rcases List.mem_append.mp hwaiting with hwaiting | hwaiting
    · exact h.resolve waiting hwaiting
    · rw [List.mem_singleton.mp hwaiting]

/-- No call is made, and each one that is moved is in one place again. -/
theorem move (h : Placed pool) {after : Pool α} (hcalls : after.calls = pool.calls)
    (hplaces : ∀ call, after.places call = pool.places call)
    (hqueue : after.queue ⊆ pool.queue)
    (hhandovers : ∀ handover ∈ after.handovers, handover.1.exclusive = false) : Placed after := by
  refine ⟨fun call => ?_, fun waiting hwaiting => h.resolve waiting (hqueue hwaiting), hhandovers⟩
  rw [hplaces, hcalls]
  exact h.placed call

/-- The head of the queue is handed an item. -/
theorem handOver (h : Placed pool) {waiting : PoolQueueItem} {queue : List PoolQueueItem}
    (hqueue : pool.queue = waiting :: queue) (hshared : waiting.exclusive = false) (item : α)
    {after : Pool α} (hafter : after.queue = queue)
    (hhandovers : after.handovers = pool.handovers ++ [(waiting, item)])
    (hcalls : after.calls = pool.calls) (hsettled : after.settled = pool.settled) :
    Placed after := by
  refine h.move hcalls (fun call => ?_) ?_ fun handover hhandover => ?_
  · simp only [places, hqueue, hafter, hhandovers, hsettled, List.map_append, List.map_cons,
      List.map_nil, List.count_append, List.count_cons, List.count_nil]
    omega
  · rw [hafter, hqueue]
    exact List.subset_cons_self _ _
  · rw [hhandovers] at hhandover
    rcases List.mem_append.mp hhandover with hhandover | hhandover
    · exact h.shared handover hhandover
    · rw [List.mem_singleton.mp hhandover]
      exact hshared

/-- The oldest handover is delivered. -/
theorem deliver (h : Placed pool) {waiting : PoolQueueItem} {item : α}
    {handovers : List (PoolQueueItem × α)}
    (hhandovers : pool.handovers = (waiting, item) :: handovers)
    (result : Except PoolError α) :
    Placed ({ pool with handovers }.settle waiting.call result) := by
  refine h.move rfl (fun call => ?_) (List.Subset.refl _) fun handover hhandover => ?_
  · simp only [places, Pool.settle, hhandovers, List.map_cons, List.count_cons]
    omega
  · exact h.shared handover (hhandovers ▸ List.mem_cons_of_mem _ hhandover)

theorem queue_expire (h : Placed pool) {waiting : PoolQueueItem} {queue : List PoolQueueItem}
    (hqueue : pool.queue = waiting :: queue) : (pool.expire waiting.call).queue = queue := by
  have hcount := h.placed waiting.call
  have habsent : waiting.call ∉ queue.map (·.call) := by
    rw [← List.count_eq_zero]
    simp only [places, hqueue, List.map_cons, List.count_cons_self] at hcount
    split_ifs at hcount <;> omega
  simp only [Pool.expire, hqueue, List.map_cons, List.tail_cons]
  refine (List.map_congr_left fun other hother => ?_).trans (List.map_id queue)
  exact if_neg fun heq : other.call = waiting.call =>
    habsent (List.mem_map.mpr ⟨other, hother, heq⟩)

/-- The timer of the head of the queue fires. -/
theorem expire (h : Placed pool) {waiting : PoolQueueItem} {queue : List PoolQueueItem}
    (hqueue : pool.queue = waiting :: queue) : Placed (pool.expire waiting.call) := by
  have hafter := h.queue_expire hqueue
  refine h.move rfl (fun call => ?_) ?_ h.shared
  · simp only [places, hafter, hqueue, List.map_cons, List.count_cons]
    simp only [Pool.expire, List.map_cons, List.count_cons]
    omega
  · rw [hafter, hqueue]
    exact List.subset_cons_self _ _

end Placed

/-! ## The accounts -/

variable [DecidableEq α]

/-- The item is with a call. -/
def isHeld (held : List (α × Nat)) (item : α) : Bool := held.any (·.1 = item)

/-- An event fits a pool: an item that was removed while it was with a call is not added before
that call has given it back, a captured item is not released to an exclusive waiter, and a timer
fires for the waiter at the head of the queue. -/
def Fits (pool : Pool α) : PoolEvent α → Prop
  | .add item => item ∈ pool.items ∨ isHeld pool.held item = false
  | .release item =>
    item ∈ pool.items → pool.isFree item = false →
      ∀ waiting ∈ pool.queue.head?, waiting.exclusive = false
  | .timeout call => call ∈ pool.timers → pool.queue.head?.map (·.call) = some call
  | _ => True

instance (pool : Pool α) : (event : PoolEvent α) → Decidable (Fits pool event)
  | .add item => inferInstanceAs (Decidable (item ∈ pool.items ∨ isHeld pool.held item = false))
  | .release item => inferInstanceAs (Decidable (item ∈ pool.items → pool.isFree item = false →
      ∀ waiting ∈ pool.queue.head?, waiting.exclusive = false))
  | .timeout call => inferInstanceAs
      (Decidable (call ∈ pool.timers → pool.queue.head?.map (·.call) = some call))
  | .remove _ | .capture _ | .next _ _ | .handOver => isTrue trivial

structure Accounted (pool : Pool α) : Prop where
  available : pool.available = pool.free.count true
  free : ∀ item ∈ pool.items, pool.isFree item = true ↔ isHeld pool.held item = false
  holders : (pool.held.map (·.1)).Nodup
  /-- No call of `next` is lost or settles twice. -/
  placed : ∀ call, pool.places call = if call < pool.calls then 1 else 0
  waiting : ∀ waiting ∈ pool.queue, waiting.resolve = true
  returns : pool.looping = false

/-- A call of `next` that returns at once takes an item that is with no call, and where no item is
with a call it does return at once. -/
structure Taken (pool after : Pool α) (exclusive : Bool) : Prop where
  unheld : ∀ item, after.settled = (pool.calls, .ok item) :: pool.settled →
    isHeld pool.held item = false
  held : ∀ item, after.settled = (pool.calls, .ok item) :: pool.settled →
    exclusive = true → after.held = (item, pool.calls) :: pool.held
  returns : pool.items ≠ [] → (∀ item ∈ pool.items, isHeld pool.held item = false) →
    ∃ item ∈ pool.items, after.settled = (pool.calls, .ok item) :: pool.settled

/-- What an event does: an expiring waiter leaves the queue and nobody else, and a released item
goes to the first waiter or is free. -/
def Handled (pool : Pool α) (event : PoolEvent α) : Prop :=
  let after := pool.step event
  match event with
  | .timeout call =>
    call ∈ pool.timers → ∃ waiting, waiting.call = call ∧ pool.queue = waiting :: after.queue ∧
      after.handovers = pool.handovers ∧
      after.settled = (call, .error ⟨"Next item timeout"⟩) :: pool.settled
  | .release item =>
    item ∈ pool.items → pool.isFree item = false →
      (pool.queue = [] ∧ after.queue = [] ∧ after.handovers = pool.handovers ∧
        after.isFree item = true) ∨
      ∃ waiting, pool.queue = waiting :: after.queue ∧ waiting.resolve = true ∧
        after.handovers = pool.handovers ++ [(waiting, item)] ∧ after.isFree item = false
  | .handOver =>
    ∀ waiting item handovers, pool.handovers = (waiting, item) :: handovers →
      after.handovers = handovers ∧ after.settled = (waiting.call, .ok item) :: pool.settled
  | .capture _ => Taken pool after true
  | .next exclusive _ => Taken pool after exclusive
  | .add _ | .remove _ => True

/-! ## Items -/

/-- The accounts of the items: an item is free exactly when it is with no call. -/
structure Stock (pool : Pool α) : Prop where
  nodup : pool.items.Nodup
  free : pool.free = pool.items.map fun item => !isHeld pool.held item
  available : pool.available = pool.items.countP fun item => !isHeld pool.held item
  size : pool.size = pool.items.length
  current : pool.current ≤ 0 ∨ pool.current < pool.size
  holders : (pool.held.map (·.1)).Nodup

theorem isHeld_eq_false {held : List (α × Nat)} {item : α} :
    isHeld held item = false ↔ item ∉ held.map (·.1) := by
  simp only [isHeld, List.any_eq_false, decide_eq_true_eq, List.mem_map, not_exists, not_and]

theorem isHeld_cons {held : List (α × Nat)} {item other : α} {call : Nat} :
    isHeld ((item, call) :: held) other = (decide (item = other) || isHeld held other) := rfl

theorem isHeld_giveBack {item other : α} :
    isHeld (pool.giveBack item).held other =
      (decide (item ≠ other) && isHeld pool.held other) := by
  simp only [isHeld, giveBack, List.any_filter]
  by_cases h : item = other
  · subst h
    simp
  · rw [decide_eq_true h, Bool.true_and]
    congr 1
    funext holder
    by_cases heq : holder.1 = other <;> simp [heq, Ne.symm h]

namespace Stock

theorem count (h : Stock pool) : pool.available = pool.free.count true := by
  rw [h.available, h.free, List.count, List.countP_map]
  congr 2
  funext item
  simp

theorem isFree (h : Stock pool) {item : α} (hitem : item ∈ pool.items) :
    pool.isFree item = !isHeld pool.held item := by
  have hindex := List.idxOf_lt_length_iff.mpr hitem
  rw [Pool.isFree, if_neg (Nat.ne_of_lt hindex), h.free, Column.getD_idxOf hitem]

theorem add (h : Stock pool) {item : α} (hitem : item ∉ pool.items)
    (hheld : isHeld pool.held item = false) {after : Pool α} (hadd : pool.add item = .ok after) :
    Stock after := by
  rw [Pool.add, if_neg hitem] at hadd
  cases hadd
  have hnodup : (pool.items ++ [item]).Nodup :=
    List.nodup_append'.mpr
      ⟨h.nodup, List.pairwise_singleton _ item, List.disjoint_singleton.mpr hitem⟩
  refine ⟨hnodup, ?_, ?_, ?_, ?_, h.holders⟩
  · simp [h.free, hheld]
  · simp [h.available, hheld]
  · simp [h.size]
  · have := h.current
    simp only
    omega

theorem remove (h : Stock pool) {item : α} {after : Pool α}
    (hremove : pool.remove item = .ok after) : Stock after := by
  simp only [Pool.remove] at hremove
  split at hremove
  · cases hremove
  split at hremove
  · cases hremove
  next hsize hindex =>
  cases hremove
  have hitem : item ∈ pool.items := by
    rw [← List.idxOf_lt_length_iff]
    exact Nat.lt_of_le_of_ne List.idxOf_le_length hindex
  have hlength := List.length_erase_of_mem hitem
  have hpos := List.length_pos_of_mem hitem
  have hcount := Column.countP_eq_add (fun item => !isHeld pool.held item) hitem
  have hcurrent := h.current
  have hheld := h.isFree hitem
  refine ⟨?_, ?_, ?_, ?_, ?_, h.holders⟩
  · rw [List.eraseIdx_idxOf_eq_erase]
    exact h.nodup.erase item
  · simp only [h.free, List.eraseIdx_idxOf_eq_erase]
    exact Column.eraseIdx_idxOf
  · simp only [List.eraseIdx_idxOf_eq_erase, h.available, hcount, hheld]
    split <;> simp
  · simp only [List.eraseIdx_idxOf_eq_erase, h.size, hlength]
    omega
  · simp only
    omega

theorem of_slot (h : Stock pool) {item : α} (hslot : (item, true) ∈ pool.items.zip pool.free) :
    item ∈ pool.items ∧ isHeld pool.held item = false := by
  rw [h.free, ← List.map_prod_left_eq_zip] at hslot
  obtain ⟨other, hother, heq⟩ := List.mem_map.mp hslot
  obtain ⟨rfl, hfree⟩ := Prod.mk.inj heq
  exact ⟨hother, by simpa using hfree⟩

/-- Who has one item changes. -/
theorem change (h : Stock pool) {item : α} (hitem : item ∈ pool.items) (held : List (α × Nat))
    (hother : ∀ other ≠ item, isHeld held other = isHeld pool.held other) :
    pool.free.set (pool.items.idxOf item) (!isHeld held item) =
        pool.items.map (fun item => !isHeld held item) ∧
      (pool.items.countP (fun item => !isHeld held item) : Int) +
          (!isHeld pool.held item).toNat = pool.available + (!isHeld held item).toNat := by
  have hnot : ∀ other ≠ item, (!isHeld held other) = !isHeld pool.held other := by
    intro other hne
    rw [hother other hne]
  constructor
  · rw [h.free]
    exact Column.set_idxOf h.nodup rfl hnot
  · have hbefore := Column.countP_eq_add (fun item => !isHeld pool.held item) hitem
    have hafter := Column.countP_eq_add (fun item => !isHeld held item) hitem
    rw [h.available, hbefore, hafter, Column.countP_erase_congr h.nodup hnot]
    cases isHeld pool.held item <;> cases isHeld held item <;> simp

theorem take (h : Stock pool) (exclusive : Bool) {item : α} {current : Int}
    (hslot : (item, true) ∈ pool.items.zip pool.free)
    (hcurrent : current ≤ 0 ∨ current < pool.size) :
    Stock (pool.take exclusive item current) := by
  obtain ⟨hitem, hheld⟩ := h.of_slot hslot
  cases exclusive with
  | false => exact ⟨h.nodup, h.free, h.available, h.size, hcurrent, h.holders⟩
  | true =>
    have hother : ∀ other ≠ item,
        isHeld ((item, pool.calls) :: pool.held) other = isHeld pool.held other := by
      intro other hne
      rw [isHeld_cons, decide_eq_false hne.symm, Bool.false_or]
    have hitself : isHeld ((item, pool.calls) :: pool.held) item = true := by
      rw [isHeld_cons, decide_eq_true rfl, Bool.true_or]
    obtain ⟨hfree, hcount⟩ := h.change hitem _ hother
    rw [hitself, hheld] at hcount
    rw [hitself] at hfree
    refine ⟨h.nodup, hfree, ?_, h.size, hcurrent, ?_⟩
    · change pool.available - 1 =
        (pool.items.countP fun other => !isHeld ((item, pool.calls) :: pool.held) other : Nat)
      simp only [Bool.not_true, Bool.not_false, Bool.toNat_true, Bool.toNat_false] at hcount
      omega
    · exact List.nodup_cons.mpr ⟨isHeld_eq_false.mp hheld, h.holders⟩

theorem holders_giveBack (h : Stock pool) (item : α) :
    ((pool.giveBack item).held.map (·.1)).Nodup :=
  h.holders.sublist (List.filter_sublist.map _)

/-- The item goes from one call to another. -/
theorem handOver (h : Stock pool) {item : α} (hheld : isHeld pool.held item = true) (call : Nat) :
    let held := (item, call) :: (pool.giveBack item).held
    isHeld held = isHeld pool.held ∧ (held.map (·.1)).Nodup := by
  refine ⟨funext fun other => ?_, List.nodup_cons.mpr ⟨?_, h.holders_giveBack item⟩⟩
  · rw [isHeld_cons, isHeld_giveBack]
    by_cases heq : item = other
    · rw [decide_eq_true heq, Bool.true_or, ← heq, hheld]
    · rw [decide_eq_false heq, Bool.false_or, decide_eq_true heq, Bool.true_and]
  · rw [← isHeld_eq_false, isHeld_giveBack, decide_eq_false (fun h => h rfl), Bool.false_and]

/-- The item is back in the pool. -/
theorem freed (h : Stock pool) {item : α} (hitem : item ∈ pool.items)
    (hheld : isHeld pool.held item = true) :
    pool.free.set (pool.items.idxOf item) true =
        pool.items.map (fun other => !isHeld (pool.giveBack item).held other) ∧
      pool.available + 1 =
        (pool.items.countP fun other => !isHeld (pool.giveBack item).held other : Nat) := by
  have hitself : isHeld (pool.giveBack item).held item = false := by
    rw [isHeld_giveBack, decide_eq_false (fun h => h rfl), Bool.false_and]
  obtain ⟨hfree, hcount⟩ := h.change hitem (pool.giveBack item).held fun other hne => by
    rw [isHeld_giveBack, decide_eq_true hne.symm, Bool.true_and]
  rw [hitself] at hfree hcount
  rw [hheld] at hcount
  exact ⟨hfree, hcount.symm⟩

theorem giveBack (h : Stock pool) {item : α}
    (hitem : item ∈ pool.items → isHeld pool.held item = false) : Stock (pool.giveBack item) := by
  have hsame : ∀ other ∈ pool.items,
      isHeld (pool.giveBack item).held other = isHeld pool.held other := by
    intro other hother
    rw [isHeld_giveBack]
    by_cases heq : item = other
    · subst heq
      rw [hitem hother, Bool.and_false]
    · rw [decide_eq_true heq, Bool.true_and]
  refine ⟨h.nodup, ?_, ?_, h.size, h.current, h.holders_giveBack item⟩
  · rw [show (pool.giveBack item).free = pool.free from rfl, h.free]
    exact List.map_congr_left fun other hother => by rw [hsame other hother]
  · rw [show (pool.giveBack item).available = pool.available from rfl, h.available]
    exact congrArg _ (List.countP_congr fun other hother => by rw [hsame other hother])

end Stock

/-! ## Runs -/

structure Sound (pool : Pool α) : Prop extends Stock pool, Placed pool where
  looping : pool.looping = false

namespace Sound

theorem search (h : Sound pool) (hsome : pool.available ≠ 0) :
    ∃ found, pool.search pool.rounds pool.current = some found := by
  have hpos : 0 < pool.items.countP fun item => !isHeld pool.held item := by
    have := h.available
    omega
  obtain ⟨item, hitem, hfree⟩ := List.countP_pos_iff.mp hpos
  obtain ⟨i, hi, hget⟩ := List.getElem_of_mem hitem
  have hslot : (pool.items.zip pool.free)[i]? = some (item, true) := by
    rw [h.free, ← List.map_prod_left_eq_zip, List.getElem?_map, List.getElem?_eq_getElem hi, hget,
      Option.map_some, hfree]
  have hsize := h.size
  have hcurrent := h.current
  refine exists_search hslot (by omega) (by omega) ?_
  simp only [distance, rounds]
  split_ifs <;> omega

/-- What a call of `next` does. -/
theorem next_cases (h : Sound pool) (exclusive : Bool) (timeout : Option Nat) :
    (pool.items = [] ∧ pool.next exclusive timeout =
      { pool.settle pool.calls (.error ⟨"Pool is empty"⟩) with calls := pool.calls + 1 }) ∨
    (pool.available = 0 ∧ pool.next exclusive timeout =
      { pool.wait exclusive timeout with calls := pool.calls + 1 }) ∨
    ∃ item current, (item, true) ∈ pool.items.zip pool.free ∧
      (current ≤ 0 ∨ current < pool.size) ∧ pool.next exclusive timeout =
        { pool.take exclusive item current with calls := pool.calls + 1 } := by
  simp only [next]
  split_ifs with hsize havailable
  · have hlength := h.size
    exact .inl ⟨List.length_eq_zero_iff.mp (by omega), rfl⟩
  · exact .inr (.inl ⟨havailable, rfl⟩)
  · obtain ⟨⟨item, current⟩, hsearch⟩ := h.search havailable
    obtain ⟨hslot, hcurrent⟩ := search_spec hsearch
    refine .inr (.inr ⟨item, current, hslot, hcurrent, ?_⟩)
    rw [hsearch]

theorem next (h : Sound pool) (exclusive : Bool) (timeout : Option Nat) :
    Sound (pool.next exclusive timeout) := by
  rcases h.next_cases exclusive timeout with
    ⟨-, heq⟩ | ⟨-, heq⟩ | ⟨item, current, hslot, hcurrent, heq⟩
  · rw [heq]
    exact { toStock := ⟨h.nodup, h.free, h.available, h.size, h.current, h.holders⟩
            toPlaced := h.toPlaced.settle _
            looping := h.looping }
  · rw [heq]
    exact { toStock := ⟨h.nodup, h.free, h.available, h.size, h.current, h.holders⟩
            toPlaced := h.toPlaced.wait _ _
            looping := h.looping }
  · rw [heq]
    have hstock := h.toStock.take exclusive hslot hcurrent
    have hplaced := h.toPlaced.settle (.ok item)
    cases exclusive <;>
    exact { toStock := ⟨hstock.nodup, hstock.free, hstock.available, hstock.size, hstock.current,
              hstock.holders⟩
            toPlaced := ⟨hplaced.placed, hplaced.resolve, hplaced.shared⟩
            looping := h.looping }

/-- The release of a captured item. -/
theorem release_cases (h : Sound pool) {item : α} (hitem : item ∈ pool.items)
    (hfree : pool.isFree item = false) :
    (pool.queue = [] ∧ pool.step (.release item) =
      { pool.giveBack item with
        free := pool.free.set (pool.items.idxOf item) true
        available := pool.available + 1 }) ∨
    ∃ waiting queue, pool.queue = waiting :: queue ∧ pool.step (.release item) =
      { pool.giveBack item with
        queue
        timers := pool.timers.filter (· ≠ waiting.call)
        handovers := pool.handovers ++ [(waiting, item)]
        held := (item, waiting.call) :: (pool.giveBack item).held } := by
  have hindex : (pool.giveBack item).items.idxOf item ≠ (pool.giveBack item).items.length :=
    Nat.ne_of_lt (List.idxOf_lt_length_iff.mpr hitem)
  have hcaptured : ¬ (pool.giveBack item).isFree item = true := by
    rw [show (pool.giveBack item).isFree item = pool.isFree item from rfl, hfree]
    exact Bool.false_ne_true
  have hrun : ¬ pool.looping = true := by
    rw [h.looping]
    exact Bool.false_ne_true
  simp only [step, if_neg hrun, release, if_neg hindex, if_neg hcaptured]
  cases hqueue : pool.queue with
  | nil =>
    refine .inl ⟨rfl, ?_⟩
    rw [show (pool.giveBack item).queue = [] from hqueue]
    rfl
  | cons waiting queue =>
    refine .inr ⟨waiting, queue, rfl, ?_⟩
    have hresolve := h.resolve waiting (hqueue ▸ List.mem_cons_self)
    rw [show (pool.giveBack item).queue = waiting :: queue from hqueue]
    simp only [if_pos hresolve]
    rfl

/-- The release of an item that is not captured throws. -/
theorem release_error (h : Sound pool) {item : α}
    (hitem : item ∈ pool.items → pool.isFree item = true) :
    pool.step (.release item) = pool.giveBack item := by
  have hrun : ¬ pool.looping = true := by
    rw [h.looping]
    exact Bool.false_ne_true
  simp only [step, if_neg hrun, release]
  by_cases hmem : item ∈ pool.items
  · have hindex : (pool.giveBack item).items.idxOf item ≠ (pool.giveBack item).items.length :=
      Nat.ne_of_lt (List.idxOf_lt_length_iff.mpr hmem)
    have hfree : (pool.giveBack item).isFree item = true := hitem hmem
    rw [if_neg hindex, if_pos hfree]
    rfl
  · have hindex : (pool.giveBack item).items.idxOf item = (pool.giveBack item).items.length :=
      List.idxOf_eq_length hmem
    rw [if_pos hindex]
    rfl

theorem release (h : Sound pool) {item : α} (hfits : Fits pool (.release item)) :
    Sound (pool.step (.release item)) := by
  by_cases hcaptured : item ∈ pool.items ∧ pool.isFree item = false
  · obtain ⟨hitem, hfree⟩ := hcaptured
    have hheld : isHeld pool.held item = true := by
      have := h.isFree hitem
      simp_all
    obtain ⟨hqueue, heq⟩ | ⟨waiting, queue, hqueue, heq⟩ := h.release_cases hitem hfree
    · obtain ⟨hcolumn, hcount⟩ := h.freed hitem hheld
      rw [heq]
      exact { toStock := ⟨h.nodup, hcolumn, hcount, h.size, h.current, h.holders_giveBack item⟩
              toPlaced := ⟨h.placed, h.resolve, h.shared⟩
              looping := h.looping }
    · have hshared := hfits hitem hfree waiting (by rw [hqueue]; rfl)
      obtain ⟨hsame, hnodup⟩ := h.handOver hheld waiting.call
      rw [heq]
      refine { toStock := ⟨h.nodup, ?_, ?_, h.size, h.current, hnodup⟩
               toPlaced := h.toPlaced.handOver hqueue hshared item rfl rfl rfl rfl
               looping := h.looping }
      · simp only [hsame]
        exact h.free
      · simp only [hsame]
        exact h.available
  · have hfree : item ∈ pool.items → pool.isFree item = true := by
      intro hitem
      exact Bool.of_not_eq_false fun hfree => hcaptured ⟨hitem, hfree⟩
    rw [h.release_error hfree]
    refine { toStock := h.toStock.giveBack fun hitem => ?_
             toPlaced := ⟨h.placed, h.resolve, h.shared⟩
             looping := h.looping }
    have := h.isFree hitem
    simp_all

/-- Adding and removing items leaves the calls alone. -/
theorem items (h : Sound pool) {after : Pool α} (hstock : Stock after)
    (hqueue : after.queue = pool.queue) (hhandovers : after.handovers = pool.handovers)
    (hcalls : after.calls = pool.calls) (hsettled : after.settled = pool.settled)
    (hlooping : after.looping = pool.looping) : Sound after where
  toStock := hstock
  toPlaced := h.toPlaced.move hcalls
    (fun call => by simp only [places, hqueue, hhandovers, hsettled])
    (by rw [hqueue]; exact List.Subset.refl _) (by rw [hhandovers]; exact h.shared)
  looping := by rw [hlooping, h.looping]

theorem step (h : Sound pool) {event : PoolEvent α} (hfits : Fits pool event) :
    Sound (pool.step event) := by
  have hrun : ¬ pool.looping = true := by
    rw [h.looping]
    exact Bool.false_ne_true
  cases event with
  | release item => exact h.release hfits
  | capture timeout =>
    rw [Pool.step, if_neg hrun]
    exact h.next true timeout
  | next exclusive timeout =>
    rw [Pool.step, if_neg hrun]
    exact h.next exclusive timeout
  | add item =>
    rw [Pool.step, if_neg hrun]
    by_cases hitem : item ∈ pool.items
    · simp only [Pool.add, if_pos hitem]
      exact h
    · have hstock := h.toStock.add hitem (hfits.resolve_left hitem) (if_neg hitem)
      simp only [Pool.add, if_neg hitem]
      exact h.items hstock rfl rfl rfl rfl rfl
  | remove item =>
    rw [Pool.step, if_neg hrun]
    cases hremove : pool.remove item with
    | error error => exact h
    | ok after =>
      have hstock := h.toStock.remove hremove
      simp only [Pool.remove] at hremove
      split at hremove
      · cases hremove
      split at hremove
      · cases hremove
      cases hremove
      exact h.items hstock rfl rfl rfl rfl rfl
  | timeout call =>
    simp only [Pool.step, if_neg hrun]
    split_ifs with harmed
    · obtain ⟨waiting, hhead, rfl⟩ := Option.map_eq_some_iff.mp (hfits harmed)
      obtain ⟨queue, hqueue⟩ := List.head?_eq_some_iff.mp hhead
      exact { toStock := ⟨h.nodup, h.free, h.available, h.size, h.current, h.holders⟩
              toPlaced := h.toPlaced.expire hqueue
              looping := h.looping }
    · exact h
  | handOver =>
    simp only [Pool.step, if_neg hrun]
    split
    · exact h
    · next waiting item handovers hhandovers =>
      have hshared : ¬ waiting.exclusive = true := by
        rw [h.shared (waiting, item) (hhandovers ▸ List.mem_cons_self)]
        exact Bool.false_ne_true
      rw [resolve, if_neg hshared]
      exact { toStock := ⟨h.nodup, h.free, h.available, h.size, h.current, h.holders⟩
              toPlaced := h.toPlaced.deliver hhandovers _
              looping := h.looping }

theorem empty (timeout : Option Nat) : Sound ({ timeout } : Pool α) where
  toStock := ⟨List.nodup_nil, rfl, rfl, rfl, .inl (Int.le_refl 0), List.nodup_nil⟩
  toPlaced := ⟨by simp [places], by simp, by simp⟩
  looping := rfl

theorem accounted (h : Sound pool) : Accounted pool where
  available := h.count
  free item hitem := by
    rw [h.isFree hitem]
    cases isHeld pool.held item <;> decide
  holders := h.holders
  placed := h.placed
  waiting := h.resolve
  returns := h.looping

theorem taken (h : Sound pool) (exclusive : Bool) (timeout : Option Nat) :
    Taken pool (pool.next exclusive timeout) exclusive := by
  rcases h.next_cases exclusive timeout with
    ⟨hempty, heq⟩ | ⟨havailable, heq⟩ | ⟨item, current, hslot, -, heq⟩
  · rw [heq]
    refine ⟨fun item hsettled => ?_, fun item hsettled => ?_, fun hne => absurd hempty hne⟩ <;>
    cases hsettled
  · have hnone : ∀ item, (pool.next exclusive timeout).settled ≠
        (pool.calls, .ok item) :: pool.settled := by
      intro item hsettled
      rw [heq] at hsettled
      exact List.cons_ne_self _ _ hsettled.symm
    refine ⟨fun item h => absurd h (hnone item), fun item h => absurd h (hnone item), ?_⟩
    intro hne hfree
    have hall : pool.items.countP (fun item => !isHeld pool.held item) = pool.items.length :=
      List.countP_eq_length.mpr fun item hitem => by rw [hfree item hitem]; rfl
    have hpos := List.length_pos_iff.mpr hne
    have hcount := h.available
    omega
  · obtain ⟨hitem, hheld⟩ := h.of_slot hslot
    have hsettled : (pool.next exclusive timeout).settled =
        (pool.calls, .ok item) :: pool.settled := by
      rw [heq]
      cases exclusive <;> rfl
    have hsame : ∀ other, (pool.next exclusive timeout).settled =
        (pool.calls, .ok other) :: pool.settled → other = item := by
      intro other hother
      rw [hsettled] at hother
      cases hother
      rfl
    refine ⟨fun other hother => hsame other hother ▸ hheld, ?_, fun _ _ => ⟨item, hitem, hsettled⟩⟩
    rintro other hother rfl
    rw [hsame other hother, heq]
    rfl

theorem handled (h : Sound pool) {event : PoolEvent α} (hfits : Fits pool event) :
    Handled pool event := by
  have hrun : ¬ pool.looping = true := by
    rw [h.looping]
    exact Bool.false_ne_true
  cases event with
  | add item => trivial
  | remove item => trivial
  | capture timeout =>
    simp only [Handled, Pool.step, if_neg hrun]
    exact h.taken true timeout
  | next exclusive timeout =>
    simp only [Handled, Pool.step, if_neg hrun]
    exact h.taken exclusive timeout
  | timeout call =>
    intro harmed
    obtain ⟨waiting, hhead, rfl⟩ := Option.map_eq_some_iff.mp (hfits harmed)
    obtain ⟨queue, hqueue⟩ := List.head?_eq_some_iff.mp hhead
    simp only [Pool.step, if_neg hrun, if_pos harmed]
    exact ⟨waiting, rfl, by rw [h.queue_expire hqueue, hqueue], rfl, rfl⟩
  | handOver =>
    intro waiting item handovers hhandovers
    have hshared : ¬ waiting.exclusive = true := by
      rw [h.shared (waiting, item) (hhandovers ▸ List.mem_cons_self)]
      exact Bool.false_ne_true
    simp only [Pool.step, if_neg hrun, hhandovers, resolve, if_neg hshared]
    exact ⟨rfl, rfl⟩
  | release item =>
    intro hitem hfree
    have hafter := h.release hfits
    obtain ⟨hqueue, heq⟩ | ⟨waiting, queue, hqueue, heq⟩ := h.release_cases hitem hfree
    · rw [heq] at hafter ⊢
      refine .inl ⟨hqueue, hqueue, rfl, ?_⟩
      rw [hafter.isFree hitem, isHeld_giveBack, decide_eq_false (fun h => h rfl)]
      rfl
    · rw [heq]
      exact .inr ⟨waiting, hqueue, h.resolve waiting (hqueue ▸ List.mem_cons_self), rfl, hfree⟩

end Sound

end Pool

end Neemata.Common
