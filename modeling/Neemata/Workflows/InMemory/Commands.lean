import Neemata.Lib.Ledger
import Neemata.Workflows.InMemory.Frame
import Neemata.Workflows.InMemory.Sound

/-!
# Commands of the queues

A command of a queue is an `Entry`: queued or claimed. Every operation carries each entry over to
one entry of the same id, but for an entry that an acknowledgement or a deletion removes and one
that an enqueue adds (`continue_change`, `attempt_change`); `Next` says what it does to the entry.
-/

namespace Neemata.Workflows

variable {V α : Type}

/-! ## Entries -/

inductive Entry (α : Type)
  | queued (item : QueueItem α)
  | claimed (item : ClaimedQueueItem α)

namespace Entry

def item : Entry α → QueueItem α
  | .queued item => item
  | .claimed item => item.toQueueItem

def id (e : Entry α) : String := e.item.id

/-- The lease token of a claimed entry. -/
def lease : Entry α → Option String
  | .queued _ => none
  | .claimed item => some item.leaseToken

end Entry

def CommandQueue.entries (q : CommandQueue α) : Multiset (Entry α) :=
  (q.queued : Multiset (QueueItem α)).map .queued +
    (q.claimed.values : Multiset (ClaimedQueueItem α)).map .claimed

/-! ## Requests -/

/-- What an operation asks of one queue. -/
inductive Request (V α : Type)
  | idle
  | enqueue
  | claim (eligible : α → Bool)
  | ack (claim : Claimed α)
  | release (claim : Claimed α) (options : CommandReleaseOptions V)
  | requeueDead (commandId : String)
  | deleteRuns
  | prune (olderThan : Nat)
  | deleteUnclaimed (runId : String)

def Claimed.holds (claim : Claimed α) (item : ClaimedQueueItem α) : Bool :=
  item.id = claim.id && item.leaseToken = claim.leaseToken

namespace Request

/-- The request ends a delivery of the entry as a failure: a release that says why, or a claim
by a worker that may take the expired lease over. -/
def fails (date : Nat) : Request V α → Entry α → Bool
  | .release held options, .claimed item => held.holds item && !options.isPlain
  | .claim eligible, .claimed item => item.leaseExpiresAt ≤ date && eligible item.payload
  | _, _ => false

def revives : Request V α → Entry α → Bool
  | .requeueDead commandId, .queued item => item.id = commandId && item.isDead
  | _, _ => false

/-- The request takes the entry away: it acknowledges it with the current lease, or it is a
deletion that covers it. `runGone` says whether the run of the command is no longer stored. -/
def removes (runGone : Bool) (runId : α → String) : Request V α → Entry α → Bool
  | .ack held, .claimed item => held.holds item
  | .deleteRuns, _ => runGone
  | .prune olderThan, .queued item => runGone || Mem.isSweepable olderThan item
  | .prune _, .claimed _ => runGone
  | .deleteUnclaimed unclaimed, .queued item => runId item.payload = unclaimed
  | _, _ => false

end Request

/-- One of the two queues of the runtime. -/
structure QueueKind (V α : Type) where
  queue : Mem V → CommandQueue α
  request : Op V → Request V α
  runId : α → String
  labels : List String

def continueKind : QueueKind V ContinueRunCommand where
  queue := Mem.continueQueue
  request
    | .executor (.enqueue _ _) => .enqueue
    | .executor (.claimContinue worker) => .claim (Mem.isEligibleContinue worker)
    | .executor (.ackContinue claim) => .ack claim
    | .executor (.releaseContinue claim options) => .release claim options
    | .store (.requeueDeadCommand commandId) => .requeueDead commandId
    | .store (.deleteRun _) => .deleteRuns
    | .store (.pruneTerminalRuns params) => .prune params.olderThan
    | _ => .idle
  runId := ContinueRunCommand.runId
  labels := ["continue"]

def attemptKind : QueueKind V (AttemptCommand V) where
  queue := Mem.attemptQueue
  request
    | .executor (.dispatch _ _) => .enqueue
    | .executor (.claimAttempt worker) => .claim (Mem.isEligibleAttempt worker)
    | .executor (.ackAttempt claim) => .ack claim
    | .executor (.releaseAttempt claim options) => .release claim options
    | .executor (.deleteUnclaimed runId) => .deleteUnclaimed runId
    | .store (.requeueDeadCommand commandId) => .requeueDead commandId
    | .store (.deleteRun _) => .deleteRuns
    | .store (.pruneTerminalRuns params) => .prune params.olderThan
    | _ => .idle
  runId := AttemptCommand.runId
  labels := ["activity-command", "task-command"]

/-- What a request does to an entry that it does not remove. -/
structure Next (maxDeliveries : Int) (date : Nat) (request : Request V α) (a b : Entry α) :
    Prop where
  id : b.id = a.id
  payload : request ≠ .enqueue → b.item.payload = a.item.payload
  failed : request.fails date a → a.item.isDead = false →
    b.item.deliveryCount = a.item.deliveryCount + 1 ∧
      b.item.isDead = decide (maxDeliveries ≤ a.item.deliveryCount + 1)
  revived : request.revives a → b.item.deliveryCount = 0 ∧ b.item.isDead = false
  kept : request.fails date a = false → request.revives a = false →
    b.item.deliveryCount = a.item.deliveryCount ∧ b.item.isDead = a.item.isDead
  live : (a.lease.isSome → a.item.isDead = false) → b.lease.isSome → b.item.isDead = false

/-- A command as it is enqueued. -/
structure Enqueued (labels : List String) (n n' : Nat) (e : Entry α) : Prop where
  id : ∃ label ∈ labels, e.id = freshId label n
  next : n < n'
  queued : e.lease = none
  fresh : e.item.deliveryCount = 0 ∧ e.item.isDead = false

/-- The step from `m` to `m'` serves the request. -/
structure Serves (kind : QueueKind V α) (request : Request V α) (m m' : Mem V) : Prop where
  change : Ledger.Change (Next m.maxDeliveries m.now.1 request)
    (fun e => request.removes (m'.runs.get? (kind.runId e.item.payload)).isNone kind.runId e)
    (fun e => request matches .enqueue ∧ Enqueued kind.labels m.nextId m'.nextId e)
    (kind.queue m).entries (kind.queue m').entries
  keyed : (kind.queue m').claimed.All fun key item => item.id = key

/-- What the operations keep of a queue. -/
structure Kept (kind : QueueKind V α) (m : Mem V) : Prop where
  nodup : ((kind.queue m).entries.map Entry.id).Nodup
  keyed : (kind.queue m).claimed.All fun key item => item.id = key
  minted : ∀ e ∈ (kind.queue m).entries, ∃ label ∈ kind.labels, Minted label m.nextId e.id
  live : ∀ e ∈ (kind.queue m).entries, e.lease.isSome → e.item.isDead = false

/-! ## Helpers of the queues -/

/-- Keeping the better of two candidates ends with one of them. -/
private theorem foldl_choose_mem {β : Type} (better : β → β → Bool) (first : β) (rest : List β) :
    rest.foldl (fun best candidate => if better candidate best then candidate else best) first ∈
      first :: rest := by
  induction rest generalizing first with
  | nil => exact List.mem_cons_self
  | cons next rest ih =>
    rw [List.foldl_cons]
    split
    · exact List.mem_cons_of_mem _ (ih next)
    · obtain h | h := List.mem_cons.mp (ih first)
      · rw [h]
        exact List.mem_cons_self
      · exact List.mem_cons_of_mem _ (List.mem_cons_of_mem _ h)

theorem claimCandidate_eq_some {queue : List (QueueItem α)} {isMatch : QueueItem α → Bool}
    {isLess : Option (QueueItem α → QueueItem α → Bool)} {item : QueueItem α} {index : Nat}
    (h : claimCandidate queue isMatch isLess = some (item, index)) :
    queue[index]? = some item ∧ item.isDead = false ∧ isMatch item = true := by
  unfold claimCandidate at h
  split at h
  · cases h
  · next first rest hlist =>
    have hmem : (item, index) ∈ first :: rest := by
      cases isLess with
      | none => exact Option.some.inj h ▸ List.mem_cons_self
      | some isLess =>
        rw [← Option.some.inj h]
        exact foldl_choose_mem (fun candidate best => isLess candidate.1 best.1) first rest
    rw [← hlist] at hmem
    obtain ⟨hget, hok⟩ := List.mem_filter.mp hmem
    simp only [Bool.and_eq_true, Bool.not_eq_true'] at hok
    exact ⟨List.mem_zipIdx_iff_getElem?.mp hget, hok⟩

theorem claimQueued_eq_some {queue rest : List (QueueItem α)} {isMatch : QueueItem α → Bool}
    {isLess : Option (QueueItem α → QueueItem α → Bool)} {item : QueueItem α}
    (h : claimQueued queue isMatch isLess = some (item, rest)) :
    item.isDead = false ∧ isMatch item = true ∧
      (queue : Multiset (QueueItem α)) = item ::ₘ (rest : Multiset (QueueItem α)) := by
  obtain ⟨⟨_, index⟩, hcandidate, heq⟩ := Option.map_eq_some_iff.mp h
  obtain ⟨rfl, rfl⟩ := Prod.mk.inj heq
  obtain ⟨hget, hlive, hmatch⟩ := claimCandidate_eq_some hcandidate
  exact ⟨hlive, hmatch, Ledger.coe_eraseIdx hget⟩

/-- A queue with one item found by `p` and changed. -/
theorem modify_found {queue : List (QueueItem α)} {p : QueueItem α → Bool} {index : Nat}
    (f : QueueItem α → QueueItem α) (h : queue.findIdx? p = some index) :
    ∃ (item : QueueItem α) (rest : Multiset (QueueItem α)), p item = true ∧
      (queue : Multiset (QueueItem α)) = item ::ₘ rest ∧
      (queue.modify index f : Multiset (QueueItem α)) = f item ::ₘ rest := by
  obtain ⟨hindex, hp, -⟩ := List.findIdx?_eq_some_iff_getElem.mp h
  have hget := List.getElem?_eq_getElem hindex
  exact ⟨_, _, hp, Ledger.coe_eraseIdx hget, Ledger.coe_modify f hget⟩

theorem requeueDead_eq_some {queue queue' : List (QueueItem α)} {commandId : String}
    (h : requeueDead queue commandId = some queue') :
    ∃ (item : QueueItem α) (rest : Multiset (QueueItem α)),
      item.id = commandId ∧ item.isDead = true ∧
      (queue : Multiset (QueueItem α)) = item ::ₘ rest ∧
      (queue' : Multiset (QueueItem α)) =
        { item with runAt := none, deliveryCount := 0, lastError := none, deadAt := none,
                    reapedAt := none } ::ₘ rest := by
  unfold requeueDead at h
  split at h
  · cases h
  · next hindex =>
    cases h
    obtain ⟨item, rest, hp, hqueue, hqueue'⟩ := modify_found _ hindex
    simp only [Bool.and_eq_true, decide_eq_true_eq] at hp
    exact ⟨item, rest, hp.1, hp.2, hqueue, hqueue'⟩

theorem requeueDead_eq_none {queue : List (QueueItem α)} {commandId : String}
    (h : requeueDead queue commandId = none) :
    ∀ item ∈ queue, (item.id = commandId && item.isDead) = false := by
  intro item hitem
  unfold requeueDead at h
  split at h
  · next hnone => simpa using List.findIdx?_eq_none_iff.mp hnone item hitem
  · cases h

theorem markReaped_eq_some {queue queue' : List (QueueItem α)} {commandId : String} {date : Nat}
    (h : markReaped queue commandId date = some queue') :
    ∃ (item : QueueItem α) (rest : Multiset (QueueItem α)),
      (queue : Multiset (QueueItem α)) = item ::ₘ rest ∧
      (queue' : Multiset (QueueItem α)) = { item with reapedAt := some date } ::ₘ rest := by
  unfold markReaped at h
  split at h
  · cases h
  · next hindex =>
    cases h
    obtain ⟨item, rest, -, hqueue, hqueue'⟩ := modify_found _ hindex
    exact ⟨item, rest, hqueue, hqueue'⟩

namespace Mem

/-- Only the monotone clock has moved. -/
def Ticked (m m' : Mem V) : Prop := ∃ date, m' = { m with lastTimestamp := date }

variable {m m' : Mem V}

theorem Ticked.refl (m : Mem V) : Ticked m m := ⟨_, rfl⟩

theorem Ticked.trans {m₁ m₂ m₃ : Mem V} (h : Ticked m₁ m₂) (h' : Ticked m₂ m₃) :
    Ticked m₁ m₃ := by
  obtain ⟨date, rfl⟩ := h
  obtain ⟨date', rfl⟩ := h'
  exact ⟨date', rfl⟩

theorem Ticked.apparatus (h : Ticked m m') : m'.apparatus = m.apparatus := by
  obtain ⟨date, rfl⟩ := h
  rfl

theorem Ticked.nextId (h : Ticked m m') : m'.nextId = m.nextId := by
  obtain ⟨date, rfl⟩ := h
  rfl

theorem now_ticked (m : Mem V) : Ticked m m.now.2 := ⟨_, rfl⟩

/-- `item'` is `item` after one more failed delivery. -/
structure Failed (maxDeliveries : Int) (item item' : QueueItem α) : Prop where
  id : item'.id = item.id
  payload : item'.payload = item.payload
  deliveryCount : item'.deliveryCount = item.deliveryCount + 1
  isDead : item.isDead = false →
    item'.isDead = decide (maxDeliveries ≤ item.deliveryCount + 1)

theorem countFailedDelivery_spec (m : Mem V) (item : QueueItem α) (error : StoredError) :
    Failed m.maxDeliveries item (m.countFailedDelivery item error).1 ∧
      Ticked m (m.countFailedDelivery item error).2 := by
  unfold countFailedDelivery
  dsimp only
  split
  · next hmax =>
    refine ⟨⟨rfl, rfl, rfl, fun _ => ?_⟩, m.now_ticked⟩
    have hmax : m.maxDeliveries ≤ item.deliveryCount + 1 := by exact_mod_cast hmax
    simp [QueueItem.isDead, hmax]
  · next hmax =>
    refine ⟨⟨rfl, rfl, rfl, fun hlive => ?_⟩, .refl m⟩
    have hmax : ¬ m.maxDeliveries ≤ item.deliveryCount + 1 := by exact_mod_cast hmax
    simp only [hmax, decide_false]
    exact hlive

theorem releaseQueueItem_spec [JsRuntime V] (m : Mem V) (item : QueueItem α)
    (options : CommandReleaseOptions V) :
    Ticked m (m.releaseQueueItem item options).2 ∧
    (options.isPlain = true → ∃ runAt,
      (m.releaseQueueItem item options).1 = { item with runAt }) ∧
    (options.isPlain = false →
      Failed m.maxDeliveries item (m.releaseQueueItem item options).1) := by
  unfold releaseQueueItem
  split
  · next hplain => exact ⟨.refl m, fun _ => ⟨_, rfl⟩, fun h => absurd (h.symm.trans hplain) (by simp)⟩
  · next hplain =>
    obtain ⟨hfailed, hticked⟩ := m.countFailedDelivery_spec item
      (toStoredError (options.error.getD unroutableError))
    refine ⟨hticked, fun h => absurd h hplain, fun _ => ?_⟩
    exact ⟨hfailed.id, hfailed.payload, hfailed.deliveryCount, hfailed.isDead⟩

/-! ## Leases taken over -/

/-- A claimed item that a claim at `date` gives back to the queue. -/
def isStale (date : Nat) (eligible : α → Bool) (item : ClaimedQueueItem α) : Bool :=
  item.leaseExpiresAt ≤ date && eligible item.payload

/-- The fold of `reclaimExpiredLeases`: stale entries of `l` leave the map, and each comes back
to the queue with its failed delivery counted. -/
private theorem foldl_reclaimOne (date : Nat) (eligible : α → Bool)
    (l : List (String × ClaimedQueueItem α)) (claimed : OrdMap String (ClaimedQueueItem α))
    (queue : List (QueueItem α)) (m : Mem V) :
    let result := l.foldl (reclaimOne date eligible) (claimed, queue, m)
    (∀ key, result.1.get? key =
      (claimed.get? key).filter fun _ => !l.any fun e => e.1 = key && isStale date eligible e.2) ∧
    (∃ released, result.2.1 = queue ++ released ∧
      List.Forall₂ (fun e released => Failed m.maxDeliveries e.2.toQueueItem released)
        (l.filter fun e => isStale date eligible e.2) released) ∧
    Ticked m result.2.2 := by
  induction l generalizing claimed queue m with
  | nil =>
    refine ⟨fun key => ?_, ⟨[], by simp, .nil⟩, .refl m⟩
    change claimed.get? key = _
    cases claimed.get? key <;> rfl
  | cons e l ih =>
    rw [List.foldl_cons]
    by_cases hstale : isStale date eligible e.2 = true
    · have hcount := m.countFailedDelivery_spec e.2.toQueueItem
        (e.2.lastError.getD commandLeaseExpiredError)
      obtain ⟨counted, m', hcounted⟩ : ∃ counted m', m.countFailedDelivery e.2.toQueueItem
          (e.2.lastError.getD commandLeaseExpiredError) = (counted, m') := ⟨_, _, rfl⟩
      rw [hcounted] at hcount
      obtain ⟨hfailed, hticked⟩ := hcount
      have hstep : reclaimOne date eligible (claimed, queue, m) e =
          (claimed.erase e.1, queue ++ [counted], m') := by
        simp only [isStale, Bool.and_eq_true, decide_eq_true_eq] at hstale
        simp [reclaimOne, hstale.2, Nat.not_lt.mpr hstale.1, hcounted]
      rw [hstep]
      obtain ⟨hget, ⟨released, hqueue, hreleased⟩, hrest⟩ :=
        ih (claimed.erase e.1) (queue ++ [counted]) m'
      refine ⟨fun key => ?_, ⟨counted :: released, ?_, ?_⟩, hticked.trans hrest⟩
      · rw [hget, OrdMap.get?_erase]
        by_cases hkey : key = e.1
        · simp [hkey, hstale]
        · simp [hkey, Ne.symm hkey]
      · rw [hqueue, List.append_assoc, List.singleton_append]
      · rw [List.filter_cons, if_pos hstale]
        obtain ⟨date', rfl⟩ := hticked
        exact .cons hfailed hreleased
    · have hstep : reclaimOne date eligible (claimed, queue, m) e = (claimed, queue, m) := by
        simp only [isStale, Bool.and_eq_true, decide_eq_true_eq, not_and_or] at hstale
        simp only [reclaimOne]
        rw [if_pos (by simpa using hstale)]
      rw [hstep]
      obtain ⟨hget, hqueue, hrest⟩ := ih claimed queue m
      refine ⟨fun key => ?_, ?_, hrest⟩
      · rw [hget]
        simp [hstale]
      · rwa [List.filter_cons_of_neg (by simpa using hstale)]

/-- What a claim does to an entry before it takes one: a stale claimed one is queued again. -/
inductive Reclaimed (maxDeliveries : Int) (date : Nat) (eligible : α → Bool) :
    Entry α → Entry α → Prop
  | queued (item : QueueItem α) : Reclaimed maxDeliveries date eligible (.queued item) (.queued item)
  | held {item : ClaimedQueueItem α} (h : isStale date eligible item = false) :
    Reclaimed maxDeliveries date eligible (.claimed item) (.claimed item)
  | stale {item : ClaimedQueueItem α} {released : QueueItem α} (h : isStale date eligible item = true)
    (failed : Failed maxDeliveries item.toQueueItem released) :
    Reclaimed maxDeliveries date eligible (.claimed item) (.queued released)

theorem reclaimExpiredLeases_spec (m : Mem V) (q : CommandQueue α) (eligible : α → Bool) :
    let result := m.reclaimExpiredLeases q.claimed q.queued eligible
    Multiset.Rel (Reclaimed m.maxDeliveries m.now.1 eligible) q.entries
      (CommandQueue.entries ⟨result.2.1, result.1⟩) ∧
    (∀ key item, result.1.get? key = some item → q.claimed.get? key = some item) ∧
    Ticked m result.2.2 := by
  intro result
  obtain ⟨hget, ⟨released, hqueue, hreleased⟩, hticked⟩ := foldl_reclaimOne m.now.1 eligible
    q.claimed.entries q.claimed q.queued m.now.2
  -- what is left of the map is its part that is not stale
  have hclaimed : ∀ key, result.1.get? key =
      (q.claimed.filter fun _ item => !isStale m.now.1 eligible item).get? key := by
    intro key
    refine (hget key).trans ?_
    rw [OrdMap.get?_filter]
    cases hitem : q.claimed.get? key with
    | none => rfl
    | some item =>
      have hany : (q.claimed.entries.any fun e =>
          e.1 = key && isStale m.now.1 eligible e.2) = isStale m.now.1 eligible item := by
        rw [Bool.eq_iff_iff, List.any_eq_true]
        constructor
        · rintro ⟨⟨key', item'⟩, hmem, hstale⟩
          simp only [Bool.and_eq_true, decide_eq_true_eq] at hstale
          obtain ⟨rfl, hstale⟩ := hstale
          have hget' := OrdMap.get?_eq_some_iff.mpr hmem
          rwa [← Option.some.inj (hget'.symm.trans hitem)]
        · intro hstale
          exact ⟨_, OrdMap.get?_eq_some_iff.mp hitem, by simp [hstale]⟩
      simp only [Option.filter, hany]
  refine ⟨?_, fun key item hitem => ?_, m.now_ticked.trans hticked⟩
  · have hvalues : (result.1.values : Multiset (ClaimedQueueItem α)) =
        (q.claimed.values.filter fun item => !isStale m.now.1 eligible item : List _) := by
      rw [Multiset.coe_eq_coe.mpr (OrdMap.values_perm_of_get?_eq hclaimed)]
      simp only [OrdMap.values, OrdMap.filter, List.filter_map]
      rfl
    have hsplit : (q.claimed.values : Multiset (ClaimedQueueItem α)) =
        ((q.claimed.entries.filter fun e => isStale m.now.1 eligible e.2 : List _) :
          Multiset (String × ClaimedQueueItem α)).map Prod.snd +
        (q.claimed.values.filter fun item => !isStale m.now.1 eligible item : List _) := by
      rw [Multiset.map_coe, Multiset.coe_add, Multiset.coe_eq_coe]
      refine (List.filter_append_perm (isStale m.now.1 eligible) _).symm.trans (.append_right _ ?_)
      rw [OrdMap.values, List.filter_map]
      rfl
    have hqueued : ((result.2.1 : List _) : Multiset (QueueItem α)) = ↑q.queued + ↑released := by
      rw [Multiset.coe_add]
      exact congrArg _ hqueue
    unfold CommandQueue.entries
    dsimp only
    rw [hvalues, hqueued, hsplit, Multiset.map_add, Multiset.map_add, ← Multiset.add_assoc]
    refine .add (.add (Multiset.rel_refl_of_refl_on fun e he => ?_) ?_)
      (Multiset.rel_refl_of_refl_on fun e he => ?_)
    · obtain ⟨item, -, rfl⟩ := Multiset.mem_map.mp he
      exact .queued item
    · rw [Multiset.map_map, Multiset.rel_map]
      refine (Ledger.rel_coe hreleased).mono fun e he released _ hfailed => ?_
      exact .stale (List.mem_filter.mp (Multiset.mem_coe.mp he)).2 hfailed
    · obtain ⟨item, hitem, rfl⟩ := Multiset.mem_map.mp he
      have hheld := (List.mem_filter.mp (Multiset.mem_coe.mp hitem)).2
      exact .held (by simpa using hheld)
  · rw [hclaimed, OrdMap.get?_filter] at hitem
    exact (Option.filter_eq_some_iff.mp hitem).1

end Mem

end Neemata.Workflows
