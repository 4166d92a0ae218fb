import Mathlib.Algebra.Order.Group.Multiset
import Neemata.Workflows.InMemory.Commands

/-!
# Conservation of commands

Every operation serves the request it makes to each queue (`continue_serves`, `attempt_serves`),
and with that every history keeps the queues in order (`kept_after`): no id occurs twice, and a
claimed command is not dead.
-/

namespace Neemata.Workflows

variable {V α : Type} {kind : QueueKind V α} {request : Request V α} {m m' : Mem V}

/-! ## Shapes of a step -/

namespace Next

variable {maxDeliveries : Int} {date : Nat} {a b : Entry α}

theorem refl (hfails : request.fails date a = false) (hrevives : request.revives a = false) :
    Next maxDeliveries date request a a where
  id := rfl
  payload _ := rfl
  failed h := absurd (h.symm.trans hfails) (by simp)
  revived h := absurd (h.symm.trans hrevives) (by simp)
  kept _ _ := ⟨rfl, rfl⟩
  live h := h

/-- The entry moves or changes elsewhere, its deliveries are not touched. -/
theorem of_item (hfails : request.fails date a = false) (hrevives : request.revives a = false)
    (hid : b.item.id = a.item.id)
    (hpayload : request ≠ .enqueue → b.item.payload = a.item.payload) (hcount : b.item.deliveryCount = a.item.deliveryCount)
    (hdead : b.item.deadAt = a.item.deadAt)
    (hlive : (a.lease.isSome → a.item.isDead = false) → b.lease.isSome → a.item.isDead = false) :
    Next maxDeliveries date request a b where
  id := hid
  payload := hpayload
  failed h := absurd (h.symm.trans hfails) (by simp)
  revived h := absurd (h.symm.trans hrevives) (by simp)
  kept _ _ := ⟨hcount, by simp only [QueueItem.isDead, hdead]⟩
  live h h' := by simpa only [QueueItem.isDead, hdead] using hlive h h'

end Next

theorem Kept.eq_of_id (h : Kept kind m) {a b : Entry α} (ha : a ∈ (kind.queue m).entries)
    (hb : b ∈ (kind.queue m).entries) (hid : a.id = b.id) : a = b :=
  Ledger.eq_of_key_eq h.nodup ha hb hid

namespace Serves

/-- The queue is left alone and the request touches none of its entries. -/
theorem of_queue_eq (h : Kept kind m) (hqueue : kind.queue m' = kind.queue m)
    (hidle : ∀ e ∈ (kind.queue m).entries,
      request.fails m.now.1 e = false ∧ request.revives e = false) :
    Serves kind request m m' where
  change := by
    rw [hqueue]
    refine .carry (Multiset.rel_refl_of_refl_on fun e he => ?_)
    exact .refl (hidle e he).1 (hidle e he).2
  keyed := by
    rw [hqueue]
    exact h.keyed

/-- One entry changes; the request concerns no other id. -/
theorem replace (h : Kept kind m) {a b : Entry α} {rest : Multiset (Entry α)}
    (hbefore : (kind.queue m).entries = a ::ₘ rest)
    (hafter : (kind.queue m').entries = b ::ₘ rest)
    (hnext : Next m.maxDeliveries m.now.1 request a b)
    (hother : ∀ e : Entry α, e.id ≠ a.id →
      request.fails m.now.1 e = false ∧ request.revives e = false)
    (keyed : (kind.queue m').claimed.All fun key item => item.id = key) :
    Serves kind request m m' where
  change := by
    rw [hbefore, hafter]
    refine .carry (Ledger.rel_replace hnext fun e he => ?_)
    have hnodup := h.nodup
    rw [hbefore, Multiset.map_cons, Multiset.nodup_cons] at hnodup
    have hne : e.id ≠ a.id := fun hid => hnodup.1 (Multiset.mem_map.mpr ⟨e, he, hid⟩)
    exact .refl (hother e hne).1 (hother e hne).2
  keyed := keyed

/-- Some entries leave and the others stay as they are. -/
theorem leave (hidle : ∀ e, request.fails m.now.1 e = false ∧ request.revives e = false)
    {left : Multiset (Entry α)} (hbefore : (kind.queue m).entries = (kind.queue m').entries + left)
    (hleft : ∀ e ∈ left,
      request.removes (m'.runs.get? (kind.runId e.item.payload)).isNone kind.runId e)
    (keyed : (kind.queue m').claimed.All fun key item => item.id = key) :
    Serves kind request m m' where
  change := by
    rw [hbefore]
    refine .leave (Multiset.rel_refl_of_refl_on fun e _ => ?_) hleft
    exact .refl (hidle e).1 (hidle e).2
  keyed := keyed

end Serves

/-! ## Entries of a changed queue -/

namespace CommandQueue

variable {q : CommandQueue α}

theorem mem_entries {e : Entry α} : e ∈ q.entries ↔
    (∃ item ∈ q.queued, e = .queued item) ∨ ∃ item ∈ q.claimed.values, e = .claimed item := by
  simp [entries, eq_comm]

theorem claimed_mem {key : String} {item : ClaimedQueueItem α}
    (h : q.claimed.get? key = some item) : .claimed item ∈ q.entries :=
  mem_entries.mpr (.inr ⟨item, OrdMap.mem_values_of_get? h, rfl⟩)

/-- The entries of a queue without one that is queued. -/
theorem entries_of_queued {queued : List (QueueItem α)} {item : QueueItem α}
    {rest : Multiset (QueueItem α)} (h : (queued : Multiset (QueueItem α)) = item ::ₘ rest)
    (claimed : OrdMap String (ClaimedQueueItem α)) :
    entries ⟨queued, claimed⟩ = .queued item ::ₘ
      (rest.map .queued + (claimed.values : Multiset (ClaimedQueueItem α)).map .claimed) := by
  simp only [entries, h, Multiset.map_cons, Multiset.cons_add]

/-- The entries of a queue without one that is claimed. -/
theorem entries_of_claimed {claimed : OrdMap String (ClaimedQueueItem α)}
    {item : ClaimedQueueItem α} {rest : List (ClaimedQueueItem α)}
    (h : claimed.values.Perm (item :: rest)) (queued : List (QueueItem α)) :
    entries ⟨queued, claimed⟩ = .claimed item ::ₘ
      ((queued : Multiset (QueueItem α)).map .queued +
        (rest : Multiset (ClaimedQueueItem α)).map .claimed) := by
  have hcons : (claimed.values : Multiset (ClaimedQueueItem α)) = item ::ₘ ↑rest :=
    Multiset.coe_eq_coe.mpr h
  simp only [entries, hcons, Multiset.map_cons, Multiset.add_cons]

theorem entries_append (queued : List (QueueItem α)) (item : QueueItem α)
    (claimed : OrdMap String (ClaimedQueueItem α)) :
    entries ⟨queued ++ [item], claimed⟩ = .queued item ::ₘ entries ⟨queued, claimed⟩ := by
  have hcons : ((queued ++ [item] : List _) : Multiset (QueueItem α)) = item ::ₘ ↑queued :=
    Multiset.coe_eq_coe.mpr (List.perm_append_singleton _ _)
  simp only [entries, hcons, Multiset.map_cons, Multiset.cons_add]

theorem entries_filter (p : QueueItem α → Bool) (p' : ClaimedQueueItem α → Bool) :
    q.entries = entries ⟨q.queued.filter p, q.claimed.filter fun _ item => p' item⟩ +
      (((q.queued.filter fun item => !p item : List _) : Multiset (QueueItem α)).map .queued +
        ((q.claimed.values.filter fun item => !p' item : List _) :
          Multiset (ClaimedQueueItem α)).map .claimed) := by
  have hqueued : (q.queued : Multiset (QueueItem α)) =
      (q.queued.filter p : List _) + (q.queued.filter fun item => !p item : List _) := by
    rw [Multiset.coe_add]
    exact Multiset.coe_eq_coe.mpr (List.filter_append_perm p _).symm
  have hclaimed : (q.claimed.values : Multiset (ClaimedQueueItem α)) =
      ((q.claimed.filter fun _ item => p' item).values : List _) +
        (q.claimed.values.filter fun item => !p' item : List _) := by
    rw [Multiset.coe_add]
    have hvalues : (q.claimed.filter fun _ item => p' item).values =
        q.claimed.values.filter p' := by
      simp only [OrdMap.values, OrdMap.filter, List.filter_map]
      rfl
    rw [hvalues]
    exact Multiset.coe_eq_coe.mpr (List.filter_append_perm p' _).symm
  simp only [entries]
  rw [hqueued, hclaimed, Multiset.map_add, Multiset.map_add]
  exact add_add_add_comm _ _ _ _

end CommandQueue

/-! ## Claims and releases -/

private theorem next_of_reclaimed {maxDeliveries : Int} {date : Nat} {eligible : α → Bool}
    {a b : Entry α} (h : Mem.Reclaimed maxDeliveries date eligible a b) :
    Next maxDeliveries date (.claim eligible : Request V α) a b := by
  cases h with
  | queued item => exact .refl rfl rfl
  | held hheld => exact .refl hheld rfl
  | stale hstale failed =>
    exact {
      id := failed.id
      payload := fun _ => failed.payload
      failed := fun _ hlive => ⟨failed.deliveryCount, failed.isDead hlive⟩
      revived := fun h => nomatch h
      kept := fun hfails _ => absurd (hstale.symm.trans hfails) (by simp)
      live := fun _ h => nomatch h }

namespace Serves

variable {eligible : α → Bool} {claimed : OrdMap String (ClaimedQueueItem α)}
  {queued : List (QueueItem α)} {m₁ : Mem V}

private theorem keyed_reclaimed (h : Kept kind m)
    (hreclaim : m.reclaimExpiredLeases (kind.queue m).claimed (kind.queue m).queued eligible =
      (claimed, queued, m₁)) : claimed.All fun key item => item.id = key := by
  intro key item hget
  have hspec := m.reclaimExpiredLeases_spec (kind.queue m) eligible
  rw [hreclaim] at hspec
  exact h.keyed key item (hspec.2.1 key item hget)

theorem claim_none (h : Kept kind m)
    (hreclaim : m.reclaimExpiredLeases (kind.queue m).claimed (kind.queue m).queued eligible =
      (claimed, queued, m₁)) (hqueue : kind.queue m' = ⟨queued, claimed⟩) :
    Serves kind (.claim eligible) m m' where
  change := by
    have hspec := m.reclaimExpiredLeases_spec (kind.queue m) eligible
    rw [hreclaim] at hspec
    rw [hqueue]
    exact .carry (hspec.1.mono fun _ _ _ _ => next_of_reclaimed)
  keyed := by
    rw [hqueue]
    exact keyed_reclaimed h hreclaim

/-- A claim that takes `item`: stale leases are taken over first, then the item moves. -/
theorem claim_some (h : Kept kind m)
    (hreclaim : m.reclaimExpiredLeases (kind.queue m).claimed (kind.queue m).queued eligible =
      (claimed, queued, m₁)) {isMatch : QueueItem α → Bool}
    {isLess : Option (QueueItem α → QueueItem α → Bool)} {item : QueueItem α}
    {rest : List (QueueItem α)} (hclaim : claimQueued queued isMatch isLess = some (item, rest))
    {leaseToken : String} {leaseExpiresAt : Nat}
    (hqueue : kind.queue m' =
      ⟨rest, claimed.set item.id { item with leaseToken, leaseExpiresAt }⟩) :
    Serves kind (.claim eligible) m m' := by
  have hspec := m.reclaimExpiredLeases_spec (kind.queue m) eligible
  rw [hreclaim] at hspec
  obtain ⟨hrel, -, -⟩ := hspec
  obtain ⟨hlive, -, hqueued⟩ := claimQueued_eq_some hclaim
  have hbefore := CommandQueue.entries_of_queued hqueued claimed
  -- the item was not also claimed: ids occur once
  have hfree : claimed.get? item.id = none := by
    cases hget : claimed.get? item.id with
    | none => rfl
    | some other =>
      have hnodup : ((CommandQueue.entries ⟨queued, claimed⟩).map Entry.id).Nodup := by
        have hkeys := Ledger.map_key_eq_of_rel (k := Entry.id) (fun _ _ hreclaimed =>
          (next_of_reclaimed (V := V) hreclaimed).id) hrel
        exact hkeys ▸ h.nodup
      have hsame := Ledger.eq_of_key_eq hnodup (a := .queued item) (b := .claimed other)
        (hbefore ▸ Multiset.mem_cons_self _ _) (CommandQueue.claimed_mem hget)
        (keyed_reclaimed h hreclaim _ _ hget).symm
      cases hsame
  have hafter := CommandQueue.entries_of_claimed
    (OrdMap.values_set_perm_of_none ⟨item, leaseToken, leaseExpiresAt⟩ hfree) rest
  constructor
  · rw [hqueue, hafter]
    rw [hbefore] at hrel
    refine .carry ((Ledger.rel_comp hrel (Ledger.rel_replace (R := fun b c : Entry α =>
      b = c ∨ b = .queued item ∧ c.item = item) (.inr ⟨rfl, rfl⟩) fun _ _ => .inl rfl)).mono ?_)
    rintro a - c - ⟨b, hab, rfl | ⟨rfl, hitem⟩⟩
    · exact next_of_reclaimed hab
    · have hnext := next_of_reclaimed (V := V) hab
      exact {
        id := (congrArg QueueItem.id hitem).trans hnext.id
        payload := fun h => (congrArg QueueItem.payload hitem).trans (hnext.payload h)
        failed := fun hfails hlive' => by
          rw [hitem]
          exact hnext.failed hfails hlive'
        revived := fun h => nomatch h
        kept := fun hfails hrevives => by
          rw [hitem]
          exact hnext.kept hfails hrevives
        live := fun _ _ => hitem ▸ hlive }
  · rw [hqueue]
    exact (keyed_reclaimed h hreclaim).set rfl

end Serves

theorem Kept.get?_of_mem (h : Kept kind m) {item : ClaimedQueueItem α}
    (hitem : .claimed item ∈ (kind.queue m).entries) :
    (kind.queue m).claimed.get? item.id = some item := by
  obtain ⟨_, -, hqueued⟩ | ⟨_, hmem, heq⟩ := CommandQueue.mem_entries.mp hitem
  · cases hqueued
  · cases heq
    obtain ⟨key, hget⟩ := OrdMap.mem_values_iff.mp hmem
    rwa [h.keyed _ _ hget]

/-- The claim that holds an entry is the one the map answers to. -/
theorem Kept.get?_of_holds (h : Kept kind m) {item : ClaimedQueueItem α} {held : Claimed α}
    (hitem : .claimed item ∈ (kind.queue m).entries) (hholds : held.holds item = true) :
    (kind.queue m).claimed.get? held.id = some item ∧ item.leaseToken = held.leaseToken := by
  simp only [Claimed.holds, Bool.and_eq_true, decide_eq_true_eq] at hholds
  exact ⟨hholds.1 ▸ h.get?_of_mem hitem, hholds.2⟩

theorem Claimed.holds_eq_false {item : ClaimedQueueItem α} {held : Claimed α}
    (h : item.id ≠ held.id) : held.holds item = false := by
  simp [Claimed.holds, h]

namespace Serves

variable {held : Claimed α} {item : ClaimedQueueItem α}

theorem release [JsRuntime V] (h : Kept kind m) {options : CommandReleaseOptions V}
    (hget : (kind.queue m).claimed.get? held.id = some item)
    (htoken : item.leaseToken = held.leaseToken)
    (hqueue : kind.queue m' =
      ⟨(kind.queue m).queued ++ [(m.releaseQueueItem item.toQueueItem options).1],
        (kind.queue m).claimed.erase held.id⟩) :
    Serves kind (.release held options) m m' := by
  have hid : item.id = held.id := h.keyed _ _ hget
  have hholds : held.holds item = true := by simp [Claimed.holds, hid, htoken]
  have hbefore := CommandQueue.entries_of_claimed (OrdMap.values_perm_erase hget)
    (kind.queue m).queued
  obtain ⟨-, hplain, hfailed⟩ := m.releaseQueueItem_spec item.toQueueItem options
  refine replace h (b := .queued (m.releaseQueueItem item.toQueueItem options).1) hbefore ?_ ?_ ?_
    ?_
  · rw [hqueue, CommandQueue.entries_append]
    rfl
  · cases hisPlain : options.isPlain with
    | true =>
      obtain ⟨runAt, hreleased⟩ := hplain hisPlain
      rw [hreleased]
      refine .of_item ?_ rfl rfl (fun _ => rfl) rfl rfl fun _ hlease => nomatch hlease
      simp [Request.fails, hisPlain]
    | false =>
      have hitem := hfailed hisPlain
      exact {
        id := hitem.id
        payload := fun _ => hitem.payload
        failed := fun _ hlive => ⟨hitem.deliveryCount, hitem.isDead hlive⟩
        revived := fun h => nomatch h
        kept := fun hfails _ => by simp [Request.fails, hholds, hisPlain] at hfails
        live := fun _ h => nomatch h }
  · intro e hne
    cases e with
    | queued _ => exact ⟨rfl, rfl⟩
    | claimed other =>
      have hother : held.holds other = false := Claimed.holds_eq_false fun hsame =>
        hne (hsame.trans hid.symm)
      simp [Request.fails, Request.revives, hother]
  · rw [hqueue]
    exact h.keyed.filter _

theorem release_stale (h : Kept kind m) {options : CommandReleaseOptions V}
    (hqueue : kind.queue m' = kind.queue m)
    (hstale : ∀ item, (kind.queue m).claimed.get? held.id = some item →
      item.leaseToken ≠ held.leaseToken) : Serves kind (.release held options) m m' := by
  refine of_queue_eq h hqueue fun e he => ?_
  cases e with
  | queued _ => exact ⟨rfl, rfl⟩
  | claimed item =>
    have hholds : held.holds item = false := by
      by_contra hholds
      obtain ⟨hget, htoken⟩ := h.get?_of_holds he (by simpa using hholds)
      exact hstale item hget htoken
    simp [Request.fails, Request.revives, hholds]

theorem ack (h : Kept kind m) (hget : (kind.queue m).claimed.get? held.id = some item)
    (htoken : item.leaseToken = held.leaseToken)
    (hqueue : kind.queue m' = ⟨(kind.queue m).queued, (kind.queue m).claimed.erase held.id⟩) :
    Serves kind (.ack held) m m' := by
  have hid : item.id = held.id := h.keyed _ _ hget
  have hbefore : (kind.queue m).entries = (kind.queue m').entries + {.claimed item} := by
    rw [hqueue, Multiset.add_comm, Multiset.singleton_add]
    exact CommandQueue.entries_of_claimed (OrdMap.values_perm_erase hget) (kind.queue m).queued
  refine leave (fun e => ?_) hbefore ?_ ?_
  · cases e <;> exact ⟨rfl, rfl⟩
  · intro e he
    obtain rfl := Multiset.mem_singleton.mp he
    simp [Request.removes, Claimed.holds, hid, htoken]
  · rw [hqueue]
    exact h.keyed.filter _

/-- A heartbeat writes the claimed item back with a later expiry. -/
theorem extend (h : Kept kind m) (hget : (kind.queue m).claimed.get? held.id = some item)
    {leaseExpiresAt : Nat} (hqueue : kind.queue m' = ⟨(kind.queue m).queued,
      (kind.queue m).claimed.set held.id { item with leaseExpiresAt }⟩) :
    Serves kind .idle m m' := by
  refine replace h (CommandQueue.entries_of_claimed (OrdMap.values_perm_erase hget)
    (kind.queue m).queued) (b := .claimed { item with leaseExpiresAt }) ?_ ?_ ?_ ?_
  · rw [hqueue]
    exact CommandQueue.entries_of_claimed (OrdMap.values_set_perm _ _ _) _
  · exact .of_item rfl rfl rfl (fun _ => rfl) rfl rfl fun hlive hlease => hlive rfl
  · intro e _
    cases e <;> exact ⟨rfl, rfl⟩
  · rw [hqueue]
    exact h.keyed.set (show item.id = held.id from h.keyed _ _ hget)

/-- One queued item is changed in place. -/
theorem modify (h : Kept kind m) {item item' : QueueItem α} {queued : List (QueueItem α)}
    {rest : Multiset (QueueItem α)}
    (hbefore : ((kind.queue m).queued : Multiset (QueueItem α)) = item ::ₘ rest)
    (hafter : (queued : Multiset (QueueItem α)) = item' ::ₘ rest)
    (hqueue : kind.queue m' = ⟨queued, (kind.queue m).claimed⟩)
    (hnext : Next m.maxDeliveries m.now.1 request (.queued item) (.queued item'))
    (hother : ∀ e : Entry α, e.id ≠ item.id →
      request.fails m.now.1 e = false ∧ request.revives e = false) :
    Serves kind request m m' := by
  refine replace h (CommandQueue.entries_of_queued hbefore _) (b := .queued item') ?_ hnext hother ?_
  · rw [hqueue]
    exact CommandQueue.entries_of_queued hafter _
  · rw [hqueue]
    exact h.keyed

theorem requeueDead (h : Kept kind m) {commandId : String} {queued : List (QueueItem α)}
    (hrequeue : Workflows.requeueDead (kind.queue m).queued commandId = some queued)
    (hqueue : kind.queue m' = ⟨queued, (kind.queue m).claimed⟩) :
    Serves kind (.requeueDead commandId) m m' := by
  obtain ⟨item, rest, rfl, hdead, hbefore, hafter⟩ := requeueDead_eq_some hrequeue
  refine modify h hbefore hafter hqueue ?_ fun e hne => ?_
  · exact {
      id := rfl
      payload := fun _ => rfl
      failed := fun h => nomatch h
      revived := fun _ => ⟨rfl, rfl⟩
      kept := fun _ hrevives => by simp [Request.revives, hdead] at hrevives
      live := fun _ h => nomatch h }
  · cases e with
    | queued other =>
      have hother : other.id ≠ item.id := hne
      simp [Request.fails, Request.revives, hother]
    | claimed _ => exact ⟨rfl, rfl⟩

theorem requeueDead_absent (h : Kept kind m) {commandId : String}
    (hqueue : kind.queue m' = kind.queue m)
    (habsent : ∀ item ∈ (kind.queue m).queued, (item.id = commandId && item.isDead) = false) :
    Serves kind (.requeueDead commandId) m m' := by
  refine of_queue_eq h hqueue fun e he => ?_
  obtain ⟨item, hitem, rfl⟩ | ⟨item, -, rfl⟩ := CommandQueue.mem_entries.mp he
  · exact ⟨rfl, habsent item hitem⟩
  · exact ⟨rfl, rfl⟩

theorem markReaped (h : Kept kind m) {commandId : String} {date : Nat}
    {queued : List (QueueItem α)}
    (hreap : Workflows.markReaped (kind.queue m).queued commandId date = some queued)
    (hqueue : kind.queue m' = ⟨queued, (kind.queue m).claimed⟩) :
    Serves kind .idle m m' := by
  obtain ⟨item, rest, hbefore, hafter⟩ := markReaped_eq_some hreap
  refine modify h hbefore hafter hqueue ?_ fun e _ => ?_
  · exact .of_item rfl rfl rfl (fun _ => rfl) rfl rfl fun _ hlease => nomatch hlease
  · cases e <;> exact ⟨rfl, rfl⟩

/-- A deletion filters the queue and the map. -/
theorem delete (h : Kept kind m) {p : QueueItem α → Bool} {r : ClaimedQueueItem α → Bool}
    (hidle : ∀ e, request.fails m.now.1 e = false ∧ request.revives e = false)
    (hqueue : kind.queue m' = ⟨(kind.queue m).queued.filter p,
      (kind.queue m).claimed.filter fun _ item => r item⟩)
    (hqueued : ∀ item, p item = false → request.removes
      (m'.runs.get? (kind.runId item.payload)).isNone kind.runId (.queued item) = true)
    (hclaimed : ∀ item, r item = false → request.removes
      (m'.runs.get? (kind.runId item.payload)).isNone kind.runId (.claimed item) = true) :
    Serves kind request m m' := by
  have hsplit := CommandQueue.entries_filter (q := kind.queue m) p r
  rw [← hqueue] at hsplit
  refine leave hidle hsplit ?_ ?_
  · intro e he
    obtain he | he := Multiset.mem_add.mp he <;>
      obtain ⟨item, hitem, rfl⟩ := Multiset.mem_map.mp he
    · exact hqueued item (by simpa using (List.mem_filter.mp (Multiset.mem_coe.mp hitem)).2)
    · exact hclaimed item (by simpa using (List.mem_filter.mp (Multiset.mem_coe.mp hitem)).2)
  · rw [hqueue]
    exact h.keyed.filter _

theorem enqueue (h : Kept kind m) {item : QueueItem α}
    (hqueue : kind.queue m' = ⟨(kind.queue m).queued ++ [item], (kind.queue m).claimed⟩)
    (henqueued : Enqueued kind.labels m.nextId m'.nextId (.queued item)) :
    Serves kind .enqueue m m' where
  change := by
    rw [hqueue, CommandQueue.entries_append]
    refine .enter (Multiset.rel_refl_of_refl_on fun e _ => ?_) ⟨rfl, henqueued⟩
    cases e <;> exact .refl rfl rfl
  keyed := by
    rw [hqueue]
    exact h.keyed

end Serves

/-! ## The operations -/

namespace Mem

theorem deleteRunTrees_continueQueue (m : Mem V) (treeIds : List String) :
    (m.deleteRunTrees treeIds).continueQueue =
      ⟨m.continueRunCommands.filter fun item => item.payload.runId ∉ treeIds,
        m.claimedContinueRunCommands.filter fun _ item => item.payload.runId ∉ treeIds⟩ := by
  unfold deleteRunTrees
  split
  · next hempty => simp [hempty, continueQueue, OrdMap.filter_eq_self]
  · rfl

theorem deleteRunTrees_attemptQueue (m : Mem V) (treeIds : List String) :
    (m.deleteRunTrees treeIds).attemptQueue =
      ⟨m.attemptCommands.filter fun item => item.payload.runId ∉ treeIds,
        m.claimedAttemptCommands.filter fun _ item => item.payload.runId ∉ treeIds⟩ := by
  unfold deleteRunTrees
  split
  · next hempty => simp [hempty, attemptQueue, OrdMap.filter_eq_self]
  · rfl

theorem deleteRunTrees_runs (m : Mem V) {treeIds : List String} {runId : String}
    (h : runId ∈ treeIds) : (m.deleteRunTrees treeIds).runs.get? runId = none := by
  unfold deleteRunTrees
  split
  · next hempty => simp [hempty] at h
  · dsimp only
    rw [OrdMap.get?_filter]
    cases m.runs.get? runId <;> simp [Option.filter, h]

/-- A prune is the deletion of some run trees, if any, and a sweep. -/
theorem pruneTerminalRuns_eq [JsRuntime V] (m : Mem V) (params : PruneTerminalRunsParams) :
    ∃ treeIds, (m.pruneTerminalRuns params).2 =
      (m.deleteRunTrees treeIds).sweepDeadCommands params.olderThan := by
  unfold pruneTerminalRuns
  split
  · exact ⟨[], rfl⟩
  · exact ⟨_, rfl⟩

/-- A deletion of a run is the deletion of some run trees, if any. -/
theorem deleteRun_eq [JsRuntime V] (m : Mem V) (runId : String) :
    ∃ treeIds, (m.deleteRun runId).2 = m.deleteRunTrees treeIds := by
  unfold deleteRun
  dsimp only
  repeat' split
  all_goals first | exact ⟨_, rfl⟩ | exact ⟨[], rfl⟩

end Mem

variable [JsRuntime V]

omit [JsRuntime V] in
private theorem serves_idle (h : Kept kind m) (hqueue : kind.queue m' = kind.queue m) :
    Serves kind .idle m m' := by
  refine .of_queue_eq h hqueue fun e _ => ?_
  cases e <;> exact ⟨rfl, rfl⟩

namespace Mem

omit [JsRuntime V] in
theorem enqueueContinue_serves (h : Kept (V := V) continueKind m) (command : ContinueRunCommand)
    (runAt : Option Nat) : Serves continueKind .enqueue m (m.enqueueContinue command runAt) := by
  unfold enqueueContinue
  split
  · exact .enqueue h rfl ⟨⟨"continue", List.mem_singleton_self _, rfl⟩, Nat.lt_succ_self _, rfl,
      rfl, rfl⟩
  · next hindex =>
    obtain ⟨item, rest, -, hbefore, hafter⟩ := modify_found _ hindex
    refine .modify h hbefore hafter rfl ?_ fun e _ => ?_
    · exact .of_item rfl rfl rfl (fun h => absurd rfl h) rfl rfl fun _ hlease => nomatch hlease
    · cases e <;> exact ⟨rfl, rfl⟩

omit [JsRuntime V] in
theorem claimContinue_serves (h : Kept (V := V) continueKind m)
    (worker : RunCoordinationWorkerClaim) :
    Serves continueKind (.claim (isEligibleContinue worker)) m (m.claimContinue worker).2 := by
  unfold claimContinue
  dsimp only
  split
  · exact .claim_none h rfl rfl
  · next hclaim => exact .claim_some h rfl hclaim rfl

theorem matchesClaim_eq_true {stored : Option (ClaimedQueueItem α)} {claim : Claimed α} :
    matchesClaim stored claim = true ↔
      ∃ item, stored = some item ∧ item.leaseToken = claim.leaseToken := by
  cases stored <;> simp [matchesClaim]

omit [JsRuntime V] in
theorem ackContinue_serves (h : Kept (V := V) continueKind m)
    (claim : Claimed ContinueRunCommand) :
    Serves continueKind (.ack claim) m (m.ackContinue claim).2 := by
  unfold ackContinue
  split
  · next hmatch =>
    obtain ⟨item, hget, htoken⟩ := matchesClaim_eq_true.mp hmatch
    exact .ack h hget htoken rfl
  · refine .of_queue_eq h rfl fun e _ => ?_
    cases e <;> exact ⟨rfl, rfl⟩

theorem releaseContinue_serves (h : Kept (V := V) continueKind m)
    (claim : Claimed ContinueRunCommand) (options : CommandReleaseOptions V) :
    Serves continueKind (.release claim options) m (m.releaseContinue claim options) := by
  unfold releaseContinue
  split
  · next hnone => exact .release_stale h rfl fun item hget => nomatch hnone.symm.trans hget
  · next item hget =>
    split
    · next htoken =>
      refine .release_stale h rfl fun item' hget' => ?_
      rwa [← Option.some.inj (hget.symm.trans hget')]
    · next htoken =>
      obtain ⟨⟨date, hticked⟩, -⟩ := m.releaseQueueItem_spec item.toQueueItem options
      refine .release h hget (not_not.mp htoken) ?_
      dsimp only
      rw [hticked]
      rfl

omit [JsRuntime V] in
theorem dispatchAttempt_serves (h : Kept attemptKind m) (command : AttemptCommand V)
    (runAt : Option Nat) : Serves attemptKind .enqueue m (m.dispatchAttempt command runAt) := by
  unfold dispatchAttempt
  split
  · refine .of_queue_eq h rfl fun e _ => ?_
    cases e <;> exact ⟨rfl, rfl⟩
  · refine .enqueue h rfl ⟨⟨commandLabel command.target, ?_, rfl⟩, Nat.lt_succ_self _, rfl, rfl,
      rfl⟩
    cases command.target with
    | activity => exact List.mem_cons_self
    | task => exact List.mem_cons_of_mem _ (List.mem_singleton_self _)

theorem claimAttempt_serves (h : Kept (V := V) attemptKind m) (worker : ExecutionWorkerClaim) :
    Serves attemptKind (.claim (isEligibleAttempt worker)) m (m.claimAttempt worker).2 := by
  unfold claimAttempt
  dsimp only
  split
  · exact .claim_none h rfl rfl
  · next hclaim => exact .claim_some h rfl hclaim rfl

omit [JsRuntime V] in
theorem heartbeat_serves (h : Kept (V := V) attemptKind m) (claim : Claimed (AttemptCommand V))
    (leaseMs : Option Nat) : Serves attemptKind .idle m (m.heartbeat claim leaseMs).2 := by
  unfold heartbeat
  split
  · exact serves_idle h rfl
  · next hget =>
    split
    · exact serves_idle h rfl
    · exact .extend h hget rfl

omit [JsRuntime V] in
theorem ackAttempt_serves (h : Kept (V := V) attemptKind m) (claim : Claimed (AttemptCommand V)) :
    Serves attemptKind (.ack claim) m (m.ackAttempt claim).2 := by
  unfold ackAttempt
  split
  · next hmatch =>
    obtain ⟨item, hget, htoken⟩ := matchesClaim_eq_true.mp hmatch
    exact .ack h hget htoken rfl
  · refine .of_queue_eq h rfl fun e _ => ?_
    cases e <;> exact ⟨rfl, rfl⟩

theorem releaseAttempt_serves (h : Kept (V := V) attemptKind m)
    (claim : Claimed (AttemptCommand V)) (options : CommandReleaseOptions V) :
    Serves attemptKind (.release claim options) m (m.releaseAttempt claim options) := by
  unfold releaseAttempt
  split
  · next hnone => exact .release_stale h rfl fun item hget => nomatch hnone.symm.trans hget
  · next item hget =>
    split
    · next htoken =>
      refine .release_stale h rfl fun item' hget' => ?_
      rwa [← Option.some.inj (hget.symm.trans hget')]
    · next htoken =>
      obtain ⟨⟨date, hticked⟩, -⟩ := m.releaseQueueItem_spec item.toQueueItem options
      refine .release h hget (not_not.mp htoken) ?_
      dsimp only
      rw [hticked]
      rfl

omit [JsRuntime V] in
theorem deleteUnclaimed_serves (h : Kept (V := V) attemptKind m) (runId : String) :
    Serves attemptKind (.deleteUnclaimed runId) m (m.deleteUnclaimed runId).2 := by
  refine .delete h (p := fun item => item.payload.runId ≠ runId) (r := fun _ => true)
    (fun e => ?_) ?_ (fun item hitem => ?_) nofun
  · cases e <;> exact ⟨rfl, rfl⟩
  · exact congrArg _ (OrdMap.filter_eq_self fun _ _ => rfl).symm
  · have hrun : item.payload.runId = runId := by simpa using hitem
    exact decide_eq_true hrun

end Mem

/-- The operations on continue commands. -/
def ExecutorOp.isContinueOp : ExecutorOp V → Bool
  | .enqueue _ _ | .claimContinue _ | .ackContinue _ | .releaseContinue _ _ => true
  | _ => false

namespace Mem

/-- The executors touch nothing but the queue that the operation is on. -/
theorem execExecutor_apparatus (m : Mem V) (op : ExecutorOp V) :
    let m' := (m.execExecutor op).2
    m'.apparatus = ⟨m.maxDeliveries, m.clock, m.runLeases,
      bif op.isContinueOp then m'.continueQueue else m.continueQueue,
      bif op.isContinueOp then m.attemptQueue else m'.attemptQueue⟩ := by
  cases op with
  | enqueue command runAt =>
    simp only [execExecutor, enqueueContinue, returning]
    split <;> rfl
  | dispatch command runAt =>
    simp only [execExecutor, dispatchAttempt, returning]
    split <;> rfl
  | claimContinue worker =>
    obtain ⟨-, -, hticked⟩ := m.reclaimExpiredLeases_spec m.continueQueue (isEligibleContinue worker)
    obtain ⟨hmax, hclock, hleases, -, hother⟩ := Apparatus.ext_iff.mp hticked.apparatus
    simp only [execExecutor, claimContinue, returning]
    split <;> exact Apparatus.ext hmax hclock hleases rfl hother
  | claimAttempt worker =>
    obtain ⟨-, -, hticked⟩ := m.reclaimExpiredLeases_spec m.attemptQueue (isEligibleAttempt worker)
    obtain ⟨hmax, hclock, hleases, hother, -⟩ := Apparatus.ext_iff.mp hticked.apparatus
    simp only [execExecutor, claimAttempt, returning]
    split <;> exact Apparatus.ext hmax hclock hleases hother rfl
  | heartbeat claim leaseMs =>
    simp only [execExecutor, heartbeat]
    repeat' split
    all_goals rfl
  | ackContinue claim =>
    simp only [execExecutor, ackContinue]
    split <;> rfl
  | ackAttempt claim =>
    simp only [execExecutor, ackAttempt]
    split <;> rfl
  | releaseContinue claim options =>
    simp only [execExecutor, releaseContinue, returning]
    repeat' split
    · rfl
    · rfl
    · obtain ⟨hmax, hclock, hleases, -, hother⟩ :=
        Apparatus.ext_iff.mp (m.releaseQueueItem_spec _ options).1.apparatus
      exact Apparatus.ext hmax hclock hleases rfl hother
  | releaseAttempt claim options =>
    simp only [execExecutor, releaseAttempt, returning]
    repeat' split
    · rfl
    · rfl
    · obtain ⟨hmax, hclock, hleases, hother, -⟩ :=
        Apparatus.ext_iff.mp (m.releaseQueueItem_spec _ options).1.apparatus
      exact Apparatus.ext hmax hclock hleases hother rfl
  | deleteUnclaimed runId => rfl

theorem execExecutor_continueQueue (m : Mem V) {op : ExecutorOp V} (hop : op.isContinueOp = false) :
    (m.execExecutor op).2.continueQueue = m.continueQueue :=
  (congrArg Apparatus.continueQueue (m.execExecutor_apparatus op)).trans (by rw [hop]; rfl)

theorem execExecutor_attemptQueue (m : Mem V) {op : ExecutorOp V} (hop : op.isContinueOp = true) :
    (m.execExecutor op).2.attemptQueue = m.attemptQueue :=
  (congrArg Apparatus.attemptQueue (m.execExecutor_apparatus op)).trans (by rw [hop]; rfl)

end Mem

/-! ## Every operation serves its requests -/

omit [JsRuntime V] in
/-- What the run deletions do to a queue. -/
private theorem serves_deletion (h : Kept kind m) (sweeps : QueueItem α → Bool)
    (treeIds : List String)
    (hidle : ∀ e, request.fails m.now.1 e = false ∧ request.revives e = false)
    (hgone : ∀ runId ∈ treeIds, m'.runs.get? runId = none)
    (hqueue : kind.queue m' =
      ⟨(kind.queue m).queued.filter fun item =>
          !sweeps item && kind.runId item.payload ∉ treeIds,
        (kind.queue m).claimed.filter fun _ item => kind.runId item.payload ∉ treeIds⟩)
    (hqueued : ∀ item runGone, runGone = true ∨ sweeps item = true →
      request.removes runGone kind.runId (.queued item) = true)
    (hclaimed : ∀ item, request.removes true kind.runId (.claimed item) = true) :
    Serves kind request m m' := by
  refine .delete h hidle (r := fun item => kind.runId item.payload ∉ treeIds) hqueue
    (fun item hitem => hqueued item _ ?_) fun item hitem => ?_
  · simp only [Bool.and_eq_false_iff, decide_eq_false_iff_not, not_not, Bool.not_eq_false'] at hitem
    exact hitem.symm.imp_left fun hmem => Option.isNone_iff_eq_none.mpr (hgone _ hmem)
  · have hmem : kind.runId item.payload ∈ treeIds := by simpa using hitem
    rw [hgone _ hmem]
    exact hclaimed item

/-- What a deletion of run trees leaves of the queue. -/
private def DeletesFrom (kind : QueueKind V α) (m : Mem V) : Prop :=
  ∀ treeIds, kind.queue (m.deleteRunTrees treeIds) =
    ⟨(kind.queue m).queued.filter fun item => kind.runId item.payload ∉ treeIds,
      (kind.queue m).claimed.filter fun _ item => kind.runId item.payload ∉ treeIds⟩

private theorem serves_deleteRun (h : Kept kind m) (runId : String) (hqueue : DeletesFrom kind m) :
    Serves kind .deleteRuns m (m.deleteRun runId).2 := by
  obtain ⟨treeIds, hdelete⟩ := m.deleteRun_eq runId
  rw [hdelete]
  refine serves_deletion h (fun _ => false) treeIds (fun e => ?_)
    (fun _ => m.deleteRunTrees_runs) ?_ ?_ fun _ => rfl
  · cases e <;> exact ⟨rfl, rfl⟩
  · simpa only [Bool.not_false, Bool.true_and] using hqueue treeIds
  · exact fun item runGone hremoves => hremoves.resolve_right Bool.false_ne_true

private theorem serves_prune (h : Kept kind m) (params : PruneTerminalRunsParams)
    (hqueue : DeletesFrom kind m)
    (hsweep : ∀ m : Mem V, kind.queue (m.sweepDeadCommands params.olderThan) =
      ⟨(kind.queue m).queued.filter fun item => !Mem.isSweepable params.olderThan item,
        (kind.queue m).claimed⟩) :
    Serves kind (.prune params.olderThan) m (m.pruneTerminalRuns params).2 := by
  obtain ⟨treeIds, hprune⟩ := m.pruneTerminalRuns_eq params
  rw [hprune]
  refine serves_deletion h (Mem.isSweepable params.olderThan) treeIds (fun e => ?_)
    (fun _ => m.deleteRunTrees_runs) ?_ ?_ fun _ => rfl
  · cases e <;> exact ⟨rfl, rfl⟩
  · simp only [hsweep, hqueue treeIds, List.filter_filter]
  · exact fun item runGone hremoves => (Bool.or_eq_true _ _).mpr hremoves

theorem continue_serves (h : Kept (V := V) continueKind m) (op : Op V) :
    Serves continueKind (continueKind.request op) m (m.step op) := by
  cases op with
  | clock time => exact serves_idle h rfl
  | executor op =>
    cases hop : op.isContinueOp with
    | false =>
      have hqueue := m.execExecutor_continueQueue hop
      cases op <;> first | exact serves_idle h hqueue | cases hop
    | true =>
      cases op with
      | enqueue command runAt => exact Mem.enqueueContinue_serves h command runAt
      | claimContinue worker => exact Mem.claimContinue_serves h worker
      | ackContinue claim => exact Mem.ackContinue_serves h claim
      | releaseContinue claim options => exact Mem.releaseContinue_serves h claim options
      | _ => cases hop
  | store op =>
    cases op with
    | markDeadCommandReaped commandId =>
      simp only [Mem.step, Mem.exec, Mem.execStore, Mem.markDeadCommandReaped, Mem.returning]
      split
      · next hreap => exact .markReaped h hreap rfl
      · split <;> exact serves_idle h rfl
    | requeueDeadCommand commandId =>
      simp only [Mem.step, Mem.exec, Mem.execStore, Mem.requeueDeadCommand, Mem.returning]
      split
      · next hrequeue => exact .requeueDead h hrequeue rfl
      · next hnone =>
        have habsent := requeueDead_eq_none hnone
        split <;> exact .requeueDead_absent h rfl habsent
    | deleteRun runId => exact serves_deleteRun h runId m.deleteRunTrees_continueQueue
    | pruneTerminalRuns params =>
      exact serves_prune h params m.deleteRunTrees_continueQueue fun _ => rfl
    | _ => exact serves_idle h (m.execStore_queues rfl).1

omit [JsRuntime V] in
/-- The two queues share no id: their labels differ. -/
theorem Kept.ids_disjoint {m : Mem V} (hcontinue : Kept (V := V) continueKind m)
    (hattempt : Kept (V := V) attemptKind m) {e : Entry ContinueRunCommand}
    {e' : Entry (AttemptCommand V)} (he : e ∈ m.continueQueue.entries)
    (he' : e' ∈ m.attemptQueue.entries) : e.id ≠ e'.id := by
  intro hid
  obtain ⟨label, hlabel, i, -, hi⟩ := hcontinue.minted e he
  obtain ⟨label', hlabel', j, -, hj⟩ := hattempt.minted e' he'
  obtain ⟨rfl, -⟩ := freshId_inj (hi.symm.trans (hid.trans hj))
  simp only [continueKind, attemptKind, List.mem_cons, List.not_mem_nil, or_false] at hlabel hlabel'
  subst hlabel
  simp at hlabel'

theorem attempt_serves (hcontinue : Kept (V := V) continueKind m)
    (h : Kept (V := V) attemptKind m) (op : Op V) :
    Serves attemptKind (attemptKind.request op) m (m.step op) := by
  cases op with
  | clock time => exact serves_idle h rfl
  | executor op =>
    cases hop : op.isContinueOp with
    | true =>
      have hqueue := m.execExecutor_attemptQueue hop
      cases op <;> first | exact serves_idle h hqueue | cases hop
    | false =>
      cases op with
      | dispatch command runAt => exact Mem.dispatchAttempt_serves h command runAt
      | claimAttempt worker => exact Mem.claimAttempt_serves h worker
      | heartbeat claim leaseMs => exact Mem.heartbeat_serves h claim leaseMs
      | ackAttempt claim => exact Mem.ackAttempt_serves h claim
      | releaseAttempt claim options => exact Mem.releaseAttempt_serves h claim options
      | deleteUnclaimed runId => exact Mem.deleteUnclaimed_serves h runId
      | _ => cases hop
  | store op =>
    cases op with
    | markDeadCommandReaped commandId =>
      simp only [Mem.step, Mem.exec, Mem.execStore, Mem.markDeadCommandReaped, Mem.returning]
      split
      · exact serves_idle h rfl
      · split
        · next hreap => exact .markReaped h hreap rfl
        · exact serves_idle h rfl
    | requeueDeadCommand commandId =>
      simp only [Mem.step, Mem.exec, Mem.execStore, Mem.requeueDeadCommand, Mem.returning]
      split
      · next hrequeue =>
        -- the dead command was a continue command, no attempt command has its id
        obtain ⟨item, rest, rfl, -, hbefore, -⟩ := requeueDead_eq_some hrequeue
        refine .requeueDead_absent h rfl fun other hother => ?_
        have hmem : .queued item ∈ m.continueQueue.entries :=
          CommandQueue.entries_of_queued hbefore _ ▸ Multiset.mem_cons_self _ _
        have hne : item.id ≠ other.id := hcontinue.ids_disjoint h hmem
          (CommandQueue.mem_entries.mpr (.inl ⟨other, hother, rfl⟩))
        simp [hne.symm]
      · split
        · next hrequeue => exact .requeueDead h hrequeue rfl
        · next hnone =>
          exact .requeueDead_absent h rfl (requeueDead_eq_none hnone)
    | deleteRun runId => exact serves_deleteRun h runId m.deleteRunTrees_attemptQueue
    | pruneTerminalRuns params =>
      exact serves_prune h params m.deleteRunTrees_attemptQueue fun _ => rfl
    | _ => exact serves_idle h (m.execStore_queues rfl).2

/-! ## Every history keeps the queues -/

omit [JsRuntime V] in
theorem Serves.kept (hserves : Serves kind request m m') (hn : m.nextId ≤ m'.nextId)
    (h : Kept kind m) : Kept kind m' where
  nodup := by
    refine hserves.change.nodup (fun _ _ => Next.id) (fun a henters b hb hid => ?_) h.nodup
    obtain ⟨label, -, ha⟩ := henters.2.id
    obtain ⟨label', -, i, hi, hb⟩ := h.minted b hb
    have hsame := freshId_inj (hb.symm.trans (hid.trans ha))
    exact hi.ne hsame.2
  keyed := hserves.keyed
  minted e he := by
    obtain ⟨a, ha, hnext⟩ | henters := hserves.change.backward he
    · obtain ⟨label, hlabel, hminted⟩ := h.minted a ha
      exact ⟨label, hlabel, hnext.id ▸ hminted.mono hn⟩
    · obtain ⟨label, hlabel, hid⟩ := henters.2.id
      exact ⟨label, hlabel, hid ▸ minted_freshId henters.2.next⟩
  live e he hlease := by
    obtain ⟨a, ha, hnext⟩ | henters := hserves.change.backward he
    · exact hnext.live (h.live a ha) hlease
    · exact henters.2.fresh.2

namespace Mem

/-- Both queues are in order. -/
structure QueuesKept (m : Mem V) : Prop where
  continueQueue : Kept (V := V) continueKind m
  attemptQueue : Kept (V := V) attemptKind m

theorem QueuesKept.step {m : Mem V} (h : QueuesKept m) (hm : m.Sound) (op : Op V) :
    QueuesKept (m.step op) := by
  have hn := Effect.nextId_le (step_effect hm.keyed op)
  exact ⟨(continue_serves h.continueQueue op).kept hn h.continueQueue,
    (attempt_serves h.continueQueue h.attemptQueue op).kept hn h.attemptQueue⟩

omit [JsRuntime V] in
/-- The operation makes no request to enter a command into the attempt queue, unless it dispatches
one. -/
theorem attemptRequest_eq_enqueue {op : Op V}
    (h : (attemptKind (V := V)).request op = .enqueue) :
    ∃ command runAt, op = .executor (.dispatch command runAt) := by
  cases op with
  | clock => cases h
  | executor op =>
    cases op with
    | dispatch command runAt => exact ⟨command, runAt, rfl⟩
    | _ => cases h
  | store op => cases op <;> cases h

omit [JsRuntime V] in
theorem dispatchAttempt_entries (m : Mem V) (command : AttemptCommand V) (runAt : Option Nat) :
    (m.dispatchAttempt command runAt).attemptQueue.entries = m.attemptQueue.entries ∧
        m.attemptCommandExists command.attemptId ∨
      ∃ item : QueueItem (AttemptCommand V), item.payload = command ∧
        item.id = freshId (commandLabel command.target) m.nextId ∧
        (m.dispatchAttempt command runAt).attemptQueue.entries =
          .queued item ::ₘ m.attemptQueue.entries := by
  unfold dispatchAttempt
  split
  · next hexists => exact .inl ⟨rfl, hexists⟩
  · exact .inr ⟨_, rfl, rfl, CommandQueue.entries_append _ _ _⟩

omit [JsRuntime V] in
theorem attemptCommandExists_iff (m : Mem V) (attemptId : String) :
    m.attemptCommandExists attemptId = true ↔
      ∃ e ∈ m.attemptQueue.entries, e.item.payload.attemptId = attemptId := by
  simp only [attemptCommandExists, Bool.or_eq_true, List.any_eq_true, decide_eq_true_eq]
  constructor
  · rintro (⟨item, hitem, hid⟩ | ⟨item, hitem, hid⟩)
    · exact ⟨.queued item, CommandQueue.mem_entries.mpr (.inl ⟨item, hitem, rfl⟩), hid⟩
    · exact ⟨.claimed item, CommandQueue.mem_entries.mpr (.inr ⟨item, hitem, rfl⟩), hid⟩
  · rintro ⟨e, he, hid⟩
    obtain ⟨item, hitem, rfl⟩ | ⟨item, hitem, rfl⟩ := CommandQueue.mem_entries.mp he
    · exact .inl ⟨item, hitem, hid⟩
    · exact .inr ⟨item, hitem, hid⟩

/-- Where an attempt command of the queue comes from: it was there, or it is dispatched. -/
theorem QueuesKept.attempt_back {m : Mem V} (h : QueuesKept m) (op : Op V)
    {e' : Entry (AttemptCommand V)} (he' : e' ∈ (m.step op).attemptQueue.entries) :
    (∃ e ∈ m.attemptQueue.entries, e'.id = e.id ∧ e'.item.payload = e.item.payload) ∨
      ∃ command runAt, op = .executor (.dispatch command runAt) ∧ e'.item.payload = command ∧
        ∃ label, e'.id = freshId label m.nextId := by
  by_cases henqueue : (attemptKind (V := V)).request op = .enqueue
  · obtain ⟨command, runAt, rfl⟩ := attemptRequest_eq_enqueue henqueue
    change e' ∈ (m.dispatchAttempt command runAt).attemptQueue.entries at he'
    obtain ⟨hsame, -⟩ | ⟨item, rfl, hid, hentries⟩ := m.dispatchAttempt_entries command runAt
    · exact .inl ⟨e', hsame ▸ he', rfl, rfl⟩
    · rw [hentries, Multiset.mem_cons] at he'
      obtain rfl | he' := he'
      · exact .inr ⟨item.payload, runAt, rfl, rfl, _, hid⟩
      · exact .inl ⟨e', he', rfl, rfl⟩
  · obtain ⟨e, he, hnext⟩ | ⟨henters, -⟩ :=
      (attempt_serves h.continueQueue h.attemptQueue op).change.backward he'
    · exact .inl ⟨e, he, hnext.id, hnext.payload henqueue⟩
    · simp at henters

/-- An attempt command stays in the queue unless the operation takes it away. -/
theorem QueuesKept.attempt_forward {m : Mem V} (h : QueuesKept m) (op : Op V)
    {e : Entry (AttemptCommand V)} (he : e ∈ m.attemptQueue.entries) :
    (∃ e' ∈ (m.step op).attemptQueue.entries,
        e'.id = e.id ∧ e'.item.payload = e.item.payload) ∨
      ((attemptKind (V := V)).request op).removes
        ((m.step op).runs.get? e.item.payload.runId).isNone AttemptCommand.runId e := by
  by_cases henqueue : (attemptKind (V := V)).request op = .enqueue
  · obtain ⟨command, runAt, rfl⟩ := attemptRequest_eq_enqueue henqueue
    change (∃ e' ∈ (m.dispatchAttempt command runAt).attemptQueue.entries, _) ∨ _
    obtain ⟨hsame, -⟩ | ⟨item, -, -, hentries⟩ := m.dispatchAttempt_entries command runAt
    · exact .inl ⟨e, hsame ▸ he, rfl, rfl⟩
    · exact .inl ⟨e, hentries ▸ Multiset.mem_cons_of_mem he, rfl, rfl⟩
  · obtain ⟨e', he', hnext⟩ | hremoves :=
      (attempt_serves h.continueQueue h.attemptQueue op).change.forward he
    · exact .inl ⟨e', he', hnext.id, hnext.payload henqueue⟩
    · exact .inr hremoves

omit [JsRuntime V] in
theorem queuesKept_create (maxDeliveries : Option Int) :
    QueuesKept (createInMemoryWorkflowRuntime maxDeliveries : Mem V) := by
  refine ⟨⟨Multiset.nodup_zero, .empty, fun e he => ?_, fun e he => ?_⟩,
    ⟨Multiset.nodup_zero, .empty, fun e he => ?_, fun e he => ?_⟩⟩
  all_goals exact absurd he (Multiset.notMem_zero e)

theorem queuesKept_run {m : Mem V} (hm : m.Sound) (h : QueuesKept m) (history : List (Op V)) :
    (m.run history).Sound ∧ QueuesKept (m.run history) :=
  Trace.run_inv Mem.step (P := fun _ => True) (I := fun m : Mem V => m.Sound ∧ QueuesKept m)
    (fun _ op _ h => ⟨h.1.step op, h.2.step h.1 op⟩) (fun _ _ => trivial) ⟨hm, h⟩

theorem queuesKept_after (maxDeliveries : Option Int) (history : List (Op V)) :
    QueuesKept (after maxDeliveries history : Mem V) :=
  (queuesKept_run (sound_create maxDeliveries) (queuesKept_create maxDeliveries) history).2

end Mem

end Neemata.Workflows
