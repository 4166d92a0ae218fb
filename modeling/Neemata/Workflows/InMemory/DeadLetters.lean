import Neemata.Workflows.InMemory.Claims
import Neemata.Workflows.JsonText

/-!
# Dead-letter accounting

The delivery count of a command is the number of its deliveries that failed since it was enqueued
or last revived, and it is dead exactly when that number has reached `max 1 maxDeliveries`: the
threshold is read when a failure is counted, so a command without one is never dead
(`dead_letters`). No claim returns a dead command before it is revived.
-/

namespace Neemata.Workflows

variable {V α : Type}

/-! ## Failed deliveries of a history -/

/-- The request ends a delivery of the command as a failure. -/
def CommandQueue.failsDelivery (q : CommandQueue α) (request : Request V α) (date : Nat)
    (commandId : String) : Bool :=
  q.claimed.values.any fun item => item.id = commandId && request.fails date (.claimed item)

def CommandQueue.revives (q : CommandQueue α) (request : Request V α) (commandId : String) : Bool :=
  q.queued.any fun item => item.id = commandId && request.revives (.queued item)

/-- The count after a step. -/
def nextCount (revives fails : Bool) (count : Nat) : Nat :=
  if revives then 0 else if fails then count + 1 else count

namespace Mem

def failsDelivery (m : Mem V) (commandId : String) (op : Op V) : Bool :=
  m.continueQueue.failsDelivery (continueKind.request op) m.now.1 commandId ||
    m.attemptQueue.failsDelivery (attemptKind.request op) m.now.1 commandId

def revives (m : Mem V) (commandId : String) (op : Op V) : Bool :=
  m.continueQueue.revives (continueKind.request op) commandId ||
    m.attemptQueue.revives (attemptKind.request op) commandId

variable [JsRuntime V]

/-- The failed deliveries of a command over a history, after `count` earlier ones; reviving the
command starts over. -/
def failedDeliveries (m : Mem V) (commandId : String) (count : Nat) : List (Op V) → Nat
  | [] => count
  | op :: history =>
    (m.step op).failedDeliveries commandId
      (nextCount (m.revives commandId op) (m.failsDelivery commandId op) count) history

/-- The stored numbers of a command agree with its count of failed deliveries. -/
structure Accounted (m : Mem V) (count : String → Nat) (e : Entry α) : Prop where
  deliveryCount : e.item.deliveryCount = count e.id
  isDead : e.item.isDead ↔ max 1 m.maxDeliveries ≤ e.item.deliveryCount

/-- What holds of dead commands in one state and over the steps from it. -/
structure DeadLettered (m : Mem V) : Prop where
  /-- No claim returns a dead command before `requeueDeadCommand` is called for it. -/
  unclaimable (commandId : String) :
    ((∃ e ∈ m.continueQueue.entries, e.id = commandId ∧ e.item.isDead) ∨
      ∃ e ∈ m.attemptQueue.entries, e.id = commandId ∧ e.item.isDead) →
    ∀ later : List (Op V), (∀ op ∈ later, op ≠ .store (.requeueDeadCommand commandId)) →
      (∀ worker, ∀ claim ∈ ((m.run later).claimContinue worker).1, claim.id ≠ commandId) ∧
      ∀ worker, ∀ claim ∈ ((m.run later).claimAttempt worker).1, claim.id ≠ commandId
  /-- A revived command is live and has failed no delivery. -/
  revivedContinue : ∀ e ∈ m.continueQueue.entries, e.item.isDead →
    ∃ e' ∈ (m.requeueDeadCommand e.id).continueQueue.entries,
      e'.id = e.id ∧ e'.item.deliveryCount = 0 ∧ e'.item.isDead = false
  revivedAttempt : ∀ e ∈ m.attemptQueue.entries, e.item.isDead →
    ∃ e' ∈ (m.requeueDeadCommand e.id).attemptQueue.entries,
      e'.id = e.id ∧ e'.item.deliveryCount = 0 ∧ e'.item.isDead = false

end Mem

/-! ## One step -/

section Step

variable {kind : QueueKind V α} {request : Request V α} {m m' : Mem V}

theorem Request.fails_queued (request : Request V α) (date : Nat) (item : QueueItem α) :
    request.fails date (.queued item) = false := by
  cases request <;> rfl

theorem Request.revives_claimed (request : Request V α) (item : ClaimedQueueItem α) :
    request.revives (.claimed item) = false := by
  cases request <;> rfl

/-- Ids occur once, so what a request does to an id is what it does to the entry. -/
theorem Kept.failsDelivery_eq (h : Kept kind m) {e : Entry α} (he : e ∈ (kind.queue m).entries)
    (request : Request V α) (date : Nat) :
    (kind.queue m).failsDelivery request date e.id = request.fails date e := by
  rw [Bool.eq_iff_iff, CommandQueue.failsDelivery, List.any_eq_true]
  simp only [Bool.and_eq_true, decide_eq_true_eq]
  constructor
  · rintro ⟨item, hitem, hid, hfails⟩
    have hmem : .claimed item ∈ (kind.queue m).entries :=
      CommandQueue.mem_entries.mpr (.inr ⟨item, hitem, rfl⟩)
    rwa [← h.eq_of_id hmem he hid]
  · intro hfails
    obtain ⟨item, -, rfl⟩ | ⟨item, hitem, rfl⟩ := CommandQueue.mem_entries.mp he
    · rw [Request.fails_queued] at hfails
      cases hfails
    · exact ⟨item, hitem, rfl, hfails⟩

theorem Kept.revives_eq (h : Kept kind m) {e : Entry α} (he : e ∈ (kind.queue m).entries)
    (request : Request V α) : (kind.queue m).revives request e.id = request.revives e := by
  rw [Bool.eq_iff_iff, CommandQueue.revives, List.any_eq_true]
  simp only [Bool.and_eq_true, decide_eq_true_eq]
  constructor
  · rintro ⟨item, hitem, hid, hrevives⟩
    have hmem : .queued item ∈ (kind.queue m).entries :=
      CommandQueue.mem_entries.mpr (.inl ⟨item, hitem, rfl⟩)
    rwa [← h.eq_of_id hmem he hid]
  · intro hrevives
    obtain ⟨item, hitem, rfl⟩ | ⟨item, -, rfl⟩ := CommandQueue.mem_entries.mp he
    · exact ⟨item, hitem, rfl, hrevives⟩
    · rw [Request.revives_claimed] at hrevives
      cases hrevives

/-- A request that concerns an id concerns an entry with that id. -/
theorem CommandQueue.failsDelivery_false {q : CommandQueue α} {commandId : String}
    (h : ∀ e ∈ q.entries, e.id ≠ commandId) (request : Request V α) (date : Nat) :
    q.failsDelivery request date commandId = false := by
  rw [failsDelivery, List.any_eq_false]
  intro item hitem hfails
  simp only [Bool.and_eq_true, decide_eq_true_eq] at hfails
  exact h _ (mem_entries.mpr (.inr ⟨item, hitem, rfl⟩)) hfails.1

theorem CommandQueue.revives_false {q : CommandQueue α} {commandId : String}
    (h : ∀ e ∈ q.entries, e.id ≠ commandId) (request : Request V α) :
    q.revives request commandId = false := by
  rw [revives, List.any_eq_false]
  intro item hitem hrevives
  simp only [Bool.and_eq_true, decide_eq_true_eq] at hrevives
  exact h _ (mem_entries.mpr (.inl ⟨item, hitem, rfl⟩)) hrevives.1

/-- A carried entry stays accounted for. -/
theorem Mem.Accounted.next [JsRuntime V] {count count' : String → Nat} {a b : Entry α} {date : Nat}
    (hnext : Next m.maxDeliveries date request a b)
    (hlive : a.lease.isSome → a.item.isDead = false)
    (hmax : m'.maxDeliveries = m.maxDeliveries)
    (hcount : count' b.id = nextCount (request.revives a) (request.fails date a) (count a.id))
    (h : m.Accounted count a) : m'.Accounted count' b := by
  cases hrevives : request.revives a with
  | true =>
    obtain ⟨hzero, hdead⟩ := hnext.revived hrevives
    refine ⟨by rw [hcount, hzero, nextCount, hrevives, if_pos rfl], ?_⟩
    rw [hdead, hzero]
    simp
  | false =>
    cases hfails : request.fails date a with
    | true =>
      have hclaimed : a.lease.isSome := by
        cases a with
        | queued item => exact absurd (hfails.symm.trans (request.fails_queued date item)) (by simp)
        | claimed item => rfl
      obtain ⟨hsucc, hdead⟩ := hnext.failed hfails (hlive hclaimed)
      refine ⟨by rw [hcount, hsucc, h.deliveryCount]; simp [nextCount, hrevives, hfails], ?_⟩
      rw [hdead, hsucc, hmax, decide_eq_true_iff]
      push_cast
      omega
    | false =>
      obtain ⟨hsame, hdead⟩ := hnext.kept hfails hrevives
      refine ⟨by rw [hcount, hsame, h.deliveryCount]; simp [nextCount, hrevives, hfails], ?_⟩
      rw [hdead, hsame, hmax]
      exact h.isDead

end Step

namespace Mem

variable [JsRuntime V] {m : Mem V}

theorem step_maxDeliveries (m : Mem V) (op : Op V) :
    (m.step op).maxDeliveries = m.maxDeliveries := by
  cases op with
  | clock time => rfl
  | executor op => exact congrArg Apparatus.maxDeliveries (m.execExecutor_apparatus op)
  | store op =>
    cases hop : op.isRecordOp with
    | true => exact congrArg Apparatus.maxDeliveries (m.execStore_apparatus hop)
    | false =>
      cases op with
      | deleteRun runId =>
        obtain ⟨treeIds, hdelete⟩ := m.deleteRun_eq runId
        refine (congrArg maxDeliveries hdelete).trans ?_
        unfold deleteRunTrees
        split <;> rfl
      | pruneTerminalRuns params =>
        obtain ⟨treeIds, hprune⟩ := m.pruneTerminalRuns_eq params
        refine (congrArg maxDeliveries hprune).trans ?_
        simp only [sweepDeadCommands, deleteRunTrees]
        split <;> rfl
      | markDeadCommandReaped commandId =>
        simp only [step, exec, execStore, markDeadCommandReaped, returning]
        repeat' split
        all_goals rfl
      | requeueDeadCommand commandId =>
        simp only [step, exec, execStore, requeueDeadCommand, returning]
        repeat' split
        all_goals rfl
      | acquireRunLease runId leaseMs =>
        simp only [step, exec, execStore, acquireRunLease, returning]
        repeat' split
        all_goals rfl
      | renewRunLease lease leaseMs =>
        simp only [step, exec, execStore, renewRunLease, returning]
        repeat' split
        all_goals rfl
      | releaseRunLease lease =>
        simp only [step, exec, execStore, releaseRunLease, returning]
        split <;> rfl
      | _ => cases hop

/-! ## Accounts over a history -/

/-- Every command of both queues is accounted for. -/
structure AllAccounted (m : Mem V) (count : String → Nat) : Prop where
  continueQueue : ∀ e ∈ m.continueQueue.entries, m.Accounted count e
  attemptQueue : ∀ e ∈ m.attemptQueue.entries, m.Accounted count e

omit [JsRuntime V] in
/-- The request to the queue of an entry decides what the operation does to the entry's id. -/
private theorem QueuesKept.revives_continue (h : QueuesKept m) (op : Op V)
    {e : Entry ContinueRunCommand} (he : e ∈ m.continueQueue.entries) :
    m.revives e.id op = (continueKind.request op).revives e ∧
      m.failsDelivery e.id op = (continueKind.request op).fails m.now.1 e := by
  have hother : ∀ e' ∈ m.attemptQueue.entries, e'.id ≠ e.id := fun e' he' =>
    (h.continueQueue.ids_disjoint h.attemptQueue he he').symm
  rw [revives, failsDelivery, CommandQueue.revives_false hother,
    CommandQueue.failsDelivery_false hother, Bool.or_false, Bool.or_false]
  exact ⟨h.continueQueue.revives_eq he _, h.continueQueue.failsDelivery_eq he _ _⟩

omit [JsRuntime V] in
private theorem QueuesKept.revives_attempt (h : QueuesKept m) (op : Op V)
    {e : Entry (AttemptCommand V)} (he : e ∈ m.attemptQueue.entries) :
    m.revives e.id op = (attemptKind.request op).revives e ∧
      m.failsDelivery e.id op = (attemptKind.request op).fails m.now.1 e := by
  have hother : ∀ e' ∈ m.continueQueue.entries, e'.id ≠ e.id := fun e' he' =>
    h.continueQueue.ids_disjoint h.attemptQueue he' he
  rw [revives, failsDelivery, CommandQueue.revives_false hother,
    CommandQueue.failsDelivery_false hother, Bool.false_or, Bool.false_or]
  exact ⟨h.attemptQueue.revives_eq he _, h.attemptQueue.failsDelivery_eq he _ _⟩

omit [JsRuntime V] in
/-- Nothing concerns an id that is not minted yet. -/
private theorem QueuesKept.nextCount_fresh (h : QueuesKept m) (op : Op V) (label : String) {i : Nat}
    (hi : m.nextId ≤ i) (count : Nat) :
    nextCount (m.revives (freshId label i) op) (m.failsDelivery (freshId label i) op) count =
      count := by
  have hfresh {id : String} (hminted : ∃ label, Minted label m.nextId id) :
      id ≠ freshId label i := by
    rintro rfl
    obtain ⟨label', j, hj, hid⟩ := hminted
    have := (freshId_inj hid).2
    omega
  have hcontinue : ∀ e ∈ m.continueQueue.entries, e.id ≠ freshId label i := fun e he =>
    hfresh ((h.continueQueue.minted e he).imp fun _ => And.right)
  have hattempt : ∀ e ∈ m.attemptQueue.entries, e.id ≠ freshId label i := fun e he =>
    hfresh ((h.attemptQueue.minted e he).imp fun _ => And.right)
  rw [revives, failsDelivery, CommandQueue.revives_false hcontinue,
    CommandQueue.revives_false hattempt, CommandQueue.failsDelivery_false hcontinue,
    CommandQueue.failsDelivery_false hattempt]
  rfl

theorem AllAccounted.step (hq : QueuesKept m) {count : String → Nat}
    (hfresh : ∀ label i, m.nextId ≤ i → count (freshId label i) = 0)
    (h : m.AllAccounted count) (op : Op V) :
    (m.step op).AllAccounted fun id =>
      nextCount (m.revives id op) (m.failsDelivery id op) (count id) := by
  -- a command that was enqueued just now has a fresh id and no failed delivery
  have henqueued {β : Type} {labels : List String} {e : Entry β}
      (henters : Enqueued labels m.nextId (m.step op).nextId e) : (m.step op).Accounted
      (fun id => nextCount (m.revives id op) (m.failsDelivery id op) (count id)) e := by
    obtain ⟨label, -, hid⟩ := henters.id
    refine ⟨?_, ?_⟩
    · rw [hid, hq.nextCount_fresh op label le_rfl, hfresh label _ le_rfl]
      exact henters.fresh.1
    · rw [henters.fresh.2, henters.fresh.1]
      simp
  constructor
  · intro b hb
    obtain ⟨a, ha, hnext⟩ | henters :=
      (continue_serves hq.continueQueue op).change.backward hb
    · refine (h.continueQueue a ha).next hnext (hq.continueQueue.live a ha)
        (m.step_maxDeliveries op) ?_
      rw [hnext.id, (hq.revives_continue op ha).1, (hq.revives_continue op ha).2]
    · exact henqueued henters.2
  · intro b hb
    obtain ⟨a, ha, hnext⟩ | henters :=
      (attempt_serves hq.continueQueue hq.attemptQueue op).change.backward hb
    · refine (h.attemptQueue a ha).next hnext (hq.attemptQueue.live a ha)
        (m.step_maxDeliveries op) ?_
      rw [hnext.id, (hq.revives_attempt op ha).1, (hq.revives_attempt op ha).2]
    · exact henqueued henters.2

theorem AllAccounted.run (hm : m.Sound) (hq : QueuesKept m) {count : String → Nat}
    (hfresh : ∀ label i, m.nextId ≤ i → count (freshId label i) = 0)
    (h : m.AllAccounted count) (history : List (Op V)) :
    (m.run history).AllAccounted fun id => m.failedDeliveries id (count id) history := by
  induction history generalizing m count with
  | nil => exact h
  | cons op history ih =>
    refine ih (hm.step op) (hq.step hm op) (fun label i hi => ?_) (h.step hq hfresh op)
    have hi' := (Effect.nextId_le (step_effect hm.keyed op)).trans hi
    rw [hq.nextCount_fresh op label hi', hfresh label i hi']

/-! ## Dead commands stay put -/

/-- Every command with that id is dead. -/
structure OnlyDead (commandId : String) (m : Mem V) : Prop where
  minted : ∃ label, Minted label m.nextId commandId
  continueQueue : ∀ e ∈ m.continueQueue.entries, e.id = commandId → e.item.isDead
  attemptQueue : ∀ e ∈ m.attemptQueue.entries, e.id = commandId → e.item.isDead

omit [JsRuntime V] in
private theorem Next.isDead_of_isDead {maxDeliveries : Int} {date : Nat} {request : Request V α}
    {a b : Entry α} (h : Next maxDeliveries date request a b) (ha : a.item.isDead)
    (hlive : a.lease.isSome → a.item.isDead = false) (hrevives : request.revives a = false) :
    b.item.isDead := by
  have hfails : request.fails date a = false := by
    cases a with
    | queued item => exact request.fails_queued date item
    | claimed item => exact absurd (ha.symm.trans (hlive rfl)) (by simp)
  rw [(h.kept hfails hrevives).2]
  exact ha

omit [JsRuntime V] in
private theorem revives_eq_false {request : Request V α} {e : Entry α}
    (h : request ≠ .requeueDead e.id) : request.revives e = false := by
  cases request with
  | requeueDead commandId =>
    cases e with
    | claimed item => rfl
    | queued item =>
      have hne : item.id ≠ commandId := fun hid => h (congrArg Request.requeueDead hid.symm)
      simp [Request.revives, hne]
  | _ => rfl

omit [JsRuntime V] in
private theorem eq_requeueDead_of_continue {op : Op V} {commandId : String}
    (h : continueKind.request op = .requeueDead commandId) :
    op = .store (.requeueDeadCommand commandId) := by
  cases op with
  | clock time => cases h
  | executor op => cases op <;> cases h
  | store op =>
    cases op <;> cases h
    rfl

omit [JsRuntime V] in
private theorem eq_requeueDead_of_attempt {op : Op V} {commandId : String}
    (h : attemptKind.request op = .requeueDead commandId) :
    op = .store (.requeueDeadCommand commandId) := by
  cases op with
  | clock time => cases h
  | executor op => cases op <;> cases h
  | store op =>
    cases op <;> cases h
    rfl

theorem OnlyDead.step {commandId : String} (hm : m.Sound) (hq : QueuesKept m)
    (h : OnlyDead commandId m) {op : Op V} (hop : op ≠ .store (.requeueDeadCommand commandId)) :
    OnlyDead commandId (m.step op) := by
  obtain ⟨label, i, hi, rfl⟩ := h.minted
  refine ⟨⟨label, i, hi.trans_le (Effect.nextId_le (step_effect hm.keyed op)), rfl⟩, ?_, ?_⟩
  · intro b hb hid
    obtain ⟨a, ha, hnext⟩ | henters := (continue_serves hq.continueQueue op).change.backward hb
    · have hid' := hnext.id.symm.trans hid
      refine Next.isDead_of_isDead hnext (h.continueQueue a ha hid') (hq.continueQueue.live a ha)
        (revives_eq_false fun hrequest => hop ?_)
      rw [← hid']
      exact eq_requeueDead_of_continue hrequest
    · obtain ⟨label', -, hfresh⟩ := henters.2.id
      exact absurd (freshId_inj (hid.symm.trans hfresh)).2 hi.ne
  · intro b hb hid
    obtain ⟨a, ha, hnext⟩ | henters :=
      (attempt_serves hq.continueQueue hq.attemptQueue op).change.backward hb
    · have hid' := hnext.id.symm.trans hid
      refine Next.isDead_of_isDead hnext (h.attemptQueue a ha hid') (hq.attemptQueue.live a ha)
        (revives_eq_false fun hrequest => hop ?_)
      rw [← hid']
      exact eq_requeueDead_of_attempt hrequest
    · obtain ⟨label', -, hfresh⟩ := henters.2.id
      exact absurd (freshId_inj (hid.symm.trans hfresh)).2 hi.ne

/-- A command that is claimed is not dead. -/
theorem OnlyDead.not_claimed {commandId : String} (hm : m.Sound) (hq : QueuesKept m)
    (h : OnlyDead commandId m) :
    (∀ worker, ∀ claim ∈ (m.claimContinue worker).1, claim.id ≠ commandId) ∧
      ∀ worker, ∀ claim ∈ (m.claimAttempt worker).1, claim.id ≠ commandId := by
  constructor
  · rintro worker claim hclaim rfl
    have h' : OnlyDead claim.id (m.step (.executor (.claimContinue worker))) := h.step hm hq nofun
    have hq' := (hq.step hm (.executor (.claimContinue worker))).continueQueue
    obtain ⟨item, hget, -⟩ := matchesClaim_eq_true.mp (claimContinue_eq_some hclaim).1
    have hmem := CommandQueue.claimed_mem (q := (m.claimContinue worker).2.continueQueue) hget
    have hdead := h'.continueQueue _ hmem (hq'.keyed _ _ hget)
    exact absurd (hdead.symm.trans (hq'.live _ hmem rfl)) (by simp)
  · rintro worker claim hclaim rfl
    have h' : OnlyDead claim.id (m.step (.executor (.claimAttempt worker))) := h.step hm hq nofun
    have hq' := (hq.step hm (.executor (.claimAttempt worker))).attemptQueue
    obtain ⟨item, hget, -⟩ := matchesClaim_eq_true.mp (claimAttempt_eq_some hclaim).1
    have hmem := CommandQueue.claimed_mem (q := (m.claimAttempt worker).2.attemptQueue) hget
    have hdead := h'.attemptQueue _ hmem (hq'.keyed _ _ hget)
    exact absurd (hdead.symm.trans (hq'.live _ hmem rfl)) (by simp)

omit [JsRuntime V] in
theorem OnlyDead.of_dead (hq : QueuesKept m) {commandId : String}
    (h : (∃ e ∈ m.continueQueue.entries, e.id = commandId ∧ e.item.isDead) ∨
      ∃ e ∈ m.attemptQueue.entries, e.id = commandId ∧ e.item.isDead) : OnlyDead commandId m := by
  obtain ⟨e, he, rfl, hdead⟩ | ⟨e, he, rfl, hdead⟩ := h
  · refine ⟨hq.minted (mem_commandIds.mpr (.inl ⟨e, he, rfl⟩)), fun a ha hid => ?_,
      fun a ha hid => ?_⟩
    · rwa [hq.continueQueue.eq_of_id ha he hid]
    · exact absurd hid.symm (hq.continueQueue.ids_disjoint hq.attemptQueue he ha)
  · refine ⟨hq.minted (mem_commandIds.mpr (.inr ⟨e, he, rfl⟩)), fun a ha hid => ?_,
      fun a ha hid => ?_⟩
    · exact absurd hid (hq.continueQueue.ids_disjoint hq.attemptQueue ha he)
    · rwa [hq.attemptQueue.eq_of_id ha he hid]

omit [JsRuntime V] in
/-- Reviving a dead entry. -/
private theorem revived {kind : QueueKind V α} (hq : Kept kind m) {m' : Mem V} {e : Entry α}
    (hserves : Serves kind (.requeueDead e.id) m m') (he : e ∈ (kind.queue m).entries)
    (hdead : e.item.isDead) : ∃ e' ∈ (kind.queue m').entries,
      e'.id = e.id ∧ e'.item.deliveryCount = 0 ∧ e'.item.isDead = false := by
  have hrevives : (.requeueDead e.id : Request V α).revives e = true := by
    cases e with
    | queued item => exact (Bool.and_eq_true _ _).mpr ⟨decide_eq_true rfl, hdead⟩
    | claimed item => exact absurd (hdead.symm.trans (hq.live _ he rfl)) (by simp)
  obtain ⟨b, hb, hnext⟩ | hleaves := hserves.change.forward he
  · exact ⟨b, hb, hnext.id, hnext.revived hrevives⟩
  · cases e <;> cases hleaves

theorem deadLettered (hm : m.Sound) (hq : QueuesKept m) : m.DeadLettered where
  unclaimable commandId hdead later hlater := by
    have hrun := Trace.run_inv Mem.step (P := fun op => op ≠ .store (.requeueDeadCommand commandId))
      (I := fun m : Mem V => (m.Sound ∧ QueuesKept m) ∧ OnlyDead commandId m)
      (fun m op hop h => ⟨⟨h.1.1.step op, h.1.2.step h.1.1 op⟩, h.2.step h.1.1 h.1.2 hop⟩) hlater
      ⟨⟨hm, hq⟩, .of_dead hq hdead⟩
    exact hrun.2.not_claimed hrun.1.1 hrun.1.2
  revivedContinue e he hdead := revived hq.continueQueue
    (continue_serves hq.continueQueue (.store (.requeueDeadCommand e.id))) he hdead
  revivedAttempt e he hdead := revived hq.attemptQueue
    (attempt_serves hq.continueQueue hq.attemptQueue (.store (.requeueDeadCommand e.id))) he hdead

/-- After every history the delivery count of each command is the number of its failed deliveries
since it was enqueued or revived, and it is dead exactly when that number has reached
`max 1 maxDeliveries`; dead commands are not claimed until they are revived with a full budget. -/
theorem dead_letters (maxDeliveries : Option Int) (history : List (Op V)) :
    (after maxDeliveries history).AllAccounted (fun commandId =>
      (createInMemoryWorkflowRuntime maxDeliveries).failedDeliveries commandId 0 history) ∧
    (after maxDeliveries history).DeadLettered := by
  have hcreate := sound_create (V := V) maxDeliveries
  refine ⟨?_, deadLettered (sound_after maxDeliveries history)
    (queuesKept_after maxDeliveries history)⟩
  exact AllAccounted.run hcreate (queuesKept_create maxDeliveries) (fun _ _ _ => rfl)
    ⟨nofun, nofun⟩ history

/-- With the option `maxDeliveries: 0` a command that was just enqueued has reached the threshold
and is not dead. -/
theorem not_dead_of_maxDeliveries_zero :
    ¬ ∀ (maxDeliveries : Option Int) (history : List (Op JsonText)),
      ∀ e ∈ (after maxDeliveries history).continueQueue.entries,
        (e.item.isDead ↔ (after maxDeliveries history).maxDeliveries ≤ e.item.deliveryCount) := by
  intro h
  have hitem := h (some 0) [.executor (.enqueue ⟨"run-1", "w"⟩ none)]
    (.queued ⟨"continue-1", ⟨"run-1", "w"⟩, none, 0, none, none, none, 1⟩)
    (CommandQueue.mem_entries.mpr (.inl ⟨_, by decide, rfl⟩))
  exact absurd (hitem.mpr (by decide)) (by decide)

end Mem

end Neemata.Workflows
