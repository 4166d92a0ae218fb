import Neemata.Workflows.InMemory.Conservation

/-!
# Queue conservation and claim exclusivity

A command id is in one place: queued once, or claimed under one lease. It leaves the queues only
by an acknowledgement with the current lease or by a deletion, and then for good; a claim that
lost its lease changes nothing; and of the claims a history hands out, no two of one command are
valid at the same time (`commands_conserved`).
-/

namespace Neemata.Workflows

variable {V α : Type}

/-! ## Where commands are -/

/-- The ids of the commands of a queue, queued and claimed, with their runs. -/
def CommandQueue.commands (q : CommandQueue α) (runId : α → String) : List (String × String) :=
  q.queued.map (fun item => (item.id, runId item.payload)) ++
    q.claimed.values.map fun item => (item.id, runId item.payload)

theorem CommandQueue.mem_commands {q : CommandQueue α} {runId : α → String} {id run : String} :
    (id, run) ∈ q.commands runId ↔ ∃ e ∈ q.entries, e.id = id ∧ runId e.item.payload = run := by
  simp only [commands, List.mem_append, List.mem_map, Prod.mk.injEq]
  constructor
  · rintro (⟨item, hitem, hid⟩ | ⟨item, hitem, hid⟩)
    · exact ⟨.queued item, mem_entries.mpr (.inl ⟨item, hitem, rfl⟩), hid⟩
    · exact ⟨.claimed item, mem_entries.mpr (.inr ⟨item, hitem, rfl⟩), hid⟩
  · rintro ⟨e, he, hid⟩
    obtain ⟨item, hitem, rfl⟩ | ⟨item, hitem, rfl⟩ := mem_entries.mp he
    · exact .inl ⟨item, hitem, hid⟩
    · exact .inr ⟨item, hitem, hid⟩

theorem CommandQueue.map_fst_commands (q : CommandQueue α) (runId : α → String) :
    (((q.commands runId).map Prod.fst : List String) : Multiset String) =
      q.entries.map Entry.id := by
  rw [commands, entries, Multiset.map_add, Multiset.map_map, Multiset.map_map]
  simp only [Multiset.map_coe, Multiset.coe_add, List.map_append, List.map_map]
  rfl

namespace Mem

/-- The ids of all commands with the ids of their runs. -/
def commands (m : Mem V) : List (String × String) :=
  m.continueQueue.commands ContinueRunCommand.runId ++
    m.attemptQueue.commands AttemptCommand.runId

def commandIds (m : Mem V) : List String := m.commands.map Prod.fst

def holdsContinue (m : Mem V) (claim : Claimed ContinueRunCommand) : Bool :=
  matchesClaim (m.claimedContinueRunCommands.get? claim.id) claim

def holdsAttempt (m : Mem V) (claim : Claimed (AttemptCommand V)) : Bool :=
  matchesClaim (m.claimedAttemptCommands.get? claim.id) claim

variable [JsRuntime V]

/-- The operations that may make a command disappear: an acknowledgement with its current lease,
or a deletion that covers it. -/
def Removes (m : Mem V) (commandId : String) : Op V → Prop
  | .executor (.ackContinue claim) => claim.id = commandId ∧ m.holdsContinue claim
  | .executor (.ackAttempt claim) => claim.id = commandId ∧ m.holdsAttempt claim
  | .executor (.deleteUnclaimed runId) =>
    ∃ item ∈ m.attemptCommands, item.id = commandId ∧ item.payload.runId = runId
  | .store (.deleteRun runId) => ∃ run, (commandId, run) ∈ m.commands ∧
    (m.step (.store (.deleteRun runId))).runs.get? run = none
  | .store (.pruneTerminalRuns params) => (∃ run, (commandId, run) ∈ m.commands ∧
      (m.step (.store (.pruneTerminalRuns params))).runs.get? run = none) ∨
    (∃ item ∈ m.continueRunCommands, item.id = commandId ∧ isSweepable params.olderThan item) ∨
    ∃ item ∈ m.attemptCommands, item.id = commandId ∧ isSweepable params.olderThan item
  | _ => False

/-- What holds of the commands in one state and over the steps from it. -/
structure Conserves (m : Mem V) : Prop where
  /-- An id is in one place: queued once, or claimed under one lease. -/
  once : m.commandIds.Nodup
  keyed : (∀ key item, m.claimedContinueRunCommands.get? key = some item → item.id = key) ∧
    ∀ key item, m.claimedAttemptCommands.get? key = some item → item.id = key
  removed (op : Op V) : ∀ commandId ∈ m.commandIds,
    commandId ∉ (m.step op).commandIds → m.Removes commandId op
  /-- A command that is gone does not come back. -/
  gone (later more : List (Op V)) : ∀ commandId ∈ m.commandIds,
    commandId ∉ (m.run later).commandIds → commandId ∉ (m.run (later ++ more)).commandIds
  /-- A claim is valid when it is handed out. -/
  handedOut : (∀ worker, ∀ claim ∈ (m.claimContinue worker).1,
      (m.claimContinue worker).2.holdsContinue claim) ∧
    ∀ worker, ∀ claim ∈ (m.claimAttempt worker).1, (m.claimAttempt worker).2.holdsAttempt claim
  staleContinue (claim : Claimed ContinueRunCommand) : m.holdsContinue claim = false →
    m.ackContinue claim = (.error (.error "Stale workflow command ack"), m) ∧
    ∀ options, m.releaseContinue claim options = m
  staleAttempt (claim : Claimed (AttemptCommand V)) : m.holdsAttempt claim = false →
    m.ackAttempt claim = (.error (.error "Stale workflow command ack"), m) ∧
    (∀ options, m.releaseAttempt claim options = m) ∧
    ∀ leaseMs, m.heartbeat claim leaseMs =
      (.error (.error "Workflow attempt heartbeat lease lost"), m)

/-- The continue claims that a history hands out. -/
def continueClaims (m : Mem V) : List (Op V) → List (Claimed ContinueRunCommand)
  | [] => []
  | .executor (.claimContinue worker) :: history =>
    (m.claimContinue worker).1.toList ++ (m.claimContinue worker).2.continueClaims history
  | op :: history => (m.step op).continueClaims history

/-- The attempt claims that a history hands out. -/
def attemptClaims (m : Mem V) : List (Op V) → List (Claimed (AttemptCommand V))
  | [] => []
  | .executor (.claimAttempt worker) :: history =>
    (m.claimAttempt worker).1.toList ++ (m.claimAttempt worker).2.attemptClaims history
  | op :: history => (m.step op).attemptClaims history

/-! ## A command is in one place -/

omit [JsRuntime V] in
theorem QueuesKept.nodup_commandIds {m : Mem V} (h : QueuesKept m) : m.commandIds.Nodup := by
  have hcontinue := h.continueQueue.nodup
  have hattempt := h.attemptQueue.nodup
  simp only [continueKind, attemptKind] at hcontinue hattempt
  rw [← CommandQueue.map_fst_commands _ ContinueRunCommand.runId, Multiset.coe_nodup] at hcontinue
  rw [← CommandQueue.map_fst_commands _ AttemptCommand.runId, Multiset.coe_nodup] at hattempt
  rw [commandIds, commands, List.map_append, List.nodup_append]
  refine ⟨hcontinue, hattempt, ?_⟩
  rintro id hid _ hid' rfl
  obtain ⟨⟨_, run⟩, hmem, rfl⟩ := List.mem_map.mp hid
  obtain ⟨⟨_, run'⟩, hmem', hsame⟩ := List.mem_map.mp hid'
  obtain ⟨e, he, hid, -⟩ := CommandQueue.mem_commands.mp hmem
  obtain ⟨e', he', hid', -⟩ := CommandQueue.mem_commands.mp hmem'
  exact h.continueQueue.ids_disjoint h.attemptQueue he he' (hid.trans (hsame.symm.trans hid'.symm))

omit [JsRuntime V] in
theorem mem_commandIds {m : Mem V} {commandId : String} : commandId ∈ m.commandIds ↔
    (∃ e ∈ m.continueQueue.entries, e.id = commandId) ∨
      ∃ e ∈ m.attemptQueue.entries, e.id = commandId := by
  simp only [commandIds, commands, List.map_append, List.mem_append, List.mem_map, Prod.exists,
    CommandQueue.mem_commands]
  constructor
  · rintro (⟨_, _, ⟨e, he, rfl, -⟩, rfl⟩ | ⟨_, _, ⟨e, he, rfl, -⟩, rfl⟩)
    · exact .inl ⟨e, he, rfl⟩
    · exact .inr ⟨e, he, rfl⟩
  · rintro (⟨e, he, rfl⟩ | ⟨e, he, rfl⟩)
    · exact .inl ⟨_, _, ⟨e, he, rfl, rfl⟩, rfl⟩
    · exact .inr ⟨_, _, ⟨e, he, rfl, rfl⟩, rfl⟩

private theorem removes_of_continue {m : Mem V} (h : Kept (V := V) continueKind m) (op : Op V)
    {e : Entry ContinueRunCommand} (he : e ∈ m.continueQueue.entries)
    (hremoves : (continueKind.request op).removes
      ((m.step op).runs.get? e.item.payload.runId).isNone ContinueRunCommand.runId e = true) :
    m.Removes e.id op := by
  have hcommand : (e.id, e.item.payload.runId) ∈ m.commands :=
    List.mem_append.mpr (.inl (CommandQueue.mem_commands.mpr ⟨e, he, rfl, rfl⟩))
  have hqueued {item} (hitem : .queued item ∈ m.continueQueue.entries) :
      item ∈ m.continueRunCommands := by
    obtain ⟨_, hmem, heq⟩ | ⟨_, -, heq⟩ := CommandQueue.mem_entries.mp hitem <;> cases heq
    exact hmem
  cases op with
  | clock time => cases hremoves
  | executor op =>
    cases op with
    | ackContinue claim =>
      cases e with
      | queued item => cases hremoves
      | claimed item =>
        obtain ⟨hget, htoken⟩ := h.get?_of_holds he hremoves
        exact ⟨(h.keyed _ _ hget).symm, matchesClaim_eq_true.mpr ⟨item, hget, htoken⟩⟩
    | _ => cases hremoves
  | store op =>
    cases op with
    | deleteRun runId => exact ⟨_, hcommand, Option.isNone_iff_eq_none.mp hremoves⟩
    | pruneTerminalRuns params =>
      cases e with
      | claimed item => exact .inl ⟨_, hcommand, Option.isNone_iff_eq_none.mp hremoves⟩
      | queued item =>
        obtain hgone | hsweep := (Bool.or_eq_true _ _).mp hremoves
        · exact .inl ⟨_, hcommand, Option.isNone_iff_eq_none.mp hgone⟩
        · exact .inr (.inl ⟨item, hqueued he, rfl, hsweep⟩)
    | _ => cases hremoves

private theorem removes_of_attempt {m : Mem V} (h : Kept (V := V) attemptKind m) (op : Op V)
    {e : Entry (AttemptCommand V)} (he : e ∈ m.attemptQueue.entries)
    (hremoves : (attemptKind.request op).removes
      ((m.step op).runs.get? e.item.payload.runId).isNone AttemptCommand.runId e = true) :
    m.Removes e.id op := by
  have hcommand : (e.id, e.item.payload.runId) ∈ m.commands :=
    List.mem_append.mpr (.inr (CommandQueue.mem_commands.mpr ⟨e, he, rfl, rfl⟩))
  have hqueued {item} (hitem : .queued item ∈ m.attemptQueue.entries) :
      item ∈ m.attemptCommands := by
    obtain ⟨_, hmem, heq⟩ | ⟨_, -, heq⟩ := CommandQueue.mem_entries.mp hitem <;> cases heq
    exact hmem
  cases op with
  | clock time => cases hremoves
  | executor op =>
    cases op with
    | ackAttempt claim =>
      cases e with
      | queued item => cases hremoves
      | claimed item =>
        obtain ⟨hget, htoken⟩ := h.get?_of_holds he hremoves
        exact ⟨(h.keyed _ _ hget).symm, matchesClaim_eq_true.mpr ⟨item, hget, htoken⟩⟩
    | deleteUnclaimed runId =>
      cases e with
      | queued item => exact ⟨item, hqueued he, rfl, of_decide_eq_true hremoves⟩
      | claimed item => cases hremoves
    | _ => cases hremoves
  | store op =>
    cases op with
    | deleteRun runId => exact ⟨_, hcommand, Option.isNone_iff_eq_none.mp hremoves⟩
    | pruneTerminalRuns params =>
      cases e with
      | claimed item => exact .inl ⟨_, hcommand, Option.isNone_iff_eq_none.mp hremoves⟩
      | queued item =>
        obtain hgone | hsweep := (Bool.or_eq_true _ _).mp hremoves
        · exact .inl ⟨_, hcommand, Option.isNone_iff_eq_none.mp hgone⟩
        · exact .inr (.inr ⟨item, hqueued he, rfl, hsweep⟩)
    | _ => cases hremoves

/-- An id disappears from the queues only under an operation that removes it. -/
theorem QueuesKept.removed {m : Mem V} (h : QueuesKept m) (op : Op V) {commandId : String}
    (hmem : commandId ∈ m.commandIds) (hgone : commandId ∉ (m.step op).commandIds) :
    m.Removes commandId op := by
  simp only [mem_commandIds, not_or, not_exists, not_and] at hgone
  obtain ⟨e, he, rfl⟩ | ⟨e, he, rfl⟩ := mem_commandIds.mp hmem
  · refine removes_of_continue h.continueQueue op he ?_
    refine (continue_serves h.continueQueue op).change.leaves_of_notMem (k := Entry.id)
      (fun _ _ => Next.id) he fun hsame => ?_
    obtain ⟨b, hb, hid⟩ := Multiset.mem_map.mp hsame
    exact hgone.1 b hb hid
  · refine removes_of_attempt h.attemptQueue op he ?_
    refine (attempt_serves h.continueQueue h.attemptQueue op).change.leaves_of_notMem
      (k := Entry.id) (fun _ _ => Next.id) he fun hsame => ?_
    obtain ⟨b, hb, hid⟩ := Multiset.mem_map.mp hsame
    exact hgone.2 b hb hid

/-- A minted id that is in no queue stays out of them. -/
theorem QueuesKept.not_mem_step {m : Mem V} (h : QueuesKept m) (op : Op V) {commandId : String}
    (hminted : ∃ label, Minted label m.nextId commandId) (hgone : commandId ∉ m.commandIds) :
    commandId ∉ (m.step op).commandIds := by
  obtain ⟨label, i, hi, rfl⟩ := hminted
  have hfresh {label' : String} (hid : freshId label i = freshId label' m.nextId) : False :=
    hi.ne (freshId_inj hid).2
  simp only [mem_commandIds, not_or, not_exists, not_and] at hgone ⊢
  constructor
  · intro e he hid
    obtain ⟨-, henters⟩ := (continue_serves h.continueQueue op).change.enters_of_notMem
      (k := Entry.id) (fun _ _ => Next.id) he fun hmem => by
        obtain ⟨a, ha, hsame⟩ := Multiset.mem_map.mp hmem
        exact hgone.1 a ha (hsame.trans hid)
    obtain ⟨label', -, hfreshId⟩ := henters.id
    exact hfresh (hid.symm.trans hfreshId)
  · intro e he hid
    obtain ⟨-, henters⟩ := (attempt_serves h.continueQueue h.attemptQueue op).change.enters_of_notMem
      (k := Entry.id) (fun _ _ => Next.id) he fun hmem => by
        obtain ⟨a, ha, hsame⟩ := Multiset.mem_map.mp hmem
        exact hgone.2 a ha (hsame.trans hid)
    obtain ⟨label', -, hfreshId⟩ := henters.id
    exact hfresh (hid.symm.trans hfreshId)

omit [JsRuntime V] in
theorem QueuesKept.minted {m : Mem V} (h : QueuesKept m) {commandId : String}
    (hmem : commandId ∈ m.commandIds) : ∃ label, Minted label m.nextId commandId := by
  obtain ⟨e, he, rfl⟩ | ⟨e, he, rfl⟩ := mem_commandIds.mp hmem
  · obtain ⟨label, -, hminted⟩ := h.continueQueue.minted e he
    exact ⟨label, hminted⟩
  · obtain ⟨label, -, hminted⟩ := h.attemptQueue.minted e he
    exact ⟨label, hminted⟩

theorem nextId_le_run {m : Mem V} (hm : m.Sound) (history : List (Op V)) :
    m.nextId ≤ (m.run history).nextId :=
  Trace.run_rel Mem.step (R := fun m m' : Mem V => m.nextId ≤ m'.nextId) (I := Mem.Sound)
    (P := fun _ => True) (fun _ => le_rfl) (fun _ _ _ => le_trans) (fun _ op _ hm => hm.step op)
    (fun _ op _ hm => Effect.nextId_le (step_effect hm.keyed op)) (fun _ _ => trivial) hm

theorem QueuesKept.gone {m : Mem V} (hm : m.Sound) (h : QueuesKept m) (later more : List (Op V))
    {commandId : String} (hmem : commandId ∈ m.commandIds)
    (hgone : commandId ∉ (m.run later).commandIds) :
    commandId ∉ (m.run (later ++ more)).commandIds := by
  obtain ⟨label, hminted⟩ := h.minted hmem
  obtain ⟨hm', h'⟩ := queuesKept_run hm h later
  have hrun : m.run (later ++ more) = (m.run later).run more := Trace.run_append _ _ _
  rw [hrun]
  refine (Trace.run_inv Mem.step (P := fun _ => True) (I := fun m : Mem V => (m.Sound ∧ QueuesKept m) ∧
    (∃ label, Minted label m.nextId commandId) ∧ commandId ∉ m.commandIds)
    (fun m op _ h => ?_) (fun _ _ => trivial)
    ⟨⟨hm', h'⟩, ⟨label, hminted.mono (nextId_le_run hm later)⟩, hgone⟩).2.2
  obtain ⟨⟨hm, h⟩, ⟨label, hminted⟩, hgone⟩ := h
  exact ⟨⟨hm.step op, h.step hm op⟩,
    ⟨label, hminted.mono (Effect.nextId_le (step_effect hm.keyed op))⟩,
    h.not_mem_step op ⟨label, hminted⟩ hgone⟩

/-! ## Claims that lost their lease -/

theorem staleContinue (m : Mem V) (claim : Claimed ContinueRunCommand)
    (h : m.holdsContinue claim = false) :
    m.ackContinue claim = (.error (.error "Stale workflow command ack"), m) ∧
    ∀ options, m.releaseContinue claim options = m := by
  rw [holdsContinue] at h
  refine ⟨by simp [ackContinue, h], fun options => ?_⟩
  unfold releaseContinue
  cases hget : m.claimedContinueRunCommands.get? claim.id with
  | none => rfl
  | some item =>
    rw [hget] at h
    exact if_pos (by simpa [matchesClaim] using h)

theorem staleAttempt (m : Mem V) (claim : Claimed (AttemptCommand V))
    (h : m.holdsAttempt claim = false) :
    m.ackAttempt claim = (.error (.error "Stale workflow command ack"), m) ∧
    (∀ options, m.releaseAttempt claim options = m) ∧
    ∀ leaseMs, m.heartbeat claim leaseMs =
      (.error (.error "Workflow attempt heartbeat lease lost"), m) := by
  rw [holdsAttempt] at h
  refine ⟨by simp [ackAttempt, h], fun options => ?_, fun leaseMs => ?_⟩
  · unfold releaseAttempt
    cases hget : m.claimedAttemptCommands.get? claim.id with
    | none => rfl
    | some item =>
      rw [hget] at h
      exact if_pos (by simpa [matchesClaim] using h)
  · unfold heartbeat
    cases hget : m.claimedAttemptCommands.get? claim.id with
    | none => rfl
    | some item =>
      rw [hget] at h
      exact if_pos (by simpa [matchesClaim] using h)

/-! ## Claims handed out -/

omit [JsRuntime V] in
/-- A claim that is handed out is valid and has a fresh token. -/
theorem claimContinue_eq_some {m : Mem V} {worker : RunCoordinationWorkerClaim}
    {claim : Claimed ContinueRunCommand} (h : (m.claimContinue worker).1 = some claim) :
    (m.claimContinue worker).2.holdsContinue claim ∧
      claim.leaseToken = freshId "continue-lease" m.nextId ∧
      (m.claimContinue worker).2.nextId = m.nextId + 1 := by
  have hnextId : (m.reclaimExpiredLeases m.claimedContinueRunCommands m.continueRunCommands
      (isEligibleContinue worker)).2.2.nextId = m.nextId :=
    (m.reclaimExpiredLeases_spec m.continueQueue (isEligibleContinue worker)).2.2.nextId
  revert h
  unfold claimContinue
  dsimp only
  split
  · exact fun h => nomatch h
  · rintro ⟨⟩
    refine ⟨?_, congrArg (freshId "continue-lease") hnextId, congrArg (· + 1) hnextId⟩
    simp [holdsContinue, matchesClaim, id]

theorem claimAttempt_eq_some {m : Mem V} {worker : ExecutionWorkerClaim}
    {claim : Claimed (AttemptCommand V)} (h : (m.claimAttempt worker).1 = some claim) :
    (m.claimAttempt worker).2.holdsAttempt claim ∧
      claim.leaseToken = freshId "attempt-claim-lease" m.nextId ∧
      (m.claimAttempt worker).2.nextId = m.nextId + 1 := by
  have hnextId : (m.reclaimExpiredLeases m.claimedAttemptCommands m.attemptCommands
      (isEligibleAttempt worker)).2.2.nextId = m.nextId :=
    (m.reclaimExpiredLeases_spec m.attemptQueue (isEligibleAttempt worker)).2.2.nextId
  revert h
  unfold claimAttempt
  dsimp only
  split
  · exact fun h => nomatch h
  · rintro ⟨⟩
    refine ⟨?_, congrArg (freshId "attempt-claim-lease") hnextId, congrArg (· + 1) hnextId⟩
    simp [holdsAttempt, matchesClaim, id]

/-- The claimed command is in the queue under the id of the claim. -/
theorem claimAttempt_entry {m : Mem V} {worker : ExecutionWorkerClaim}
    {claim : Claimed (AttemptCommand V)} (h : (m.claimAttempt worker).1 = some claim) :
    ∃ item, (m.claimAttempt worker).2.claimedAttemptCommands.get? claim.id = some item ∧
      item.id = claim.id ∧ item.payload = claim.command ∧ item.leaseToken = claim.leaseToken := by
  revert h
  unfold claimAttempt
  dsimp only
  split
  · intro h
    cases h
  · rintro ⟨⟩
    exact ⟨_, OrdMap.get?_set_self _ _ _, rfl, rfl, rfl⟩

/-- The claims of a history from `m` on have distinct tokens, minted after `m`. -/
theorem tokens_distinct {m : Mem V} (hm : m.Sound) (label : String)
    (claims : Mem V → List (Op V) → List (Claimed α))
    (hnil : ∀ m, claims m [] = [])
    (hcons : ∀ (m : Mem V) op history, claims m (op :: history) = claims (m.step op) history ∨
      ∃ claim, claims m (op :: history) = claim :: claims (m.step op) history ∧
        claim.leaseToken = freshId label m.nextId ∧ (m.step op).nextId = m.nextId + 1)
    (history : List (Op V)) :
    ((claims m history).Pairwise fun claim claim' => claim.leaseToken ≠ claim'.leaseToken) ∧
    ∀ claim ∈ claims m history, ∃ n, m.nextId ≤ n ∧ claim.leaseToken = freshId label n := by
  induction history generalizing m with
  | nil =>
    rw [hnil]
    exact ⟨.nil, nofun⟩
  | cons op history ih =>
    obtain ⟨hpairwise, hminted⟩ := ih (hm.step op)
    have hn := Effect.nextId_le (step_effect hm.keyed op)
    obtain heq | ⟨claim, heq, htoken, hnext⟩ := hcons m op history
    · rw [heq]
      refine ⟨hpairwise, fun claim hclaim => ?_⟩
      obtain ⟨n, hle, htoken⟩ := hminted claim hclaim
      exact ⟨n, hn.trans hle, htoken⟩
    · rw [heq]
      constructor
      · refine .cons (fun claim' hclaim' hsame => ?_) hpairwise
        obtain ⟨n, hle, htoken'⟩ := hminted claim' hclaim'
        have hnumber := (freshId_inj (htoken.symm.trans (hsame.trans htoken'))).2
        omega
      · intro claim' hclaim'
        obtain rfl | hclaim' := List.mem_cons.mp hclaim'
        · exact ⟨m.nextId, le_rfl, htoken⟩
        · obtain ⟨n, hle, htoken'⟩ := hminted claim' hclaim'
          exact ⟨n, hn.trans hle, htoken'⟩

theorem continueTokens_distinct {m : Mem V} (hm : m.Sound) (history : List (Op V)) :
    (m.continueClaims history).Pairwise fun claim claim' =>
      claim.leaseToken ≠ claim'.leaseToken := by
  refine (tokens_distinct hm "continue-lease" continueClaims (fun _ => rfl) (fun m op history => ?_)
    history).1
  cases op with
  | executor op =>
    cases op with
    | claimContinue worker =>
      cases hclaim : (m.claimContinue worker).1 with
      | none =>
        refine .inl ?_
        rw [continueClaims, hclaim]
        rfl
      | some claim =>
        obtain ⟨-, htoken, hnext⟩ := claimContinue_eq_some hclaim
        refine .inr ⟨claim, ?_, htoken, hnext⟩
        rw [continueClaims, hclaim]
        rfl
    | _ => exact .inl rfl
  | _ => exact .inl rfl

theorem attemptTokens_distinct {m : Mem V} (hm : m.Sound) (history : List (Op V)) :
    (m.attemptClaims history).Pairwise fun claim claim' =>
      claim.leaseToken ≠ claim'.leaseToken := by
  refine (tokens_distinct hm "attempt-claim-lease" attemptClaims (fun _ => rfl)
    (fun m op history => ?_) history).1
  cases op with
  | executor op =>
    cases op with
    | claimAttempt worker =>
      cases hclaim : (m.claimAttempt worker).1 with
      | none =>
        refine .inl ?_
        rw [attemptClaims, hclaim]
        rfl
      | some claim =>
        obtain ⟨-, htoken, hnext⟩ := claimAttempt_eq_some hclaim
        refine .inr ⟨claim, ?_, htoken, hnext⟩
        rw [attemptClaims, hclaim]
        rfl
    | _ => exact .inl rfl
  | _ => exact .inl rfl

/-- Two valid claims of one command carry one token. -/
theorem token_eq_of_matchesClaim {claimed : OrdMap String (ClaimedQueueItem α)}
    {claim claim' : Claimed α} (hid : claim.id = claim'.id)
    (h : matchesClaim (claimed.get? claim.id) claim = true)
    (h' : matchesClaim (claimed.get? claim'.id) claim' = true) :
    claim.leaseToken = claim'.leaseToken := by
  obtain ⟨item, hget, htoken⟩ := matchesClaim_eq_true.mp h
  obtain ⟨item', hget', htoken'⟩ := matchesClaim_eq_true.mp h'
  rw [hid] at hget
  obtain rfl := Option.some.inj (hget.symm.trans hget')
  exact htoken.symm.trans htoken'

theorem conserves {m : Mem V} (hm : m.Sound) (h : QueuesKept m) : m.Conserves where
  once := h.nodup_commandIds
  keyed := ⟨h.continueQueue.keyed, h.attemptQueue.keyed⟩
  removed op _ := h.removed op
  gone later more _ := h.gone hm later more
  handedOut := ⟨fun _ _ hclaim => (claimContinue_eq_some hclaim).1,
    fun _ _ hclaim => (claimAttempt_eq_some hclaim).1⟩
  staleContinue := m.staleContinue
  staleAttempt := m.staleAttempt

/-- After every history each command is in one place; it disappears only by an acknowledgement
with the current lease or a deletion, for good; claims that lost their lease change nothing; and
of all claims the history handed out, no two of one command are valid. -/
theorem commands_conserved (maxDeliveries : Option Int) (history : List (Op V)) :
    (after maxDeliveries history).Conserves ∧
    (((createInMemoryWorkflowRuntime maxDeliveries).continueClaims history).Pairwise
      fun claim claim' => ¬ (claim.id = claim'.id ∧
        (after maxDeliveries history).holdsContinue claim ∧
        (after maxDeliveries history).holdsContinue claim')) ∧
    ((createInMemoryWorkflowRuntime maxDeliveries).attemptClaims history).Pairwise
      fun claim claim' => ¬ (claim.id = claim'.id ∧
        (after maxDeliveries history).holdsAttempt claim ∧
        (after maxDeliveries history).holdsAttempt claim') := by
  have hcreate := sound_create (V := V) maxDeliveries
  refine ⟨conserves (sound_after maxDeliveries history) (queuesKept_after maxDeliveries history),
    (continueTokens_distinct hcreate history).imp ?_,
    (attemptTokens_distinct hcreate history).imp ?_⟩
  · rintro claim claim' hne ⟨hid, hholds, hholds'⟩
    exact hne (token_eq_of_matchesClaim hid hholds hholds')
  · rintro claim claim' hne ⟨hid, hholds, hholds'⟩
    exact hne (token_eq_of_matchesClaim hid hholds hholds')

end Mem

end Neemata.Workflows
