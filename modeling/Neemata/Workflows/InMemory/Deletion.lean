import Neemata.Workflows.InMemory.Attempts
import Neemata.Workflows.InMemory.Claims
import Neemata.Workflows.InMemory.Pruning
import Neemata.Workflows.InMemory.RunLeases

/-!
# Deletion leaves nothing behind

After `deleteRun` or `pruneTerminalRuns` nothing in the store refers to a deleted run, and what is
stored for the other runs is as it was. Acknowledging, releasing, heartbeating or claiming a
command later brings nothing back (`deletes_cleanly`).
-/

namespace Neemata.Workflows

variable {V α : Type}

namespace Mem

/-! ## References to a run -/

/-- Nothing in the store refers to the run. -/
structure Forgets (m : Mem V) (runId : String) : Prop where
  run : m.runs.get? runId = none
  nodes : ∀ node ∈ m.nodes.values, node.runId ≠ runId
  children : ∀ child ∈ m.children.values, child.runId ≠ runId ∧ child.childRunId ≠ some runId
  attempts : ∀ attempt ∈ m.attempts.values, attempt.runId ≠ runId
  lease : m.runLeases.get? runId = none
  idempotencyKeys : runId ∉ m.runIdempotencyKeys.values
  uniqueKeys : ∀ scope, runId ∉ (m.uniqueKeys scope).values
  commands : ∀ command ∈ m.commands, command.2 ≠ runId

theorem mem_commands {m : Mem V} {id runId : String} : (id, runId) ∈ m.commands ↔
    ((∃ item ∈ m.continueRunCommands, item.id = id ∧ item.payload.runId = runId) ∨
      ∃ item ∈ m.claimedContinueRunCommands.values, item.id = id ∧ item.payload.runId = runId) ∨
    (∃ item ∈ m.attemptCommands, item.id = id ∧ item.payload.runId = runId) ∨
      ∃ item ∈ m.claimedAttemptCommands.values, item.id = id ∧ item.payload.runId = runId := by
  simp only [commands, CommandQueue.commands, continueQueue, attemptQueue, List.mem_append,
    List.mem_map, Prod.mk.injEq]

theorem deleteRunTrees_commands (m : Mem V) (treeIds : List String) :
    ∀ command ∈ (m.deleteRunTrees treeIds).commands, command ∈ m.commands ∧ command.2 ∉ treeIds := by
  rintro ⟨id, runId⟩ hmem
  have hcontinue := m.deleteRunTrees_continueQueue treeIds
  have hattempt := m.deleteRunTrees_attemptQueue treeIds
  rw [commands, hcontinue, hattempt] at hmem
  simp only [CommandQueue.commands, List.mem_append, List.mem_map, List.mem_filter,
    OrdMap.mem_values_filter, decide_eq_true_eq, Prod.mk.injEq] at hmem
  rw [mem_commands]
  rcases hmem with (⟨item, ⟨hitem, hnot⟩, hid, rfl⟩ | ⟨item, ⟨hitem, hnot⟩, hid, rfl⟩) |
    ⟨item, ⟨hitem, hnot⟩, hid, rfl⟩ | ⟨item, ⟨hitem, hnot⟩, hid, rfl⟩
  · exact ⟨.inl (.inl ⟨item, hitem, hid, rfl⟩), hnot⟩
  · exact ⟨.inl (.inr ⟨item, hitem, hid, rfl⟩), hnot⟩
  · exact ⟨.inr (.inl ⟨item, hitem, hid, rfl⟩), hnot⟩
  · exact ⟨.inr (.inr ⟨item, hitem, hid, rfl⟩), hnot⟩

theorem deleteRunTrees_forgets (m : Mem V) {treeIds : List String} {runId : String}
    (hmem : runId ∈ treeIds) : (m.deleteRunTrees treeIds).Forgets runId := by
  have hcommands : ∀ command ∈ (m.deleteRunTrees treeIds).commands, command.2 ≠ runId := by
    rintro command hcommand rfl
    exact (m.deleteRunTrees_commands treeIds command hcommand).2 hmem
  simp only [deleteRunTrees, List.ne_nil_of_mem hmem, if_false] at hcommands ⊢
  constructor
  case commands => exact hcommands
  case run | lease =>
    rw [OrdMap.get?_filter]
    cases OrdMap.get? _ runId <;> simp [Option.filter, hmem]
  case uniqueKeys =>
    rintro (_ | _) hvalue <;>
      simp [uniqueKeys, OrdMap.mem_values_filter, hmem] at hvalue
  case idempotencyKeys =>
    intro hvalue
    simp [OrdMap.mem_values_filter, hmem] at hvalue
  case children =>
    intro child hchild
    simp only [OrdMap.mem_values_filter, decide_eq_true_eq] at hchild
    obtain ⟨-, hnot, hlink⟩ := hchild
    refine ⟨fun heq => hnot (heq ▸ hmem), fun heq => hlink ?_⟩
    simp [heq, hmem]
  all_goals
    rintro record hrecord rfl
    simp only [OrdMap.mem_values_filter, decide_eq_true_eq] at hrecord
    exact hrecord.2 hmem

/-! ## The records that stay -/

/-- Every record of the one store is a record of the other. -/
structure RecordsOf (m' m : Mem V) : Prop where
  runs : ∀ key run, m'.runs.get? key = some run → m.runs.get? key = some run
  nodes : ∀ key node, m'.nodes.get? key = some node → m.nodes.get? key = some node
  children : ∀ key child, m'.children.get? key = some child → m.children.get? key = some child
  attempts : ∀ key attempt, m'.attempts.get? key = some attempt → m.attempts.get? key = some attempt

theorem deleteRunTrees_recordsOf (m : Mem V) (treeIds : List String) :
    (m.deleteRunTrees treeIds).RecordsOf m := by
  unfold deleteRunTrees
  split
  · exact ⟨fun _ _ h => h, fun _ _ h => h, fun _ _ h => h, fun _ _ h => h⟩
  · constructor
    all_goals
      intro key record hget
      rw [OrdMap.get?_filter, Option.filter_eq_some_iff] at hget
      exact hget.1

/-- The children of the run are as they were. -/
def KeepsChildren (m m' : Mem V) (runId : String) : Prop :=
  ∀ key child, m.children.get? key = some child → child.runId = runId →
    m'.children.get? key = some child

theorem deleteRunTrees_keepsChildren (m : Mem V) {treeIds : List String} {runId : String}
    (hkeep : runId ∉ treeIds) (hlinked : ∀ key child, m.children.get? key = some child →
      child.runId = runId → ∀ childRunId ∈ treeIds, child.childRunId ≠ some childRunId) :
    m.KeepsChildren (m.deleteRunTrees treeIds) runId := by
  rintro key child hget rfl
  unfold deleteRunTrees
  split
  · exact hget
  · rw [OrdMap.get?_filter, hget, Option.filter_eq_some_iff]
    refine ⟨rfl, decide_eq_true ⟨hkeep, fun hlink => ?_⟩⟩
    obtain ⟨childRunId, hchildRunId, hmem⟩ := (Option.any_eq_true _ _).mp hlink
    exact hlinked key child hget rfl childRunId (by simpa using hmem) hchildRunId

end Mem

/-! ## What the deletions do -/

/-- A queued command that the operation drops for its age. -/
def Op.sweeps (op : Op V) (item : QueueItem α) : Bool :=
  match op with
  | .store (.pruneTerminalRuns params) => Mem.isSweepable params.olderThan item
  | _ => false

/-- The operations of a worker that claims commands or has claimed them. -/
def Op.isDelivery : Op V → Bool
  | .executor (.claimContinue _) | .executor (.ackContinue _) | .executor (.releaseContinue _ _)
  | .executor (.claimAttempt _) | .executor (.heartbeat _ _) | .executor (.ackAttempt _)
  | .executor (.releaseAttempt _ _) => true
  | _ => false

namespace Mem

def sweptBy (m : Mem V) (op : Op V) : Mem V :=
  { m with
    continueRunCommands := m.continueRunCommands.filter fun item => !op.sweeps item
    attemptCommands := m.attemptCommands.filter fun item => !op.sweeps item }

theorem sweptBy_deleteRun (m : Mem V) (runId : String) :
    m.sweptBy (.store (.deleteRun runId)) = m := by simp [sweptBy, Op.sweeps]

variable [JsRuntime V] {m : Mem V} {op : Op V}

/-- A deletion removes a family, some trees, or no run at all. -/
theorem deletion_cases (m : Mem V) (hop : op.isDeletion) :
    ∃ treeIds, (treeIds = [] ∨ Workflows.Deletion m.records treeIds) ∧
      m.step op = (m.deleteRunTrees treeIds).sweptBy op := by
  have hidle : ∀ runId, m = (m.deleteRunTrees []).sweptBy (.store (.deleteRun runId)) := by
    intro runId
    rw [sweptBy_deleteRun]
    rfl
  cases op with
  | store op =>
    cases op with
    | pruneTerminalRuns params =>
      exact ⟨_, .inr (.trees fun run hrun => pruneRoots_spec hrun), pruneTerminalRuns_snd m params⟩
    | deleteRun runId =>
      simp only [step, exec, execStore, deleteRun]
      split
      · exact ⟨[], .inl rfl, hidle runId⟩
      · next run hget =>
        split
        · exact ⟨[], .inl rfl, hidle runId⟩
        · next hparent =>
          split
          · exact ⟨[], .inl rfl, hidle runId⟩
          · next hfamily =>
            refine ⟨_, .inr (.family hget (not_not.mp hparent) fun id hid => ?_), ?_⟩
            · simp only [List.any_eq_true, not_exists, not_and, Bool.not_eq_true] at hfamily
              have hmember := hfamily id hid
              cases hrun : m.runs.get? id with
              | none => simp [hrun] at hmember
              | some member => exact ⟨member, hrun, by simpa [hrun] using hmember⟩
            · rw [sweptBy_deleteRun]
              rfl
    | _ => cases hop
  | _ => cases hop

omit [JsRuntime V] in
theorem sweptBy_commands (m : Mem V) (op : Op V) : (m.sweptBy op).commands ⊆ m.commands := by
  rintro ⟨id, runId⟩ hmem
  rw [mem_commands] at hmem ⊢
  refine hmem.imp (Or.imp_left ?_) (Or.imp_left ?_)
  · exact fun ⟨item, hitem, h⟩ => ⟨item, List.mem_of_mem_filter hitem, h⟩
  · exact fun ⟨item, hitem, h⟩ => ⟨item, List.mem_of_mem_filter hitem, h⟩

omit [JsRuntime V] in
theorem Forgets.sweptBy {runId : String} (h : m.Forgets runId) (op : Op V) :
    (m.sweptBy op).Forgets runId :=
  { h with
    uniqueKeys := h.uniqueKeys
    commands := fun command hcommand => h.commands command (m.sweptBy_commands op hcommand) }

/-- The queued commands of a run stay queued but for those that are swept. -/
structure KeepsUnswept (op : Op V) (m m' : Mem V) (runId : String) : Prop where
  continueCommands : ∀ item ∈ m.continueRunCommands, item.payload.runId = runId →
    op.sweeps item = false → item ∈ m'.continueRunCommands
  attemptCommands : ∀ item ∈ m.attemptCommands, item.payload.runId = runId →
    op.sweeps item = false → item ∈ m'.attemptCommands

omit [JsRuntime V] in
theorem deleteRunTrees_keepsUnswept (m : Mem V) (op : Op V) {treeIds : List String}
    {runId : String} (hkeep : runId ∉ treeIds) :
    KeepsUnswept op m ((m.deleteRunTrees treeIds).sweptBy op) runId := by
  have hcontinue := congrArg CommandQueue.queued (m.deleteRunTrees_continueQueue treeIds)
  have hattempt := congrArg CommandQueue.queued (m.deleteRunTrees_attemptQueue treeIds)
  simp only [continueQueue, attemptQueue] at hcontinue hattempt
  constructor
  · rintro item hitem rfl hlive
    simp only [Mem.sweptBy, hcontinue, List.mem_filter]
    exact ⟨⟨hitem, by simpa using hkeep⟩, by simp [hlive]⟩
  · rintro item hitem rfl hlive
    simp only [Mem.sweptBy, hattempt, List.mem_filter]
    exact ⟨⟨hitem, by simpa using hkeep⟩, by simp [hlive]⟩

end Mem

/-! ## Deliveries -/

theorem Serves.commands_subset {kind : QueueKind V α} {request : Request V α} {m m' : Mem V}
    (h : Serves kind request m m') (hrequest : request ≠ .enqueue) :
    (kind.queue m').commands kind.runId ⊆ (kind.queue m).commands kind.runId := by
  rintro ⟨id, runId⟩ hmem
  obtain ⟨e', he', rfl, rfl⟩ := CommandQueue.mem_commands.mp hmem
  obtain ⟨e, he, hnext⟩ | ⟨henqueue, -⟩ := h.change.backward he'
  · exact CommandQueue.mem_commands.mpr ⟨e, he, hnext.id.symm, by rw [hnext.payload hrequest]⟩
  · cases request <;> simp at henqueue hrequest

namespace Mem

variable [JsRuntime V] {m : Mem V} {op : Op V}

/-- Records, keys and leases are as they were, and no command is new. -/
structure BringsBackNothing (m m' : Mem V) : Prop where
  records : m'.records = m.records
  indexes : m'.indexes = m.indexes
  runLeases : m'.runLeases = m.runLeases
  commands : m'.commands ⊆ m.commands

theorem QueuesKept.delivery_bringsBackNothing (h : QueuesKept m) (hop : op.isDelivery) :
    m.BringsBackNothing (m.step op) := by
  have hcontinue := (continue_serves h.continueQueue op).commands_subset
  have hattempt := (attempt_serves h.continueQueue h.attemptQueue op).commands_subset
  cases op with
  | executor op =>
    have hquiet := m.execExecutor_quiet op
    refine ⟨hquiet.records, hquiet.indexes,
      congrArg Apparatus.runLeases (m.execExecutor_apparatus op), ?_⟩
    refine List.append_subset.mpr ⟨List.subset_append_of_subset_left _ (hcontinue ?_),
      List.subset_append_of_subset_right _ (hattempt ?_)⟩
    all_goals
      intro hrequest
      cases op <;> first | (cases hrequest; done) | cases hop
  | _ => cases hop

/-! ## Clean deletions -/

/-- What a deletion leaves: nothing of the runs it removes, and everything of the others. -/
structure DeletesCleanly (m : Mem V) (op : Op V) : Prop where
  forgotten : ∀ runId, (m.runs.get? runId).isSome → (m.step op).runs.get? runId = none →
    (m.step op).Forgets runId
  kept : ∀ runId, ((m.step op).runs.get? runId).isSome →
    m.KeepsRun (m.step op) runId ∧ m.KeepsChildren (m.step op) runId ∧
      KeepsUnswept op m (m.step op) runId
  nothingNew : (m.step op).RecordsOf m ∧ (m.step op).commands ⊆ m.commands
  returned : ∀ later (delivery : Op V), delivery.isDelivery →
    ((m.step op).run later).BringsBackNothing (((m.step op).run later).step delivery)
  /-- At any later time a claim on a command of a removed run does nothing. -/
  continueClaim : ∀ claim item, m.claimedContinueRunCommands.get? claim.id = some item →
    (m.step op).Forgets item.payload.runId → ∀ later,
      let m' := (m.step op).run later
      m'.ackContinue claim = (.error (.error "Stale workflow command ack"), m') ∧
        ∀ options, m'.releaseContinue claim options = m'
  attemptClaim : ∀ claim item, m.claimedAttemptCommands.get? claim.id = some item →
    (m.step op).Forgets item.payload.runId → ∀ later,
      let m' := (m.step op).run later
      m'.ackAttempt claim = (.error (.error "Stale workflow command ack"), m') ∧
        (∀ options, m'.releaseAttempt claim options = m') ∧
        ∀ leaseMs, m'.heartbeat claim leaseMs =
          (.error (.error "Workflow attempt heartbeat lease lost"), m')

/-- A command of a forgotten run is in no queue from then on. -/
theorem QueuesKept.gone_of_forgets (hm : m.Sound) (h : QueuesKept m) {id runId : String}
    (hmem : (id, runId) ∈ m.commands) (hsub : (m.step op).commands ⊆ m.commands)
    (hforgets : (m.step op).Forgets runId) (later : List (Op V)) :
    id ∉ ((m.step op).run later).commandIds := by
  have hgone : id ∉ (m.run [op]).commandIds := by
    intro hid
    obtain ⟨⟨_, other⟩, hother, rfl⟩ := List.mem_map.mp hid
    have hsame := List.inj_on_of_nodup_map h.nodup_commandIds (hsub hother) hmem rfl
    exact hforgets.commands _ hother (congrArg Prod.snd hsame)
  exact h.gone hm [op] later (List.mem_map.mpr ⟨_, hmem, rfl⟩) hgone

omit [JsRuntime V] in
theorem QueuesKept.not_holdsContinue (h : QueuesKept m) {claim : Claimed ContinueRunCommand}
    (hgone : claim.id ∉ m.commandIds) : m.holdsContinue claim = false := by
  rw [Bool.eq_false_iff]
  intro hholds
  obtain ⟨item, hget, -⟩ := matchesClaim_eq_true.mp hholds
  refine hgone (mem_commandIds.mpr (.inl ⟨_, CommandQueue.claimed_mem hget, ?_⟩))
  exact h.continueQueue.keyed _ _ hget

omit [JsRuntime V] in
theorem QueuesKept.not_holdsAttempt (h : QueuesKept m) {claim : Claimed (AttemptCommand V)}
    (hgone : claim.id ∉ m.commandIds) : m.holdsAttempt claim = false := by
  rw [Bool.eq_false_iff]
  intro hholds
  obtain ⟨item, hget, -⟩ := matchesClaim_eq_true.mp hholds
  refine hgone (mem_commandIds.mpr (.inr ⟨_, CommandQueue.claimed_mem hget, ?_⟩))
  exact h.attemptQueue.keyed _ _ hget

theorem deletesCleanly (hm : m.Sound) (hqueues : QueuesKept m) (hlinked : Linked m.records)
    (hop : op.isDeletion) : m.DeletesCleanly op := by
  obtain ⟨treeIds, hdeletion, hstep⟩ := m.deletion_cases hop
  have hgone : ∀ runId, (m.step op).runs.get? runId = none → (m.runs.get? runId).isSome →
      runId ∈ treeIds := by
    intro runId hnone hstored
    by_contra hkeep
    rw [hstep] at hnone
    rw [← (m.deleteRunTrees_keepsRun hkeep).run] at hstored
    exact absurd (hnone : (m.deleteRunTrees treeIds).runs.get? runId = none)
      (Option.isSome_iff_ne_none.mp hstored)
  have hstays : ∀ runId, ((m.step op).runs.get? runId).isSome → runId ∉ treeIds := by
    intro runId hstored hmem
    rw [hstep] at hstored
    have hnone : ((m.deleteRunTrees treeIds).sweptBy op).runs.get? runId = none :=
      m.deleteRunTrees_runs hmem
    rw [hnone] at hstored
    cases hstored
  have hlink : ∀ runId, ((m.step op).runs.get? runId).isSome → ∀ key child,
      m.children.get? key = some child → child.runId = runId →
      ∀ childRunId ∈ treeIds, child.childRunId ≠ some childRunId := by
    rintro _ hstored key child hget rfl childRunId hmem hchildRunId
    have hkeep := hstays _ hstored
    rw [hstep] at hstored
    obtain ⟨run, hrun⟩ := Option.isSome_iff_exists.mp hstored
    have hrunId := hm.separate_runId ((m.deleteRunTrees_recordsOf treeIds).runs _ _ hrun)
    rcases hdeletion with rfl | hdeletion
    · cases hmem
    · exact hkeep (hdeletion.mem_of_linked hm.keyed hlinked hget hrunId hchildRunId hmem)
  have hsub : (m.step op).commands ⊆ m.commands := by
    rw [hstep]
    refine List.Subset.trans (sweptBy_commands _ op) fun command hcommand => ?_
    exact (m.deleteRunTrees_commands treeIds command hcommand).1
  have hlater : ∀ {id runId}, (id, runId) ∈ m.commands → (m.step op).Forgets runId → ∀ later,
      id ∉ ((m.step op).run later).commandIds := fun hmem hforgets later =>
    hqueues.gone_of_forgets hm hmem hsub hforgets later
  have hkept : ∀ later, QueuesKept ((m.step op).run later) := fun later =>
    (queuesKept_run (hm.step op) (hqueues.step hm op) later).2
  constructor
  case forgotten =>
    intro runId hstored hnone
    rw [hstep]
    exact (m.deleteRunTrees_forgets (hgone runId hnone hstored)).sweptBy op
  case kept =>
    intro runId hstored
    have hkeep := hstays runId hstored
    rw [hstep]
    exact ⟨{ m.deleteRunTrees_keepsRun hkeep with }, m.deleteRunTrees_keepsChildren hkeep
      (hlink runId hstored),
      m.deleteRunTrees_keepsUnswept op hkeep⟩
  case nothingNew =>
    refine ⟨?_, hsub⟩
    rw [hstep]
    exact { m.deleteRunTrees_recordsOf treeIds with }
  case returned => exact fun later delivery => (hkept later).delivery_bringsBackNothing
  case continueClaim =>
    intro claim item hget hforgets later
    have hid : item.id = claim.id := hqueues.continueQueue.keyed _ _ hget
    refine staleContinue _ claim ((hkept later).not_holdsContinue (hlater ?_ hforgets later))
    exact mem_commands.mpr (.inl (.inr ⟨item, OrdMap.mem_values_of_get? hget, hid, rfl⟩))
  case attemptClaim =>
    intro claim item hget hforgets later
    have hid : item.id = claim.id := hqueues.attemptQueue.keyed _ _ hget
    refine staleAttempt _ claim ((hkept later).not_holdsAttempt (hlater ?_ hforgets later))
    exact mem_commands.mpr (.inr (.inr ⟨item, OrdMap.mem_values_of_get? hget, hid, rfl⟩))

/-- Child runs are started for stored runs, with the root of that run. -/
def Rooted (m : Mem V) (op : Op V) : Prop := op.Rooted m.records

instance (m : Mem V) (op : Op V) : Decidable (m.Rooted op) :=
  inferInstanceAs (Decidable (op.Rooted m.records))

theorem linked_after (maxDeliveries : Option Int) {history : List (Op V)}
    (h : Trace.Admits Mem.step Rooted (createInMemoryWorkflowRuntime maxDeliveries) history) :
    Linked (after maxDeliveries history).records :=
  (Trace.run_inv_of_admits Mem.step (I := fun m => m.Sound ∧ Linked m.records)
    (fun _ op hop ⟨hm, hlinked⟩ =>
      ⟨hm.step op, hlinked.effect (step_effect hm.keyed op) hm hop⟩)
    h ⟨sound_create maxDeliveries, .empty⟩).2

/-- After every history whose child runs are under the root of their parent, a deletion leaves
nothing of the runs it removes and everything of the others. -/
theorem deletes_cleanly (maxDeliveries : Option Int) {history : List (Op V)}
    (h : Trace.Admits Mem.step Rooted (createInMemoryWorkflowRuntime maxDeliveries) history)
    (op : Op V) (hop : op.isDeletion) : (after maxDeliveries history).DeletesCleanly op :=
  deletesCleanly (sound_after maxDeliveries history) (queuesKept_after maxDeliveries history)
    (linked_after maxDeliveries h) hop

/-- A run with a child run, both completed while their commands are claimed, and a second run. -/
def completedTreeHistory : List (Op JsonText) :=
  [.store (.createRun { workflowName := "w", input := .null }),
    .store (.createNode { runId := "run-1", name := "n", kind := .workflow }),
    .store (.ensureNodeChildren "run-1" "n" [{ childKey := "$self", kind := .workflow }]),
    .store (.ensureChildRun { runId := "run-1", nodeName := "n", childKey := "$self",
                              childKind := .workflow, childName := "child", input := .null,
                              rootRunId := "run-1" }),
    .store (.createRun { workflowName := "w", input := .null }),
    .store (.completeRun "run-2" .null),
    .store (.completeRun "run-1" .null)]

theorem deletes_cleanly_completedTree :
    Trace.Admits Mem.step Rooted (createInMemoryWorkflowRuntime none) completedTreeHistory ∧
    (after none completedTreeHistory).DeletesCleanly (.store (.deleteRun "run-1")) :=
  have h : Trace.Admits Mem.step Rooted (createInMemoryWorkflowRuntime none)
      completedTreeHistory := by decide
  ⟨h, deletes_cleanly none h _ rfl⟩

/-- A run started for a child under a foreign root takes the child with it. -/
theorem not_deletesCleanly_foreignRoot :
    ¬ (after none (foreignRootHistory.take 8)).DeletesCleanly (.store (.deleteRun "run-2")) := by
  intro h
  have hsurvives : (((after none (foreignRootHistory.take 8)).step
      (.store (.deleteRun "run-2"))).runs.get? "run-1").isSome := by decide +kernel
  have hchild : ((after none (foreignRootHistory.take 8)).children.get? "run-1:a:$self").map
      StoredNodeChild.runId = some "run-1" := by decide +kernel
  have hgone : ((after none (foreignRootHistory.take 8)).step
      (.store (.deleteRun "run-2"))).children.get? "run-1:a:$self" = none := by decide +kernel
  obtain ⟨child, hget, hrun⟩ := Option.map_eq_some_iff.mp hchild
  have hkeeps := (h.kept "run-1" hsurvives).2.1 _ child hget hrun
  rw [hgone] at hkeeps
  cases hkeeps

end Mem

end Neemata.Workflows
