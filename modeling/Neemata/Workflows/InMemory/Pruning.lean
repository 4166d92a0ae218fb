import Neemata.Workflows.InMemory.Collect
import Neemata.Workflows.InMemory.Conservation
import Neemata.Workflows.JsonText
import Mathlib.Logic.Relation

/-!
# Pruning and live work

`pruneTerminalRuns` takes whole run trees but looks at the status of their roots only. It spares
live work exactly when every run under the roots it takes is terminal, and no command of a live
run died before the cutoff of its sweep (`pruneSafe_iff`).
-/

namespace Neemata.Workflows

variable {V : Type}

namespace Mem

/-! ## Run trees -/

def ParentOf (m : Mem V) (parentRunId runId : String) : Prop :=
  ∃ run, m.runs.get? runId = some run ∧ run.parentRunId = some parentRunId

/-- The run is reached from `rootId` through `parentRunId`. -/
def InTree (m : Mem V) (rootId runId : String) : Prop :=
  Relation.ReflTransGen m.ParentOf rootId runId

/-- What holds of the given ids and passes to every run that belongs to such ids holds of all
collected ids. -/
theorem collectRounds_induction {runs : List (StoredRun V)}
    {belongs : List String → StoredRun V → Bool} {P : String → Prop}
    (hstep : ∀ ids run, (∀ id ∈ ids, P id) → run ∈ runs → belongs ids run → P run.id)
    (rounds : Nat) {ids : List String} (hids : ∀ id ∈ ids, P id) :
    ∀ id ∈ collectRounds runs belongs rounds ids, P id := by
  have hround : ∀ (l : List (StoredRun V)) (ids : List String), l ⊆ runs → (∀ id ∈ ids, P id) →
      ∀ id ∈ collectRound l belongs ids, P id := by
    intro l
    induction l with
    | nil => exact fun ids _ hids => hids
    | cons run l ih =>
      intro ids hsub hids
      refine ih _ (List.subset_of_cons_subset hsub) ?_
      dsimp only
      split
      · next hadd =>
        intro id hid
        rcases List.mem_append.mp hid with hid | hid
        · exact hids id hid
        · rw [List.mem_singleton.mp hid]
          exact hstep ids run hids (hsub List.mem_cons_self) hadd.1
      · exact hids
  induction rounds generalizing ids with
  | zero => exact hids
  | succ rounds ih =>
    simp only [collectRounds]
    have hnext := hround runs ids (List.Subset.refl _) hids
    split
    · exact hnext
    · exact ih hnext

variable [JsRuntime V] {m : Mem V}

omit [JsRuntime V] in
theorem Sound.runId_ne_empty (hm : m.Sound) {runId : String} {run : StoredRun V}
    (hget : m.runs.get? runId = some run) : runId ≠ "" := by
  obtain ⟨i, -, hid⟩ := (hm.runs runId run hget).2
  intro hempty
  have hlength := congrArg String.length (hid.symm.trans hempty)
  simp [freshId, String.length_append] at hlength

omit [JsRuntime V] in
/-- The collected trees are the runs reached from the roots. -/
theorem mem_collectRunTreeIds (hm : m.Sound) {rootIds : List String}
    (hroots : ∀ rootId ∈ rootIds, (m.runs.get? rootId).isSome) {runId : String} :
    runId ∈ m.collectRunTreeIds rootIds ↔ ∃ rootId ∈ rootIds, m.InTree rootId runId := by
  have hk := hm.keyed
  have hstored : ∀ run ∈ m.runs.values, m.runs.get? run.id = some run := by
    intro run hrun
    obtain ⟨key, hget⟩ := OrdMap.mem_values_iff.mp hrun
    rwa [← hk.runs hget] at hget
  constructor
  · refine collectRounds_induction (P := fun runId => ∃ rootId ∈ rootIds, m.InTree rootId runId)
      (fun ids run hids hrun hbelongs => ?_) _ (fun id hid => ?_) runId
    · simp only [belongsToTree, Option.any_eq_true, Bool.and_eq_true, decide_eq_true_eq] at hbelongs
      obtain ⟨parentRunId, hparent, -, hmem⟩ := hbelongs
      obtain ⟨rootId, hroot, htree⟩ := hids parentRunId hmem
      exact ⟨rootId, hroot, htree.tail ⟨run, hstored run hrun, hparent⟩⟩
    · exact ⟨id, List.mem_eraseDups.mp hid, .refl⟩
  · rintro ⟨rootId, hroot, htree⟩
    have hseed : rootId ∈ m.collectRunTreeIds rootIds :=
      collectRounds_subset _ _ _ _ (List.mem_eraseDups.mpr hroot)
    suffices h : (m.runs.get? runId).isSome ∧ runId ∈ m.collectRunTreeIds rootIds from h.2
    induction htree with
    | refl => exact ⟨hroots rootId hroot, hseed⟩
    | tail _ hparentOf ih =>
      obtain ⟨hparentStored, hparentMem⟩ := ih
      obtain ⟨run, hget, hparent⟩ := hparentOf
      obtain ⟨parent, hparentGet⟩ := Option.isSome_iff_exists.mp hparentStored
      refine ⟨by rw [hget]; rfl, ?_⟩
      rw [← hk.runs hget]
      refine collectRounds_closed _ _ (Nat.lt_succ_of_le (List.length_filter_le _ _))
        (OrdMap.mem_values_of_get? hget) ?_
      simp only [belongsToTree, hparent, Option.any_some, Bool.and_eq_true, decide_eq_true_eq]
      exact ⟨by simpa using hm.runId_ne_empty hparentGet, hparentMem⟩

omit [JsRuntime V] in
/-- Two runs above one run: the parent chain is one, so a root is above the other. -/
theorem InTree.of_root {rootId otherId runId : String} (h : m.InTree rootId runId)
    (hother : m.InTree otherId runId)
    (hroot : ∀ parentRunId, ¬ m.ParentOf parentRunId rootId) : m.InTree rootId otherId := by
  induction hother with
  | refl => exact h
  | @tail parentId runId _ hparentOf ih =>
    apply ih
    obtain ⟨run, hget, hparent⟩ := hparentOf
    rcases h.cases_tail with rfl | ⟨parentId', htree, run', hget', hparent'⟩
    · exact absurd ⟨run, hget, hparent⟩ (hroot parentId)
    · obtain rfl := Option.some.inj (hget.symm.trans hget')
      obtain rfl := Option.some.inj (hparent.symm.trans hparent')
      exact htree

/-! ## What a deletion spares -/

/-- The run and what is stored for it are as they were. -/
structure KeepsRun (m m' : Mem V) (runId : String) : Prop where
  run : m'.runs.get? runId = m.runs.get? runId
  nodes : ∀ key node, m.nodes.get? key = some node → node.runId = runId →
    m'.nodes.get? key = some node
  attempts : ∀ key attempt, m.attempts.get? key = some attempt → attempt.runId = runId →
    m'.attempts.get? key = some attempt
  lease : m'.runLeases.get? runId = m.runLeases.get? runId
  idempotencyKeys : ∀ key, m.runIdempotencyKeys.get? key = some runId →
    m'.runIdempotencyKeys.get? key = some runId
  uniqueKeys : ∀ scope key, (m.uniqueKeys scope).get? key = some runId →
    (m'.uniqueKeys scope).get? key = some runId
  claimedContinue : ∀ key item, m.claimedContinueRunCommands.get? key = some item →
    item.payload.runId = runId → m'.claimedContinueRunCommands.get? key = some item
  claimedAttempts : ∀ key item, m.claimedAttemptCommands.get? key = some item →
    item.payload.runId = runId → m'.claimedAttemptCommands.get? key = some item

/-- The queued commands of the run are still queued. -/
structure KeepsQueued (m m' : Mem V) (runId : String) : Prop where
  continueCommands : ∀ item ∈ m.continueRunCommands, item.payload.runId = runId →
    item ∈ m'.continueRunCommands
  attemptCommands : ∀ item ∈ m.attemptCommands, item.payload.runId = runId →
    item ∈ m'.attemptCommands

omit [JsRuntime V] in
theorem deleteRunTrees_keepsRun (m : Mem V) {treeIds : List String} {runId : String}
    (hkeep : runId ∉ treeIds) : m.KeepsRun (m.deleteRunTrees treeIds) runId := by
  unfold deleteRunTrees
  split
  · exact ⟨rfl, fun _ _ h _ => h, fun _ _ h _ => h, rfl, fun _ h => h, fun _ _ h => h,
      fun _ _ h _ => h, fun _ _ h _ => h⟩
  · constructor
    case run | lease =>
      rw [OrdMap.get?_filter]
      cases OrdMap.get? _ runId <;> simp [hkeep]
    case uniqueKeys =>
      intro scope key hget
      cases scope <;> simp only [uniqueKeys] at hget ⊢ <;> rw [OrdMap.get?_filter, hget] <;>
        simp [hkeep]
    case idempotencyKeys =>
      intro key hget
      rw [OrdMap.get?_filter, hget]
      simp [hkeep]
    all_goals
      rintro key record hget rfl
      rw [OrdMap.get?_filter, hget]
      simp [hkeep]

/-! ## What a prune deletes -/

/-- Without a batch or without statuses no root is picked, so the early exit is no exception. -/
theorem pruneTerminalRuns_snd (m : Mem V) (params : PruneTerminalRunsParams) :
    (m.pruneTerminalRuns params).2 = (m.deleteRunTrees
      (m.collectRunTreeIds ((m.pruneRoots params).map StoredRun.id))).sweepDeadCommands
        params.olderThan := by
  unfold pruneTerminalRuns
  split
  · next hexit =>
    have hroots : m.pruneRoots params = [] := by
      unfold pruneRoots
      rcases hexit with hbatch | hstatuses
      · rw [Int.toNat_of_nonpos (by omega)]
        exact List.take_zero
      · simp [hstatuses]
    have hids : m.collectRunTreeIds ((m.pruneRoots params).map StoredRun.id) = [] := by
      refine List.eq_nil_iff_forall_not_mem.mpr ?_
      rw [hroots]
      refine collectRounds_induction (P := fun _ => False) (fun ids run hids _ hbelongs => ?_) _ ?_
      · simp only [belongsToTree, Option.any_eq_true, Bool.and_eq_true, decide_eq_true_eq]
          at hbelongs
        obtain ⟨parentRunId, -, -, hmem⟩ := hbelongs
        exact hids parentRunId hmem
      · simp
    simp [hids, deleteRunTrees]
  · rfl

/-- The runs under the roots that a prune picks. -/
def IsPruned (m : Mem V) (params : PruneTerminalRunsParams) (runId : String) : Prop :=
  ∃ root ∈ m.pruneRoots params, m.InTree root.id runId

theorem mem_prunedIds (hm : m.Sound) {params : PruneTerminalRunsParams} {runId : String} :
    runId ∈ m.collectRunTreeIds ((m.pruneRoots params).map StoredRun.id) ↔
      m.IsPruned params runId := by
  rw [mem_collectRunTreeIds hm]
  · simp [IsPruned]
  · intro rootId hrootId
    obtain ⟨root, hroot, rfl⟩ := List.mem_map.mp hrootId
    obtain ⟨key, hget⟩ := OrdMap.mem_values_iff.mp (pruneRoots_spec hroot).1
    rw [hm.keyed.runs hget, hget]
    rfl

theorem prune_keepsRun (hm : m.Sound) {params : PruneTerminalRunsParams} {runId : String}
    (hkeep : ¬ m.IsPruned params runId) :
    m.KeepsRun (m.pruneTerminalRuns params).2 runId := by
  rw [← mem_prunedIds hm] at hkeep
  rw [pruneTerminalRuns_snd]
  exact { m.deleteRunTrees_keepsRun hkeep with }

/-- A prune takes a queued command with its run or because it died before the cutoff. -/
theorem prune_keepsQueued (hm : m.Sound) {params : PruneTerminalRunsParams} {runId : String}
    (hkeep : ¬ m.IsPruned params runId) :
    m.KeepsQueued (m.pruneTerminalRuns params).2 runId ↔
      (∀ item ∈ m.continueRunCommands, item.payload.runId = runId →
        isSweepable params.olderThan item = false) ∧
      ∀ item ∈ m.attemptCommands, item.payload.runId = runId →
        isSweepable params.olderThan item = false := by
  rw [← mem_prunedIds hm] at hkeep
  have hcontinue := congrArg CommandQueue.queued (m.deleteRunTrees_continueQueue
    (m.collectRunTreeIds ((m.pruneRoots params).map StoredRun.id)))
  have hattempt := congrArg CommandQueue.queued (m.deleteRunTrees_attemptQueue
    (m.collectRunTreeIds ((m.pruneRoots params).map StoredRun.id)))
  simp only [continueQueue, attemptQueue] at hcontinue hattempt
  rw [pruneTerminalRuns_snd]
  constructor
  · intro h
    refine ⟨fun item hitem hrun => ?_, fun item hitem hrun => ?_⟩
    · have hmem := h.continueCommands item hitem hrun
      simpa using (List.mem_filter.mp hmem).2
    · have hmem := h.attemptCommands item hitem hrun
      simpa using (List.mem_filter.mp hmem).2
  · rintro ⟨hcontinueSweep, hattemptSweep⟩
    refine ⟨fun item hitem hrun => ?_, fun item hitem hrun => ?_⟩
    · refine List.mem_filter.mpr ⟨?_, by simp [hcontinueSweep item hitem hrun]⟩
      rw [hcontinue]
      exact List.mem_filter.mpr ⟨hitem, by simpa [hrun] using hkeep⟩
    · refine List.mem_filter.mpr ⟨?_, by simp [hattemptSweep item hitem hrun]⟩
      rw [hattempt]
      exact List.mem_filter.mpr ⟨hitem, by simpa [hrun] using hkeep⟩

theorem prune_removes (hm : m.Sound) {params : PruneTerminalRunsParams} {runId : String}
    (hpruned : m.IsPruned params runId) : (m.pruneTerminalRuns params).2.runs.get? runId = none := by
  rw [pruneTerminalRuns_snd]
  exact m.deleteRunTrees_runs ((mem_prunedIds hm).mpr hpruned)

/-! ## Live work -/

/-- A prune deletes only runs whose whole tree is terminal, and nothing of a run that is not
terminal. -/
structure PruneSafe (m : Mem V) (params : PruneTerminalRunsParams) : Prop where
  trees : ∀ runId, (m.runs.get? runId).isSome →
    (m.pruneTerminalRuns params).2.runs.get? runId = none →
      ∀ rootId, m.InTree rootId runId → ∀ otherId other, m.InTree rootId otherId →
        m.runs.get? otherId = some other → isTerminalRunStatus other.status
  live : ∀ runId run, m.runs.get? runId = some run → isTerminalRunStatus run.status = false →
    m.KeepsRun (m.pruneTerminalRuns params).2 runId ∧
      m.KeepsQueued (m.pruneTerminalRuns params).2 runId

/-- Every run under the picked roots is terminal, and so is the run of every command that died
before the cutoff. -/
structure PrunesOnlyTerminal (m : Mem V) (params : PruneTerminalRunsParams) : Prop where
  trees : ∀ root ∈ m.pruneRoots params, ∀ runId run, m.InTree root.id runId →
    m.runs.get? runId = some run → isTerminalRunStatus run.status
  continueCommands : ∀ item ∈ m.continueRunCommands, isSweepable params.olderThan item →
    ∀ run, m.runs.get? item.payload.runId = some run → isTerminalRunStatus run.status
  attemptCommands : ∀ item ∈ m.attemptCommands, isSweepable params.olderThan item →
    ∀ run, m.runs.get? item.payload.runId = some run → isTerminalRunStatus run.status

theorem Sound.pruneSafe_iff_terminal (hm : m.Sound) (params : PruneTerminalRunsParams) :
    m.PruneSafe params ↔ m.PrunesOnlyTerminal params := by
  constructor
  · intro h
    have htrees : ∀ runId run, m.runs.get? runId = some run → m.IsPruned params runId →
        isTerminalRunStatus run.status := fun runId run hget hpruned =>
      h.trees runId (by rw [hget]; rfl) (prune_removes hm hpruned) runId .refl runId run .refl hget
    constructor
    case trees => exact fun root hroot runId run htree hget => htrees runId run hget ⟨root, hroot, htree⟩
    all_goals
      intro item hitem hsweep run hget
      by_contra hnot
      have hkeep : ¬ m.IsPruned params item.payload.runId :=
        fun hpruned => hnot (htrees _ run hget hpruned)
      have hsweeps := (prune_keepsQueued hm hkeep).mp (h.live _ run hget (by simpa using hnot)).2
    · exact absurd hsweep (by simp [hsweeps.1 item hitem rfl])
    · exact absurd hsweep (by simp [hsweeps.2 item hitem rfl])
  · intro h
    have hpruned : ∀ runId run, m.runs.get? runId = some run → m.IsPruned params runId →
        isTerminalRunStatus run.status := fun runId run hget ⟨root, hroot, htree⟩ =>
      h.trees root hroot runId run htree hget
    constructor
    · intro runId hstored hgone rootId habove otherId other hother hget
      have hmem : m.IsPruned params runId := by
        by_contra hkeep
        rw [(prune_keepsRun hm hkeep).run] at hgone
        rw [hgone] at hstored
        cases hstored
      obtain ⟨root, hroot, htree⟩ := hmem
      have hrootId : m.InTree root.id rootId := by
        refine htree.of_root habove fun parentRunId hparentOf => ?_
        obtain ⟨hvalue, hnone, -⟩ := pruneRoots_spec hroot
        obtain ⟨key, hkey⟩ := OrdMap.mem_values_iff.mp hvalue
        obtain ⟨run, hrun, hparent⟩ := hparentOf
        rw [hm.keyed.runs hkey, hkey] at hrun
        obtain rfl := Option.some.inj hrun
        rw [hnone] at hparent
        cases hparent
      exact h.trees root hroot otherId other (hrootId.trans hother) hget
    · intro runId run hget hnot
      have hkeep : ¬ m.IsPruned params runId := fun hmem => by
        simp [hpruned runId run hget hmem] at hnot
      refine ⟨prune_keepsRun hm hkeep, (prune_keepsQueued hm hkeep).mpr ⟨?_, ?_⟩⟩
      · rintro item hitem rfl
        by_contra hsweep
        simp [h.continueCommands item hitem (by simpa using hsweep) run hget] at hnot
      · rintro item hitem rfl
        by_contra hsweep
        simp [h.attemptCommands item hitem (by simpa using hsweep) run hget] at hnot

/-- In every reachable state a prune spares live work if and only if the trees it takes and the
runs whose dead commands it sweeps are terminal. -/
theorem pruneSafe_iff (maxDeliveries : Option Int) (history : List (Op V))
    (params : PruneTerminalRunsParams) :
    (after maxDeliveries history).PruneSafe params ↔
      (after maxDeliveries history).PrunesOnlyTerminal params :=
  (sound_after maxDeliveries history).pruneSafe_iff_terminal params

/-- A completed root whose start-only map has started a run that is still queued. -/
def startedChildHistory : List (Op JsonText) :=
  [.store (.createRun { workflowName := "parent", input := .null }),
    .store (.createNode { runId := "run-1", name := "n", kind := .mapWorkflow }),
    .store (.ensureNodeChildren "run-1" "n" [{ childKey := "0", kind := .workflow }]),
    .store (.ensureChildRun { runId := "run-1", nodeName := "n", childKey := "0",
                              childKind := .workflow, childName := "child", input := .null,
                              rootRunId := "run-1" }),
    .executor (.enqueue { runId := "run-2", workflowName := "child" } none),
    .store (.completeRun "run-1" .null)]

/-- The prune of the root deletes its queued child. -/
theorem not_pruneSafe_startedChild :
    ¬ (after none startedChildHistory).PruneSafe { olderThan := 1000 } := by
  intro h
  have hlive : ((after none startedChildHistory).runs.get? "run-2").map StoredRun.status =
      some .queued := by decide +kernel
  obtain ⟨run, hget, hstatus⟩ := Option.map_eq_some_iff.mp hlive
  have hkeeps := (h.live "run-2" run hget (by rw [hstatus]; rfl)).1.run
  have hgone : (((after none startedChildHistory).pruneTerminalRuns
      { olderThan := 1000 }).2.runs.get? "run-2") = none := by decide +kernel
  rw [hgone, hget] at hkeeps
  cases hkeeps

end Mem

end Neemata.Workflows
