import Neemata.Lib.Index
import Neemata.Workflows.InMemory.Evolution

/-!
# Idempotency keys and unique keys

The three key indexes of the in-memory store are exact: the idempotency index and the all-scope
index hold the keys of the stored runs, the active-scope index those of the stored runs that are
not terminal (`KeysExact`). Hence a key has at most one holder, an active-scope key is free as
soon as its run is terminal or gone, and freeing it never takes it from another run
(`unique_keys`).
-/

namespace Neemata.Workflows

variable {V : Type} [JsRuntime V]

/-! ## The keys a run holds -/

def idempotencyKeyOf (run : StoredRun V) : Option String :=
  run.idempotencyKey.map runIdempotencyKey

/-- The run's unique key if it is of the scope. -/
def scopedKeyOf (scope : RunUniqueScope) (run : StoredRun V) : Option String :=
  (run.unique.filter fun unique => unique.scope = scope).map fun unique => valueKey unique.key

def allKeyOf (run : StoredRun V) : Option String := scopedKeyOf .all run

/-- A terminal run holds no active-scope key. -/
def activeKeyOf (run : StoredRun V) : Option String :=
  if isTerminalRunStatus run.status then none else scopedKeyOf .active run

theorem scopedKeyOf_eq_some {scope : RunUniqueScope} {run : StoredRun V} {key : String} :
    scopedKeyOf scope run = some key ↔
      ∃ unique, run.unique = some unique ∧ unique.scope = scope ∧ valueKey unique.key = key := by
  simp only [scopedKeyOf, Option.map_eq_some_iff, Option.filter_eq_some_iff, decide_eq_true_eq]
  exact ⟨fun ⟨u, ⟨hu, hs⟩, hk⟩ => ⟨u, hu, hs, hk⟩, fun ⟨u, hu, hs, hk⟩ => ⟨u, ⟨hu, hs⟩, hk⟩⟩

theorem RunChange.idempotencyKeyOf_eq {run run' : StoredRun V} (h : RunChange run run') :
    idempotencyKeyOf run' = idempotencyKeyOf run := by
  rw [h.same]
  rfl

theorem RunChange.scopedKeyOf_eq {run run' : StoredRun V} (h : RunChange run run')
    (scope : RunUniqueScope) : scopedKeyOf scope run' = scopedKeyOf scope run := by
  rw [h.same]
  rfl

/-! ## The tables of runs and keys -/

/-- The run map with its indexes. -/
@[ext]
structure RunTables (V : Type) where
  runs : OrdMap String (StoredRun V)
  runIdempotencyKeys : OrdMap String String
  activeUniqueRunKeys : OrdMap String String
  allUniqueRunKeys : OrdMap String String

omit [JsRuntime V] in
/-- The runs and indexes of a state. -/
def Mem.runTables (m : Mem V) : RunTables V :=
  ⟨m.runs, m.runIdempotencyKeys, m.activeUniqueRunKeys, m.allUniqueRunKeys⟩

structure KeysExact (t : RunTables V) : Prop where
  idempotency : Indexed idempotencyKeyOf t.runIdempotencyKeys t.runs
  active : Indexed activeKeyOf t.activeUniqueRunKeys t.runs
  all : Indexed allKeyOf t.allUniqueRunKeys t.runs

/-- What an operation can do to the tables while the id counter is at `n`. -/
inductive RunEffect (n : Nat) (t : RunTables V) : RunTables V → Prop
  | same : RunEffect n t t
  | insert {input : CreateRunInput V} {date : Nat}
      (idempotencyFree : ∀ key, input.idempotencyKey = some key →
        t.runIdempotencyKeys.get? (runIdempotencyKey key) = none)
      (uniqueFree : ∀ unique, input.unique = some unique →
        ((match unique.scope with
          | .all => t.allUniqueRunKeys
          | .active => t.activeUniqueRunKeys).get? (valueKey unique.key)).bind t.runs.get? = none) :
      RunEffect n t
        { runs := t.runs.set (freshId "run" n) (Mem.newRun input (freshId "run" n) date)
          runIdempotencyKeys := match input.idempotencyKey with
            | some key => t.runIdempotencyKeys.set (runIdempotencyKey key) (freshId "run" n)
            | none => t.runIdempotencyKeys
          activeUniqueRunKeys :=
            Mem.setUniqueKey .active input.unique (freshId "run" n) t.activeUniqueRunKeys
          allUniqueRunKeys :=
            Mem.setUniqueKey .all input.unique (freshId "run" n) t.allUniqueRunKeys }
  | update {runId : String} {run run' : StoredRun V} (get : t.runs.get? runId = some run)
      (change : RunChange run run') (live : isTerminalRunStatus run'.status = false) :
      RunEffect n t { t with runs := t.runs.set runId run' }
  | settle {runId : String} {run run' : StoredRun V} (get : t.runs.get? runId = some run)
      (change : RunChange run run') (terminal : isTerminalRunStatus run'.status) :
      RunEffect n t
        { t with
          runs := t.runs.set runId run'
          activeUniqueRunKeys := Mem.withoutActiveUniqueKey run' t.activeUniqueRunKeys }
  | delete (ids : List String) :
      RunEffect n t
        { runs := t.runs.filter fun runId _ => runId ∉ ids
          runIdempotencyKeys := t.runIdempotencyKeys.filter fun _ runId => runId ∉ ids
          activeUniqueRunKeys := t.activeUniqueRunKeys.filter fun _ runId => runId ∉ ids
          allUniqueRunKeys := t.allUniqueRunKeys.filter fun _ runId => runId ∉ ids }

/-! ## The index invariant -/

theorem KeysExact.empty :
    KeysExact (⟨.empty, .empty, .empty, .empty⟩ : RunTables V) :=
  ⟨.empty, .empty, .empty⟩

/-- What `setUniqueKey` does to the index is what an insertion does to an exact index. -/
theorem setUniqueKey_eq (scope : RunUniqueScope) (input : CreateRunInput V) (runId : String)
    (date : Nat) (index : OrdMap String String) :
    Mem.setUniqueKey scope input.unique runId index =
      index.enter (scopedKeyOf scope (Mem.newRun input runId date)) runId := by
  have hunique : (Mem.newRun input runId date).unique = input.unique := rfl
  simp only [Mem.setUniqueKey, scopedKeyOf, hunique]
  cases input.unique with
  | none => rfl
  | some unique =>
    by_cases hscope : unique.scope = scope <;> simp [hscope, Option.filter, OrdMap.enter]

/-- What `releaseActiveUniqueKey` does to an exact index. -/
theorem withoutActiveUniqueKey_eq {index : OrdMap String String}
    {runs : OrdMap String (StoredRun V)} (h : Indexed activeKeyOf index runs) {runId : String}
    {run run' : StoredRun V} (get : runs.get? runId = some run) (hid : run.id = runId)
    (change : RunChange run run') :
    Mem.withoutActiveUniqueKey run' index = index.leave (activeKeyOf run) := by
  have hkeyOf : activeKeyOf run = scopedKeyOf .active run := by simp [activeKeyOf, change.live]
  have hunique : run'.unique = run.unique := by rw [change.same]
  have hrunId : run'.id = runId := by rw [change.same, ← hid]
  rw [hkeyOf, Mem.withoutActiveUniqueKey, hunique, hrunId]
  cases hunique : run.unique with
  | none => simp [scopedKeyOf, hunique, OrdMap.leave]
  | some unique =>
    by_cases hscope : unique.scope = .active
    · have hkey : scopedKeyOf .active run = some (valueKey unique.key) :=
        scopedKeyOf_eq_some.mpr ⟨unique, hunique, hscope, rfl⟩
      -- the run was not terminal, so the index gives it its key
      have hget := (h _ runId).mpr ⟨run, get, hkeyOf.trans hkey⟩
      simp [hscope, hkey, hget, OrdMap.leave]
    · simp [scopedKeyOf, hunique, hscope, Option.filter, OrdMap.leave]

theorem KeysExact.effect {n : Nat} {t t' : RunTables V} (heffect : RunEffect n t t')
    (hid : ∀ {key run}, t.runs.get? key = some run → run.id = key)
    (hfresh : t.runs.get? (freshId "run" n) = none) (h : KeysExact t) : KeysExact t' := by
  cases heffect with
  | same => exact h
  | @insert input date idempotencyFree uniqueFree =>
    have hscope (scope : RunUniqueScope) (key : String)
        (hkey : scopedKeyOf scope (Mem.newRun input (freshId "run" n) date) = some key) :
        ((match scope with
          | .all => t.allUniqueRunKeys
          | .active => t.activeUniqueRunKeys).get? key).bind t.runs.get? = none := by
      obtain ⟨unique, hunique, rfl, rfl⟩ := scopedKeyOf_eq_some.mp hkey
      exact uniqueFree unique hunique
    -- an exact index holds stored runs only, so a key without a conflicting run is free
    have hfree {keyOf : StoredRun V → Option String} {index : OrdMap String String} {key : String}
        (hindex : Indexed keyOf index t.runs) (hnone : (index.get? key).bind t.runs.get? = none) :
        index.get? key = none := by
      cases hget : index.get? key with
      | none => rfl
      | some id =>
        obtain ⟨run, hrun, -⟩ := (hindex key id).mp hget
        simp [hget, hrun] at hnone
    refine ⟨?_, ?_, ?_⟩
    · have hinsert := h.idempotency.insert (v := Mem.newRun input (freshId "run" n) date) hfresh
        (fun key hkey => by
          obtain ⟨value, hvalue, rfl⟩ := Option.map_eq_some_iff.mp hkey
          exact idempotencyFree value hvalue)
      have hkeyOf : idempotencyKeyOf (Mem.newRun input (freshId "run" n) date) =
          input.idempotencyKey.map runIdempotencyKey := rfl
      rw [hkeyOf] at hinsert
      cases hkey : input.idempotencyKey <;>
        simpa only [hkey, Option.map_some, Option.map_none, OrdMap.enter] using hinsert
    · have hqueued : activeKeyOf (Mem.newRun input (freshId "run" n) date) =
          scopedKeyOf .active (Mem.newRun input (freshId "run" n) date) := rfl
      simp only [setUniqueKey_eq .active input (freshId "run" n) date, ← hqueued]
      exact h.active.insert hfresh fun key hkey => hfree h.active (hscope .active key hkey)
    · simp only [setUniqueKey_eq .all input (freshId "run" n) date]
      exact h.all.insert hfresh fun key hkey => hfree h.all (hscope .all key hkey)
  | update get change live =>
    refine ⟨h.idempotency.update get change.idempotencyKeyOf_eq, h.active.update get ?_,
      h.all.update get (change.scopedKeyOf_eq .all)⟩
    simp only [activeKeyOf, live, change.live, change.scopedKeyOf_eq]
  | @settle runId run run' get change terminal =>
    refine ⟨h.idempotency.update get change.idempotencyKeyOf_eq, ?_,
      h.all.update get (change.scopedKeyOf_eq .all)⟩
    rw [withoutActiveUniqueKey_eq h.active get (hid get) change]
    exact h.active.release get (by simp [activeKeyOf, terminal])
  | delete ids =>
    exact ⟨h.idempotency.filter fun id => id ∉ ids, h.active.filter fun id => id ∉ ids,
      h.all.filter fun id => id ∉ ids⟩

theorem RunEffect.of_eq {n : Nat} {t t' : RunTables V} (h : t' = t) : RunEffect n t t' :=
  h ▸ .same

/-! ## Every operation has one of these effects -/

namespace Mem

variable {m : Mem V}

theorem createRunWithState_runEffect (m : Mem V) (input : CreateRunInput V) :
    RunEffect m.nextId m.runTables (m.createRunWithState input).2.runTables := by
  unfold createRunWithState
  split
  · split <;> exact .same
  · next hidempotency =>
    have hfree : ∀ key, input.idempotencyKey = some key →
        m.runTables.runIdempotencyKeys.get? (runIdempotencyKey key) = none := by
      intro key hkey
      rw [hkey] at hidempotency
      exact hidempotency
    split
    · next hunique =>
      exact .insert hfree fun unique h => by simp [hunique] at h
    · next unique hunique =>
      split
      · split <;> exact .same
      · next hconflict =>
        refine .insert hfree fun unique' h => ?_
        obtain rfl := Option.some.inj (hunique.symm.trans h)
        rw [← hconflict]
        unfold conflictingRun uniqueKeys
        cases unique.scope <;> rfl

theorem createRun_runEffect (m : Mem V) (input : CreateRunInput V) :
    RunEffect m.nextId m.runTables (m.createRun input).2.runTables :=
  m.createRunWithState_runEffect input

theorem ensureChildRun_runEffect (m : Mem V) (params : EnsureChildRunParams V) :
    RunEffect m.nextId m.runTables (m.ensureChildRun params).2.runTables := by
  unfold ensureChildRun
  dsimp only
  split
  · exact .same
  · split
    · split
      · exact .same
      · split <;> exact .same
    · split
      · exact .same
      · have h := m.createRunWithState_runEffect (childRunInput params)
        split
        · next hcreate => simpa only [hcreate] using h
        · next hcreate =>
          rw [hcreate] at h
          exact h

theorem markRun_runEffect (m : Mem V) (runId : String) {status : RuntimeRunStatus}
    (hstatus : isTerminalRunStatus status = false) :
    RunEffect m.nextId m.runTables (m.markRun runId status).2.runTables := by
  unfold markRun
  split
  · exact .same
  · next run hget =>
    split
    · next hedge => exact .update hget (RunChange.of_edge m.now.1 hedge) hstatus
    · exact .same

theorem settleRun_runEffect (m : Mem V) (runId : String) {change : StoredRun V → StoredRun V}
    (hchange : ∀ run, isTerminalRunStatus (change run).status ∧
      change run = { run with status := (change run).status, output := (change run).output,
                              error := (change run).error }) :
    RunEffect m.nextId m.runTables (m.settleRun runId change).2.runTables := by
  unfold settleRun
  split
  · exact .same
  · next run hget =>
    split
    · exact .same
    · next hlive =>
      obtain ⟨hterminal, hsame⟩ := hchange run
      exact .settle hget
        (RunChange.of_terminal _ m.now.1 (by simpa using hlive) hterminal hsame) hterminal

theorem requestRunCancellation_runEffect (m : Mem V) (runId : String) :
    RunEffect m.nextId m.runTables (m.requestRunCancellation runId).2.runTables := by
  unfold requestRunCancellation
  split
  · exact .same
  · next run hget =>
    split
    · exact .same
    · next hlive =>
      simp only [not_or, Bool.not_eq_true] at hlive
      exact .update hget
        (RunChange.of_edge m.now.1 (canTransition_cancelling_run hlive.1 hlive.2)) rfl

theorem deleteRunTrees_runEffect (m : Mem V) (ids : List String) :
    RunEffect m.nextId m.runTables (m.deleteRunTrees ids).runTables := by
  unfold deleteRunTrees
  split
  · exact .same
  · exact .delete ids

theorem pruneTerminalRuns_runEffect (m : Mem V) (params : PruneTerminalRunsParams) :
    RunEffect m.nextId m.runTables (m.pruneTerminalRuns params).2.runTables := by
  unfold pruneTerminalRuns
  split
  · exact .same
  · exact m.deleteRunTrees_runEffect _

theorem deleteRun_runEffect (m : Mem V) (runId : String) :
    RunEffect m.nextId m.runTables (m.deleteRun runId).2.runTables := by
  unfold deleteRun
  split
  · exact .same
  · split
    · exact .same
    · dsimp only
      split
      · exact .same
      · exact m.deleteRunTrees_runEffect _

omit [JsRuntime V] in
theorem Quiet.runTables_eq {m' : Mem V} (h : Quiet m m') : m'.runTables = m.runTables := by
  have hruns := congrArg Records.runs h.records
  exact RunTables.ext hruns (congrArg Indexes.runIdempotencyKeys h.indexes)
    (congrArg Indexes.activeUniqueRunKeys h.indexes) (congrArg Indexes.allUniqueRunKeys h.indexes)

/-! The operations on nodes, children and attempts do not touch the tables. -/

omit [JsRuntime V] in
theorem createNode_runTables (m : Mem V) (input : CreateNodeInput) :
    (m.createNode input).2.runTables = m.runTables := by
  unfold createNode
  dsimp only
  split <;> rfl

omit [JsRuntime V] in
theorem setNodeInput_runTables (m : Mem V) (runId nodeName : String) (input : V) :
    (m.setNodeInput runId nodeName input).2.runTables = m.runTables := by
  unfold setNodeInput
  dsimp only
  split
  · rfl
  · split <;> rfl

omit [JsRuntime V] in
theorem selectNodeCase_runTables (m : Mem V) (runId nodeName caseKey : String) :
    (m.selectNodeCase runId nodeName caseKey).2.runTables = m.runTables := by
  unfold selectNodeCase
  dsimp only
  split
  · rfl
  · split
    · rfl
    · split <;> rfl

omit [JsRuntime V] in
theorem settleNode_runTables (m : Mem V) (runId nodeName : String)
    (change : StoredNode V → StoredNode V) :
    (m.settleNode runId nodeName change).2.runTables = m.runTables := by
  unfold settleNode
  dsimp only
  split
  · rfl
  · split <;> rfl

omit [JsRuntime V] in
theorem waitNode_runTables (m : Mem V) (runId nodeName : String) :
    (m.waitNode runId nodeName).2.runTables = m.runTables := by
  unfold waitNode
  dsimp only
  split
  · rfl
  · split <;> rfl

theorem ensureNodeChildren_runTables (m : Mem V) (runId nodeName : String)
    (inputs : List (EnsureNodeChildInput V)) :
    (m.ensureNodeChildren runId nodeName inputs).2.runTables = m.runTables := by
  unfold ensureNodeChildren
  dsimp only
  split
  · rfl
  · split
    · split <;> rfl
    · rfl

omit [JsRuntime V] in
theorem settleNodeChild_runTables (m : Mem V) (runId nodeName key : String)
    (change : StoredNodeChild V → StoredNodeChild V) :
    (m.settleNodeChild runId nodeName key change).2.runTables = m.runTables := by
  unfold settleNodeChild
  dsimp only
  split
  · rfl
  · split <;> rfl

omit [JsRuntime V] in
theorem cancelNonTerminalRunNodes_runTables (m : Mem V) (runId : String) :
    (m.cancelNonTerminalRunNodes runId).runTables = m.runTables := by
  unfold cancelNonTerminalRunNodes
  have hnodes (m : Mem V) (l : List (StoredNode V)) :
      (l.foldl (cancelSweptNode runId) m).runTables = m.runTables :=
    Trace.run_frame _ runTables (fun m node => by
      obtain h | ⟨node', -, h⟩ := cancelSweptNode_cases runId m node <;> rw [h]
      rfl) m l
  have hchildren (m : Mem V) (l : List (StoredNodeChild V)) :
      (l.foldl (cancelSweptChild runId) m).runTables = m.runTables :=
    Trace.run_frame _ runTables (fun m child => by
      obtain h | ⟨child', -, h⟩ := cancelSweptChild_cases runId m child <;> rw [h]
      rfl) m l
  exact (hchildren _ _).trans (hnodes _ _)

omit [JsRuntime V] in
theorem createChildAttempt_runTables (m : Mem V) (child : StoredNodeChild V) (input : V)
    (idempotencyKey : Option V) :
    (m.createChildAttempt child input idempotencyKey).2.runTables = m.runTables := by
  unfold createChildAttempt
  dsimp only
  split
  · rfl
  · split <;> rfl

omit [JsRuntime V] in
theorem createAttempt_runTables (m : Mem V) (input : ChildAttemptParams V) :
    (m.createAttempt input).2.runTables = m.runTables := by
  unfold createAttempt
  dsimp only
  split
  · rfl
  · split
    · rfl
    · exact m.createChildAttempt_runTables _ _ _

omit [JsRuntime V] in
theorem ensureChildAttempt_runTables (m : Mem V) (params : ChildAttemptParams V) :
    (m.ensureChildAttempt params).2.runTables = m.runTables := by
  unfold ensureChildAttempt
  dsimp only
  split
  · rfl
  · split
    · split <;> rfl
    · split
      · rfl
      · exact m.createChildAttempt_runTables _ _ _

omit [JsRuntime V] in
theorem completeCurrentAttempt_runTables (m : Mem V) (attemptId leaseToken : String) (output : V) :
    (m.completeCurrentAttempt attemptId leaseToken output).2.runTables = m.runTables := by
  unfold completeCurrentAttempt
  split <;> rfl

theorem failCurrentAttemptAs_runTables (m : Mem V) (status : RuntimeAttemptStatus)
    (attemptId leaseToken : String) (error : Thrown V) :
    (m.failCurrentAttemptAs status attemptId leaseToken error).2.runTables = m.runTables := by
  unfold failCurrentAttemptAs
  split <;> rfl

theorem execStore_runEffect (m : Mem V) (op : StoreOp V) :
    RunEffect m.nextId m.runTables (m.execStore op).2.runTables := by
  cases op with
  | createRun input => exact m.createRun_runEffect input
  | pruneTerminalRuns params => exact m.pruneTerminalRuns_runEffect params
  | deleteRun runId => exact m.deleteRun_runEffect runId
  | markDeadCommandReaped commandId => exact .of_eq (m.markDeadCommandReaped_quiet _).runTables_eq
  | requeueDeadCommand commandId => exact .of_eq (m.requeueDeadCommand_quiet _).runTables_eq
  | acquireRunLease runId leaseMs => exact .of_eq (m.acquireRunLease_quiet _ _).runTables_eq
  | renewRunLease lease leaseMs => exact .of_eq (m.renewRunLease_quiet _ _).runTables_eq
  | releaseRunLease lease => exact .of_eq (m.releaseRunLease_quiet _).runTables_eq
  | loadRunSnapshot | loadRuns | loadNodeChildren => exact .same
  | createNode input => exact .of_eq (m.createNode_runTables _)
  | setNodeInput runId nodeName input => exact .of_eq (m.setNodeInput_runTables _ _ _)
  | selectNodeCase runId nodeName caseKey => exact .of_eq (m.selectNodeCase_runTables _ _ _)
  | ensureNodeChildren runId nodeName children =>
    exact .of_eq (m.ensureNodeChildren_runTables _ _ _)
  | ensureChildRun params => exact m.ensureChildRun_runEffect params
  | ensureChildAttempt params => exact .of_eq (m.ensureChildAttempt_runTables _)
  | createAttempt input => exact .of_eq (m.createAttempt_runTables _)
  | completeCurrentAttempt attemptId leaseToken output =>
    exact .of_eq (m.completeCurrentAttempt_runTables _ _ _)
  | failCurrentAttempt | timeoutCurrentAttempt =>
    exact .of_eq (m.failCurrentAttemptAs_runTables _ _ _ _)
  | completeNodeChild | failNodeChild => exact .of_eq (m.settleNodeChild_runTables _ _ _ _)
  | completeNode | failNode | cancelNode => exact .of_eq (m.settleNode_runTables _ _ _)
  | waitNode runId nodeName => exact .of_eq (m.waitNode_runTables _ _)
  | markRunRunning runId => exact m.markRun_runEffect runId rfl
  | markRunWaiting runId => exact m.markRun_runEffect runId rfl
  | completeRun | failRun | cancelRun => exact m.settleRun_runEffect _ fun _ => ⟨rfl, rfl⟩
  | requestRunCancellation runId => exact m.requestRunCancellation_runEffect runId
  | cancelNonTerminalRunNodes runId => exact .of_eq (m.cancelNonTerminalRunNodes_runTables _)

theorem step_runEffect (m : Mem V) (op : Op V) :
    RunEffect m.nextId m.runTables (m.step op).runTables := by
  cases op with
  | store op => exact m.execStore_runEffect op
  | executor op => exact .of_eq (m.execExecutor_quiet op).runTables_eq
  | clock time => exact .same

theorem keysExact_after (maxDeliveries : Option Int) (history : List (Op V)) :
    KeysExact (after maxDeliveries history).runTables :=
  (Trace.run_inv Mem.step (P := fun _ => True)
    (I := fun m : Mem V => m.Sound ∧ KeysExact m.runTables)
    (fun m op _ hm => ⟨hm.1.step op, hm.2.effect (m.step_runEffect op)
      (fun hget => hm.1.keyed.runs hget) hm.1.run_fresh⟩)
    (fun _ _ => trivial) ⟨sound_create maxDeliveries, KeysExact.empty⟩).2

/-! ## Holders -/

/-- The run was created with this key in this scope. -/
def HasKey (scope : RunUniqueScope) (run : StoredRun V) (key : String) : Prop :=
  ∃ unique, run.unique = some unique ∧ unique.scope = scope ∧ valueKey unique.key = key

/-- Who holds which unique key, and that a creation is refused exactly for a held key. -/
structure UniqueKeysHeld (m : Mem V) : Prop where
  active : ∀ key id, m.activeUniqueRunKeys.get? key = some id ↔
    ∃ run, m.runs.get? id = some run ∧ HasKey .active run key ∧
      isTerminalRunStatus run.status = false
  all : ∀ key id, m.allUniqueRunKeys.get? key = some id ↔
    ∃ run, m.runs.get? id = some run ∧ HasKey .all run key
  activeOnce : ∀ run ∈ m.runs.values, ∀ run' ∈ m.runs.values, ∀ key,
    HasKey .active run key → HasKey .active run' key →
    isTerminalRunStatus run.status = false → isTerminalRunStatus run'.status = false →
    run.id = run'.id
  allOnce : ∀ run ∈ m.runs.values, ∀ run' ∈ m.runs.values, ∀ key,
    HasKey .all run key → HasKey .all run' key → run.id = run'.id
  conflict : ∀ unique run, m.conflictingRun unique = some run ↔
    m.runs.get? run.id = some run ∧ HasKey unique.scope run (valueKey unique.key) ∧
      (unique.scope = .active → isTerminalRunStatus run.status = false)

/-- From `m` to `m'` a held key stays with its run or becomes free; it becomes free exactly when
the run has become terminal (active scope) or is gone. -/
structure KeysFollow (m m' : Mem V) : Prop where
  active : ∀ key id, m.activeUniqueRunKeys.get? key = some id →
    (m'.activeUniqueRunKeys.get? key = some id ∧
      ∃ run, m'.runs.get? id = some run ∧ isTerminalRunStatus run.status = false) ∨
    (m'.activeUniqueRunKeys.get? key = none ∧
      ∀ run, m'.runs.get? id = some run → isTerminalRunStatus run.status)
  all : ∀ key id, m.allUniqueRunKeys.get? key = some id →
    (m'.allUniqueRunKeys.get? key = some id ∧ ∃ run, m'.runs.get? id = some run) ∨
    (m'.allUniqueRunKeys.get? key = none ∧ m'.runs.get? id = none)

theorem activeKeyOf_eq_some {run : StoredRun V} {key : String} :
    activeKeyOf run = some key ↔
      HasKey .active run key ∧ isTerminalRunStatus run.status = false := by
  rw [HasKey, ← scopedKeyOf_eq_some, activeKeyOf]
  cases isTerminalRunStatus run.status <;> simp

theorem allKeyOf_eq_some {run : StoredRun V} {key : String} :
    allKeyOf run = some key ↔ HasKey .all run key := scopedKeyOf_eq_some

theorem conflictingRun_eq_some {m : Mem V} (h : KeysExact m.runTables) (hm : m.Sound)
    {unique : ResolvedRunUnique V} {run : StoredRun V} :
    m.conflictingRun unique = some run ↔
      m.runs.get? run.id = some run ∧ HasKey unique.scope run (valueKey unique.key) ∧
        (unique.scope = .active → isTerminalRunStatus run.status = false) := by
  have hstored {id} (hget : m.runs.get? id = some run) : m.runs.get? run.id = some run := by
    rw [hm.keyed.runs hget]
    exact hget
  unfold conflictingRun
  rw [Option.bind_eq_some_iff]
  cases hscope : unique.scope with
  | active =>
    constructor
    · rintro ⟨id, hid, hget⟩
      obtain ⟨run', hrun', hkey⟩ := (h.active _ id).mp hid
      obtain rfl := Option.some.inj (hget.symm.trans hrun')
      obtain ⟨hkey, hlive⟩ := activeKeyOf_eq_some.mp hkey
      exact ⟨hstored hget, hkey, fun _ => hlive⟩
    · rintro ⟨hget, hkey, hlive⟩
      exact ⟨run.id, (h.active _ run.id).mpr ⟨run, hget, activeKeyOf_eq_some.mpr ⟨hkey, hlive rfl⟩⟩,
        hget⟩
  | all =>
    constructor
    · rintro ⟨id, hid, hget⟩
      obtain ⟨run', hrun', hkey⟩ := (h.all _ id).mp hid
      obtain rfl := Option.some.inj (hget.symm.trans hrun')
      exact ⟨hstored hget, allKeyOf_eq_some.mp hkey, RunUniqueScope.noConfusion⟩
    · rintro ⟨hget, hkey, -⟩
      exact ⟨run.id, (h.all _ run.id).mpr ⟨run, hget, allKeyOf_eq_some.mpr hkey⟩, hget⟩

theorem uniqueKeysHeld {m : Mem V} (h : KeysExact m.runTables) (hm : m.Sound) :
    m.UniqueKeysHeld where
  active key id := by
    refine (h.active key id).trans ?_
    simp only [activeKeyOf_eq_some]
    rfl
  all key id := by
    refine (h.all key id).trans ?_
    simp only [allKeyOf_eq_some]
    rfl
  activeOnce run hrun run' hrun' key hkey hkey' hlive hlive' := by
    obtain ⟨id, hget⟩ := OrdMap.mem_values_iff.mp hrun
    obtain ⟨id', hget'⟩ := OrdMap.mem_values_iff.mp hrun'
    rw [hm.keyed.runs hget, hm.keyed.runs hget']
    exact h.active.unique hget hget' (activeKeyOf_eq_some.mpr ⟨hkey, hlive⟩)
      (activeKeyOf_eq_some.mpr ⟨hkey', hlive'⟩)
  allOnce run hrun run' hrun' key hkey hkey' := by
    obtain ⟨id, hget⟩ := OrdMap.mem_values_iff.mp hrun
    obtain ⟨id', hget'⟩ := OrdMap.mem_values_iff.mp hrun'
    rw [hm.keyed.runs hget, hm.keyed.runs hget']
    exact h.all.unique hget hget' (allKeyOf_eq_some.mpr hkey) (allKeyOf_eq_some.mpr hkey')
  conflict unique run := conflictingRun_eq_some h hm

/-! ## Keys across a step -/

/-- Releasing the key of one run leaves the keys of the others. -/
theorem get?_withoutActiveUniqueKey {run : StoredRun V} {index : OrdMap String String}
    {key id : String} (hget : index.get? key = some id) (hne : id ≠ run.id) :
    (withoutActiveUniqueKey run index).get? key = some id := by
  unfold withoutActiveUniqueKey
  split
  · next unique _ =>
    split
    · next hown =>
      rw [OrdMap.get?_erase, if_neg, hget]
      rintro rfl
      exact hne (Option.some.inj (hget.symm.trans hown.2))
    · exact hget
  · exact hget

/-- No step gives a held key to another run. -/
theorem RunEffect.keeps_holder {n : Nat} {t t' : RunTables V} (heffect : RunEffect n t t')
    (h : KeysExact t) {key id : String} :
    (t.activeUniqueRunKeys.get? key = some id →
      t'.activeUniqueRunKeys.get? key = some id ∨ t'.activeUniqueRunKeys.get? key = none) ∧
    (t.allUniqueRunKeys.get? key = some id →
      t'.allUniqueRunKeys.get? key = some id ∨ t'.allUniqueRunKeys.get? key = none) := by
  cases heffect with
  | same => exact ⟨.inl, .inl⟩
  | @insert input date _ uniqueFree =>
    -- the entered key was free, so a held key is another one
    have hkeep (scope : RunUniqueScope) {index : OrdMap String String}
        (hfree : ∀ unique, input.unique = some unique → unique.scope = scope →
          valueKey unique.key ≠ key) (hget : index.get? key = some id) :
        (setUniqueKey scope input.unique (freshId "run" n) index).get? key = some id := by
      unfold setUniqueKey
      split
      · next unique hunique =>
        split
        · next hscope =>
          rw [OrdMap.get?_set_of_ne (hfree unique hunique hscope).symm]
          exact hget
        · exact hget
      · exact hget
    constructor
    · refine fun hget => .inl (hkeep .active (fun unique hunique hscope hkey => ?_) hget)
      obtain ⟨run, hrun, -⟩ := (h.active key id).mp hget
      have := uniqueFree unique hunique
      simp [hscope, hkey, hget, hrun] at this
    · refine fun hget => .inl (hkeep .all (fun unique hunique hscope hkey => ?_) hget)
      obtain ⟨run, hrun, -⟩ := (h.all key id).mp hget
      have := uniqueFree unique hunique
      simp [hscope, hkey, hget, hrun] at this
  | update => exact ⟨.inl, .inl⟩
  | @settle runId run run' get change _ =>
    refine ⟨fun hget => ?_, .inl⟩
    by_cases hid : id = run'.id
    · rw [withoutActiveUniqueKey]
      split
      · split
        · rw [OrdMap.get?_erase]
          split
          · exact .inr rfl
          · exact .inl hget
        · exact .inl hget
      · exact .inl hget
    · exact .inl (get?_withoutActiveUniqueKey hget hid)
  | delete ids =>
    have hfilter {index : OrdMap String String} (hget : index.get? key = some id) :
        (index.filter fun _ runId => runId ∉ ids).get? key = some id ∨
          (index.filter fun _ runId => runId ∉ ids).get? key = none := by
      rw [OrdMap.get?_filter, hget, Option.filter]
      split
      · exact .inl rfl
      · exact .inr rfl
    exact ⟨hfilter, hfilter⟩

theorem keysFollow_step {m : Mem V} (hm : m.Sound) (h : KeysExact m.runTables) (op : Op V) :
    m.KeysFollow (m.step op) := by
  have heffect := m.step_runEffect op
  have h' := h.effect heffect (fun hget => hm.keyed.runs hget) hm.run_fresh
  -- a run keeps the key it was created with
  have hkept {id run run'} (hget : m.runs.get? id = some run)
      (hget' : (m.step op).runs.get? id = some run') (scope : RunUniqueScope) :
      scopedKeyOf scope run' = scopedKeyOf scope run := by
    obtain ⟨-, hnone⟩ | ⟨after, hafter, hsame⟩ :=
      (step_effect hm.keyed op).runs_evolve hm id run hget
    · exact absurd (hnone.symm.trans hget') (by simp)
    · obtain rfl := Option.some.inj (hafter.symm.trans hget')
      obtain rfl | hchange := hsame
      · rfl
      · exact hchange.scopedKeyOf_eq scope
  constructor
  · intro key id hget
    obtain ⟨run, hrun, hkey⟩ := (h.active key id).mp hget
    obtain hheld | hfree := (RunEffect.keeps_holder heffect h).1 hget
    · obtain ⟨run', hrun', hkey'⟩ := (h'.active key id).mp hheld
      exact .inl ⟨hheld, run', hrun', (activeKeyOf_eq_some.mp hkey').2⟩
    · refine .inr ⟨hfree, fun run' hrun' => ?_⟩
      by_contra hlive
      have hlive : isTerminalRunStatus run'.status = false := by simpa using hlive
      have hkey' : activeKeyOf run' = some key := by
        rw [activeKeyOf_eq_some, HasKey, ← scopedKeyOf_eq_some, hkept hrun hrun' .active]
        exact ⟨scopedKeyOf_eq_some.mpr (activeKeyOf_eq_some.mp hkey).1, hlive⟩
      have hheld := (h'.active key id).mpr ⟨run', hrun', hkey'⟩
      exact absurd (hfree.symm.trans hheld) (by simp)
  · intro key id hget
    obtain ⟨run, hrun, hkey⟩ := (h.all key id).mp hget
    obtain hheld | hfree := (RunEffect.keeps_holder heffect h).2 hget
    · obtain ⟨run', hrun', -⟩ := (h'.all key id).mp hheld
      exact .inl ⟨hheld, run', hrun'⟩
    · refine .inr ⟨hfree, ?_⟩
      cases hrun' : (m.step op).runs.get? id with
      | none => rfl
      | some run' =>
        have hheld := (h'.all key id).mpr ⟨run', hrun', (hkept hrun hrun' .all).trans hkey⟩
        exact absurd (hfree.symm.trans hheld) (by simp)

/-- After every history the unique keys are held by the runs that should hold them and by no two;
every further operation keeps a held key with its run or frees it when that run is terminal or
gone; and releasing the key of a run leaves keys of other runs alone. -/
theorem unique_keys (maxDeliveries : Option Int) (history : List (Op V)) :
    (after maxDeliveries history).UniqueKeysHeld ∧
    (∀ op, (after maxDeliveries history).KeysFollow ((after maxDeliveries history).step op)) ∧
    ∀ (run : StoredRun V) (key id : String),
      (after maxDeliveries history).activeUniqueRunKeys.get? key = some id → id ≠ run.id →
      ((after maxDeliveries history).releaseActiveUniqueKey run).activeUniqueRunKeys.get? key =
        some id := by
  have hm := sound_after maxDeliveries history
  have h := keysExact_after maxDeliveries history
  exact ⟨uniqueKeysHeld h hm, keysFollow_step hm h, fun _ _ _ => get?_withoutActiveUniqueKey⟩

end Mem

end Neemata.Workflows
