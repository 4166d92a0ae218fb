import Neemata.Workflows.Worker.Snapshot
import Neemata.Workflows.Worker.TaskCancellation

/-!
# A delivery of a task run, await by await

What one await of a delivery does to its run. As long as no heartbeat meets the run `cancelling`
without a worker to continue it, the run is closed afterwards or the phase of the delivery says who
still moves it (`pursues_perform`).
-/

namespace Neemata.Workflows

variable {V : Type}

/-- Nothing makes the worker observe a cancellation that nobody else will carry out: a heartbeat
that meets the run `cancelling` finds a continue command for a registered worker, and no handler
throws the worker's own error. -/
def Mem.Unobserved (m : Mem V) (runId workflowName : String) (workflowNames : List String)
    (user : UserCode V) : PassOp V → Prop
  | .executor (.heartbeat _ _) => (m.runs.get? runId).any (fun run => run.status = .cancelling) →
    workflowName ∈ workflowNames ∧ m.Woken runId workflowName
  | .callback (.handler command timed) => throwsObserved (user (.handler command timed)) = false
  | _ => True

instance (m : Mem V) (runId workflowName : String) (workflowNames : List String)
    (user : UserCode V) : (op : PassOp V) →
      Decidable (m.Unobserved runId workflowName workflowNames user op)
  | .executor op =>
    match op with
    | .heartbeat _ _ => inferInstanceAs (Decidable (_ → workflowName ∈ workflowNames ∧ _))
    | .enqueue _ _ | .claimContinue _ | .ackContinue _ | .releaseContinue _ _ | .dispatch _ _
    | .claimAttempt _ | .ackAttempt _ | .releaseAttempt _ _ | .deleteUnclaimed _ => isTrue trivial
  | .callback call =>
    match call with
    | .handler _ _ => inferInstanceAs (Decidable (_ = false))
    | .createContext | .decode _ _ | .call _ _ | .select _ _ | .items _ _ => isTrue trivial
  | .store _ | .dateNow => isTrue trivial

/-! ## Reads -/

section

variable [JsRuntime V] {m : Mem V} {runId workflowName : String} {workflowNames : List String}
  {claimed : Claimed (AttemptCommand V)} {phase : CancelPhase V}

omit [JsRuntime V] in
/-- A snapshot holds the child of a task run. -/
theorem Mem.CurrentAttempt.storedChild (hm : m.Sound) {attemptId : String}
    {child : StoredNodeChild V} {attempt : StoredAttempt V}
    (h : m.CurrentAttempt runId attemptId child attempt)
    (hname : claimed.command.IsTaskOf workflowName) {snapshot : RunSnapshot V}
    (hload : m.loadRunSnapshot runId = some snapshot) :
    storedChildOf claimed.command (some snapshot) = some child := by
  have hget := h.getChild
  rw [taskChildKey, ← hname.nodeName, ← hname.childKey] at hget
  exact Mem.storedChild hm hget h.names.1
    ⟨h.names.2.1.trans hname.nodeName.symm, h.names.2.2.trans hname.childKey.symm⟩ hload

/-- A delivery that finds its attempt fresh has the command of the current attempt. -/
theorem pursues_loadFresh (h : m.TaskRun runId workflowName)
    (hname : claimed.command.IsTaskOf workflowName) {snapshot : RunSnapshot V}
    (hload : m.loadRunSnapshot runId = some snapshot)
    (hfresh : isFreshAttempt claimed.command (storedChildOf claimed.command (some snapshot))
      (storedAttemptOf claimed.command (some snapshot))) (hawaits : m.Awaits runId) :
    CancelPhase.fresh.Pursues m runId claimed.command := by
  obtain ⟨attemptId, hcommand, child, attempt, hcurrent⟩ := hawaits
  rw [hcurrent.storedChild h.sound.sound hname hload] at hfresh
  simp only [isFreshAttempt, Option.any_some, hcurrent.current, Option.some.injEq,
    Bool.and_eq_true, decide_eq_true_eq] at hfresh
  obtain ⟨rfl, hfresh⟩ := hfresh
  rw [Mem.storedAttempt h.sound.sound hcurrent.getAttempt
    (hcurrent.ofChild.1.trans hcurrent.names.1) hload] at hfresh
  simp only [Option.any_some, Bool.and_eq_true, decide_eq_true_eq] at hfresh
  exact ⟨hcommand, child, attempt, hcurrent, hfresh⟩

/-- A delivery that does not finds its attempt settled, or another one current. -/
theorem pursues_loadStale (h : m.TaskRun runId workflowName) (hholds : m.Holds claimed)
    (hname : claimed.command.IsTaskOf workflowName) {snapshot : RunSnapshot V}
    (hload : m.loadRunSnapshot runId = some snapshot)
    (hlive : isTerminalRunStatus snapshot.run.status = false)
    (hstale : isFreshAttempt claimed.command (storedChildOf claimed.command (some snapshot))
      (storedAttemptOf claimed.command (some snapshot)) = false) (hawaits : m.Awaits runId) :
    (CancelPhase.afterLoad workflowName claimed.command (some snapshot)).Pursues m runId
      claimed.command := by
  rw [afterLoad_stale hlive hstale]
  obtain ⟨attemptId, hcommand, child, attempt, hcurrent⟩ := hawaits
  rw [hcurrent.storedChild h.sound.sound hname hload] at hstale ⊢
  by_cases hsame : attemptId = claimed.command.attemptId
  · subst hsame
    rw [Mem.storedAttempt h.sound.sound hcurrent.getAttempt
      (hcurrent.ofChild.1.trans hcurrent.names.1) hload] at hstale ⊢
    have htoken := hholds.issued.2 _ hcurrent.getAttempt
    have hstarted : attempt.status ≠ .started := by
      intro hstarted
      simp [isFreshAttempt, hcurrent.current, hstarted, htoken] at hstale
    have hsettled : attempt.status = .completed ∨ isFailedAttemptStatus attempt.status :=
      hcurrent.status.resolve_left fun hstatus => hstarted hstatus.1
    simp only [hcurrent.current, ne_eq, not_true_eq_false, if_false, Option.any_some,
      Bool.or_eq_true, decide_eq_true_eq, hsettled, if_true]
    exact ⟨hcommand, child, attempt, hcurrent, hstarted⟩
  · simp only [hcurrent.current, ne_eq, Option.some.injEq, hsame, not_false_eq_true, if_true]
    exact ⟨attemptId, hsame, hcommand, child, attempt, hcurrent⟩

omit [JsRuntime V] in
theorem afterLoad_stale_ne_absurd {snapshot : RunSnapshot V}
    (hlive : isTerminalRunStatus snapshot.run.status = false)
    (hstale : isFreshAttempt claimed.command (storedChildOf claimed.command (some snapshot))
      (storedAttemptOf claimed.command (some snapshot)) = false) :
    CancelPhase.afterLoad workflowName claimed.command (some snapshot) ≠ .absurd := by
  rw [afterLoad_stale hlive hstale]
  split
  · exact nofun
  · split
    · exact nofun
    · split <;> exact nofun

/-- The beginning of a delivery. -/
theorem pursues_load (h : m.TaskRun runId workflowName) (hholds : m.Holds claimed)
    (hname : claimed.command.IsTaskOf workflowName)
    (hstate : m.Closed runId workflowName workflowNames ∨ m.Awaits runId) :
    let phase := CancelPhase.afterLoad workflowName claimed.command (m.loadRunSnapshot runId)
    phase ≠ .absurd ∧
      (m.Closed runId workflowName workflowNames ∨ phase.Pursues m runId claimed.command) := by
  cases hload : m.loadRunSnapshot runId with
  | none =>
    have hnone : m.runs.get? runId = none := Option.map_eq_none_iff.mp hload
    refine ⟨fun h => ?_, .inl (.inl fun run hget => ?_)⟩
    · cases h
    · rw [hnone] at hget
      cases hget
  | some snapshot =>
    have hget := Mem.loadRunSnapshot_eq_some hload
    by_cases hterminal : isTerminalRunStatus snapshot.run.status
    · simp only [CancelPhase.afterLoad, hterminal, if_true]
      refine ⟨fun h => ?_, .inl (.inl fun run hrun => ?_)⟩
      · cases h
      · rw [hget] at hrun
        exact Option.some.inj hrun ▸ hterminal
    have hlive : isTerminalRunStatus snapshot.run.status = false := by simpa using hterminal
    by_cases hfresh : isFreshAttempt claimed.command (storedChildOf claimed.command (some snapshot))
        (storedAttemptOf claimed.command (some snapshot))
    · rw [afterLoad_fresh hlive hfresh, if_pos (h.run _ hget)]
      refine ⟨fun h => ?_, hstate.imp_right (pursues_loadFresh h hname hload hfresh)⟩
      cases h
    · have hstale := Bool.eq_false_of_not_eq_true hfresh
      exact ⟨afterLoad_stale_ne_absurd hlive hstale,
        hstate.imp_right (pursues_loadStale h hholds hname hload hlive hstale)⟩

/-! ## Operations -/

/-- The later reads of a run. -/
theorem pursues_reload (h : m.TaskRun runId workflowName) (hphase : phase ≠ .absurd)
    (loaded : String)
    (hstate : m.Closed runId workflowName workflowNames ∨ phase.Pursues m runId claimed.command) :
    let phase' := phase.afterReload runId workflowName loaded (m.loadRunSnapshot loaded)
    phase' ≠ .absurd ∧
      (m.Closed runId workflowName workflowNames ∨ phase'.Pursues m runId claimed.command) := by
  cases hload : m.loadRunSnapshot loaded with
  | none =>
    simp only [CancelPhase.afterReload]
    split
    · next hloaded =>
      rw [hloaded] at hload
      have hnone : m.runs.get? runId = none := Option.map_eq_none_iff.mp hload
      refine ⟨nofun, .inl (.inl fun run hget => ?_)⟩
      rw [hnone] at hget
      cases hget
    · exact ⟨hphase, hstate⟩
  | some snapshot =>
    simp only [CancelPhase.afterReload]
    split
    · next hother =>
      obtain ⟨rfl, hother⟩ := hother
      obtain ⟨hkind, hnamed⟩ := h.run _ (Mem.loadRunSnapshot_eq_some hload)
      exact absurd hother (by simp [hkind, hnamed])
    · exact ⟨hphase, hstate⟩

omit [JsRuntime V] in
/-- A heartbeat answers with the status of the run. -/
theorem Mem.heartbeat_eq_ok {leaseMs : Option Nat} {status : RuntimeRunStatus}
    (h : (m.heartbeat claimed leaseMs).1 = .ok status) :
    status = ((m.runs.get? claimed.command.runId).map StoredRun.status).getD .queued := by
  unfold Mem.heartbeat at h
  split at h
  · cases h
  · split at h
    · cases h
    · exact (Except.ok.inj h).symm

omit [JsRuntime V] in
theorem CancelPhase.afterHeartbeat_ne_absurd (answer : Except (Thrown V) RuntimeRunStatus) :
    CancelPhase.fresh.afterHeartbeat answer ≠ (.absurd : CancelPhase V) := by
  unfold CancelPhase.afterHeartbeat
  split
  · split <;> exact nofun
  · exact nofun

/-- A heartbeat that finds the run to need no attempt. -/
theorem pursues_heartbeat (h : m.TaskRun runId workflowName) (hrun : claimed.command.runId = runId)
    (leaseMs : Option Nat) {user : UserCode V}
    (hunobserved :
      m.Unobserved runId workflowName workflowNames user (.executor (.heartbeat claimed leaseMs)))
    (hstate : CancelPhase.fresh.Pursues m runId claimed.command) :
    let result := m.heartbeat claimed leaseMs
    result.2.Closed runId workflowName workflowNames ∨
      (CancelPhase.fresh.afterHeartbeat result.1).Pursues result.2 runId claimed.command := by
  intro result
  have hkeeps : Mem.Keeps runId m result.2 :=
    h.keeps_executor (.heartbeat claimed leaseMs) (fun _ _ => rfl) nofun
  have hruns : result.2.runs = m.runs :=
    congrArg Records.runs (m.execExecutor_quiet (.heartbeat claimed leaseMs)).records
  have hqueue :
      (m.execExecutor (.heartbeat claimed leaseMs)).2.continueQueue = m.continueQueue :=
    m.execExecutor_continueQueue rfl
  cases hanswer : result.1 with
  | error error => exact .inr (hstate.keeps hkeeps)
  | ok status =>
    simp only [CancelPhase.afterHeartbeat]
    split
    · next hended =>
      have hstatus := Mem.heartbeat_eq_ok hanswer
      rw [hrun] at hstatus
      left
      cases hget : m.runs.get? runId with
      | none =>
        rw [hget] at hstatus
        subst hstatus
        simp [isTerminalRunStatus] at hended
      | some run =>
        rw [hget] at hstatus
        obtain rfl : status = run.status := hstatus
        rcases hended with hcancelling | hterminal
        · obtain ⟨hname, hwoken⟩ := hunobserved (by simp [hget, hcancelling])
          exact .inr ⟨hname, hwoken.of_queue_eq hqueue⟩
        · refine .inl fun run' hget' => ?_
          rw [hruns, hget] at hget'
          exact Option.some.inj hget' ▸ hterminal
    · exact .inr (hstate.keeps hkeeps)

/-- Settling a run that is stored makes it terminal. -/
theorem Mem.closed_settleRun {change : StoredRun V → StoredRun V}
    (hchange : ∀ run, isTerminalRunStatus (change run).status) :
    (m.settleRun runId change).2.Closed runId workflowName workflowNames := by
  refine .inl fun run' hget => ?_
  unfold Mem.settleRun at hget
  split at hget
  · next hnone =>
    rw [hnone] at hget
    cases hget
  · next run hrun =>
    split at hget
    · next hterminal =>
      rw [hrun] at hget
      exact Option.some.inj hget ▸ hterminal
    · have hset := OrdMap.get?_set_self m.runs runId (m.updateRun runId run change).1
      obtain rfl := Option.some.inj (hset.symm.trans hget)
      exact hchange run

/-- A store operation of a delivery that leaves children, attempts and commands alone. -/
theorem Mem.TaskRun.keeps_store (h : m.TaskRun runId workflowName) (op : StoreOp V)
    (hqueues : op.touchesQueues = false)
    (hchildren : (m.execStore op).2.children = m.children)
    (hattempts : (m.execStore op).2.attempts = m.attempts) :
    Keeps runId m (m.execStore op).2 := by
  refine h.keeps_of_eq (.store op) hchildren hattempts (fun runGone e => ?_) nofun
  cases op with
  | pruneTerminalRuns | deleteRun | markDeadCommandReaped | requeueDeadCommand => cases hqueues
  | _ => rfl

/-- What is known of the run before and after an await of the delivery. -/
def CancelPhase.Tracks (m : Mem V) (runId workflowName : String) (workflowNames : List String)
    (command : AttemptCommand V) (phase : CancelPhase V) : Prop :=
  phase ≠ .absurd ∧ (m.Closed runId workflowName workflowNames ∨ phase.Pursues m runId command)

omit [JsRuntime V] in
theorem CancelPhase.Tracks.keeps {m' : Mem V}
    (h : phase.Tracks m runId workflowName workflowNames claimed.command)
    (hclosed : m.Closed runId workflowName workflowNames →
      m'.Closed runId workflowName workflowNames) (hkeeps : Mem.Keeps runId m m') :
    phase.Tracks m' runId workflowName workflowNames claimed.command :=
  ⟨h.1, h.2.imp hclosed fun hpursues => hpursues.keeps hkeeps⟩

omit [JsRuntime V] in
/-- The settlement of the fresh attempt, by what it does while the run is not closed. -/
theorem tracks_settlement {result : Option (StoredAttempt V) × Mem V}
    (hstate : CancelPhase.fresh.Tracks m runId workflowName workflowNames claimed.command)
    (hclosed : m.Closed runId workflowName workflowNames →
      result.2.Closed runId workflowName workflowNames)
    (hsettle : CancelPhase.fresh.Pursues m runId claimed.command →
      (∃ attempt, result.1 = some attempt) ∧
        CancelPhase.settled.Pursues result.2 runId claimed.command) :
    (CancelPhase.afterSettlement (.ok result.1)).Tracks result.2 runId workflowName workflowNames
      claimed.command := by
  constructor
  · cases result.1 <;> exact nofun
  · refine hstate.2.imp hclosed fun hfresh => ?_
    obtain ⟨⟨attempt, hanswer⟩, hsettled⟩ := hsettle hfresh
    rw [hanswer]
    exact hsettled

/-- A store operation of the delivery. -/
theorem tracks_store (h : m.TaskRun runId workflowName) (hholds : m.Holds claimed)
    (hrun : claimed.command.runId = runId) (hname : claimed.command.IsTaskOf workflowName)
    {op : StoreOp V} (hop : phase.mayPerform runId workflowName claimed (.store op))
    (user : UserCode V)
    (hstate : phase.Tracks m runId workflowName workflowNames claimed.command) :
    (phase.next runId workflowName claimed (.store op) (m.execStore op).1).Tracks
      (m.execStore op).2 runId workflowName workflowNames claimed.command := by
  have hclosed (hclosed : m.Closed runId workflowName workflowNames) :
      (m.execStore op).2.Closed runId workflowName workflowNames :=
    hclosed.perform h (.store op) hop user
  cases op with
  | loadRunSnapshot loaded =>
    cases phase with
    | start =>
      obtain rfl : loaded = runId := hop rfl
      exact pursues_load h hholds hname hstate.2
    | _ => exact pursues_reload h hstate.1 loaded hstate.2
  | completeCurrentAttempt attemptId leaseToken output =>
    obtain ⟨rfl, rfl, rfl⟩ := hop
    exact tracks_settlement hstate hclosed fun hfresh => pursues_completeCurrentAttempt hfresh output
  | failCurrentAttempt attemptId leaseToken error =>
    obtain ⟨rfl, rfl, rfl⟩ := hop
    exact tracks_settlement hstate hclosed fun hfresh =>
      pursues_failCurrentAttemptAs hfresh .failed rfl error
  | timeoutCurrentAttempt attemptId leaseToken error =>
    obtain ⟨rfl, rfl, rfl⟩ := hop
    exact tracks_settlement hstate hclosed fun hfresh =>
      pursues_failCurrentAttemptAs hfresh .timedOut rfl error
  | completeNodeChild run nodeName key output =>
    obtain rfl : phase = .settled := hop
    exact ⟨nofun, hstate.2.imp hclosed fun hsettled =>
      pursues_settleNodeChild hsettled run nodeName key fun _ => rfl⟩
  | failNodeChild run nodeName key error =>
    obtain rfl : phase = .settled := hop
    exact ⟨nofun, hstate.2.imp hclosed fun hsettled =>
      pursues_settleNodeChild hsettled run nodeName key fun _ => rfl⟩
  | completeNode run nodeName output =>
    have hrecords := m.settleNode_records run nodeName
      ({ · with status := .completed, output := some output })
    exact hstate.keeps hclosed (h.keeps_store _ rfl (congrArg Records.children hrecords)
      (congrArg Records.attempts hrecords))
  | failNode run nodeName error =>
    have hrecords := m.settleNode_records run nodeName
      ({ · with status := .failed, error := some (toStoredError error) })
    exact hstate.keeps hclosed (h.keeps_store _ rfl (congrArg Records.children hrecords)
      (congrArg Records.attempts hrecords))
  | markRunRunning run =>
    have hrecords := m.markRun_records run .running
    exact hstate.keeps hclosed (h.keeps_store _ rfl (congrArg Records.children hrecords)
      (congrArg Records.attempts hrecords))
  | completeRun | failRun =>
    obtain ⟨rfl, rfl⟩ := hop
    exact ⟨nofun, .inl (Mem.closed_settleRun fun _ => rfl)⟩
  | createAttempt params =>
    obtain ⟨rfl, hparams, hnode, hkey⟩ := hop
    have hchild : childKey params.runId params.nodeName params.childKey = taskChildKey runId := by
      rw [hparams, hnode, hkey, hrun, hname.nodeName, hname.childKey]
      rfl
    change (CancelPhase.settled.next runId workflowName claimed (.store (.createAttempt params))
      (m.createAttempt params).1).Tracks (m.createAttempt params).2 runId workflowName workflowNames
        claimed.command
    rcases hstate.2 with hstill | hsettled
    · refine ⟨?_, .inl (hclosed hstill)⟩
      cases (m.createAttempt params).1 <;> exact nofun
    · rcases pursues_createAttempt h hsettled hchild with ⟨error, heq⟩ | ⟨next, m', heq, hcreated⟩
      · rw [heq]
        exact ⟨nofun, .inr hsettled⟩
      · rw [heq]
        exact ⟨nofun, .inr hcreated⟩
  | _ => cases hop

/-- An executor operation of the delivery. -/
theorem tracks_executor (h : m.TaskRun runId workflowName) (hholds : m.Holds claimed)
    (hrun : claimed.command.runId = runId) {op : ExecutorOp V}
    (hop : phase.mayPerform runId workflowName claimed (.executor op)) {user : UserCode V}
    (hunobserved : m.Unobserved runId workflowName workflowNames user (.executor op))
    (hstate : phase.Tracks m runId workflowName workflowNames claimed.command) :
    (phase.next runId workflowName claimed (.executor op) (m.execExecutor op).1).Tracks
      (m.execExecutor op).2 runId workflowName workflowNames claimed.command := by
  have hclosed (hclosed : m.Closed runId workflowName workflowNames) :
      (m.execExecutor op).2.Closed runId workflowName workflowNames :=
    hclosed.perform h (.executor op) hop user
  cases op with
  | enqueue | releaseAttempt =>
    exact hstate.keeps hclosed (h.keeps_executor _ (fun _ _ => rfl) nofun)
  | dispatch command runAt =>
    obtain ⟨next, rfl, rfl⟩ := hop
    exact ⟨nofun, hstate.2.imp hclosed fun hcreated => pursues_dispatch hcreated hrun runAt⟩
  | heartbeat held leaseMs =>
    obtain ⟨rfl, rfl⟩ := hop
    refine ⟨CancelPhase.afterHeartbeat_ne_absurd _, ?_⟩
    rcases hstate.2 with hstill | hfresh
    · exact .inl (hclosed hstill)
    · exact pursues_heartbeat h hrun leaseMs hunobserved hfresh
  | ackAttempt held =>
    obtain ⟨hended, rfl⟩ := hop
    rcases hended with rfl | rfl
    · exact ⟨nofun, .inl (hclosed (hstate.2.resolve_right id))⟩
    · exact ⟨nofun, hstate.2.imp hclosed fun hreplaced => pursues_ack h.kept hholds hreplaced⟩
  | _ => cases hop

/-- What an await of the delivery does to its run. -/
theorem tracks_perform (h : m.TaskRun runId workflowName) (hholds : m.Holds claimed)
    (hrun : claimed.command.runId = runId) (hname : claimed.command.IsTaskOf workflowName)
    {op : PassOp V} (hop : phase.mayPerform runId workflowName claimed op) {user : UserCode V}
    (hunobserved : m.Unobserved runId workflowName workflowNames user op)
    (hstate : phase.Tracks m runId workflowName workflowNames claimed.command) :
    (phase.next runId workflowName claimed op (op.exec user m).1).Tracks (op.exec user m).2 runId
      workflowName workflowNames claimed.command := by
  cases op with
  | store op => exact tracks_store h hholds hrun hname hop user hstate
  | executor op => exact tracks_executor h hholds hrun hop hunobserved hstate
  | dateNow => exact hstate
  | callback call =>
    cases call with
    | handler command timed =>
      change (if throwsObserved (user (.handler command timed)) then CancelPhase.absurd else
        phase).Tracks m runId workflowName workflowNames claimed.command
      rw [if_neg (Bool.eq_false_iff.mp hunobserved)]
      exact hstate
    | _ => exact hstate

/-! ## The state of a delivery -/

/-- The command of the attempt that a delivery has created. -/
def CancelPhase.Issued (m : Mem V) : CancelPhase V → Prop
  | .created next => m.Issued next.id next.leaseToken
  | _ => True

theorem CancelPhase.Issued.step (hm : m.Sound) (h : phase.Issued m) (op : Op V) :
    phase.Issued (m.step op) := by
  cases phase with
  | created next => exact Mem.Issued.step hm h op
  | _ => trivial

omit [JsRuntime V] in
theorem Mem.createAttempt_issued {params : ChildAttemptParams V} {attempt : StoredAttempt V}
    (h : (m.createAttempt params).1 = .ok attempt) :
    (m.createAttempt params).2.Issued attempt.id attempt.leaseToken := by
  revert h
  unfold Mem.createAttempt
  dsimp only
  split
  · exact nofun
  · next child _ =>
    split
    · exact nofun
    · rintro ⟨⟩
      obtain ⟨leaseToken, date, date', hnext, hattempts, -, -, hnextId⟩ :=
        m.createChildAttempt_spec child params.input params.idempotencyKey
      have hid : (m.createChildAttempt child params.input params.idempotencyKey).1.id =
          freshId "attempt" m.nextId := congrArg StoredAttempt.id hnext
      refine ⟨?_, fun attempt hget => ?_⟩
      · have hlt : m.nextId <
            (m.createChildAttempt child params.input params.idempotencyKey).2.nextId := by omega
        rw [hid]
        exact minted_freshId hlt
      · rw [hid, hattempts, OrdMap.get?_set_self] at hget
        exact congrArg StoredAttempt.leaseToken (Option.some.inj hget).symm

omit [JsRuntime V] in
theorem CancelPhase.afterLoad_issued (command : AttemptCommand V)
    (snapshot : Option (RunSnapshot V)) :
    (CancelPhase.afterLoad workflowName command snapshot).Issued m := by
  unfold CancelPhase.afterLoad
  repeat' split
  all_goals trivial

omit [JsRuntime V] in
theorem CancelPhase.afterSettlement_issued
    (answer : Except (Thrown V) (Option (StoredAttempt V))) :
    (CancelPhase.afterSettlement answer).Issued m :=
  match answer with
  | .ok (some _) | .ok none | .error _ => trivial

/-- What holds between two awaits of a delivery. -/
structure CancelPhase.Delivers (m : Mem V) (runId workflowName : String)
    (workflowNames : List String) (claimed : Claimed (AttemptCommand V)) (phase : CancelPhase V) :
    Prop where
  run : m.TaskRun runId workflowName
  holds : m.Holds claimed
  own : claimed.command.runId = runId
  named : claimed.command.IsTaskOf workflowName
  issued : phase.Issued m
  tracks : phase.Tracks m runId workflowName workflowNames claimed.command

theorem CancelPhase.next_issued (hm : m.Sound) (h : phase.Issued m) (op : PassOp V)
    (user : UserCode V) :
    (phase.next runId workflowName claimed op (op.exec user m).1).Issued (op.exec user m).2 := by
  cases op with
  | dateNow => exact h
  | callback call =>
    cases call with
    | handler command timed =>
      change (if throwsObserved (user (.handler command timed)) then CancelPhase.absurd else
        phase).Issued m
      split
      · trivial
      · exact h
    | _ => exact h
  | executor op =>
    have hstep : phase.Issued (m.execExecutor op).2 := h.step hm (.executor op)
    cases op with
    | dispatch => trivial
    | heartbeat held leaseMs =>
      change (phase.afterHeartbeat (m.heartbeat held leaseMs).1).Issued _
      unfold CancelPhase.afterHeartbeat
      split
      · split
        · trivial
        · exact hstep
      · exact hstep
    | _ => exact hstep
  | store op =>
    have hstep : phase.Issued (m.execStore op).2 := h.step hm (.store op)
    cases op with
    | loadRunSnapshot loaded =>
      cases phase with
      | start => exact CancelPhase.afterLoad_issued _ _
      | _ =>
        simp only [CancelPhase.next, PassOp.exec, Mem.execStore, Mem.returning,
          CancelPhase.afterReload]
        repeat' split
        all_goals first | exact h | trivial
    | completeCurrentAttempt | failCurrentAttempt | timeoutCurrentAttempt =>
      exact CancelPhase.afterSettlement_issued _
    | createAttempt params =>
      change (CancelPhase.next runId workflowName claimed phase (.store (.createAttempt params))
        (m.createAttempt params).1).Issued (m.createAttempt params).2
      cases hanswer : (m.createAttempt params).1 with
      | ok attempt => exact Mem.createAttempt_issued hanswer
      | error error => exact hstep
    | completeRun | failRun => trivial
    | _ => exact hstep

omit [JsRuntime V] in
theorem CancelPhase.mayPerform_contracted [JsRuntime V] {op : StoreOp V}
    (hop : phase.mayPerform runId workflowName claimed (.store op)) :
    m.Contracted (.store op) := by
  cases op with
  | ensureNodeChildren | ensureChildRun | createRun => cases hop
  | _ => exact ⟨nofun, nofun⟩

/-- The delivery dispatches only the attempt it has created. -/
theorem CancelPhase.Delivers.attributed
    (h : phase.Delivers m runId workflowName workflowNames claimed) {op : ExecutorOp V}
    (hop : phase.mayPerform runId workflowName claimed (.executor op))
    (command : AttemptCommand V) (runAt : Option Nat)
    (hdispatch : op = .dispatch command runAt) : m.Attributed runId workflowName command := by
  subst hdispatch
  obtain ⟨next, rfl, rfl⟩ := hop
  exact ⟨h.issued, fun _ => ⟨h.named.target, h.named.workflowName, h.named.nodeName,
    h.named.childKey⟩⟩

theorem CancelPhase.Delivers.perform
    (h : phase.Delivers m runId workflowName workflowNames claimed) {op : PassOp V}
    (hop : phase.mayPerform runId workflowName claimed op) {user : UserCode V}
    (hunobserved : m.Unobserved runId workflowName workflowNames user op) :
    (phase.next runId workflowName claimed op (op.exec user m).1).Delivers (op.exec user m).2 runId
      workflowName workflowNames claimed where
  run := by
    cases op with
    | store op => exact h.run.step (.store op) (CancelPhase.mayPerform_contracted hop) nofun
    | executor op =>
      refine h.run.step (.executor op) ⟨nofun, nofun⟩ fun command runAt hdispatch => ?_
      exact h.attributed hop command runAt (Op.executor.inj hdispatch)
    | callback | dateNow => exact h.run
  holds := by
    cases op with
    | store op => exact h.holds.step h.run.sound.sound h.run.kept (.store op)
    | executor op => exact h.holds.step h.run.sound.sound h.run.kept (.executor op)
    | callback | dateNow => exact h.holds
  own := h.own
  named := h.named
  issued := CancelPhase.next_issued h.run.sound.sound h.issued op user
  tracks := tracks_perform h.run h.holds h.own h.named hop hunobserved h.tracks

end

end Neemata.Workflows
