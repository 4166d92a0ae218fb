import Neemata.Workflows.InMemory.Claims
import Neemata.Workflows.InMemory.Issued
import Neemata.Workflows.InMemory.Parts
import Neemata.Workflows.JsonText
import Neemata.Workflows.Worker.CancelProtocol
import Neemata.Workflows.Worker.Execution

/-!
# Cancellation of a task run

`client.cancel` marks a run `cancelling` and wakes it under its workflow name, which for a task run
is the name of the task. An execution worker whose heartbeat meets the `cancelling` run acknowledges
the attempt command, and with no workflow of that name nobody is left to move the run
(`not_cancellationKept`). As long as no heartbeat does so the run is never lost
(`cancellation_kept`): its commands stay until it is terminal.
-/

namespace Neemata.Workflows

variable {V : Type}

/-! ## Who moves a run -/

def taskChildKey (runId : String) : String := childKey runId TASK_RUN_NODE_NAME SELF_CHILD_KEY

namespace Mem

/-- A continue command of the run is queued for a worker of one of these workflows. -/
def Wakeable (m : Mem V) (runId : String) (workflowNames : List String) : Prop :=
  ∃ item ∈ m.continueRunCommands, item.isDead = false ∧ item.payload.runId = runId ∧
    item.payload.workflowName ∈ workflowNames

/-- While no attempt command of the run is in the queue the run is terminal, or a worker of one of
the workflows can continue it. -/
def CancellationKept (m : Mem V) (runId : String) (workflowNames : List String) : Prop :=
  (∃ e ∈ m.attemptQueue.entries, e.item.payload.runId = runId) ∨
    (∀ run ∈ m.runs.get? runId, isTerminalRunStatus run.status) ∨
      m.Wakeable runId workflowNames

instance (m : Mem V) (runId : String) (workflowNames : List String) :
    Decidable (m.CancellationKept runId workflowNames) :=
  have : Decidable (∃ e ∈ m.attemptQueue.entries, e.item.payload.runId = runId) :=
    Multiset.decidableExistsMultiset
  inferInstanceAs (Decidable ((∃ e ∈ m.attemptQueue.entries, _) ∨ (∀ run ∈ m.runs.get? runId, _) ∨
    ∃ item ∈ m.continueRunCommands, _))

/-- A continue command of the run under its own workflow name is queued. -/
def Woken (m : Mem V) (runId workflowName : String) : Prop :=
  ∃ item ∈ m.continueRunCommands, item.isDead = false ∧ item.payload = ⟨runId, workflowName⟩

instance (m : Mem V) (runId workflowName : String) : Decidable (m.Woken runId workflowName) :=
  inferInstanceAs (Decidable (∃ item ∈ m.continueRunCommands, _))

/-- The run needs no attempt any more: it is terminal, or a worker that serves its workflow name can
continue it. -/
def Closed (m : Mem V) (runId workflowName : String) (workflowNames : List String) : Prop :=
  (∀ run ∈ m.runs.get? runId, isTerminalRunStatus run.status) ∨
    workflowName ∈ workflowNames ∧ m.Woken runId workflowName

/-- The attempt is the current one of the task run's child. -/
structure CurrentAttempt (m : Mem V) (runId attemptId : String) (child : StoredNodeChild V)
    (attempt : StoredAttempt V) : Prop where
  getChild : m.children.get? (taskChildKey runId) = some child
  names : child.runId = runId ∧ child.nodeName = TASK_RUN_NODE_NAME ∧
    child.childKey = SELF_CHILD_KEY
  current : child.currentAttemptId = some attemptId
  getAttempt : m.attempts.get? attemptId = some attempt
  ofChild : OfChild child attempt
  status : attempt.status = .started ∧ isTerminalNodeStatus child.status = false ∨
    attempt.status = .completed ∨ isFailedAttemptStatus attempt.status

def HasCurrent (m : Mem V) (runId attemptId : String) : Prop :=
  ∃ child attempt, m.CurrentAttempt runId attemptId child attempt

/-- A command of the run is in the queue. -/
def HasCommand (m : Mem V) (runId attemptId : String) : Prop :=
  ∃ e ∈ m.attemptQueue.entries, e.item.payload.runId = runId ∧
    e.item.payload.attemptId = attemptId

/-- The command of the current attempt is in the queue. -/
def Awaits (m : Mem V) (runId : String) : Prop :=
  ∃ attemptId, m.HasCommand runId attemptId ∧ m.HasCurrent runId attemptId

/-! ## What is known of a task run and its commands -/

/-- Facts about the run and its commands that hold whatever the worker does. -/
structure TaskRun [JsRuntime V] (m : Mem V) (runId workflowName : String) : Prop
    extends Commanded m where
  minted : Minted "run" m.nextId runId
  run : ∀ run, m.runs.get? runId = some run →
    run.kind = .task ∧ run.workflowName = workflowName
  named : ∀ e ∈ m.attemptQueue.entries, e.item.payload.runId = runId →
    e.item.payload.IsTaskOf workflowName

/-- What a dispatched command must be. -/
structure Attributed (m : Mem V) (runId workflowName : String) (command : AttemptCommand V) :
    Prop where
  issued : m.Issued command.attemptId command.leaseToken
  named : command.runId = runId → command.IsTaskOf workflowName

variable [JsRuntime V] {m : Mem V} {runId workflowName : String}

theorem TaskRun.step (h : m.TaskRun runId workflowName) (op : Op V) (hop : m.Contracted op)
    (hdispatch : ∀ command runAt, op = .executor (.dispatch command runAt) →
      m.Attributed runId workflowName command) : (m.step op).TaskRun runId workflowName where
  toCommanded := h.toCommanded.step op hop fun command runAt hsame =>
    (hdispatch command runAt hsame).issued
  minted := h.minted.mono (step_effect h.sound.sound.keyed op).nextId_le
  run run' hget := by
    obtain hfresh | ⟨run, hbefore, rfl | hchange⟩ :=
      (step_effect h.sound.sound.keyed op).runs_back hget
    · exact absurd (hfresh ▸ h.minted) (not_minted_freshId _ _)
    · exact h.run _ hbefore
    · rw [hchange.same]
      exact h.run run hbefore
  named e' he' hrun := by
    obtain ⟨e, he, -, hpayload⟩ | ⟨command, runAt, hop, hpayload, -⟩ := h.kept.attempt_back op he'
    · rw [hpayload] at hrun ⊢
      exact h.named e he hrun
    · rw [hpayload] at hrun ⊢
      exact (hdispatch command runAt hop).named hrun

/-! ## Operations that leave the run's attempts alone -/

/-- What an operation that is not about the attempts of the run leaves as it was. -/
structure Keeps (runId : String) (m m' : Mem V) : Prop where
  child : m'.children.get? (taskChildKey runId) = m.children.get? (taskChildKey runId)
  attempts : ∀ id attempt, m.attempts.get? id = some attempt → attempt.runId = runId →
    m'.attempts.get? id = some attempt
  commands : ∀ attemptId, m.HasCommand runId attemptId → m'.HasCommand runId attemptId
  unused : ∀ id attempt, m.attempts.get? id = some attempt → attempt.runId = runId →
    (∀ e ∈ m.attemptQueue.entries, e.item.payload.attemptId ≠ id) →
      ∀ e ∈ m'.attemptQueue.entries, e.item.payload.attemptId ≠ id

omit [JsRuntime V] in
theorem CurrentAttempt.keeps {m' : Mem V} {attemptId : String} {child : StoredNodeChild V}
    {attempt : StoredAttempt V} (h : m.CurrentAttempt runId attemptId child attempt)
    (hkeeps : Keeps runId m m') : m'.CurrentAttempt runId attemptId child attempt := { h with
  getChild := hkeeps.child.trans h.getChild
  getAttempt := hkeeps.attempts _ _ h.getAttempt (h.ofChild.1.trans h.names.1) }

omit [JsRuntime V] in
theorem Awaits.keeps {m' : Mem V} (h : m.Awaits runId) (hkeeps : Keeps runId m m') :
    m'.Awaits runId := by
  obtain ⟨attemptId, hcommand, child, attempt, hcurrent⟩ := h
  exact ⟨attemptId, hkeeps.commands _ hcommand, child, attempt, hcurrent.keeps hkeeps⟩

/-- The commands of the run stay when the operation removes none and dispatches none. -/
theorem TaskRun.keeps_of_eq (h : m.TaskRun runId workflowName) (op : Op V)
    (hchildren : (m.step op).children = m.children) (hattempts : (m.step op).attempts = m.attempts)
    (hremoves : ∀ runGone e,
      ((attemptKind (V := V)).request op).removes runGone AttemptCommand.runId e = false)
    (hdispatch : ∀ command runAt, op ≠ .executor (.dispatch command runAt)) :
    Keeps runId m (m.step op) where
  child := by rw [hchildren]
  attempts id attempt hget _ := hattempts ▸ hget
  commands := by
    rintro attemptId ⟨e, he, hrun, hid⟩
    obtain ⟨e', he', -, hpayload⟩ | hremoved := h.kept.attempt_forward op he
    · exact ⟨e', he', hpayload ▸ hrun, hpayload ▸ hid⟩
    · rw [hremoves] at hremoved
      cases hremoved
  unused id attempt _ _ hunused e' he' := by
    obtain ⟨e, he, -, hpayload⟩ | ⟨command, runAt, hop, -⟩ := h.kept.attempt_back op he'
    · rw [hpayload]
      exact hunused e he
    · exact absurd hop (hdispatch command runAt)

/-- An executor operation other than a dispatch, an acknowledgement and a deletion. -/
theorem TaskRun.keeps_executor (h : m.TaskRun runId workflowName) (op : ExecutorOp V)
    (hremoves : ∀ runGone e,
      ((attemptKind (V := V)).request (.executor op)).removes runGone AttemptCommand.runId e = false)
    (hdispatch : ∀ command runAt, op ≠ .dispatch command runAt) :
    Keeps runId m (m.execExecutor op).2 := by
  have hrecords := (m.execExecutor_quiet op).records
  refine h.keeps_of_eq (.executor op) (congrArg Records.children hrecords)
    (congrArg Records.attempts hrecords) hremoves fun command runAt hop => ?_
  exact hdispatch command runAt (Op.executor.inj hop)

end Mem

/-! ## The phases of a delivery in a state -/

/-- What a phase says about the run while it is not closed. -/
def CancelPhase.Pursues (m : Mem V) (runId : String) (command : AttemptCommand V) :
    CancelPhase V → Prop
  | .start => m.Awaits runId
  | .fresh => m.HasCommand runId command.attemptId ∧ ∃ child attempt,
    m.CurrentAttempt runId command.attemptId child attempt ∧ attempt.status = .started ∧
      attempt.leaseToken = command.leaseToken
  | .settled => m.HasCommand runId command.attemptId ∧ ∃ child attempt,
    m.CurrentAttempt runId command.attemptId child attempt ∧ attempt.status ≠ .started
  | .created next => m.HasCommand runId command.attemptId ∧ next.id ≠ command.attemptId ∧
    (∃ child, m.CurrentAttempt runId next.id child next) ∧
      ∀ e ∈ m.attemptQueue.entries, e.item.payload.attemptId ≠ next.id
  | .replaced => ∃ attemptId, attemptId ≠ command.attemptId ∧ m.HasCommand runId attemptId ∧
    m.HasCurrent runId attemptId
  | .closed | .absurd => False

theorem CancelPhase.Pursues.keeps {m m' : Mem V} {runId : String} {command : AttemptCommand V}
    {phase : CancelPhase V} (h : phase.Pursues m runId command) (hkeeps : Mem.Keeps runId m m') :
    phase.Pursues m' runId command := by
  cases phase with
  | start => exact Mem.Awaits.keeps h hkeeps
  | fresh | settled =>
    obtain ⟨hcommand, child, attempt, hcurrent, hstatus⟩ := h
    exact ⟨hkeeps.commands _ hcommand, child, attempt, hcurrent.keeps hkeeps, hstatus⟩
  | created next =>
    obtain ⟨hcommand, hne, ⟨child, hcurrent⟩, hunused⟩ := h
    exact ⟨hkeeps.commands _ hcommand, hne, ⟨child, hcurrent.keeps hkeeps⟩,
      hkeeps.unused _ _ hcurrent.getAttempt (hcurrent.ofChild.1.trans hcurrent.names.1) hunused⟩
  | replaced =>
    obtain ⟨attemptId, hne, hcommand, child, attempt, hcurrent⟩ := h
    exact ⟨attemptId, hne, hkeeps.commands _ hcommand, child, attempt, hcurrent.keeps hkeeps⟩
  | closed | absurd => exact h

/-- Where a delivery may stop, the run still waits for an attempt. -/
theorem CancelPhase.Pursues.awaits {m : Mem V} {runId : String} {command : AttemptCommand V}
    {phase : CancelPhase V} (h : phase.Pursues m runId command) (hstop : phase.mayStop) :
    m.Awaits runId := by
  cases phase with
  | fresh | settled =>
    obtain ⟨hcommand, child, attempt, hcurrent, -⟩ := h
    exact ⟨_, hcommand, child, attempt, hcurrent⟩
  | replaced =>
    obtain ⟨attemptId, -, hcommand, hcurrent⟩ := h
    exact ⟨attemptId, hcommand, hcurrent⟩
  | closed | absurd => exact h.elim
  | start | created => cases hstop

theorem CancelPhase.Pursues.hasCommand {m : Mem V} {runId : String} {command : AttemptCommand V}
    {phase : CancelPhase V} (h : phase.Pursues m runId command) :
    ∃ attemptId, m.HasCommand runId attemptId := by
  cases phase with
  | start => exact ⟨_, h.choose_spec.1⟩
  | fresh | settled | created => exact ⟨_, h.1⟩
  | replaced => exact ⟨_, h.choose_spec.2.1⟩
  | closed | absurd => exact h.elim

/-! ## Operations on the run's attempts -/

section

variable {m : Mem V} {runId : String} {command : AttemptCommand V}

theorem Mem.HasCommand.of_queue_eq {m' : Mem V} {attemptId : String}
    (h : m.HasCommand runId attemptId) (hqueue : m'.attemptQueue = m.attemptQueue) :
    m'.HasCommand runId attemptId := by
  unfold Mem.HasCommand
  rw [hqueue]
  exact h

theorem Mem.CurrentAttempt.key_eq {attemptId : String} {child : StoredNodeChild V}
    {attempt : StoredAttempt V} (h : m.CurrentAttempt runId attemptId child attempt) :
    childKey child.runId child.nodeName child.childKey = taskChildKey runId := by
  rw [h.names.1, h.names.2.1, h.names.2.2, taskChildKey]

/-- The fence lets the current attempt through while it is started. -/
theorem Mem.CurrentAttempt.fenced {attemptId : String} {child : StoredNodeChild V}
    {attempt : StoredAttempt V} (h : m.CurrentAttempt runId attemptId child attempt)
    (hstarted : attempt.status = .started) :
    m.fencedCurrentAttempt attemptId attempt.leaseToken = some (attempt, child) := by
  have hlive : isTerminalNodeStatus child.status = false := by
    rcases h.status with ⟨-, hlive⟩ | hcompleted | hfailed
    · exact hlive
    · rw [hstarted] at hcompleted
      cases hcompleted
    · rw [hstarted] at hfailed
      cases hfailed
  have hkey : childKey attempt.runId attempt.nodeName attempt.childKey = taskChildKey runId := by
    rw [h.ofChild.1, h.ofChild.2.1, h.ofChild.2.2]
    exact h.key_eq
  refine Mem.fencedCurrentAttempt_eq_some.mpr ⟨h.getAttempt, rfl, hstarted, ?_, hlive, h.current⟩
  rw [hkey]
  exact h.getChild

/-- Completing the fresh attempt settles it. -/
theorem pursues_completeCurrentAttempt (h : CancelPhase.fresh.Pursues m runId command) (output : V) :
    let result := m.completeCurrentAttempt command.attemptId command.leaseToken output
    (∃ attempt, result.1 = some attempt) ∧ CancelPhase.settled.Pursues result.2 runId command := by
  obtain ⟨hcommand, child, attempt, hcurrent, hstarted, htoken⟩ := h
  have hfenced := hcurrent.fenced hstarted
  rw [htoken] at hfenced
  intro result
  have hresult : result = m.completeCurrentAttempt command.attemptId command.leaseToken output := rfl
  simp only [Mem.completeCurrentAttempt, hfenced, hcurrent.key_eq] at hresult
  rw [hresult]
  refine ⟨⟨_, rfl⟩, hcommand.of_queue_eq rfl, ?_⟩
  refine ⟨_, _, ⟨OrdMap.get?_set_self _ _ _, hcurrent.names, hcurrent.current,
    OrdMap.get?_set_self _ _ _, hcurrent.ofChild, .inr (.inl rfl)⟩, fun h => ?_⟩
  cases h

variable [JsRuntime V]

/-- Failing the fresh attempt settles it. -/
theorem pursues_failCurrentAttemptAs (h : CancelPhase.fresh.Pursues m runId command)
    (status : RuntimeAttemptStatus) (hstatus : isFailedAttemptStatus status) (error : Thrown V) :
    let result := m.failCurrentAttemptAs status command.attemptId command.leaseToken error
    (∃ attempt, result.1 = some attempt) ∧ CancelPhase.settled.Pursues result.2 runId command := by
  obtain ⟨hcommand, child, attempt, hcurrent, hstarted, htoken⟩ := h
  have hfenced := hcurrent.fenced hstarted
  rw [htoken] at hfenced
  intro result
  have hresult : result =
    m.failCurrentAttemptAs status command.attemptId command.leaseToken error := rfl
  simp only [Mem.failCurrentAttemptAs, hfenced] at hresult
  rw [hresult]
  refine ⟨⟨_, rfl⟩, hcommand.of_queue_eq rfl, ?_⟩
  refine ⟨_, _, ⟨hcurrent.getChild, hcurrent.names, hcurrent.current,
    OrdMap.get?_set_self _ _ _, hcurrent.ofChild, .inr (.inr hstatus)⟩, ?_⟩
  rintro rfl
  cases hstatus

omit [JsRuntime V] in
/-- Settling a child leaves the attempts of the run as they are. -/
theorem pursues_settleNodeChild (h : CancelPhase.settled.Pursues m runId command)
    (run nodeName key : String) {change : StoredNodeChild V → StoredNodeChild V}
    (hchange : ∀ child, change child = { child with
      status := (change child).status
      output := (change child).output
      error := (change child).error }) :
    CancelPhase.settled.Pursues (m.settleNodeChild run nodeName key change).2 runId command := by
  obtain ⟨hcommand, child, attempt, hcurrent, hsettled⟩ := h
  have hstatus : attempt.status = .completed ∨ isFailedAttemptStatus attempt.status :=
    hcurrent.status.resolve_left fun hstarted => hsettled hstarted.1
  cases hget : m.children.get? (childKey run nodeName key) with
  | none =>
    simp only [Mem.settleNodeChild, hget]
    exact ⟨hcommand, child, attempt, hcurrent, hsettled⟩
  | some other =>
    simp only [Mem.settleNodeChild, hget]
    split
    · exact ⟨hcommand, child, attempt, hcurrent, hsettled⟩
    · refine ⟨hcommand.of_queue_eq rfl, ?_⟩
      by_cases hkey : childKey run nodeName key = taskChildKey runId
      · obtain rfl : other = child := by
          rw [hkey, hcurrent.getChild] at hget
          exact (Option.some.inj hget).symm
        have hset := (OrdMap.get?_set m.children (childKey run nodeName key) (taskChildKey runId)
          (m.updateChild (childKey run nodeName key) other change).1).trans (if_pos hkey.symm)
        refine ⟨_, attempt, ⟨hset, ?_, ?_, hcurrent.getAttempt, ?_, .inr hstatus⟩, hsettled⟩
        · change (change other).runId = _ ∧ (change other).nodeName = _ ∧
            (change other).childKey = _
          rw [hchange]
          exact hcurrent.names
        · change (change other).currentAttemptId = _
          rw [hchange]
          exact hcurrent.current
        · change attempt.runId = (change other).runId ∧ attempt.nodeName = (change other).nodeName ∧
            attempt.childKey = (change other).childKey
          rw [hchange]
          exact hcurrent.ofChild
      · refine ⟨child, attempt, ⟨?_, hcurrent.names, hcurrent.current, hcurrent.getAttempt,
          hcurrent.ofChild, hcurrent.status⟩, hsettled⟩
        exact (OrdMap.get?_set_of_ne (Ne.symm hkey)).trans hcurrent.getChild

/-- The next attempt of the child is current once it is created. -/
theorem pursues_createAttempt {workflowName : String} (hm : m.TaskRun runId workflowName)
    (h : CancelPhase.settled.Pursues m runId command) {params : ChildAttemptParams V}
    (hkey : childKey params.runId params.nodeName params.childKey = taskChildKey runId) :
    (∃ error, m.createAttempt params = (.error error, m)) ∨
      ∃ next m', m.createAttempt params = (.ok next, m') ∧
        (CancelPhase.created next).Pursues m' runId command := by
  obtain ⟨hcommand, child, attempt, hcurrent, -⟩ := h
  have hminted (e : Entry (AttemptCommand V)) (he : e ∈ m.attemptQueue.entries) :
      e.item.payload.attemptId ≠ freshId "attempt" m.nextId := by
    intro hid
    exact not_minted_freshId _ _ (hid ▸ (hm.issued e he).1)
  unfold Mem.createAttempt
  dsimp only
  rw [hkey, hcurrent.getChild]
  dsimp only
  split
  · exact .inl ⟨_, rfl⟩
  · next hlive =>
    refine .inr ⟨_, _, rfl, hcommand.of_queue_eq ?_, ?_, ?_, ?_⟩
    · exact congrArg Apparatus.attemptQueue (m.createChildAttempt_apparatus child _ _)
    · obtain ⟨leaseToken, date, date', hnext, -⟩ :=
        m.createChildAttempt_spec child params.input params.idempotencyKey
      obtain ⟨e, he, -, hid⟩ := hcommand
      rw [hnext, ← hid]
      exact (hminted e he).symm
    · obtain ⟨leaseToken, date, date', hnext, hattempts, hchildren, -⟩ :=
        m.createChildAttempt_spec child params.input params.idempotencyKey
      rw [hcurrent.key_eq] at hchildren
      have hgetChild := hchildren ▸ OrdMap.get?_set_self m.children (taskChildKey runId) _
      refine ⟨_, ⟨hgetChild, hcurrent.names, ?_, ?_, ?_, ?_⟩⟩
      · rw [hnext]
        rfl
      · rw [hattempts, hnext]
        exact OrdMap.get?_set_self _ _ _
      · rw [hnext]
        exact ⟨rfl, rfl, rfl⟩
      · rw [hnext]
        exact .inl ⟨rfl, rfl⟩
    · intro e he
      obtain ⟨leaseToken, date, date', hnext, -⟩ :=
        m.createChildAttempt_spec child params.input params.idempotencyKey
      have hqueue := congrArg Apparatus.attemptQueue
        (m.createChildAttempt_apparatus child params.input params.idempotencyKey)
      rw [hnext]
      exact hminted e (congrArg CommandQueue.entries hqueue ▸ he)

/-- The dispatched command is the one of the created attempt. -/
theorem pursues_dispatch {next : StoredAttempt V}
    (h : (CancelPhase.created next).Pursues m runId command) (hrun : command.runId = runId)
    (runAt : Option Nat) :
    CancelPhase.replaced.Pursues (m.dispatchAttempt (retryCommand command next) runAt) runId
      command := by
  obtain ⟨hcommand, hne, ⟨child, hcurrent⟩, hunused⟩ := h
  have hrecords : (m.dispatchAttempt (retryCommand command next) runAt).records = m.records :=
    (m.execExecutor_quiet (.dispatch (retryCommand command next) runAt)).records
  have hchildren := congrArg Records.children hrecords
  have hattempts := congrArg Records.attempts hrecords
  refine ⟨next.id, hne, ?_, child, next, ?_⟩
  · obtain ⟨-, hexists⟩ | ⟨item, hpayload, -, hentries⟩ :=
      m.dispatchAttempt_entries (retryCommand command next) runAt
    · obtain ⟨e, he, hid⟩ := (m.attemptCommandExists_iff _).mp hexists
      exact absurd hid (hunused e he)
    · refine ⟨.queued item, hentries ▸ Multiset.mem_cons_self _ _, ?_, ?_⟩
      · exact (congrArg AttemptCommand.runId hpayload).trans hrun
      · exact congrArg AttemptCommand.attemptId hpayload
  · exact ⟨(congrArg (OrdMap.get? · _) hchildren).trans hcurrent.getChild, hcurrent.names,
      hcurrent.current, (congrArg (OrdMap.get? · _) hattempts).trans hcurrent.getAttempt,
      hcurrent.ofChild, hcurrent.status⟩

/-! ## The claim of a delivery -/

/-- What is in the queue under the id of the claim is its command. -/
structure Mem.Holds (m : Mem V) (claimed : Claimed (AttemptCommand V)) : Prop where
  minted : ∃ label, Minted label m.nextId claimed.id
  payload : ∀ e ∈ m.attemptQueue.entries, e.id = claimed.id → e.item.payload = claimed.command
  issued : m.Issued claimed.command.attemptId claimed.command.leaseToken

theorem Mem.Holds.step {claimed : Claimed (AttemptCommand V)} (h : m.Holds claimed)
    (hm : m.Sound) (hkept : m.QueuesKept) (op : Op V) : (m.step op).Holds claimed where
  minted := h.minted.imp fun _ hminted => hminted.mono (step_effect hm.keyed op).nextId_le
  issued := h.issued.step hm op
  payload e' he' hid := by
    obtain ⟨e, he, hsame, hpayload⟩ | ⟨command, runAt, -, -, label, hfresh⟩ :=
      hkept.attempt_back op he'
    · exact hpayload.trans (h.payload e he (hsame.symm.trans hid))
    · obtain ⟨label', i, hi, hminted⟩ := h.minted
      exact absurd (freshId_inj (hfresh.symm.trans (hid.trans hminted))).2 hi.ne'

/-- An acknowledgement takes away the command of the claim alone. -/
theorem pursues_ack {claimed : Claimed (AttemptCommand V)} (hkept : m.QueuesKept)
    (hholds : m.Holds claimed) (h : CancelPhase.replaced.Pursues m runId claimed.command) :
    CancelPhase.replaced.Pursues (m.ackAttempt claimed).2 runId claimed.command := by
  obtain ⟨attemptId, hne, ⟨e, he, hrun, hid⟩, child, attempt, hcurrent⟩ := h
  have hrecords : (m.ackAttempt claimed).2.records = m.records :=
    (m.execExecutor_quiet (.ackAttempt claimed)).records
  have hchildren := congrArg Records.children hrecords
  have hattempts := congrArg Records.attempts hrecords
  refine ⟨attemptId, hne, ?_, child, attempt, ?_⟩
  · obtain ⟨e', he', -, hpayload⟩ | hremoved :=
      hkept.attempt_forward (.executor (.ackAttempt claimed)) he
    · exact ⟨e', he', hpayload ▸ hrun, hpayload ▸ hid⟩
    · cases e with
      | queued item => cases hremoved
      | claimed item =>
        have hsame : item.id = claimed.id := by
          simp only [attemptKind, Request.removes, Claimed.holds, Bool.and_eq_true,
            decide_eq_true_eq] at hremoved
          exact hremoved.1
        refine absurd ?_ hne
        rw [← hid, hholds.payload _ he hsame]
  · exact ⟨(congrArg (OrdMap.get? · _) hchildren).trans hcurrent.getChild, hcurrent.names,
      hcurrent.current, (congrArg (OrdMap.get? · _) hattempts).trans hcurrent.getAttempt,
      hcurrent.ofChild, hcurrent.status⟩

/-! ## A closed run stays closed -/

omit [JsRuntime V] in
theorem Mem.Woken.enqueue {workflowName : String} (h : m.Woken runId workflowName)
    {wake : ContinueRunCommand} (hwake : wake.runId = runId → wake.workflowName = workflowName)
    (runAt : Option Nat) : (m.enqueueContinue wake runAt).Woken runId workflowName := by
  obtain ⟨item, hitem, hlive, hpayload⟩ := h
  unfold Mem.enqueueContinue
  split
  · exact ⟨item, List.mem_append_left _ hitem, hlive, hpayload⟩
  · next index hindex =>
    obtain ⟨found, rest, hfound, hbefore, hafter⟩ := modify_found
      (fun existing : QueueItem ContinueRunCommand => { existing with
        payload := wake
        runAt := earliestRunAt existing.runAt runAt }) hindex
    simp only [Bool.and_eq_true, Bool.not_eq_true', decide_eq_true_eq] at hfound
    have hmem : item ∈ found ::ₘ rest := hbefore ▸ hitem
    have hgoal (other : QueueItem ContinueRunCommand) :
        other ∈ m.continueRunCommands.modify index (fun existing => { existing with
          payload := wake
          runAt := earliestRunAt existing.runAt runAt }) ↔ other = { found with
            payload := wake
            runAt := earliestRunAt found.runAt runAt } ∨ other ∈ rest := by
      rw [← Multiset.mem_coe, hafter, Multiset.mem_cons]
    obtain rfl | hrest := Multiset.mem_cons.mp hmem
    · refine ⟨_, (hgoal _).mpr (.inl rfl), hfound.1, ?_⟩
      rw [hpayload] at hfound
      obtain ⟨wakeRunId, wakeWorkflowName⟩ := wake
      obtain rfl : wakeRunId = runId := hfound.2.symm
      exact congrArg (ContinueRunCommand.mk wakeRunId) (hwake rfl)
    · exact ⟨item, (hgoal _).mpr (.inr hrest), hlive, hpayload⟩

omit [JsRuntime V] in
theorem Mem.Woken.of_queue_eq {m' : Mem V} {workflowName : String} (h : m.Woken runId workflowName)
    (hqueue : m'.continueQueue = m.continueQueue) : m'.Woken runId workflowName := by
  have hqueued : m'.continueRunCommands = m.continueRunCommands := congrArg CommandQueue.queued hqueue
  unfold Mem.Woken
  rw [hqueued]
  exact h

variable {workflowName : String} {workflowNames : List String}

/-- A terminal run stays terminal as long as it is stored. -/
theorem Mem.TaskRun.terminal_step (h : m.TaskRun runId workflowName) (op : Op V)
    (hterminal : ∀ run ∈ m.runs.get? runId, isTerminalRunStatus run.status) :
    ∀ run ∈ (m.step op).runs.get? runId, isTerminalRunStatus run.status := by
  intro run' hget
  obtain hfresh | ⟨run, hbefore, rfl | hchange⟩ :=
    (Mem.step_effect h.sound.sound.keyed op).runs_back hget
  · exact absurd (hfresh ▸ h.minted) (not_minted_freshId _ _)
  · exact hterminal _ hbefore
  · have hlive := hchange.live
    rw [hterminal run hbefore] at hlive
    cases hlive

theorem Mem.Closed.step (hclosed : m.Closed runId workflowName workflowNames)
    (h : m.TaskRun runId workflowName) (op : Op V)
    (hwoken : m.Woken runId workflowName → (m.step op).Woken runId workflowName) :
    (m.step op).Closed runId workflowName workflowNames :=
  hclosed.imp (h.terminal_step op) fun hname => ⟨hname.1, hwoken hname.2⟩

variable {claimed : Claimed (AttemptCommand V)} {phase : CancelPhase V}

/-- What a delivery may do leaves the run closed. -/
theorem Mem.Closed.perform (hclosed : m.Closed runId workflowName workflowNames)
    (h : m.TaskRun runId workflowName) (op : PassOp V)
    (hop : phase.mayPerform runId workflowName claimed op) (user : UserCode V) :
    (op.exec user m).2.Closed runId workflowName workflowNames := by
  cases op with
  | callback | dateNow => exact hclosed
  | store op =>
    have hqueues : op.touchesQueues = false := by
      cases op with
      | pruneTerminalRuns | deleteRun | markDeadCommandReaped | requeueDeadCommand => cases hop
      | _ => rfl
    exact hclosed.step h (.store op) fun hwoken =>
      hwoken.of_queue_eq (m.execStore_queues hqueues).1
  | executor op =>
    refine hclosed.step h (.executor op) fun hwoken => ?_
    cases op with
    | enqueue wake runAt => exact hwoken.enqueue hop.2 runAt
    | claimContinue | ackContinue | releaseContinue => cases hop
    | _ => exact hwoken.of_queue_eq (m.execExecutor_continueQueue rfl)

end

end Neemata.Workflows
