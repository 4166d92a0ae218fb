import Neemata.Workflows.InMemory.Claims
import Neemata.Workflows.JsonText
import Neemata.Workflows.Worker.CompletionPath

/-!
# Redelivered attempts

A worker stops somewhere on the completion path of an attempt, and its command is claimed again. The
redelivery finds the attempt settled and replays the path: it leaves what the whole path would have
left, except where a retry was still to be dispatched and where the run is terminal already, since
then it only acknowledges (`performs_delivered_settled`, `performs_delivered_terminal`).
-/

namespace Neemata.Workflows

open Program

variable {V : Type} [JsRuntime V] {m m' : Mem V} {user : UserCode V}
  {claimed : Claimed (AttemptCommand V)} {run : StoredRun V} {settled : StoredAttempt V}
  {result : Except (Thrown V) V}

/-! ## The replay -/

/-- The result of a settled attempt as a redelivery reads it. -/
def replayed : Except (Thrown V) V → Except (Thrown V) V
  | .ok output => .ok output
  | .error error => .error (.stored (toStoredError error))

def replayOps (command : AttemptCommand V) (origins : String → Option RunOrigin)
    (runKind : RunKind) (result : Except (Thrown V) V) : List (PassOp V) :=
  childOp command (replayed result) :: .store (.loadRunSnapshot command.runId) ::
    closingOps command origins runKind (replayed result)

omit [JsRuntime V] in
theorem marks_replayOps [JsRuntime V] {command : AttemptCommand V}
    (origins : String → Option RunOrigin) (runKind : RunKind) (result : Except (Thrown V) V) :
    ∀ op ∈ replayOps command origins runKind result, op.Marks command := by
  intro op hop
  rcases List.mem_cons.mp hop with rfl | hop
  · exact marks_childOp _
  rcases List.mem_cons.mp hop with rfl | hop
  · trivial
  · exact marks_closingOps _ _ _ op hop

theorem mark_childOp (command : AttemptCommand V) (result : Except (Thrown V) V) :
    (childOp command (replayed result)).mark = (childOp command result).mark := by
  cases result <;> rfl

theorem mark_closingOps (command : AttemptCommand V) (origins : String → Option RunOrigin)
    (runKind : RunKind) (result : Except (Thrown V) V) :
    (closingOps command origins runKind (replayed result)).map PassOp.mark =
      (closingOps command origins runKind result).map PassOp.mark := by
  have hnode : (nodeOp command (replayed result)).mark = (nodeOp command result).mark := by
    cases result <;> rfl
  have hrun : (runOp command (replayed result)).mark = (runOp command result).mark := by
    cases result <;> rfl
  cases runKind with
  | task => simp only [closingOps, List.map_cons, hnode, hrun]
  | workflow =>
    simp only [closingOps, List.map_append]
    by_cases hcloses : shouldCompleteNodeFromAttempt command.childKey = true
    · rw [if_pos hcloses, if_pos hcloses]
      simp only [List.map_cons, List.map_nil, hnode]
    · rw [if_neg hcloses, if_neg hcloses]

/-- The second half of a replay: the kind of the run tells which path it is. -/
theorem performs_replayTail {ops : List (PassOp V)} {task workflow : Pass V WorkerCommandResult}
    (hrun : m.runs.get? claimed.command.runId = some run)
    (htask : run.kind = .task → Performs (PassOp.exec user) m task.run ops (.ok .processed))
    (hworkflow : run.kind = .workflow →
      Performs (PassOp.exec user) m workflow.run ops (.ok .processed)) :
    Performs (PassOp.exec user) m (do
        let snapshot : Option (RunSnapshot V) ← workflowStore (.loadRunSnapshot claimed.command.runId)
        if snapshot.any fun snapshot => decide (snapshot.run.kind = RunKind.task) then task
        else workflow : Pass V WorkerCommandResult).run
      (.store (.loadRunSnapshot claimed.command.runId) :: ops) (.ok .processed) := by
  have hkind : ((m.loadRunSnapshot claimed.command.runId).any fun snapshot =>
      snapshot.run.kind = .task) = decide (run.kind = .task) := by
    simp only [Mem.loadRunSnapshot, hrun, Option.map_some, Option.any_some]
  refine performs_store (.loadRunSnapshot _) rfl ?_
  change Performs _ m (if (m.loadRunSnapshot claimed.command.runId).any
    (fun snapshot => snapshot.run.kind = .task) then task else workflow) ops _
  rw [hkind]
  cases hcase : run.kind with
  | task => exact htask hcase
  | workflow => exact hworkflow hcase

theorem performs_replay (hheld : m.Held claimed)
    (hrun : m.runs.get? claimed.command.runId = some run) :
    Performs (PassOp.exec user) m
      (match replayed result with
      | .ok output => replayCompletedAttempt claimed output
      | .error error => replayFailedAttempt claimed error).run
      (replayOps claimed.command m.scene.origins run.kind result ++
        [.executor (.ackAttempt claimed)]) (.ok .processed) := by
  have hmark : (childOp claimed.command (replayed result)).Marks claimed.command := marks_childOp _
  have hscene : (Program.effect (PassOp.exec user) m
      (childOp claimed.command (replayed result))).scene = m.scene := Mem.scene_marks hmark user
  have hstored : (Program.effect (PassOp.exec user) m
      (childOp claimed.command (replayed result))).runs.get? claimed.command.runId = some run := by
    rw [← hrun]
    cases result <;> exact congrArg (fun s : Records V => s.runs.get? claimed.command.runId)
      (m.settleNodeChild_records _ _ _ _)
  have hack (m' : Mem V) (hsame : m'.scene = (Program.effect (PassOp.exec user) m
      (childOp claimed.command (replayed result))).scene) :
      Performs (PassOp.exec user) m' (ackTerminalAttempt claimed).run
        [.executor (.ackAttempt claimed)] (.ok .processed) :=
    performs_ack (hheld.of_scene (hsame.trans hscene))
  unfold replayOps
  rw [← hscene]
  generalize replayed result = r at *
  cases r with
  | ok output =>
    refine performs_store (.completeNodeChild _ _ _ _) rfl
      (performs_replayTail hstored (fun hkind => ?_) fun hkind => ?_)
    · rw [hkind]
      exact performs_closeTask claimed (fun _ => ackTerminalAttempt claimed) (.ok output) hack
    · rw [hkind]
      exact performs_closeWorkflow claimed (fun _ => ackTerminalAttempt claimed) (.ok output) hack
  | error error =>
    refine performs_store (.failNodeChild _ _ _ _) rfl
      (performs_replayTail hstored (fun hkind => ?_) fun hkind => ?_)
    · rw [hkind]
      exact performs_closeTask claimed (fun _ => ackTerminalAttempt claimed) (.error error) hack
    · rw [hkind]
      exact performs_closeWorkflow claimed (fun _ => ackTerminalAttempt claimed) (.error error) hack

/-! ## The delivery of a settled attempt -/

theorem performs_delivered_terminal (hheld : m.Held claimed)
    (hrun : m.runs.get? claimed.command.runId = some run) (hterminal : isTerminalRunStatus run.status)
    (body : RunSnapshot V → Pass V WorkerCommandResult) :
    Performs (PassOp.exec user) m (withFreshAttempt claimed body).run
      [.store (.loadRunSnapshot claimed.command.runId), .executor (.ackAttempt claimed)]
      (.ok .processed) := by
  obtain ⟨snapshot, hload, rfl⟩ : ∃ snapshot, m.loadRunSnapshot claimed.command.runId =
      some snapshot ∧ snapshot.run = run := ⟨_, congrArg (Option.map _) hrun, rfl⟩
  refine performs_store (.loadRunSnapshot _) (congrArg Except.ok hload) ?_
  rw [Option.any_some, hterminal]
  exact performs_ack hheld

omit [JsRuntime V] in
theorem StoredAttempt.EndedWith.not_fresh [JsRuntime V] (h : settled.EndedWith result)
    (command : AttemptCommand V) (child : Option (StoredNodeChild V)) :
    isFreshAttempt command child (some settled) = false := by
  have hstatus : settled.status ≠ .started := by
    intro hstarted
    cases result with
    | ok output => exact nomatch hstarted.symm.trans h.1
    | error error =>
      have hfailed := h.1
      rw [hstarted] at hfailed
      cases hfailed
  simp only [isFreshAttempt, Option.any_some, hstatus, decide_false, Bool.false_and, Bool.and_false]

theorem reconcileStaleAttempt_settled {child : StoredNodeChild V}
    (hcurrent : child.currentAttemptId = some claimed.command.attemptId)
    (hended : settled.EndedWith result) :
    reconcileStaleAttempt claimed (some child) (some settled) =
      match replayed result with
      | .ok output => replayCompletedAttempt claimed output
      | .error error => replayFailedAttempt claimed error := by
  cases result with
  | ok output =>
    obtain ⟨hstatus, houtput⟩ := hended
    simp only [reconcileStaleAttempt, hcurrent, hstatus, houtput, replayed, decide_true,
      Bool.and_self, if_true, Option.getD_some]
  | error error =>
    obtain ⟨hstatus, herror⟩ := hended
    have hnot : settled.status ≠ .completed := by
      intro hcompleted
      rw [hcompleted] at hstatus
      cases hstatus
    simp only [reconcileStaleAttempt, hcurrent, hstatus, hnot, herror, replayed, decide_true,
      decide_false, Bool.and_false, Bool.and_self, Bool.false_eq_true, if_false, if_true,
      Option.elim_some]

/-- The redelivery of a settled attempt of a run that goes on replays its path. -/
theorem performs_delivered_settled (hm : m.Sound) (hheld : m.Held claimed)
    (hrun : m.runs.get? claimed.command.runId = some run)
    (hlive : isTerminalRunStatus run.status = false)
    (hsettled : m.scene.Settled claimed.command settled result)
    (body : RunSnapshot V → Pass V WorkerCommandResult) :
    Performs (PassOp.exec user) m (withFreshAttempt claimed body).run
      (.store (.loadRunSnapshot claimed.command.runId) ::
        (replayOps claimed.command m.scene.origins run.kind result ++
          [.executor (.ackAttempt claimed)])) (.ok .processed) := by
  obtain ⟨snapshot, hload, rfl⟩ : ∃ snapshot, m.loadRunSnapshot claimed.command.runId =
      some snapshot ∧ snapshot.run = run := ⟨_, congrArg (Option.map _) hrun, rfl⟩
  obtain ⟨child, hget, hview⟩ := Option.map_eq_some_iff.mp hsettled.child
  obtain ⟨hchildRun, hnode, hkey, hcurrent⟩ : child.runId = _ ∧ child.nodeName = _ ∧
      child.childKey = _ ∧ child.currentAttemptId = _ := by
    simpa only [StoredNodeChild.view, Prod.mk.injEq] using hview
  have hchild := Mem.storedChild hm hget hchildRun ⟨hnode, hkey⟩ hload
  have hattempt := Mem.storedAttempt hm hsettled.stored hsettled.owner hload
  refine performs_store (.loadRunSnapshot _) (congrArg Except.ok hload) ?_
  rw [Option.any_some, hlive, hchild, hattempt]
  dsimp only
  rw [hsettled.ended.not_fresh, reconcileStaleAttempt_settled hcurrent hsettled.ended]
  exact performs_replay hheld hrun

/-- The redelivery of a failed attempt that is replaced already acknowledges only. -/
theorem performs_delivered_replaced (hm : m.Sound) (hheld : m.Held claimed)
    (hrun : m.runs.get? claimed.command.runId = some run)
    {child : StoredNodeChild V}
    (hget : m.children.get? (attemptChildKey claimed.command) = some child)
    (hrunId : child.runId = claimed.command.runId)
    (hnames : child.nodeName = claimed.command.nodeName ∧ child.childKey = claimed.command.childKey)
    (hcurrent : child.currentAttemptId ≠ some claimed.command.attemptId)
    (hrunning : child.status = .running)
    (hattempt : m.attempts.get? claimed.command.attemptId = some settled)
    (howner : settled.runId = claimed.command.runId) {error : Thrown V}
    (hended : settled.EndedWith (.error error)) (body : RunSnapshot V → Pass V WorkerCommandResult) :
    Performs (PassOp.exec user) m (withFreshAttempt claimed body).run
      [.store (.loadRunSnapshot claimed.command.runId), .executor (.ackAttempt claimed)]
      (.ok .processed) := by
  cases hterminal : isTerminalRunStatus run.status with
  | true => exact performs_delivered_terminal hheld hrun hterminal body
  | false =>
    obtain ⟨snapshot, hload, rfl⟩ : ∃ snapshot, m.loadRunSnapshot claimed.command.runId =
        some snapshot ∧ snapshot.run = run := ⟨_, congrArg (Option.map _) hrun, rfl⟩
    have hchild := Mem.storedChild hm hget hrunId hnames hload
    have hstored := Mem.storedAttempt hm hattempt howner hload
    have hnot : settled.status ≠ .completed := by
      intro hcompleted
      have hstatus := hended.1
      rw [hcompleted] at hstatus
      cases hstatus
    have hreconcile : reconcileStaleAttempt claimed (some child) (some settled) =
        ackTerminalAttempt claimed := by
      simp only [reconcileStaleAttempt, hcurrent, hrunning, hnot, decide_false, Bool.false_and,
        Bool.false_eq_true, if_false, and_false, or_self, reduceCtorEq]
    refine performs_store (.loadRunSnapshot _) (congrArg Except.ok hload) ?_
    rw [Option.any_some, hterminal, hchild, hstored]
    dsimp only
    rw [hended.not_fresh, hreconcile]
    exact performs_ack hheld

/-- A claimed command of either kind begins with the look at its run. -/
theorem runAttempt_eq (input : ExecutionWorkerInput) (claimed : Claimed (AttemptCommand V)) :
    ∃ body, input.runAttempt claimed = withFreshAttempt claimed body := by
  unfold ExecutionWorkerInput.runAttempt
  cases htarget : claimed.command.target with
  | activity activityName =>
    unfold runActivityAttempt
    dsimp only
    rw [htarget]
    exact ⟨_, rfl⟩
  | task taskName timeout =>
    unfold runTaskAttempt
    rw [htarget]
    exact ⟨_, rfl⟩

theorem performs_execute {ops : List (PassOp V)} (input : ExecutionWorkerInput)
    (h : ∀ body, Performs (PassOp.exec user) m (withFreshAttempt claimed body).run ops
      (.ok .processed)) :
    Performs (PassOp.exec user) m (input.execute claimed).run ops (.ok true) := by
  obtain ⟨body, hbody⟩ := runAttempt_eq input claimed
  have hattempt := h body
  rw [← hbody] at hattempt
  have hprocessed : Performs (PassOp.exec user) m (do
      let result ← input.runAttempt claimed
      return result = .processed : Pass V Bool).run (ops ++ []) (.ok true) :=
    hattempt.bind_ok (performs_pure _)
  rw [List.append_nil] at hprocessed
  exact hprocessed.tryCatch_ok

end Neemata.Workflows
