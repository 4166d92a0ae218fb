import Neemata.Lib.Replay
import Neemata.Workflows.InMemory.Conservation
import Neemata.Workflows.InMemory.Parts
import Neemata.Workflows.Worker.Attempt

/-!
# The completion path of an attempt

What the writes after the handler of an attempt leave to be seen: how the child, its node and its
run have ended, how many further attempts are dispatched and which runs are woken (`Outcome`). Every
operation of the path but the settlement of the attempt, the creation of the next one and its
dispatch leaves a `Mark` on it, and marks are absorbed (`absorbing_mark`).
-/

namespace Neemata.Workflows

variable {V : Type}

/-! ## Outcomes -/

/-- How a record has ended. -/
structure Settlement (σ V : Type) where
  status : σ
  output : Option V
  error : Option StoredError
deriving DecidableEq

def StoredNodeChild.settlement (child : StoredNodeChild V) : Settlement RuntimeNodeStatus V :=
  ⟨child.status, child.output, child.error⟩

def StoredNode.settlement (node : StoredNode V) : Settlement RuntimeNodeStatus V :=
  ⟨node.status, node.output, node.error⟩

def StoredRun.settlement (run : StoredRun V) : Settlement RuntimeRunStatus V :=
  ⟨run.status, run.output, run.error⟩

/-- What a delivery leaves to be seen. -/
@[ext]
structure Outcome (V : Type) where
  child : Option (Settlement RuntimeNodeStatus V)
  node : Option (Settlement RuntimeNodeStatus V)
  run : Option (Settlement RuntimeRunStatus V)
  dispatched : Nat
  woken : String → Bool

def attemptChildKey (command : AttemptCommand V) : String :=
  childKey command.runId command.nodeName command.childKey

/-- The entry is a command for the same child beside the claimed one. -/
def Claimed.isFurther (claimed : Claimed (AttemptCommand V)) (e : Entry (AttemptCommand V)) : Bool :=
  e.id ≠ claimed.id && e.item.payload.runId = claimed.command.runId &&
    e.item.payload.nodeName = claimed.command.nodeName &&
    e.item.payload.childKey = claimed.command.childKey

namespace Mem

/-- A live continue command of the run is queued. -/
def isWoken (m : Mem V) (runId : String) : Bool :=
  m.continueRunCommands.any fun item => !item.isDead && item.payload.runId = runId

def outcome (m : Mem V) (claimed : Claimed (AttemptCommand V)) : Outcome V where
  child := (m.children.get? (attemptChildKey claimed.command)).map StoredNodeChild.settlement
  node := (m.nodes.get? (nodeKey claimed.command.runId claimed.command.nodeName)).map
    StoredNode.settlement
  run := (m.runs.get? claimed.command.runId).map StoredRun.settlement
  dispatched := m.attemptQueue.entries.countP fun e => claimed.isFurther e
  woken := m.isWoken

end Mem

/-! ## Marks -/

/-- What an operation of the completion path does to the outcome. -/
inductive Mark (V : Type)
  | child (result : Except StoredError V)
  | node (result : Except StoredError V)
  | run (result : Except StoredError V)
  | wake (runId : String)
  | nothing

/-- The record once it has ended with a result. -/
def Settlement.ended {σ : Type} (completed failed : σ) (record : Settlement σ V) :
    Except StoredError V → Settlement σ V
  | .ok output => { record with status := completed, output := some output }
  | .error error => { record with status := failed, error := some error }

/-- Settle a record that is not terminal. -/
def Settlement.close {σ : Type} (isTerminal : σ → Bool) (completed failed : σ)
    (result : Except StoredError V) (record : Settlement σ V) : Settlement σ V :=
  if isTerminal record.status then record else record.ended completed failed result

namespace Outcome

def mark (o : Outcome V) : Mark V → Outcome V
  | .child result =>
    { o with child := o.child.map (.close isTerminalNodeStatus .completed .failed result) }
  | .node result =>
    { o with node := o.node.map (.close isTerminalNodeStatus .completed .failed result) }
  | .run result =>
    { o with run := o.run.map (.close isTerminalRunStatus .completed .failed result) }
  | .wake runId => { o with woken := fun woken => o.woken woken || woken = runId }
  | .nothing => o

/-- The mark is there already: its record is settled or missing, its run woken. -/
def Shows (o : Outcome V) : Mark V → Prop
  | .child _ => ∀ child ∈ o.child, isTerminalNodeStatus child.status
  | .node _ => ∀ node ∈ o.node, isTerminalNodeStatus node.status
  | .run _ => ∀ run ∈ o.run, isTerminalRunStatus run.status
  | .wake runId => o.woken runId
  | .nothing => True

end Outcome

section

variable {σ : Type} {isTerminal : σ → Bool} {completed failed : σ} {result : Except StoredError V}

theorem Settlement.close_terminal (hcompleted : isTerminal completed) (hfailed : isTerminal failed)
    (record : Settlement σ V) :
    isTerminal (record.close isTerminal completed failed result).status := by
  unfold close
  split
  · assumption
  · cases result with
    | ok output => exact hcompleted
    | error error => exact hfailed

theorem Settlement.close_of_terminal {record : Settlement σ V} (h : isTerminal record.status) :
    record.close isTerminal completed failed result = record := if_pos h

/-- Closing a record that is there makes it terminal. -/
theorem terminal_of_mem_close (hcompleted : isTerminal completed) (hfailed : isTerminal failed)
    {record : Option (Settlement σ V)} :
    ∀ found ∈ record.map (Settlement.close isTerminal completed failed result),
      isTerminal found.status := by
  intro found hfound
  obtain ⟨record, -, rfl⟩ := Option.map_eq_some_iff.mp hfound
  exact Settlement.close_terminal hcompleted hfailed record

/-- A record stays as it is exactly if it is terminal or missing. -/
theorem map_close_eq_self_iff (hcompleted : isTerminal completed) (hfailed : isTerminal failed)
    {record : Option (Settlement σ V)} :
    record.map (.close isTerminal completed failed result) = record ↔
      ∀ found ∈ record, isTerminal found.status := by
  constructor
  · intro h
    rw [← h]
    exact terminal_of_mem_close hcompleted hfailed
  · intro h
    cases record with
    | none => rfl
    | some record => exact congrArg some (Settlement.close_of_terminal (h record rfl))

end

namespace Outcome

variable {o : Outcome V}

theorem map_closeNode_eq_self_iff (record : Option (Settlement RuntimeNodeStatus V))
    (result : Except StoredError V) :
    record.map (.close isTerminalNodeStatus .completed .failed result) = record ↔
      ∀ found ∈ record, isTerminalNodeStatus found.status := map_close_eq_self_iff rfl rfl

theorem map_closeRun_eq_self_iff (record : Option (Settlement RuntimeRunStatus V))
    (result : Except StoredError V) :
    record.map (.close isTerminalRunStatus .completed .failed result) = record ↔
      ∀ found ∈ record, isTerminalRunStatus found.status := map_close_eq_self_iff rfl rfl

theorem mark_eq_self_iff (mark : Mark V) : o.mark mark = o ↔ o.Shows mark := by
  cases mark with
  | child result =>
    exact Iff.trans ⟨congrArg child, fun h => Outcome.ext h rfl rfl rfl rfl⟩
      (map_closeNode_eq_self_iff o.child result)
  | node result =>
    exact Iff.trans ⟨congrArg node, fun h => Outcome.ext rfl h rfl rfl rfl⟩
      (map_closeNode_eq_self_iff o.node result)
  | run result =>
    exact Iff.trans ⟨congrArg run, fun h => Outcome.ext rfl rfl h rfl rfl⟩
      (map_closeRun_eq_self_iff o.run result)
  | wake runId =>
    constructor
    · intro h
      have hwoken := congrFun (congrArg woken h) runId
      rw [Shows, ← hwoken]
      simp [Outcome.mark]
    · intro h
      refine Outcome.ext rfl rfl rfl rfl (funext fun woken => ?_)
      by_cases hsame : woken = runId
      · simp only [Outcome.mark, hsame, decide_true, Bool.or_true]
        exact h.symm
      · simp only [Outcome.mark, hsame, decide_false, Bool.or_false]
  | nothing => exact iff_of_true rfl trivial

theorem shows_mark (mark : Mark V) : (o.mark mark).Shows mark := by
  cases mark with
  | child | node | run => exact terminal_of_mem_close rfl rfl
  | wake runId => simp [Shows, Outcome.mark]
  | nothing => trivial

/-- A mark that is there stays there. -/
theorem Shows.mark {mark : Mark V} (h : o.Shows mark) (other : Mark V) :
    (o.mark other).Shows mark := by
  cases other with
  | child result =>
    cases mark with
    | child => exact terminal_of_mem_close rfl rfl
    | _ => exact h
  | node result =>
    cases mark with
    | node => exact terminal_of_mem_close rfl rfl
    | _ => exact h
  | run result =>
    cases mark with
    | run => exact terminal_of_mem_close rfl rfl
    | _ => exact h
  | wake runId =>
    cases mark with
    | wake woken => exact Bool.or_eq_true_iff.mpr (.inl h)
    | _ => exact h
  | nothing => exact h

theorem absorbing_mark : Trace.Absorbing (Outcome.mark (V := V)) where
  again _ mark := (mark_eq_self_iff mark).mpr (shows_mark mark)
  keeps _ mark other h :=
    (mark_eq_self_iff mark).mpr (((mark_eq_self_iff mark).mp h).mark other)

end Outcome

/-! ## Operations -/

section

variable [JsRuntime V]

/-- The mark of an operation. -/
def PassOp.mark : PassOp V → Mark V
  | .store (.completeNodeChild _ _ _ output) => .child (.ok output)
  | .store (.failNodeChild _ _ _ error) => .child (.error (toStoredError error))
  | .store (.completeNode _ _ output) => .node (.ok output)
  | .store (.failNode _ _ error) => .node (.error (toStoredError error))
  | .store (.completeRun _ output) => .run (.ok output)
  | .store (.failRun _ error) => .run (.error (toStoredError error))
  | .executor (.enqueue command _) => .wake command.runId
  | _ => .nothing

/-- The operations that leave a mark and nothing else: settlements of the child of the command, of
its node and of its run, wake-ups and reads. -/
def PassOp.Marks (command : AttemptCommand V) : PassOp V → Prop
  | .store (.completeNodeChild runId nodeName key _) | .store (.failNodeChild runId nodeName key _) =>
    childKey runId nodeName key = attemptChildKey command
  | .store (.completeNode runId nodeName _) | .store (.failNode runId nodeName _) =>
    runId = command.runId ∧ nodeName = command.nodeName
  | .store (.completeRun runId _) | .store (.failRun runId _) => runId = command.runId
  | .store (.loadRunSnapshot _) | .executor (.enqueue _ _) | .dateNow => True
  | _ => False

variable {m m' : Mem V} {claimed : Claimed (AttemptCommand V)}

omit [JsRuntime V] in
theorem Mem.isWoken_iff {runId : String} : m.isWoken runId ↔
    ∃ item ∈ m.continueRunCommands, item.isDead = false ∧ item.payload.runId = runId := by
  simp only [isWoken, List.any_eq_true, Bool.and_eq_true, Bool.not_eq_true', decide_eq_true_eq]

omit [JsRuntime V] in
/-- The counts and wake-ups are those of the queues. -/
theorem Mem.outcome_of_queues_eq (claimed : Claimed (AttemptCommand V))
    (hattempt : m'.attemptQueue = m.attemptQueue)
    (hcontinue : m'.continueQueue = m.continueQueue) :
    (m'.outcome claimed).dispatched = (m.outcome claimed).dispatched ∧
      (m'.outcome claimed).woken = (m.outcome claimed).woken := by
  have hqueued : m'.continueRunCommands = m.continueRunCommands :=
    congrArg CommandQueue.queued hcontinue
  constructor
  · simp only [outcome, hattempt]
  · funext runId
    simp only [outcome, isWoken, hqueued]

omit [JsRuntime V] in
theorem Mem.settleNode_settlement (m : Mem V) (runId nodeName : String)
    {change : StoredNode V → StoredNode V} {result : Except StoredError V}
    (hchange : ∀ node, (change node).settlement = node.settlement.ended .completed .failed result) :
    ((m.settleNode runId nodeName change).2.nodes.get? (nodeKey runId nodeName)).map
        StoredNode.settlement =
      ((m.nodes.get? (nodeKey runId nodeName)).map StoredNode.settlement).map
        (.close isTerminalNodeStatus .completed .failed result) := by
  unfold settleNode
  dsimp only
  split
  · next hnone =>
    rw [hnone]
    rfl
  · next node hget =>
    split
    · next hterminal =>
      rw [hget]
      exact congrArg some (Settlement.close_of_terminal hterminal).symm
    · next hlive =>
      rw [hget, updateNode, OrdMap.get?_set_self]
      refine congrArg some ((hchange node).trans ?_)
      exact (if_neg hlive).symm

omit [JsRuntime V] in
theorem Mem.settleNodeChild_settlement (m : Mem V) (runId nodeName key : String)
    {change : StoredNodeChild V → StoredNodeChild V} {result : Except StoredError V}
    (hchange : ∀ child, (change child).settlement =
      child.settlement.ended .completed .failed result) :
    ((m.settleNodeChild runId nodeName key change).2.children.get?
        (childKey runId nodeName key)).map StoredNodeChild.settlement =
      ((m.children.get? (childKey runId nodeName key)).map StoredNodeChild.settlement).map
        (.close isTerminalNodeStatus .completed .failed result) := by
  unfold settleNodeChild
  dsimp only
  split
  · next hnone =>
    rw [hnone]
    rfl
  · next child hget =>
    split
    · next hterminal =>
      rw [hget]
      exact congrArg some (Settlement.close_of_terminal hterminal).symm
    · next hlive =>
      rw [hget, updateChild, OrdMap.get?_set_self]
      refine congrArg some ((hchange child).trans ?_)
      exact (if_neg hlive).symm

theorem Mem.settleRun_settlement (m : Mem V) (runId : String)
    {change : StoredRun V → StoredRun V} {result : Except StoredError V}
    (hchange : ∀ run, (change run).settlement = run.settlement.ended .completed .failed result) :
    ((m.settleRun runId change).2.runs.get? runId).map StoredRun.settlement =
      ((m.runs.get? runId).map StoredRun.settlement).map
        (.close isTerminalRunStatus .completed .failed result) := by
  unfold settleRun
  split
  · next hnone =>
    rw [hnone]
    rfl
  · next run hget =>
    split
    · next hterminal =>
      rw [hget]
      exact congrArg some (Settlement.close_of_terminal hterminal).symm
    · next hlive =>
      rw [hget]
      refine (congrArg (Option.map StoredRun.settlement) (OrdMap.get?_set_self _ _ _)).trans ?_
      refine congrArg some ((hchange run).trans ?_)
      exact (if_neg hlive).symm

omit [JsRuntime V] in
theorem Mem.settleNode_outcome (m : Mem V) {change : StoredNode V → StoredNode V}
    {result : Except StoredError V}
    (hchange : ∀ node, (change node).settlement = node.settlement.ended .completed .failed result) :
    (m.settleNode claimed.command.runId claimed.command.nodeName change).2.outcome claimed =
      (m.outcome claimed).mark (.node result) := by
  have hrecords := m.settleNode_records claimed.command.runId claimed.command.nodeName change
  have happaratus := m.settleNode_apparatus claimed.command.runId claimed.command.nodeName change
  obtain ⟨hdispatched, hwoken⟩ := Mem.outcome_of_queues_eq claimed
    (congrArg Apparatus.attemptQueue happaratus) (congrArg Apparatus.continueQueue happaratus)
  refine Outcome.ext ?_ (m.settleNode_settlement _ _ hchange) ?_ hdispatched hwoken
  · exact congrArg (fun s : Records V => (s.children.get? _).map StoredNodeChild.settlement) hrecords
  · exact congrArg (fun s : Records V => (s.runs.get? _).map StoredRun.settlement) hrecords

omit [JsRuntime V] in
theorem Mem.settleNodeChild_outcome (m : Mem V) {runId nodeName key : String}
    (hkey : childKey runId nodeName key = attemptChildKey claimed.command)
    {change : StoredNodeChild V → StoredNodeChild V} {result : Except StoredError V}
    (hchange : ∀ child, (change child).settlement =
      child.settlement.ended .completed .failed result) :
    (m.settleNodeChild runId nodeName key change).2.outcome claimed =
      (m.outcome claimed).mark (.child result) := by
  have hrecords := m.settleNodeChild_records runId nodeName key change
  have happaratus := m.settleNodeChild_apparatus runId nodeName key change
  obtain ⟨hdispatched, hwoken⟩ := Mem.outcome_of_queues_eq claimed
    (congrArg Apparatus.attemptQueue happaratus) (congrArg Apparatus.continueQueue happaratus)
  have hchild := m.settleNodeChild_settlement runId nodeName key hchange
  rw [hkey] at hchild
  refine Outcome.ext hchild ?_ ?_ hdispatched hwoken
  · exact congrArg (fun s : Records V => (s.nodes.get? _).map StoredNode.settlement) hrecords
  · exact congrArg (fun s : Records V => (s.runs.get? _).map StoredRun.settlement) hrecords

theorem Mem.settleRun_outcome (m : Mem V) {change : StoredRun V → StoredRun V}
    {result : Except StoredError V}
    (hchange : ∀ run, (change run).settlement = run.settlement.ended .completed .failed result) :
    (m.settleRun claimed.command.runId change).2.outcome claimed =
      (m.outcome claimed).mark (.run result) := by
  have hrecords := m.settleRun_records claimed.command.runId change
  have happaratus := m.settleRun_apparatus claimed.command.runId change
  obtain ⟨hdispatched, hwoken⟩ := Mem.outcome_of_queues_eq claimed
    (congrArg Apparatus.attemptQueue happaratus) (congrArg Apparatus.continueQueue happaratus)
  refine Outcome.ext ?_ ?_ (m.settleRun_settlement _ hchange) hdispatched hwoken
  · exact congrArg (fun s : Records V => (s.children.get? _).map StoredNodeChild.settlement) hrecords
  · exact congrArg (fun s : Records V => (s.nodes.get? _).map StoredNode.settlement) hrecords

omit [JsRuntime V] in
/-- A wake-up leaves a live continue command of its run, and takes none away. -/
theorem Mem.isWoken_enqueueContinue (m : Mem V) (command : ContinueRunCommand)
    (runAt : Option Nat) (runId : String) :
    (m.enqueueContinue command runAt).isWoken runId =
      (m.isWoken runId || decide (runId = command.runId)) := by
  rw [Bool.eq_iff_iff, Bool.or_eq_true, Mem.isWoken_iff, Mem.isWoken_iff, decide_eq_true_eq]
  unfold Mem.enqueueContinue
  split
  · simp only [List.mem_append, List.mem_singleton]
    constructor
    · rintro ⟨item, hitem | rfl, hlive, hrun⟩
      · exact .inl ⟨item, hitem, hlive, hrun⟩
      · exact .inr hrun.symm
    · rintro (⟨item, hitem, hlive⟩ | rfl)
      · exact ⟨item, .inl hitem, hlive⟩
      · exact ⟨_, .inr rfl, rfl, rfl⟩
  · next index hindex =>
    obtain ⟨found, rest, hfound, hbefore, hafter⟩ := modify_found
      (fun existing : QueueItem ContinueRunCommand => { existing with
        payload := command
        runAt := earliestRunAt existing.runAt runAt }) hindex
    simp only [Bool.and_eq_true, Bool.not_eq_true', decide_eq_true_eq] at hfound
    simp only [← Multiset.mem_coe, hbefore, hafter, Multiset.mem_cons]
    constructor
    · rintro ⟨item, rfl | hitem, hlive, hrun⟩
      · exact .inr hrun.symm
      · exact .inl ⟨item, .inr hitem, hlive, hrun⟩
    · rintro (⟨item, rfl | hitem, hlive, hrun⟩ | rfl)
      · exact ⟨_, .inl rfl, hlive, hfound.2.symm.trans hrun⟩
      · exact ⟨item, .inr hitem, hlive, hrun⟩
      · exact ⟨_, .inl rfl, hfound.1, rfl⟩

/-- An operation that leaves a mark leaves just that. -/
theorem outcome_marks {op : PassOp V} (hop : op.Marks claimed.command) (user : UserCode V) :
    (op.exec user m).2.outcome claimed = (m.outcome claimed).mark op.mark := by
  cases op with
  | callback => cases hop
  | dateNow => rfl
  | store op =>
    cases op with
    | loadRunSnapshot => rfl
    | completeNodeChild | failNodeChild => exact m.settleNodeChild_outcome hop fun _ => rfl
    | completeNode | failNode =>
      obtain ⟨rfl, rfl⟩ := hop
      exact m.settleNode_outcome fun _ => rfl
    | completeRun | failRun =>
      obtain rfl := hop
      exact m.settleRun_outcome fun _ => rfl
    | _ => cases hop
  | executor op =>
    cases op with
    | enqueue command runAt =>
      have hrecords := (m.execExecutor_quiet (.enqueue command runAt)).records
      have hqueue : (m.execExecutor (.enqueue command runAt)).2.attemptQueue = m.attemptQueue :=
        m.execExecutor_attemptQueue rfl
      refine Outcome.ext ?_ ?_ ?_ ?_ (funext fun runId => ?_)
      · exact congrArg (fun s : Records V => (s.children.get? _).map StoredNodeChild.settlement)
          hrecords
      · exact congrArg (fun s : Records V => (s.nodes.get? _).map StoredNode.settlement) hrecords
      · exact congrArg (fun s : Records V => (s.runs.get? _).map StoredRun.settlement) hrecords
      · exact congrArg (fun q : CommandQueue (AttemptCommand V) =>
          q.entries.countP fun e => claimed.isFurther e) hqueue
      · exact m.isWoken_enqueueContinue command runAt runId
    | _ => cases hop

end

end Neemata.Workflows
