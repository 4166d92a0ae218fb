import Neemata.Workflows.Worker.Redelivery

/-!
# Completion paths that are cut off

A worker stops on the completion path of an attempt and its command is claimed again, maybe several
times, since a redelivery can stop as well. The one that acknowledges leaves what the whole path would
have left exactly if at every stop no retry was still to be dispatched and, where the run was terminal
already, nothing was left to be done (`completion_replayed_iff`).
-/

namespace Neemata.Workflows

open Program

variable {V : Type} [JsRuntime V] {m m' : Mem V} {user : UserCode V}
  {claimed claimed' : Claimed (AttemptCommand V)} {run : StoredRun V} {settled : StoredAttempt V}
  {result : Except (Thrown V) V}

namespace Mem

/-! ## The claim of the redelivery -/

/-- Somebody asks for a command at the time `time`. -/
def reclaim (m : Mem V) (time : Nat) (input : ExecutionWorkerInput) :
    Option (Claimed (AttemptCommand V)) × Mem V :=
  (m.step (.clock time)).claimAttempt input.claim

/-- An operation on the attempt queue that takes no command away but the claimed one leaves the
outcome as it is. -/
theorem outcome_of_attemptOp (hkept : m.QueuesKept) (op : ExecutorOp V)
    (hop : op.isContinueOp = false)
    (henqueue : (attemptKind (V := V)).request (.executor op) ≠ .enqueue)
    (hremoves : ∀ runGone e, ((attemptKind (V := V)).request (.executor op)).removes runGone
      AttemptCommand.runId e → claimed.isFurther e = false) :
    (m.step (.executor op)).outcome claimed = m.outcome claimed := by
  have hrecords := (m.execExecutor_quiet op).records
  have hcontinue : (m.step (.executor op)).continueQueue = m.continueQueue :=
    m.execExecutor_continueQueue hop
  refine Outcome.ext ?_ ?_ ?_ ?_ ?_
  · exact congrArg (fun s : Records V => (s.children.get? _).map StoredNodeChild.settlement) hrecords
  · exact congrArg (fun s : Records V => (s.nodes.get? _).map StoredNode.settlement) hrecords
  · exact congrArg (fun s : Records V => (s.runs.get? _).map StoredRun.settlement) hrecords
  · have hchange := (attempt_serves hkept.continueQueue hkept.attemptQueue (.executor op)).change
    refine hchange.countP_eq (fun a b hnext => ?_) (fun a hleaves => ?_) fun a henters => ?_
    · rw [Claimed.isFurther, Claimed.isFurther, hnext.id, hnext.payload henqueue]
    · rw [hremoves _ _ hleaves]
      exact Bool.false_ne_true
    · have hmatches := henters.1
      generalize (attemptKind (V := V)).request (.executor op) = request at hmatches henqueue
      cases request with
      | enqueue => exact henqueue rfl
      | _ => cases hmatches
  · funext runId
    exact congrArg (fun q : CommandQueue ContinueRunCommand =>
      q.queued.any fun item => !item.isDead && item.payload.runId = runId) hcontinue

theorem reclaim_outcome (hm : m.Sound) (hkept : m.QueuesKept) (time : Nat)
    (input : ExecutionWorkerInput) :
    (m.reclaim time input).2.outcome claimed = m.outcome claimed :=
  outcome_of_attemptOp (m := m.step (.clock time)) (hkept.step hm _) (.claimAttempt input.claim) rfl
    (fun h => nomatch h) fun _ e h => by cases e <;> cases h

/-- The command of the claim is acknowledged, and nothing else is seen of it. -/
theorem ack_outcome (hkept : m.QueuesKept) (hid : claimed'.id = claimed.id) :
    (m.step (.executor (.ackAttempt claimed'))).outcome claimed = m.outcome claimed := by
  refine outcome_of_attemptOp hkept (.ackAttempt claimed') rfl (fun h => nomatch h) fun _ e h => ?_
  cases e with
  | queued => cases h
  | claimed item =>
    have hholds : item.id = claimed'.id := by
      have hholds : claimed'.holds item = true := h
      simp only [Claimed.holds, Bool.and_eq_true, decide_eq_true_eq] at hholds
      exact hholds.1
    have hsame : (Entry.claimed item).id = claimed.id := hholds.trans hid
    simp only [Claimed.isFurther, hsame, ne_eq, not_true_eq_false, decide_false, Bool.false_and]

/-- The command is out with some worker. -/
def Delivers (m : Mem V) (claimed : Claimed (AttemptCommand V)) : Prop :=
  ∃ item, m.attemptQueue.claimed.get? claimed.id = some item ∧ item.payload = claimed.command

omit [JsRuntime V] in
theorem Held.delivers (h : m.Held claimed) : m.Delivers claimed := by
  obtain ⟨item, hget, -, hpayload⟩ := h
  exact ⟨item, hget, hpayload⟩

omit [JsRuntime V] in
theorem Delivers.of_claimed (h : m.Delivers claimed)
    (hclaimed : m'.attemptQueue.claimed = m.attemptQueue.claimed) : m'.Delivers claimed := by
  unfold Delivers
  rwa [hclaimed]

/-- The redelivered command is the one that was out. -/
theorem reclaim_spec (hm : m.Sound) (hkept : m.QueuesKept) (hout : m.Delivers claimed) {time : Nat}
    {input : ExecutionWorkerInput} (hclaim : (m.reclaim time input).1 = some claimed')
    (hid : claimed'.id = claimed.id) :
    claimed'.command = claimed.command ∧ (m.reclaim time input).2.Held claimed' ∧
      (m.reclaim time input).2.Delivers claimed ∧ (m.reclaim time input).2.records = m.records := by
  have hstep : (m.reclaim time input).2 = (m.step (.clock time)).step
    (.executor (.claimAttempt input.claim)) := rfl
  obtain ⟨item', hget', hid', hpayload', htoken'⟩ := claimAttempt_entry hclaim
  have hsame : claimed'.command = claimed.command := by
    have hmem' : .claimed item' ∈ ((m.step (.clock time)).step
        (.executor (.claimAttempt input.claim))).attemptQueue.entries := CommandQueue.claimed_mem hget'
    obtain ⟨item, hget, hpayload⟩ := hout
    have hmem : .claimed item ∈ m.attemptQueue.entries := CommandQueue.claimed_mem hget
    have hkey : item.id = claimed.id := hkept.attemptQueue.keyed _ _ hget
    obtain ⟨e, he, hsame, hsamePayload⟩ | ⟨command, runAt, hop, -⟩ :=
      (hkept.step hm (.clock time)).attempt_back (.executor (.claimAttempt input.claim)) hmem'
    · have heq : e = .claimed item := hkept.attemptQueue.eq_of_id he hmem <|
        hsame.symm.trans (hid'.trans (hid.trans hkey.symm))
      rw [heq] at hsamePayload
      exact hpayload'.symm.trans (hsamePayload.trans hpayload)
    · cases hop
  exact ⟨hsame, ⟨item', hget', htoken', hpayload'⟩, ⟨item', hid ▸ hget', hpayload'.trans hsame⟩,
    ((m.step (.clock time)).execExecutor_quiet (.claimAttempt input.claim)).records⟩

/-- A store whose records and queues are in order. -/
def InOrder (m : Mem V) : Prop := m.Sound ∧ m.QueuesKept

theorem InOrder.step (h : m.InOrder) (op : Op V) : (m.step op).InOrder :=
  ⟨h.1.step op, h.2.step h.1 op⟩

theorem InOrder.performed (h : m.InOrder) (user : UserCode V) (ops : List (PassOp V)) :
    (Trace.run (Program.effect (PassOp.exec user)) m ops).InOrder := by
  refine Trace.run_inv (Program.effect (PassOp.exec user)) (P := fun _ => True)
    (fun m op _ hm => ?_) (fun _ _ => trivial) h
  cases op with
  | store op => exact hm.step (.store op)
  | executor op => exact hm.step (.executor op)
  | callback | dateNow => exact hm

theorem InOrder.reclaim (h : m.InOrder) (time : Nat) (input : ExecutionWorkerInput) :
    (m.reclaim time input).2.InOrder :=
  (h.step (.clock time)).step (.executor (.claimAttempt input.claim))

end Mem

/-! ## Deliveries that are cut off -/

/-- The command is claimed again, and the worker stops after `count` operations. -/
def Mem.redeliver (m : Mem V) (time : Nat) (input : ExecutionWorkerInput)
    (claimed' : Claimed (AttemptCommand V)) (user : UserCode V) (count : Nat) :
    Program (PassOp.Ret (V := V)) (Except (Thrown V) Bool) × Mem V :=
  (input.execute claimed').run.steps (PassOp.exec user) count (m.reclaim time input).2

/-- Redeliveries of the claimed command that all stop before its acknowledgement, each where the one
before stopped: the stores where they stop, with the operations that are due there. -/
inductive CutOff (claimed : Claimed (AttemptCommand V)) :
    Mem V → List (Mem V × List (PassOp V)) → Mem V → Prop
  | none (m : Mem V) : CutOff claimed m [] m
  | stop {m last : Mem V} {stops : List (Mem V × List (PassOp V))} {time : Nat}
      {input : ExecutionWorkerInput} {claimed' : Claimed (AttemptCommand V)} {user : UserCode V}
      {count : Nat} (claim : (m.reclaim time input).1 = some claimed')
      (same : claimed'.id = claimed.id)
      (due : (m.redeliver time input claimed' user count).1.isSettled = false)
      (rest : CutOff claimed (m.redeliver time input claimed' user count).2 stops last) :
      CutOff claimed m (((m.redeliver time input claimed' user count).2,
        (m.redeliver time input claimed' user count).1.trail (PassOp.exec user)
          (m.redeliver time input claimed' user count).2) :: stops) last

/-- The redelivery `redelivered` acknowledges and leaves what `whole` does, the path that was not cut
off. -/
def Replays (claimed : Claimed (AttemptCommand V)) (redelivered : Option (Except (Thrown V) Bool) × Mem V)
    (whole : Mem V) : Prop :=
  redelivered.1 = some (.ok true) ∧ redelivered.2.outcome claimed = whole.outcome claimed

/-- The run of the attempt is terminal. -/
def Mem.isOver (m : Mem V) (claimed : Claimed (AttemptCommand V)) : Bool :=
  (m.runs.get? claimed.command.runId).any fun run => isTerminalRunStatus run.status

/-- A redelivery makes up for an operation that was still due: it is not part of a retry, and in a
run that is terminal it would not change anything. -/
def Mem.MakesUpFor (m : Mem V) (claimed : Claimed (AttemptCommand V)) (op : PassOp V) : Prop :=
  op.retries = false ∧ (m.isOver claimed → (m.outcome claimed).Shows op.mark)

/-- What a delivery that leaves marks and acknowledges leaves to be seen. -/
theorem outcome_of_marks (hm : m.InOrder) (hid : claimed'.id = claimed.id) {ops : List (PassOp V)}
    (hops : ∀ op ∈ ops, op.Marks claimed.command) :
    (Trace.run (Program.effect (PassOp.exec user)) m
      (ops ++ [.executor (.ackAttempt claimed')])).outcome claimed =
        Trace.run Outcome.mark (m.outcome claimed) (ops.map PassOp.mark) := by
  rw [Trace.run_append]
  exact (Mem.ack_outcome (hm.performed user ops).2 hid).trans (Mem.run_outcome_marks hops)

omit [JsRuntime V] in
theorem retries_of_marks {command : AttemptCommand V} {op : PassOp V} (hop : op.Marks command) :
    op.retries = false := by
  cases op with
  | callback | dateNow => rfl
  | store op =>
    cases op with
    | createAttempt => cases hop
    | _ => rfl
  | executor op =>
    cases op with
    | dispatch => cases hop
    | _ => rfl

omit [JsRuntime V] in
theorem Mem.isOver_eq_outcome (m : Mem V) (claimed : Claimed (AttemptCommand V)) :
    m.isOver claimed = (m.outcome claimed).run.any fun run => isTerminalRunStatus run.status := by
  rw [isOver, outcome, Option.any_map]
  rfl

theorem Mem.makesUpFor_congr (h : m'.outcome claimed = m.outcome claimed) (op : PassOp V) :
    m'.MakesUpFor claimed op ↔ m.MakesUpFor claimed op := by
  rw [MakesUpFor, MakesUpFor, m.isOver_eq_outcome, m'.isOver_eq_outcome, h]

/-- The marks that a redelivery leaves, where one that is not over leaves `marks`. -/
def Mem.remarks (m : Mem V) (claimed : Claimed (AttemptCommand V)) (marks : List (Mark V)) :
    List (Mark V) := if m.isOver claimed then [.nothing] else marks

/-- Where `P` holds, a redelivery leaves its marks and acknowledges, and wherever it is cut off `P`
holds again. -/
def Resumes (claimed : Claimed (AttemptCommand V)) (marks : List (Mark V)) (P : Mem V → Prop) :
    Prop :=
  ∀ m, P m → m.InOrder ∧ ∀ time input claimed', ∀ user : UserCode V,
    (m.reclaim time input).1 = some claimed' → claimed'.id = claimed.id →
      ∃ ops, (∀ op ∈ ops, op.Marks claimed.command) ∧
        Performs (PassOp.exec user) (m.reclaim time input).2 (input.execute claimed').run
          (ops ++ [.executor (.ackAttempt claimed')]) (.ok true) ∧
        ops.map PassOp.mark = m.remarks claimed marks ∧
        ∀ count, P (Trace.run (Program.effect (PassOp.exec user)) (m.reclaim time input).2
          (ops.take count))

namespace Resumes

variable {marks : List (Mark V)} {P : Mem V → Prop} {time : Nat} {input : ExecutionWorkerInput}

/-- The redelivery that acknowledges. -/
theorem replays_iff (hP : Resumes claimed marks P) (hm : P m)
    (hclaim : (m.reclaim time input).1 = some claimed') (hid : claimed'.id = claimed.id)
    (user : UserCode V) (whole : Mem V) :
    Replays claimed ((input.execute claimed').run.eval (PassOp.exec user) (m.reclaim time input).2)
      whole ↔ Trace.run Outcome.mark (m.outcome claimed) (m.remarks claimed marks) =
        whole.outcome claimed := by
  obtain ⟨horder, hredelivers⟩ := hP m hm
  obtain ⟨ops, hops, hperforms, hmarks, -⟩ := hredelivers time input claimed' user hclaim hid
  rw [Replays, hperforms.eval, outcome_of_marks (horder.reclaim time input) hid hops, hmarks,
    Mem.reclaim_outcome horder.1 horder.2]
  exact and_iff_right rfl

/-- A redelivery that is cut off. -/
theorem cut (hP : Resumes claimed marks P) (hm : P m)
    (hclaim : (m.reclaim time input).1 = some claimed') (hid : claimed'.id = claimed.id)
    {count : Nat} (hdue : (m.redeliver time input claimed' user count).1.isSettled = false) :
    let stopped := m.redeliver time input claimed' user count
    let due := stopped.1.trail (PassOp.exec user) stopped.2
    P stopped.2 ∧ (stopped.2.outcome claimed = Trace.run Outcome.mark (m.outcome claimed)
        ((m.remarks claimed marks).take count)) ∧
      (∀ op ∈ due, op.retries = false) ∧
      due.map PassOp.mark = (m.remarks claimed marks).drop count ++ [.nothing] := by
  intro stopped due
  obtain ⟨horder, hredelivers⟩ := hP m hm
  obtain ⟨ops, hops, hperforms, hmarks, hcut⟩ := hredelivers time input claimed' user hclaim hid
  obtain ⟨htrail, hleft⟩ := hperforms.steps hdue
  have hleft' : stopped.2 = _ := hleft
  have htrail' : due = ops.drop count ++ [.executor (.ackAttempt claimed')] := htrail
  refine ⟨hleft' ▸ hcut count, ?_, fun op hop => ?_, ?_⟩
  · rw [hleft', Mem.run_outcome_marks fun op hop => hops op (List.mem_of_mem_take hop),
      Mem.reclaim_outcome horder.1 horder.2, List.map_take, hmarks]
  · rcases List.mem_append.mp (htrail' ▸ hop) with hop | hop
    · exact retries_of_marks (hops op (List.mem_of_mem_drop hop))
    · rw [List.mem_singleton.mp hop]
      rfl
  · rw [htrail', List.map_append, List.map_drop, hmarks]
    rfl

/-- A chain of redeliveries leaves marks. -/
theorem exists_marks (hP : Resumes claimed marks P) {stops : List (Mem V × List (PassOp V))}
    {last : Mem V} (hcut : CutOff claimed m stops last) (hm : P m) :
    P last ∧ ∃ left, last.outcome claimed = Trace.run Outcome.mark (m.outcome claimed) left := by
  induction hcut with
  | none => exact ⟨hm, [], rfl⟩
  | stop claim same due rest ih =>
    obtain ⟨hstopped, houtcome, -⟩ := hP.cut hm claim same due
    obtain ⟨hlast, left, hleft⟩ := ih hstopped
    rw [houtcome, ← Trace.run_append] at hleft
    exact ⟨hlast, _, hleft⟩

/-- The redeliveries make up for what was due where the worker stopped, and for what is due where
they stop themselves. What they repeat is absorbed. -/
theorem replays_chain_iff (hP : Resumes claimed marks P)
    {stops : List (Mem V × List (PassOp V))} {last : Mem V} (hcut : CutOff claimed m stops last)
    (hm : P m) (hclaim : (last.reclaim time input).1 = some claimed')
    (hid : claimed'.id = claimed.id) (user : UserCode V) {whole : Mem V} {due : List (PassOp V)}
    (hdue : ∀ op ∈ due, op.retries = false)
    (hwhole : Trace.run Outcome.mark (m.outcome claimed) (due.map PassOp.mark) =
      whole.outcome claimed)
    (hmarks : Trace.run Outcome.mark (m.outcome claimed) marks = whole.outcome claimed) :
    Replays claimed ((input.execute claimed').run.eval (PassOp.exec user)
      (last.reclaim time input).2) whole ↔
        ∀ stop ∈ (m, due) :: stops, ∀ op ∈ stop.2, stop.1.MakesUpFor claimed op := by
  rw [List.forall_mem_cons]
  have hlive {m : Mem V} {due : List (PassOp V)} (hdue : ∀ op ∈ due, op.retries = false)
      (hover : ¬ m.isOver claimed) : ∀ op ∈ due, m.MakesUpFor claimed op :=
    fun op hop => ⟨hdue op hop, fun h => absurd h hover⟩
  induction hcut generalizing due with
  | none m =>
    rw [hP.replays_iff hm hclaim hid user whole, Mem.remarks]
    by_cases hover : m.isOver claimed
    · rw [if_pos hover]
      change m.outcome claimed = _ ↔ _
      rw [← hwhole, eq_comm, Outcome.absorbing_mark.run_eq_self_iff, List.forall_mem_map]
      refine ⟨fun h => ⟨fun op hop => ⟨hdue op hop, fun _ => ?_⟩, nofun⟩, fun h op hop => ?_⟩
      · exact (Outcome.mark_eq_self_iff _).mp (h op hop)
      · exact (Outcome.mark_eq_self_iff _).mpr ((h.1 op hop).2 hover)
    · rw [if_neg hover]
      exact iff_of_true hmarks ⟨hlive hdue hover, nofun⟩
  | @stop m last stops time input redelivered user count claim same unsettled rest ih =>
    obtain ⟨hstopped, houtcome, hretries, hleft⟩ := hP.cut hm claim same unsettled
    rw [List.forall_mem_cons]
    by_cases hover : m.isOver claimed
    · -- nothing changes any more: the same operations stay due
      have hsame : (m.redeliver time input redelivered user count).2.outcome claimed =
          m.outcome claimed := by
        rw [houtcome, Mem.remarks, if_pos hover]
        refine Trace.run_of_absorbed fun mark hmark => ?_
        rw [List.mem_singleton.mp (List.mem_of_mem_take hmark)]
        rfl
      refine (ih hstopped hclaim hdue (hsame.symm ▸ hwhole) (hsame.symm ▸ hmarks)).trans ?_
      refine and_congr (forall₂_congr fun op _ => Mem.makesUpFor_congr hsame op) ?_
      refine (and_iff_right fun op hop => ⟨hretries op hop, fun _ => ?_⟩).symm
      have hnothing : op.mark = .nothing := by
        have hmem := List.mem_map_of_mem (f := PassOp.mark) hop
        rw [hleft, Mem.remarks, if_pos hover] at hmem
        rcases List.mem_append.mp hmem with hmem | hmem
        · exact List.mem_singleton.mp (List.mem_of_mem_drop hmem)
        · exact List.mem_singleton.mp hmem
      rw [hnothing]
      trivial
    · rw [Mem.remarks, if_neg hover] at houtcome hleft
      refine (ih hstopped hclaim hretries ?_ ?_).trans ?_
      · have hnothing (o : Outcome V) (left : List (Mark V)) :
            Trace.run Outcome.mark o (left ++ [.nothing]) = Trace.run Outcome.mark o left :=
          Trace.run_append o left [.nothing]
        rw [houtcome, hleft, hnothing, ← Trace.run_append, List.take_append_drop, hmarks]
      · rw [houtcome, Outcome.absorbing_mark.run_replay, ← Trace.run_append,
          List.take_append_drop, hmarks]
      · exact (and_iff_right (hlive hdue hover)).symm

end Resumes

/-! ## Settled attempts -/

/-- The attempt of the command, which is out, is settled. -/
structure Mem.Paused (m : Mem V) (claimed : Claimed (AttemptCommand V)) (kind : RunKind)
    (settled : StoredAttempt V) (result : Except (Thrown V) V)
    (origins : String → Option RunOrigin) : Prop where
  order : m.InOrder
  out : m.Delivers claimed
  run : ∃ run, m.runs.get? claimed.command.runId = some run ∧ run.kind = kind
  settled : m.scene.Settled claimed.command settled result
  origins : m.scene.origins = origins

section

variable {kind : RunKind} {origins : String → Option RunOrigin}

theorem Mem.Paused.performed (h : m.Paused claimed kind settled result origins)
    {ops : List (PassOp V)} (hops : ∀ op ∈ ops, op.Marks claimed.command) (user : UserCode V) :
    (Trace.run (Program.effect (PassOp.exec user)) m ops).Paused claimed kind settled result
      origins := by
  have hscene : (Trace.run (Program.effect (PassOp.exec user)) m ops).scene = m.scene :=
    Mem.run_scene_marks hops
  refine ⟨h.order.performed user ops, h.out.of_claimed ?_, ?_, hscene.symm ▸ h.settled,
    hscene.symm ▸ h.origins⟩
  · exact congrArg (fun s : Scene V => s.queue.claimed) hscene
  · obtain ⟨run, hrun, hkind⟩ := h.run
    have horigins := congrFun (congrArg Scene.origins hscene) claimed.command.runId
    simp only [Mem.scene, hrun, Option.map_some] at horigins
    obtain ⟨run', hrun', horigin⟩ := Option.map_eq_some_iff.mp horigins
    exact ⟨run', hrun', (congrArg RunOrigin.kind horigin).trans hkind⟩

theorem Mem.Paused.reclaim (h : m.Paused claimed kind settled result origins) {time : Nat}
    {input : ExecutionWorkerInput} (hclaim : (m.reclaim time input).1 = some claimed')
    (hid : claimed'.id = claimed.id) :
    (m.reclaim time input).2.Paused claimed kind settled result origins := by
  obtain ⟨-, -, hout, hrecords⟩ := Mem.reclaim_spec h.order.1 h.order.2 h.out hclaim hid
  obtain ⟨run, hrun, hkind⟩ := h.run
  refine ⟨h.order.reclaim time input, hout, ⟨run, ?_, hkind⟩, ⟨?_, h.settled.owner,
    h.settled.ended, ?_⟩, ?_⟩
  · exact (congrArg (fun s : Records V => s.runs.get? _) hrecords).trans hrun
  · exact (congrArg (fun s : Records V => s.attempts.get? _) hrecords).trans h.settled.stored
  · exact (congrArg (fun s : Records V => (s.children.get? _).map StoredNodeChild.view)
      hrecords).trans h.settled.child
  · exact (congrArg (fun s : Records V => fun runId => (s.runs.get? runId).map StoredRun.origin)
      hrecords).trans h.origins

/-- The redelivery of a settled attempt acknowledges, in a run that goes on after a replay. -/
theorem resumes_paused : Resumes claimed (.nothing :: (childOp claimed.command result).mark ::
      .nothing :: (closingOps claimed.command origins kind result).map PassOp.mark)
    fun m : Mem V => m.Paused claimed kind settled result origins := by
  refine fun m h => ⟨h.order, fun time input claimed' user hclaim hid => ?_⟩
  obtain ⟨hcommand, hheld, -, hrecords⟩ := Mem.reclaim_spec h.order.1 h.order.2 h.out hclaim hid
  have hreclaimed := h.reclaim hclaim hid
  obtain ⟨run, hrun, rfl⟩ := hreclaimed.run
  have hover : m.isOver claimed = isTerminalRunStatus run.status := by
    have hstored : m.runs.get? claimed.command.runId = some run :=
      (congrArg (fun s : Records V => s.runs.get? _) hrecords).symm.trans hrun
    rw [Mem.isOver, hstored, Option.any_some]
  rw [← hcommand] at hrun
  have hcut {ops : List (PassOp V)} (hops : ∀ op ∈ ops, op.Marks claimed.command) (count : Nat) :=
    hreclaimed.performed (fun op hop => hops op (List.mem_of_mem_take (i := count) hop)) user
  rw [Mem.remarks, hover]
  cases hterminal : isTerminalRunStatus run.status with
  | true =>
    have hops : ∀ op ∈ [PassOp.store (.loadRunSnapshot claimed'.command.runId)],
        op.Marks claimed.command := by
      intro op hop
      rw [List.mem_singleton.mp hop]
      trivial
    exact ⟨_, hops, performs_execute input fun body =>
      performs_delivered_terminal hheld hrun hterminal body, rfl, hcut hops⟩
  | false =>
    have hops : ∀ op ∈ .store (.loadRunSnapshot claimed'.command.runId) ::
        replayOps claimed'.command (m.reclaim time input).2.scene.origins run.kind result,
        op.Marks claimed.command := by
      refine List.forall_mem_cons.mpr ⟨trivial, ?_⟩
      rw [← hcommand]
      exact marks_replayOps _ _ _
    refine ⟨_, hops, performs_execute input fun body => performs_delivered_settled
      hreclaimed.order.1 hheld hrun hterminal (hcommand.symm ▸ hreclaimed.settled) body, ?_, hcut hops⟩
    rw [hreclaimed.origins, hcommand]
    simp only [replayOps, List.map_cons, mark_childOp, mark_closingOps]
    rfl

/-- A path that leaves marks only, cut off after some of its operations. -/
theorem replays_iff_of_marks (h : m.Paused claimed kind settled result origins)
    {ops : List (PassOp V)} (hops : ∀ op ∈ ops, op.Marks claimed.command) (count : Nat)
    (hreplay : ∀ o : Outcome V, Trace.run Outcome.mark (m.outcome claimed)
        ((ops.map PassOp.mark).take count) = o →
      Trace.run Outcome.mark o ((childOp claimed.command result).mark ::
          (closingOps claimed.command origins kind result).map PassOp.mark) =
        Trace.run Outcome.mark o ((ops.map PassOp.mark).drop count))
    {stopped : Mem V} (hstopped : stopped = Trace.run (Program.effect (PassOp.exec user)) m
      (ops.take count)) {stops : List (Mem V × List (PassOp V))} {last : Mem V}
    (hcut : CutOff claimed stopped stops last) {time : Nat} {input : ExecutionWorkerInput}
    (hclaim : (last.reclaim time input).1 = some claimed') (hid : claimed'.id = claimed.id)
    (user' : UserCode V) :
    Replays claimed ((input.execute claimed').run.eval (PassOp.exec user')
        (last.reclaim time input).2)
      (Trace.run (Program.effect (PassOp.exec user)) m (ops ++ [.executor (.ackAttempt claimed)])) ↔
        ∀ stop ∈ (stopped, ops.drop count ++ [.executor (.ackAttempt claimed)]) :: stops,
          ∀ op ∈ stop.2, stop.1.MakesUpFor claimed op := by
  have hmarks : ∀ op ∈ ops.take count, op.Marks claimed.command := fun op hop =>
    hops op (List.mem_of_mem_take hop)
  have hnow : stopped.outcome claimed = Trace.run Outcome.mark (m.outcome claimed)
      ((ops.map PassOp.mark).take count) := by
    rw [hstopped, Mem.run_outcome_marks hmarks, List.map_take]
  have hwhole : (Trace.run (Program.effect (PassOp.exec user)) m
      (ops ++ [.executor (.ackAttempt claimed)])).outcome claimed =
        Trace.run Outcome.mark (stopped.outcome claimed) ((ops.map PassOp.mark).drop count) := by
    rw [outcome_of_marks h.order rfl hops, hnow, ← Trace.run_append, List.take_append_drop]
  refine resumes_paused.replays_chain_iff hcut (hstopped ▸ h.performed hmarks user) hclaim hid user'
    (fun op hop => ?_) ?_ ?_
  · rcases List.mem_append.mp hop with hop | hop
    · exact retries_of_marks (hops op (List.mem_of_mem_drop hop))
    · rw [List.mem_singleton.mp hop]
      rfl
  · rw [hwhole, List.map_append, Trace.run_append, ← List.map_drop]
    rfl
  · exact (hreplay _ hnow.symm).trans hwhole.symm

end

/-! ## Retries -/

omit [JsRuntime V] in
theorem Outcome.mark_dispatched (o : Outcome V) (mark : Mark V) :
    (o.mark mark).dispatched = o.dispatched := by
  cases mark <;> rfl

namespace Mem

/-- A failed attempt whose child has the next attempt already. -/
structure Replaced (m : Mem V) (command : AttemptCommand V) (settled : StoredAttempt V) : Prop where
  child : ∃ child, m.children.get? (attemptChildKey command) = some child ∧
    child.runId = command.runId ∧
    (child.nodeName = command.nodeName ∧ child.childKey = command.childKey) ∧
    child.currentAttemptId ≠ some command.attemptId ∧ child.status = .running
  attempt : m.attempts.get? command.attemptId = some settled

omit [JsRuntime V] in
theorem Replaced.of_records {command : AttemptCommand V} (h : m.Replaced command settled)
    (hrecords : m'.records = m.records) : m'.Replaced command settled := by
  obtain ⟨child, hget, hrest⟩ := h.child
  exact ⟨⟨child, (congrArg (fun s : Records V => s.children.get? _) hrecords).trans hget, hrest⟩,
    (congrArg (fun s : Records V => s.attempts.get? _) hrecords).trans h.attempt⟩

/-- What the creation of the next attempt leaves. -/
theorem replaced_createAttempt (hm : m.Sound) {error : Thrown V}
    (hsettled : m.scene.Settled claimed.command settled (.error error))
    {child : StoredNodeChild V} (hget : m.children.get? (attemptChildKey claimed.command) = some child)
    (hlive : isTerminalNodeStatus child.status = false) :
    ∃ attempt m', m.createAttempt (retryParams claimed.command settled) = (.ok attempt, m') ∧
      m'.Replaced claimed.command settled ∧ m'.runs = m.runs ∧
      m'.attemptQueue = m.attemptQueue ∧ attempt.id = freshId "attempt" m.nextId ∧
      m.nextId ≤ m'.nextId := by
  obtain ⟨leaseToken, date, date', hattempt, hattempts, hchildren, hruns, hnext⟩ :=
    m.createChildAttempt_spec child settled.input settled.idempotencyKey
  have hkey : childKey child.runId child.nodeName child.childKey = attemptChildKey claimed.command :=
    hm.keyed.children hget
  obtain ⟨hrunId, hnode, hchildKey, -⟩ : child.runId = _ ∧ child.nodeName = _ ∧
      child.childKey = _ ∧ child.currentAttemptId = _ := by
    have hview := hsettled.child
    simp only [scene, hget, Option.map_some, Option.some.injEq] at hview
    simpa only [StoredNodeChild.view, Prod.mk.injEq] using hview
  have hminted : Minted "attempt" m.nextId claimed.command.attemptId :=
    (hm.attempts _ _ hsettled.stored).2
  have hother : claimed.command.attemptId ≠ freshId "attempt" m.nextId := by
    intro hsame
    rw [hsame] at hminted
    exact not_minted_freshId _ _ hminted
  rw [hkey] at hchildren
  have hget' := (congrArg (OrdMap.get? · (attemptChildKey claimed.command)) hchildren).trans
    (OrdMap.get?_set_self _ _ _)
  refine ⟨_, _, createAttempt_eq_ok hget hlive,
    ⟨⟨_, hget', hrunId, ⟨hnode, hchildKey⟩, ?_, rfl⟩, ?_⟩, hruns, ?_,
    congrArg StoredAttempt.id hattempt, ?_⟩
  · exact fun hcurrent => hother (Option.some.inj hcurrent).symm
  · exact (congrArg (OrdMap.get? · _) hattempts).trans
      ((OrdMap.get?_set_of_ne hother).trans hsettled.stored)
  · exact congrArg Apparatus.attemptQueue (m.createChildAttempt_apparatus _ _ _)
  · exact (Nat.le_add_right _ 2).trans hnext.ge

/-- The dispatch of a retry adds one command for the child. -/
theorem dispatch_outcome (hm : m.InOrder) (hout : m.Delivers claimed) {attempt : StoredAttempt V}
    (hfresh : ∀ e ∈ m.attemptQueue.entries, e.item.payload.attemptId ≠ attempt.id)
    (runAt : Option Nat) :
    ((m.step (.executor (.dispatch (retryCommand claimed.command attempt) runAt))).outcome
      claimed).dispatched = (m.outcome claimed).dispatched + 1 := by
  obtain ⟨held, hget, -⟩ := hout
  have hkey : held.id = claimed.id := hm.2.attemptQueue.keyed _ _ hget
  obtain ⟨label, -, hminted⟩ := hm.2.attemptQueue.minted _ (CommandQueue.claimed_mem hget)
  obtain ⟨-, hexists⟩ | ⟨item, hpayload, hid, hentries⟩ :=
    m.dispatchAttempt_entries (retryCommand claimed.command attempt) runAt
  · obtain ⟨e, he, hsame⟩ := (m.attemptCommandExists_iff _).mp hexists
    exact absurd hsame (hfresh e he)
  · have hne : item.id ≠ claimed.id := by
      obtain ⟨i, hi, hold⟩ := hminted
      intro hsame
      have hfreshId : freshId _ m.nextId = freshId label i :=
        hid.symm.trans (hsame.trans (hkey.symm.trans hold))
      have := (freshId_inj hfreshId).2
      omega
    have hfurther : claimed.isFurther (.queued item) = true := by
      have hrunId : item.payload.runId = claimed.command.runId := by
        rw [hpayload]
        rfl
      have hnode : item.payload.nodeName = claimed.command.nodeName  := by
        rw [hpayload]
        rfl
      have hchild : item.payload.childKey = claimed.command.childKey  := by
        rw [hpayload]
        rfl
      simp only [Claimed.isFurther, Entry.id, Entry.item, hne, hrunId, hnode, hchild, ne_eq,
        not_false_eq_true, decide_true, Bool.and_self]
    have hcount : ((m.dispatchAttempt (retryCommand claimed.command attempt) runAt).attemptQueue.entries.countP
        fun e => claimed.isFurther e) = (m.attemptQueue.entries.countP fun e => claimed.isFurther e) + 1 := by
      rw [hentries]
      exact Multiset.countP_cons_of_pos _ hfurther
    exact hcount

end Mem

/-- The attempt of the command, which is out, has failed and is replaced already. -/
structure Mem.Retried (m : Mem V) (claimed : Claimed (AttemptCommand V)) (run : StoredRun V)
    (settled : StoredAttempt V) : Prop where
  order : m.InOrder
  out : m.Delivers claimed
  run : m.runs.get? claimed.command.runId = some run
  replaced : m.Replaced claimed.command settled

/-- The redelivery of a replaced attempt only acknowledges. -/
theorem resumes_retried (howner : settled.runId = claimed.command.runId) {error : Thrown V}
    (hended : settled.EndedWith (.error error)) :
    Resumes claimed [.nothing] fun m : Mem V => m.Retried claimed run settled := by
  refine fun m h => ⟨h.order, fun time input claimed' user hclaim hid => ?_⟩
  obtain ⟨hcommand, hheld, hout, hrecords⟩ := Mem.reclaim_spec h.order.1 h.order.2 h.out hclaim hid
  have hrun : (m.reclaim time input).2.runs.get? claimed.command.runId = some run :=
    (congrArg (fun s : Records V => s.runs.get? _) hrecords).trans h.run
  have hreplaced := h.replaced.of_records hrecords
  obtain ⟨⟨child, hget, hrunId, hnames, hcurrent, hrunning⟩, hattempt⟩ := hreplaced
  have hperforms : Performs (PassOp.exec user) (m.reclaim time input).2 (input.execute claimed').run
      ([.store (.loadRunSnapshot claimed'.command.runId)] ++ [.executor (.ackAttempt claimed')])
        (.ok true) := by
    refine performs_execute input fun body => ?_
    rw [← hcommand] at hget hrunId hnames hcurrent hattempt hrun howner
    exact performs_delivered_replaced (h.order.reclaim time input).1 hheld hrun hget hrunId hnames
      hcurrent hrunning hattempt howner hended body
  refine ⟨_, fun op hop => ?_, hperforms, (ite_self _).symm, fun count => ?_⟩
  · rw [List.mem_singleton.mp hop]
    trivial
  · have hsame : Trace.run (Program.effect (PassOp.exec user)) (m.reclaim time input).2
        ([PassOp.store (.loadRunSnapshot claimed'.command.runId)].take count) =
          (m.reclaim time input).2 := by
      refine Trace.run_of_absorbed fun op hop => ?_
      rw [List.mem_singleton.mp (List.mem_of_mem_take hop)]
      rfl
    rw [hsame]
    exact ⟨h.order.reclaim time input, hout, hrun, h.replaced.of_records hrecords⟩

/-- Where an interrupted retry can have stopped: its dispatch is still due, or it is complete. -/
theorem stopped_retryOps (user : UserCode V) {command : AttemptCommand V}
    (retry : Option RetryPolicy) {attempt : StoredAttempt V} (hcreate : m.createAttempt (retryParams command settled) =
      (.ok attempt, m')) (count : Nat) :
    ∃ runAt, Trace.run (Program.effect (PassOp.exec user)) m (retryOps m command settled retry) =
        m'.step (.executor (.dispatch (retryCommand command attempt) runAt)) ∧
      let stopped := Trace.run (Program.effect (PassOp.exec user)) m
        ((retryOps m command settled retry).take count)
      ((stopped = m ∨ stopped = m') ∧ .executor (.dispatch (retryCommand command attempt) runAt) ∈
          (retryOps m command settled retry).drop count) ∨
        stopped = m'.step (.executor (.dispatch (retryCommand command attempt) runAt)) ∧
          (retryOps m command settled retry).drop count = [] := by
  have hleft : Program.effect (PassOp.exec user) m
      (.store (.createAttempt (retryParams command settled))) = m' := congrArg Prod.snd hcreate
  simp only [retryOps, hcreate]
  cases retryDelayMs retry settled.attemptNumber with
  | none =>
    refine ⟨none, ?_, ?_⟩
    · rw [Trace.run_cons, hleft]
      rfl
    · rcases count with _ | _ | count
      · exact .inl ⟨.inl rfl, by simp⟩
      · exact .inl ⟨.inr hleft, by simp⟩
      · refine .inr ⟨?_, by simp⟩
        simp only [List.take_succ_cons, List.take_nil, Trace.run_cons, hleft]
        rfl
  | some delayMs =>
    refine ⟨some (dateAfter m.clock delayMs), ?_, ?_⟩
    · rw [Trace.run_cons, hleft]
      rfl
    · rcases count with _ | _ | _ | count
      · exact .inl ⟨.inl rfl, by simp⟩
      · exact .inl ⟨.inr hleft, by simp⟩
      · exact .inl ⟨.inr hleft, by simp⟩
      · refine .inr ⟨?_, by simp⟩
        simp only [List.take_succ_cons, List.take_nil, Trace.run_cons, hleft]
        rfl

omit [JsRuntime V] in
theorem run_mark_dispatched (marks : List (Mark V)) (o : Outcome V) :
    (Trace.run Outcome.mark o marks).dispatched = o.dispatched :=
  Trace.run_frame Outcome.mark Outcome.dispatched Outcome.mark_dispatched o marks

/-- A retry that is cut off. The redeliveries of the failed attempt never dispatch another one. -/
theorem replays_iff_of_retry {kind : RunKind} {origins : String → Option RunOrigin} {error : Thrown V}
    (h : m.Paused claimed kind settled (.error error) origins)
    {child : StoredNodeChild V} (hget : m.children.get? (attemptChildKey claimed.command) = some child)
    (hlive : isTerminalNodeStatus child.status = false)
    (hissued : ∀ e ∈ m.attemptQueue.entries, Minted "attempt" m.nextId e.item.payload.attemptId)
    {retry : Option RetryPolicy} (count : Nat) {stopped : Mem V}
    (hstopped : stopped = Trace.run (Program.effect (PassOp.exec user)) m
      ((retryOps m claimed.command settled retry).take count))
    {stops : List (Mem V × List (PassOp V))} {last : Mem V}
    (hcut : CutOff claimed stopped stops last) {time : Nat} {input : ExecutionWorkerInput}
    (hclaim : (last.reclaim time input).1 = some claimed') (hid : claimed'.id = claimed.id)
    (user' : UserCode V) :
    Replays claimed ((input.execute claimed').run.eval (PassOp.exec user')
        (last.reclaim time input).2)
      (Trace.run (Program.effect (PassOp.exec user)) m
        (retryOps m claimed.command settled retry ++ [.executor (.ackAttempt claimed)])) ↔
        ∀ stop ∈ (stopped, (retryOps m claimed.command settled retry).drop count ++
            [.executor (.ackAttempt claimed)]) :: stops,
          ∀ op ∈ stop.2, stop.1.MakesUpFor claimed op := by
  obtain ⟨run, hrun, -⟩ := h.run
  obtain ⟨attempt, m', hcreate, hreplaced, hruns, hqueue, hattemptId, hnext⟩ :=
    Mem.replaced_createAttempt h.order.1 h.settled hget hlive
  have hretried : m'.Retried claimed run settled := by
    have hleft : m.step (.store (.createAttempt (retryParams claimed.command settled))) = m' :=
      congrArg Prod.snd hcreate
    exact ⟨hleft ▸ h.order.step _, h.out.of_claimed (congrArg CommandQueue.claimed hqueue),
      by rw [hruns, hrun], hreplaced⟩
  have hresumes : Resumes claimed [.nothing] fun m : Mem V => m.Retried claimed run settled :=
    resumes_retried h.settled.owner h.settled.ended
  obtain ⟨runAt, hwholeRun, hcases⟩ := stopped_retryOps user retry hcreate count
  have hsame : (m'.outcome claimed).dispatched = (m.outcome claimed).dispatched := by
    simp only [Mem.outcome, hqueue]
  have hdispatched : ((m'.step (.executor (.dispatch (retryCommand claimed.command attempt)
      runAt))).outcome claimed).dispatched = (m.outcome claimed).dispatched + 1 := by
    rw [Mem.dispatch_outcome hretried.order hretried.out (fun e he hsame => ?_) runAt, hsame]
    have hminted := hissued e (hqueue ▸ he)
    rw [hsame, hattemptId] at hminted
    exact not_minted_freshId _ _ hminted
  have hwhole : (Trace.run (Program.effect (PassOp.exec user)) m
      (retryOps m claimed.command settled retry ++ [.executor (.ackAttempt claimed)])).outcome
        claimed = (m'.step (.executor (.dispatch (retryCommand claimed.command attempt)
          runAt))).outcome claimed := by
    rw [Trace.run_append, hwholeRun]
    exact Mem.ack_outcome (hretried.order.step _).2 rfl
  rcases hcases with ⟨hearly, hdue⟩ | ⟨hdone, hnothing⟩
  · refine iff_of_false (fun hreplays => ?_) fun h => ?_
    · have hnever {marks : List (Mark V)} {P : Mem V → Prop} (hP : Resumes claimed marks P)
          (hm : P stopped)
          (hcount : (stopped.outcome claimed).dispatched = (m.outcome claimed).dispatched) :
          False := by
        obtain ⟨hlast, left, hleft⟩ := hP.exists_marks hcut hm
        have heq := congrArg Outcome.dispatched ((hP.replays_iff hlast hclaim hid user' _).mp hreplays)
        rw [run_mark_dispatched, hleft, run_mark_dispatched, hwhole, hdispatched, hcount] at heq
        omega
      rw [← hstopped] at hearly
      rcases hearly with hearly | hearly
      · exact hnever resumes_paused (hearly ▸ h) (by rw [hearly])
      · exact hnever hresumes (hearly ▸ hretried) (hearly ▸ hsame)
    · exact Bool.noConfusion (h _ List.mem_cons_self _ (List.mem_append.mpr (.inl hdue))).1
  · rw [← hstopped] at hdone
    rw [hnothing]
    have hrecords : stopped.records = m'.records := by
      rw [hdone]
      exact (m'.execExecutor_quiet _).records
    have hclaimed : stopped.attemptQueue.claimed = m'.attemptQueue.claimed := by
      rw [hdone]
      have hretries : (PassOp.executor (.dispatch (retryCommand claimed.command attempt) runAt) :
          PassOp V).retries := rfl
      exact (claimed_retries (.inl hretries) :
        (Program.effect (PassOp.exec user) m' (.executor _)).attemptQueue.claimed = _)
    refine hresumes.replays_chain_iff hcut ⟨hdone ▸ hretried.order.step _,
      hretried.out.of_claimed hclaimed,
      (congrArg (fun s : Records V => s.runs.get? _) hrecords).trans hretried.run,
      hreplaced.of_records hrecords⟩ hclaim hid user' (fun op hop => ?_) ?_ ?_
    · rw [List.mem_singleton.mp hop]
      rfl
    · rw [hwhole, hdone]
      rfl
    · rw [hwhole, hdone]
      rfl

/-! ## Every point of the path -/

/-- The worker stops after `count` operations of the completion path, the settlement of the attempt
among them; then the command is claimed again and again by workers that stop as well, and in the end
by one that does not. It acknowledges the command, and what it leaves is what the whole path leaves
exactly if at every stop a redelivery makes up for every operation that was still due. -/
theorem completion_replayed_iff (h : m.Completing claimed run) (hcompletes : completes result)
    (retry : Option RetryPolicy) (user user' : UserCode V) {count : Nat} (hcount : 0 < count)
    (hdue : ((completionPath claimed run.kind retry result).run.steps (PassOp.exec user) count
      m).1.isSettled = false) {stops : List (Mem V × List (PassOp V))} {last : Mem V}
    (hcut : CutOff claimed ((completionPath claimed run.kind retry result).run.steps
      (PassOp.exec user) count m).2 stops last) {time : Nat} {input : ExecutionWorkerInput}
    (hclaim : (last.reclaim time input).1 = some claimed') (hid : claimed'.id = claimed.id) :
    let stopped := (completionPath claimed run.kind retry result).run.steps (PassOp.exec user) count m
    Replays claimed ((input.execute claimed').run.eval (PassOp.exec user')
        (last.reclaim time input).2)
      ((completionPath claimed run.kind retry result).run.eval (PassOp.exec user) m).2 ↔
        ∀ stop ∈ (stopped.2, stopped.1.trail (PassOp.exec user) stopped.2) :: stops,
          ∀ op ∈ stop.2, stop.1.MakesUpFor claimed op := by
  intro stopped
  obtain ⟨settled, m', heffect, hsettles, hperforms⟩ :=
    performs_completionPath h user retry hcompletes
  rw [← List.cons_append] at hperforms
  obtain ⟨htrail, hleft⟩ : stopped.1.trail (PassOp.exec user) stopped.2 = _ ∧ stopped.2 = _ :=
    hperforms.steps hdue
  obtain ⟨count, rfl⟩ : ∃ before, count = before + 1 := ⟨count - 1, by omega⟩
  rw [List.drop_succ_cons] at htrail
  rw [List.take_succ_cons, Trace.run_cons, heffect] at hleft
  have hpaused : m'.Paused claimed run.kind settled result m'.scene.origins := {
    order := by
      have hm : m.InOrder := ⟨h.commanded.sound.sound, h.commanded.kept⟩
      rw [← heffect]
      exact hm.step (.store (settleOp claimed.command result))
    out := h.held.delivers.of_claimed (congrArg CommandQueue.claimed hsettles.queue)
    run := ⟨run, by rw [hsettles.runs, h.stored], rfl⟩
    settled := hsettles.scene
    origins := rfl }
  obtain ⟨child, hget, hterminal⟩ := hsettles.child
  rw [hperforms.eval, List.cons_append, Trace.run_cons, heffect, htrail]
  cases result with
  | ok output =>
    refine replays_iff_of_marks hpaused (marks_closingOps _ _ _) count (fun o ho => ?_) hleft hcut
      hclaim hid user'
    have hshown : (m'.outcome claimed).mark (childOp claimed.command (.ok output)).mark =
        m'.outcome claimed := by
      refine (Outcome.mark_eq_self_iff _).mpr fun found hfound => ?_
      simp only [Mem.outcome, hget, Option.map_some, Option.mem_some_iff] at hfound
      rw [← hfound]
      exact hterminal
    subst ho
    rw [Trace.run_cons, Outcome.absorbing_mark.run_keeps hshown, Outcome.absorbing_mark.run_replay]
  | error error =>
    by_cases hretry : shouldRetryAttempt settled retry
    · have hops : afterSettleOps m' claimed.command settled run.kind retry (.error error) =
          retryOps m' claimed.command settled retry := if_pos hretry
      rw [hops] at hleft ⊢
      refine replays_iff_of_retry hpaused hget hterminal (fun e he => ?_) count hleft hcut hclaim hid
        user'
      rw [hsettles.queue] at he
      rw [hsettles.nextId]
      exact (h.commanded.issued e he).1
    · have hops : afterSettleOps m' claimed.command settled run.kind retry (.error error) =
          childOp claimed.command (.error error) ::
            closingOps claimed.command m'.scene.origins run.kind (.error error) := if_neg hretry
      rw [hops] at hleft ⊢
      refine replays_iff_of_marks hpaused
        (List.forall_mem_cons.mpr ⟨marks_childOp _, marks_closingOps _ _ _⟩) count
        (fun o ho => ?_) hleft hcut hclaim hid user'
      subst ho
      exact Outcome.absorbing_mark.run_replay _ _ count

def taskCommand : AttemptCommand JsonText where
  target := .task "t" none
  workflowName := "t"
  runId := "run-1"
  nodeName := "$task"
  childKey := "$self"
  attemptId := "attempt-2"
  leaseToken := "attempt-lease-3"
  input := .null
  idempotencyKey := none

/-- A task run whose attempt is claimed. -/
def claimedTaskHistory : List (Op JsonText) :=
  Mem.startedTaskHistory ++ [.executor (.claimAttempt ⟨"worker", [], none, ["t"], 1000⟩)]

def claimedTask : Claimed (AttemptCommand JsonText) :=
  ⟨"task-command-4", taskCommand, "attempt-claim-lease-5"⟩

def redelivering : ExecutionWorkerInput := { workerId := "other", taskNames := some ["t"] }

def idleUser : UserCode JsonText := fun _ => .error (.error "No user code")

def taskRun : StoredRun JsonText where
  id := "run-1"
  kind := .task
  name := "t"
  workflowName := "t"
  taskName := some "t"
  status := .queued
  input := .null
  output := none
  error := none
  parentRunId := none
  parentNodeName := none
  rootRunId := "run-1"
  tags := []
  idempotencyKey := none
  unique := none
  version := 1
  createdAt := 1
  updatedAt := 1

theorem completing_claimedTask :
    (Mem.after none claimedTaskHistory).Completing claimedTask taskRun where
  commanded := Mem.commanded_after none (by decide)
  held := ⟨_, rfl, rfl, rfl⟩
  stored := by decide
  fenced := ⟨_, _, rfl, rfl, rfl, rfl⟩
  self _ := rfl
  activity _ h := nomatch h

/-- The worker stops once the attempt and its child are completed, and the redelivery once it has
completed the node: the next one completes the run. -/
theorem completion_replayed_completed :
    let path := completionPath claimedTask taskRun.kind none (.ok .null)
    let stopped := path.run.steps (PassOp.exec idleUser) 1 (Mem.after none claimedTaskHistory)
    let held : Claimed (AttemptCommand JsonText) :=
      ⟨"task-command-4", taskCommand, "attempt-claim-lease-6"⟩
    let again := stopped.2.redeliver 2000 redelivering held idleUser 4
    ∃ claimed', (stopped.2.reclaim 2000 redelivering).1 = some held ∧ again.1.isSettled = false ∧
      (again.2.reclaim 100000 redelivering).1 = some claimed' ∧
      Replays claimedTask ((redelivering.execute claimed').run.eval (PassOp.exec idleUser)
        (again.2.reclaim 100000 redelivering).2)
        (path.run.eval (PassOp.exec idleUser) (Mem.after none claimedTaskHistory)).2 := by
  intro path stopped held again
  have hheld : (stopped.2.reclaim 2000 redelivering).1 = some held := by decide
  have hdue : again.1.isSettled = false := by decide
  have hclaim : (again.2.reclaim 100000 redelivering).1 =
      some ⟨"task-command-4", taskCommand, "attempt-claim-lease-7"⟩ := by decide
  have hreplayed := completion_replayed_iff completing_claimedTask (show completes (.ok .null) from rfl)
    none idleUser idleUser Nat.one_pos (by decide) (.stop hheld rfl hdue (.none again.2)) hclaim rfl
  refine ⟨_, hheld, hdue, hclaim, hreplayed.mpr ?_⟩
  refine List.forall_mem_cons.mpr ⟨fun op hop => ⟨?_, fun hover => absurd hover (by decide)⟩,
    List.forall_mem_singleton.mpr fun op hop => ⟨?_, fun hover => absurd hover (by decide)⟩⟩
  · revert op
    decide
  · revert op
    decide

/-- A failed attempt has a retry left and the worker stops before it creates the next one: the
redelivery fails the run, and the retry is never dispatched. -/
theorem not_completion_replayed :
    let path := completionPath claimedTask taskRun.kind (some { attempts := .finite 2 })
      (.error (.error "failed"))
    let stopped := path.run.steps (PassOp.exec idleUser) 1 (Mem.after none claimedTaskHistory)
    ∃ claimed', (stopped.2.reclaim 2000 redelivering).1 = some claimed' ∧
      ¬ Replays claimedTask ((redelivering.execute claimed').run.eval (PassOp.exec idleUser)
        (stopped.2.reclaim 2000 redelivering).2)
        (path.run.eval (PassOp.exec idleUser) (Mem.after none claimedTaskHistory)).2 := by
  refine ⟨⟨"task-command-4", taskCommand, "attempt-claim-lease-6"⟩, by decide, fun h => ?_⟩
  exact absurd (congrArg Outcome.dispatched h.2) (by decide)

end Neemata.Workflows
