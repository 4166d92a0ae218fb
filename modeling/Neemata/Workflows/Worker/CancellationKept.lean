import Neemata.Workflows.Worker.TaskDelivery

/-!
# No cancellation of a task run is lost

One execution worker takes the commands of a task run, between the steps of `client.cancel` and of
everybody else. Every state such a run reaches keeps the cancellation (`cancellation_kept`), as long
as no heartbeat meets the run `cancelling` without a worker to continue it; otherwise it may not
(`not_cancellationKept`).
-/

namespace Neemata.Workflows

variable {V : Type} [JsRuntime V]

/-! ## What the others do -/

/-- An operation of somebody else: what it dispatches was created, and it touches neither the child
of the run nor its attempts nor their commands, nor the wake-up of the run. -/
structure Mem.Aside (m : Mem V) (runId workflowName : String) (op : Op V) : Prop where
  contracted : m.Contracted op
  attributed : ∀ command runAt, op = .executor (.dispatch command runAt) →
    m.Attributed runId workflowName command
  keeps : Keeps runId m (m.step op)
  woken : m.Woken runId workflowName → (m.step op).Woken runId workflowName

/-- The two operations of `client.cancel`. -/
def Op.Cancels (runId workflowName : String) (op : Op V) : Prop :=
  op = .store (.requestRunCancellation runId) ∨
    op = .executor (.enqueue ⟨runId, workflowName⟩ none)

namespace Mem.TaskRun

variable {m : Mem V} {runId workflowName : String}

/-- The request of `client.cancel`. -/
theorem aside_requestRunCancellation (h : m.TaskRun runId workflowName) (cancelled : String) :
    m.Aside runId workflowName (.store (.requestRunCancellation cancelled)) := by
  have hrecords := m.requestRunCancellation_records cancelled
  have hqueue :
      (m.execStore (.requestRunCancellation cancelled)).2.continueQueue = m.continueQueue :=
    (m.execStore_queues rfl).1
  refine ⟨⟨nofun, nofun⟩, nofun, ?_, fun hwoken => hwoken.of_queue_eq hqueue⟩
  exact h.keeps_store (.requestRunCancellation cancelled) rfl
    (congrArg Records.children hrecords) (congrArg Records.attempts hrecords)

/-- A wake-up, also the one of `client.cancel`. -/
theorem aside_enqueue (h : m.TaskRun runId workflowName) {command : ContinueRunCommand}
    (hcommand : command.runId = runId → command.workflowName = workflowName)
    (runAt : Option Nat) : m.Aside runId workflowName (.executor (.enqueue command runAt)) where
  contracted := ⟨nofun, nofun⟩
  attributed := nofun
  keeps := h.keeps_executor _ (fun _ _ => rfl) nofun
  woken hwoken := hwoken.enqueue hcommand runAt

theorem aside_cancel (h : m.TaskRun runId workflowName) {op : Op V}
    (hop : op.Cancels runId workflowName) : m.Aside runId workflowName op := by
  rcases hop with rfl | rfl
  · exact h.aside_requestRunCancellation runId
  · exact h.aside_enqueue (fun _ => rfl) none

end Mem.TaskRun

section

variable {m : Mem V} {runId workflowName : String} {workflowNames : List String}
  {claimed : Claimed (AttemptCommand V)} {phase : CancelPhase V}

theorem CancelPhase.Delivers.aside
    (h : phase.Delivers m runId workflowName workflowNames claimed) {op : Op V}
    (hop : m.Aside runId workflowName op) :
    phase.Delivers (m.step op) runId workflowName workflowNames claimed where
  run := h.run.step op hop.contracted hop.attributed
  holds := h.holds.step h.run.sound.sound h.run.kept op
  own := h.own
  named := h.named
  issued := h.issued.step h.run.sound.sound op
  tracks := h.tracks.keeps (fun hclosed => hclosed.step h.run op hop.woken) hop.keeps

/-- A claim is one of the operations that change nothing for the run. -/
theorem Mem.TaskRun.aside_claimAttempt (h : m.TaskRun runId workflowName)
    (worker : ExecutionWorkerClaim) :
    m.Aside runId workflowName (.executor (.claimAttempt worker)) where
  contracted := ⟨nofun, nofun⟩
  attributed := nofun
  keeps := h.keeps_executor _ (fun _ _ => rfl) nofun
  woken hwoken := by
    have hqueue : (m.execExecutor (.claimAttempt worker)).2.continueQueue = m.continueQueue :=
      m.execExecutor_continueQueue rfl
    exact hwoken.of_queue_eq hqueue

/-- A worker that has claimed a command of the run begins its delivery. -/
theorem delivers_claim {worker : ExecutionWorkerClaim} (h : m.TaskRun runId workflowName)
    (hclaim : (m.claimAttempt worker).1 = some claimed) (hown : claimed.command.runId = runId)
    (hstate : m.Closed runId workflowName workflowNames ∨ m.Awaits runId) :
    CancelPhase.start.Delivers (m.claimAttempt worker).2 runId workflowName workflowNames
      claimed := by
  have haside := h.aside_claimAttempt worker
  have hrun : (m.claimAttempt worker).2.TaskRun runId workflowName :=
    h.step _ haside.contracted haside.attributed
  obtain ⟨item, hget, hid, hpayload, -⟩ := Mem.claimAttempt_entry hclaim
  have hmem : .claimed item ∈ (m.claimAttempt worker).2.attemptQueue.entries :=
    CommandQueue.claimed_mem hget
  have hissued := hrun.issued _ hmem
  have hnamed := hrun.named _ hmem
  rw [show (Entry.claimed item).item.payload = claimed.command from hpayload] at hissued hnamed
  constructor
  · exact hrun
  · refine ⟨?_, fun e he hsame => ?_, hissued⟩
    · obtain ⟨label, -, hminted⟩ := hrun.kept.attemptQueue.minted _ hmem
      exact ⟨label, hid ▸ hminted⟩
    · have heq := hrun.kept.attemptQueue.eq_of_id he hmem (hsame.trans hid.symm)
      rw [heq]
      exact hpayload
  · exact hown
  · exact hnamed hown
  · trivial
  · have hstart : CancelPhase.start.Tracks m runId workflowName workflowNames claimed.command :=
      ⟨nofun, hstate⟩
    exact hstart.keeps (fun hclosed => hclosed.step h _ haside.woken) haside.keeps

end

/-- What the next await of the delivery performs. -/
def Delivery.nextOp (delivery : Delivery V) : Option (PassOp V) :=
  match delivery.rest.run with
  | .perform op _ => some op
  | .pure _ | .halt => none

namespace Execution

variable {runId workflowName worker : String} {workflowNames : List String} {s : Execution V}

/-- The moves: `worker` claims commands of the run and executes them, `client.cancel` cancels the
run, and the others step aside. -/
def Interleaves (runId workflowName worker : String) (s : Execution V) : ExecutionMove V → Prop
  | .claim claimer input => claimer = worker ∧
    ∀ claimed ∈ (s.mem.claimAttempt input.claim).1, claimed.command.runId = runId
  | .resume _ _ => True
  | .crash _ => False
  | .other op => op.Cancels runId workflowName ∨ s.mem.Aside runId workflowName op

/-- The next await of the worker does not make it observe a cancellation that nobody else will carry
out. -/
def Unobserved (runId workflowName : String) (workflowNames : List String) (s : Execution V) :
    ExecutionMove V → Prop
  | .resume worker user => ∀ delivery ∈ s.workers worker, ∀ op ∈ delivery.nextOp,
    s.mem.Unobserved runId workflowName workflowNames user op
  | _ => True

instance (runId workflowName : String) (workflowNames : List String) (s : Execution V)
    (move : ExecutionMove V) : Decidable (s.Unobserved runId workflowName workflowNames move) :=
  match move with
  | .resume worker _ =>
    inferInstanceAs (Decidable (∀ delivery ∈ s.workers worker, ∀ op ∈ delivery.nextOp, _))
  | .claim _ _ | .crash _ | .other _ => isTrue trivial

/-- The invariant of the race. -/
structure Attended (runId workflowName : String) (workflowNames : List String) (worker : String)
    (s : Execution V) : Prop where
  run : s.mem.TaskRun runId workflowName
  alone : ∀ other, other ≠ worker → s.workers other = none
  idle : s.workers worker = none →
    s.mem.Closed runId workflowName workflowNames ∨ s.mem.Awaits runId
  busy : ∀ delivery, s.workers worker = some delivery → ∃ phase : CancelPhase V,
    Stops runId workflowName delivery.claimed phase delivery.rest ∧
      phase.Delivers s.mem runId workflowName workflowNames delivery.claimed

theorem Attended.kept (h : s.Attended runId workflowName workflowNames worker) :
    s.mem.CancellationKept runId workflowNames := by
  have hclosed (hclosed : s.mem.Closed runId workflowName workflowNames) :
      s.mem.CancellationKept runId workflowNames := by
    rcases hclosed with hterminal | ⟨hname, item, hitem, hlive, hpayload⟩
    · exact .inr (.inl hterminal)
    · refine .inr (.inr ⟨item, hitem, hlive, ?_, ?_⟩)
      · exact congrArg ContinueRunCommand.runId hpayload
      · rw [hpayload]
        exact hname
  have hcommand (hcommand : ∃ attemptId, s.mem.HasCommand runId attemptId) :
      s.mem.CancellationKept runId workflowNames := by
    obtain ⟨attemptId, e, he, hrun, -⟩ := hcommand
    exact .inl ⟨e, he, hrun⟩
  cases hget : s.workers worker with
  | none =>
    exact (h.idle hget).elim hclosed fun hawaits => hcommand ⟨_, hawaits.choose_spec.1⟩
  | some delivery =>
    obtain ⟨phase, -, hdelivers⟩ := h.busy delivery hget
    exact hdelivers.tracks.2.elim hclosed fun hpursues => hcommand hpursues.hasCommand

/-- A step of the worker: what becomes of the store and of its delivery. -/
theorem Attended.turn (h : s.Attended runId workflowName workflowNames worker) {mem : Mem V}
    (hrun : mem.TaskRun runId workflowName) {slot : Option (Delivery V)}
    (hidle : slot = none → mem.Closed runId workflowName workflowNames ∨ mem.Awaits runId)
    (hbusy : ∀ delivery, slot = some delivery → ∃ phase : CancelPhase V,
      Stops runId workflowName delivery.claimed phase delivery.rest ∧
        phase.Delivers mem runId workflowName workflowNames delivery.claimed)
    (retries : List (String × String)) :
    Attended runId workflowName workflowNames worker
      ⟨mem, Function.update s.workers worker slot, retries⟩ where
  run := hrun
  alone other hother := (Function.update_of_ne hother _ _).trans (h.alone other hother)
  idle hget := hidle ((Function.update_self worker slot s.workers).symm.trans hget)
  busy delivery hget := hbusy delivery ((Function.update_self worker slot s.workers).symm.trans hget)

theorem Attended.claim (h : s.Attended runId workflowName workflowNames worker)
    (input : ExecutionWorkerInput) (hget : s.workers worker = none)
    (hclaims : ∀ claimed ∈ (s.mem.claimAttempt input.claim).1, claimed.command.runId = runId) :
    (s.step (.claim worker input)).Attended runId workflowName workflowNames worker := by
  have haside := h.run.aside_claimAttempt input.claim
  simp only [Execution.step, hget, Execution.start]
  refine h.turn (h.run.step _ haside.contracted haside.attributed) (fun _ => ?_) ?_ _
  · exact (h.idle hget).imp (fun hclosed => hclosed.step h.run _ haside.woken)
      fun hawaits => hawaits.keeps haside.keeps
  · intro delivery hdelivery
    obtain ⟨claimed, hclaim, rfl⟩ := Option.map_eq_some_iff.mp hdelivery
    have hown := hclaims claimed hclaim
    have hdelivers := delivers_claim h.run hclaim hown (h.idle hget)
    exact ⟨.start, execute_follows hown hdelivers.named input, hdelivers⟩

omit [JsRuntime V] in
theorem cancelProtocol_advance {claimed : Claimed (AttemptCommand V)} {phase : CancelPhase V}
    (hphase : phase ≠ .absurd) (op : PassOp V) (answer : op.Ret) :
    (cancelProtocol runId workflowName claimed).advance phase op answer =
      phase.next runId workflowName claimed op answer := by
  cases phase with
  | absurd => exact absurd rfl hphase
  | _ => rfl

omit [JsRuntime V] in
/-- A pass that has ended has ended where it may. -/
theorem stops_settled {claimed : Claimed (AttemptCommand V)} {phase : CancelPhase V} {α : Type}
    {pass : Pass V α} (h : Stops runId workflowName claimed phase pass)
    (hsettled : Program.isSettled pass.run) : phase.mayStop := by
  unfold Stops Program.Obeys at h
  cases hrest : pass.run with
  | pure result =>
    rw [hrest] at h
    exact h
  | halt =>
    rw [hrest] at h
    obtain rfl : phase = .absurd := h
    rfl
  | perform op next =>
    rw [hrest] at hsettled
    cases hsettled

/-- What is left of a delivery. -/
theorem Attended.turn_left (h : s.Attended runId workflowName workflowNames worker) {mem : Mem V}
    {delivery : Delivery V} {user : UserCode V} (phase : CancelPhase V)
    (hstops : Stops runId workflowName delivery.claimed phase (delivery.step user s.mem).1)
    (hdelivers : phase.Delivers mem runId workflowName workflowNames delivery.claimed)
    (retries : List (String × String)) :
    Attended runId workflowName workflowNames worker
      ⟨mem, Function.update s.workers worker (delivery.left user s.mem), retries⟩ := by
  unfold Delivery.left
  split
  · next hsettled =>
    have hstop := stops_settled hstops hsettled
    refine h.turn hdelivers.run ?_ ?_ retries
    · exact fun _ => hdelivers.tracks.2.imp_right fun hpursues => hpursues.awaits hstop
    · exact fun _ hnone => nomatch hnone
  · refine h.turn hdelivers.run ?_ ?_ retries
    · exact fun hnone => nomatch hnone
    · rintro _ ⟨⟩
      exact ⟨phase, hstops, hdelivers⟩

theorem Attended.resume (h : s.Attended runId workflowName workflowNames worker)
    {delivery : Delivery V} (hget : s.workers worker = some delivery) (user : UserCode V)
    (hunobserved : ∀ op next, delivery.rest.run = .perform op next →
      s.mem.Unobserved runId workflowName workflowNames user op) :
    (s.resume worker delivery user).Attended runId workflowName workflowNames worker := by
  obtain ⟨phase, hstops, hdelivers⟩ := h.busy delivery hget
  unfold Execution.resume
  cases hrest : delivery.rest.run with
  | pure | halt =>
    have hsame : delivery.step user s.mem = (delivery.rest, s.mem) := by
      unfold Delivery.step
      rw [hrest]
      exact congrArg (·, s.mem) hrest.symm
    refine h.turn_left phase ?_ ?_ _
    · rw [hsame]
      exact hstops
    · rw [hsame]
      exact hdelivers
  | perform op next =>
    have hstep : delivery.step user s.mem = (next (op.exec user s.mem).1, (op.exec user s.mem).2) := by
      simp only [Delivery.step, hrest, Program.step]
    unfold Stops Program.Obeys at hstops
    rw [hrest] at hstops
    obtain ⟨hallowed, hnext⟩ := hstops
    have hperform := hdelivers.perform (hallowed.resolve_left hdelivers.tracks.1)
      (hunobserved op next hrest)
    refine h.turn_left (phase.next runId workflowName delivery.claimed op (op.exec user s.mem).1)
      ?_ ?_ _
    · rw [hstep]
      have hleft := hnext (op.exec user s.mem).1
      rw [cancelProtocol_advance hdelivers.tracks.1] at hleft
      exact hleft
    · rw [hstep]
      exact hperform

theorem Attended.step (h : s.Attended runId workflowName workflowNames worker)
    {move : ExecutionMove V} (hmove : s.Interleaves runId workflowName worker move)
    (hunobserved : s.Unobserved runId workflowName workflowNames move) :
    (s.step move).Attended runId workflowName workflowNames worker := by
  cases move with
  | claim claimer input =>
    obtain ⟨rfl, hclaims⟩ := hmove
    cases hget : s.workers claimer with
    | none => exact h.claim input hget hclaims
    | some delivery => simpa only [Execution.step, hget] using h
  | resume resumed user =>
    cases hget : s.workers resumed with
    | none => simpa only [Execution.step, hget] using h
    | some delivery =>
      obtain rfl : resumed = worker := by
        by_contra hother
        rw [h.alone resumed hother] at hget
        cases hget
      have hresume := h.resume hget user fun op next hrest => by
        refine hunobserved delivery hget op ?_
        rw [Delivery.nextOp, hrest]
        rfl
      simpa only [Execution.step, hget] using hresume
  | crash crashed => exact hmove.elim
  | other op =>
    replace hmove := hmove.elim h.run.aside_cancel id
    exact {
      run := h.run.step op hmove.contracted hmove.attributed
      alone := h.alone
      idle := fun hget => (h.idle hget).imp (fun hclosed => hclosed.step h.run op hmove.woken)
        fun hawaits => hawaits.keeps hmove.keeps
      busy := fun delivery hget => by
        obtain ⟨phase, hstops, hdelivers⟩ := h.busy delivery hget
        exact ⟨phase, hstops, hdelivers.aside hmove⟩ }

end Execution

/-! ## Every interleaving -/

namespace Mem

/-- The task run waits for its attempt. -/
structure Started (m : Mem V) (runId workflowName : String) : Prop where
  stored : ∃ run, m.runs.get? runId = some run ∧ run.kind = .task ∧ run.workflowName = workflowName
  named : ∀ e ∈ m.attemptQueue.entries, e.item.payload.runId = runId →
    e.item.payload.IsTaskOf workflowName
  awaits : m.Awaits runId

theorem Started.taskRun {m : Mem V} {runId workflowName : String}
    (h : m.Started runId workflowName) (hm : m.Commanded) : m.TaskRun runId workflowName := by
  obtain ⟨run, hget, htask⟩ := h.stored
  refine ⟨hm, (hm.sound.sound.runs _ _ hget).2, fun run' hget' => ?_, h.named⟩
  rw [hget] at hget'
  exact Option.some.inj hget' ▸ htask

end Mem

namespace Execution

/-- The runtime before any worker has claimed. -/
def idle (mem : Mem V) : Execution V where
  mem := mem
  workers _ := none

/-- However the steps of one execution worker and of `client.cancel` interleave: in every state they
reach, the cancellation of the task run is kept, if no heartbeat on the way meets the run
`cancelling` without a worker to continue it. -/
theorem cancellation_kept (maxDeliveries : Option Int) {history : List (Op V)}
    (h : Trace.Admits Mem.step Mem.Provided (createInMemoryWorkflowRuntime maxDeliveries) history)
    {runId workflowName : String} (hstart : (Mem.after maxDeliveries history).Started runId workflowName)
    (worker : String) (workflowNames : List String) {moves : List (ExecutionMove V)}
    (hmoves : Trace.Admits step (Interleaves runId workflowName worker)
      (idle (Mem.after maxDeliveries history)) moves)
    (hunobserved : Trace.Admits step (Unobserved runId workflowName workflowNames)
      (idle (Mem.after maxDeliveries history)) moves) :
    (Trace.run step (idle (Mem.after maxDeliveries history)) moves).mem.CancellationKept runId
      workflowNames := by
  have hrun : ∀ (moves : List (ExecutionMove V)) (s : Execution V),
      Trace.Admits step (Interleaves runId workflowName worker) s moves →
      Trace.Admits step (Unobserved runId workflowName workflowNames) s moves →
      s.Attended runId workflowName workflowNames worker →
      (Trace.run step s moves).Attended runId workflowName workflowNames worker := by
    intro moves
    induction moves with
    | nil => exact fun _ _ _ hs => hs
    | cons move moves ih =>
      rintro s ⟨hmove, hrest⟩ ⟨hunobserved, hrest'⟩ hs
      exact ih (s.step move) hrest hrest' (hs.step hmove hunobserved)
  refine (hrun moves _ hmoves hunobserved ?_).kept
  exact {
    run := hstart.taskRun (Mem.commanded_after maxDeliveries h)
    alone := fun _ _ => rfl
    idle := fun _ => .inr hstart.awaits
    busy := fun _ hget => nomatch hget }

/-- A handler that returns after as many heartbeats. -/
def returningUser (beats : Nat) : UserCode JsonText
  | .handler _ _ => .ok ⟨beats, .returned .null⟩
  | .decode _ value => .ok value
  | _ => .error (.error "No user code")

/-- A worker with the task. -/
def taskWorker : ExecutionWorkerInput where
  workerId := "worker"
  tasks := [⟨{ name := "t", input := ⟨"in"⟩, output := ⟨"out"⟩ }⟩]

/-- The run is cancelled while its handler runs. -/
def cancelledTaskMoves (beats later : Nat) : List (ExecutionMove JsonText) :=
  [.claim "a" taskWorker] ++
  List.replicate 3 (.resume "a" (returningUser beats)) ++
  [.other (.store (.requestRunCancellation "run-1")),
    .other (.executor (.enqueue ⟨"run-1", "t"⟩ none))] ++
  List.replicate later (.resume "a" (returningUser beats))

theorem started_startedTask : (Mem.after none Mem.startedTaskHistory).Started "run-1" "t" where
  stored := ⟨_, rfl, by decide⟩
  named e he _ := by
    obtain rfl := List.mem_singleton.mp (Multiset.mem_coe.mp he)
    exact ⟨rfl, rfl, rfl, rfl⟩
  awaits := by
    refine ⟨"attempt-2", ⟨_, Multiset.mem_coe.mpr (List.mem_singleton.mpr rfl), rfl, rfl⟩, ?_⟩
    exact ⟨_, _, rfl, by decide, rfl, rfl, by decide, .inl (by decide)⟩

/-- Without a heartbeat after the request the attempt completes its run. -/
theorem cancellation_kept_completed :
    let s := Trace.run step (idle (Mem.after none Mem.startedTaskHistory)) (cancelledTaskMoves 0 7)
    (s.mem.runs.get? "run-1").map StoredRun.status = some .completed ∧
      s.mem.CancellationKept "run-1" [] :=
  ⟨by decide, cancellation_kept none (by decide) started_startedTask "a" []
    ⟨⟨rfl, by decide⟩, trivial, trivial, trivial, .inl (.inl rfl), .inl (.inr rfl), trivial,
      trivial, trivial, trivial, trivial, trivial, trivial, trivial⟩ (by decide)⟩

/-- A heartbeat observes the cancellation and the worker acknowledges its command: the run stays
`cancelling`, and the wake-up is for a workflow that no worker has. -/
theorem not_cancellationKept :
    let s := Trace.run step (idle (Mem.after none Mem.startedTaskHistory)) (cancelledTaskMoves 1 2)
    (s.mem.runs.get? "run-1").map StoredRun.status = some .cancelling ∧
      ¬ s.mem.CancellationKept "run-1" [] := by decide

end Execution

end Neemata.Workflows
