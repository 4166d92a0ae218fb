import Neemata.Workflows.Worker.Attempt

/-!
# When a worker lets go of a task run

The execution of a command of a task run follows a protocol (`execute_follows`): it acknowledges its
command only once the run is closed or the command of another attempt is in the queue. A run is
closed when it is terminal, and here also when a heartbeat has found it to be `cancelling`.
-/

namespace Neemata.Workflows

variable {V : Type}

def TASK_RUN_NODE_NAME : String := "$task"

def AttemptTarget.isTask : AttemptTarget → Bool
  | .task _ _ => true
  | .activity _ => false

/-- The command is for the child of a task run with that workflow name. -/
structure AttemptCommand.IsTaskOf (workflowName : String) (command : AttemptCommand V) : Prop where
  target : command.target.isTask
  workflowName : command.workflowName = workflowName
  nodeName : command.nodeName = TASK_RUN_NODE_NAME
  childKey : command.childKey = SELF_CHILD_KEY

/-- The handler throws the error that the worker keeps for an observed cancellation. -/
def Race.throwsObserved {timed : Bool} (race : Race V timed) : Bool :=
  match race.finish with
  | .threw error => isAttemptCancellationObserved error
  | _ => false

def throwsObserved {timed : Bool} : Except (Thrown V) (Race V timed) → Bool
  | .ok race => race.throwsObserved
  | .error error => isAttemptCancellationObserved error

/-! ## The protocol -/

/-- How far a delivery has come: it has read nothing, it has found its attempt to be current and
started or current and settled, it has created the next attempt, another attempt is current and its
command dispatched, the run is closed. `absurd` follows an answer the runtime never gives. -/
inductive CancelPhase (V : Type)
  | start
  | fresh
  | settled
  | created (next : StoredAttempt V)
  | replaced
  | closed
  | absurd

namespace CancelPhase

/-- A delivery that stops in this phase leaves the run with somebody else. -/
def mayStop : CancelPhase V → Bool
  | .start | .created _ => false
  | _ => true

/-- What the beginning of a delivery finds in the snapshot of its run. -/
def afterLoad (workflowName : String) (command : AttemptCommand V) :
    Option (RunSnapshot V) → CancelPhase V
  | none => .closed
  | some snapshot =>
    if isTerminalRunStatus snapshot.run.status then .closed
    else
      match storedChildOf command (some snapshot), storedAttemptOf command (some snapshot) with
      | none, _ => .closed
      | some child, storedAttempt =>
        if isFreshAttempt command (some child) storedAttempt then
          if snapshot.run.kind = .task ∧ snapshot.run.workflowName = workflowName then .fresh
          else .absurd
        else if child.currentAttemptId ≠ some command.attemptId then .replaced
        else if storedAttempt.any fun attempt =>
            attempt.status = .completed || isFailedAttemptStatus attempt.status then .settled
        else .closed

/-- What a read of the run says about it later on. -/
def afterReload (runId workflowName : String) (phase : CancelPhase V) (loaded : String) :
    Option (RunSnapshot V) → CancelPhase V
  | none => if loaded = runId then .closed else phase
  | some snapshot =>
    if loaded = runId ∧ (snapshot.run.kind ≠ .task ∨ snapshot.run.workflowName ≠ workflowName) then
      .absurd
    else phase

def afterSettlement : Except (Thrown V) (Option (StoredAttempt V)) → CancelPhase V
  | .ok (some _) => .settled
  | _ => .closed

def afterHeartbeat (phase : CancelPhase V) : Except (Thrown V) RuntimeRunStatus → CancelPhase V
  | .ok status => if status = .cancelling ∨ isTerminalRunStatus status then .closed else phase
  | .error _ => phase

variable (runId workflowName : String) (claimed : Claimed (AttemptCommand V))

def mayPerform (phase : CancelPhase V) : PassOp V → Prop
  | .store (.loadRunSnapshot loaded) => phase = .start → loaded = runId
  | .store (.completeCurrentAttempt attemptId leaseToken _)
  | .store (.failCurrentAttempt attemptId leaseToken _)
  | .store (.timeoutCurrentAttempt attemptId leaseToken _) =>
    phase = .fresh ∧ attemptId = claimed.command.attemptId ∧
      leaseToken = claimed.command.leaseToken
  | .store (.completeNodeChild _ _ _ _) | .store (.failNodeChild _ _ _ _) => phase = .settled
  | .store (.completeNode _ _ _) | .store (.failNode _ _ _) => phase.mayStop
  | .store (.markRunRunning _) => phase = .fresh
  | .store (.completeRun ended _) | .store (.failRun ended _) => phase = .settled ∧ ended = runId
  | .store (.createAttempt params) => phase = .settled ∧ params.runId = claimed.command.runId ∧
    params.nodeName = claimed.command.nodeName ∧ params.childKey = claimed.command.childKey
  | .store _ => False
  | .executor (.enqueue command _) =>
    phase.mayStop ∧ (command.runId = runId → command.workflowName = workflowName)
  | .executor (.dispatch command _) =>
    ∃ next, phase = .created next ∧ command = retryCommand claimed.command next
  | .executor (.heartbeat held _) => phase = .fresh ∧ held = claimed
  | .executor (.ackAttempt held) => (phase = .closed ∨ phase = .replaced) ∧ held = claimed
  | .executor (.releaseAttempt held _) => phase.mayStop ∧ held = claimed
  | .executor _ => False
  | .callback _ | .dateNow => phase ≠ .start

def next (phase : CancelPhase V) : (op : PassOp V) → op.Ret → CancelPhase V
  | .store (.loadRunSnapshot loaded), answer =>
    match phase, answer with
    | .start, .ok snapshot => afterLoad workflowName claimed.command snapshot
    | phase, .ok snapshot => phase.afterReload runId workflowName loaded snapshot
    | _, .error _ => .absurd
  | .store (.completeCurrentAttempt _ _ _), answer => afterSettlement answer
  | .store (.failCurrentAttempt _ _ _), answer => afterSettlement answer
  | .store (.timeoutCurrentAttempt _ _ _), answer => afterSettlement answer
  | .store (.completeRun _ _), _ => .closed
  | .store (.failRun _ _), _ => .closed
  | .store (.createAttempt _), answer =>
    match answer with
    | .ok attempt => .created attempt
    | .error _ => phase
  | .executor (.dispatch _ _), answer =>
    match answer with
    | .ok _ => .replaced
    | .error _ => .absurd
  | .executor (.heartbeat _ _), answer => phase.afterHeartbeat answer
  | .callback (.handler _ _), answer => if throwsObserved answer then .absurd else phase
  | _, _ => phase

end CancelPhase

def cancelProtocol (runId workflowName : String) (claimed : Claimed (AttemptCommand V)) :
    Program.Protocol (PassOp.Ret (V := V)) (CancelPhase V) where
  allowed phase op := phase = .absurd ∨ phase.mayPerform runId workflowName claimed op
  advance
    | .absurd, _, _ => .absurd
    | phase, op, answer => phase.next runId workflowName claimed op answer
  mayHalt phase := phase = .absurd

section

variable {runId workflowName : String} {claimed : Claimed (AttemptCommand V)} {α β : Type}

/-! ## Passes that stay in their phase -/

/-- From the phase on the pass keeps to the protocol and ends where it may stop. -/
def Stops (runId workflowName : String) (claimed : Claimed (AttemptCommand V))
    (phase : CancelPhase V) (pass : Pass V α) : Prop :=
  Program.Obeys (cancelProtocol runId workflowName claimed) phase pass
    fun phase' _ => phase'.mayStop

/-- The pass keeps to the protocol and ends in the phase it starts in, or in no possible one. -/
def Stays (runId workflowName : String) (claimed : Claimed (AttemptCommand V))
    (phase : CancelPhase V) (pass : Pass V α) : Prop :=
  Program.Obeys (cancelProtocol runId workflowName claimed) phase pass
    fun phase' _ => phase' = phase ∨ phase' = .absurd

/-- In no possible phase everything may follow. -/
theorem obeys_absurd {pass : Pass V α} {post : CancelPhase V → Except (Thrown V) α → Prop}
    (hpost : ∀ result, post .absurd result) :
    Program.Obeys (cancelProtocol runId workflowName claimed) .absurd pass post := by
  unfold Program.Obeys
  induction pass.run with
  | pure result => exact hpost result
  | halt => rfl
  | perform op next ih => exact ⟨.inl rfl, ih⟩

namespace Stays

variable {phase : CancelPhase V}

theorem pure (result : α) : Stays runId workflowName claimed phase (pure result : Pass V α) :=
  Program.obeys_pure (.inl rfl)

theorem bind {pass : Pass V α} {f : α → Pass V β}
    (h : Stays runId workflowName claimed phase pass)
    (hf : ∀ result, Stays runId workflowName claimed phase (f result)) :
    Stays runId workflowName claimed phase (pass >>= f) := by
  refine Program.Obeys.bind h ?_ fun _ _ hphase => hphase
  rintro phase' result (rfl | rfl)
  · exact hf result
  · exact obeys_absurd fun _ => .inr rfl

theorem stops {pass : Pass V α} (h : Stays runId workflowName claimed phase pass)
    (hphase : phase.mayStop) : Stops runId workflowName claimed phase pass := by
  refine Program.Obeys.mono h fun phase' _ hsame => ?_
  obtain rfl | rfl := hsame
  · exact hphase
  · rfl

/-- A pass that stays, then one that stops. -/
theorem bind_stops {pass : Pass V α} {f : α → Pass V β}
    (h : Stays runId workflowName claimed phase pass) (hphase : phase.mayStop)
    (hf : ∀ result, Stops runId workflowName claimed phase (f result)) :
    Stops runId workflowName claimed phase (pass >>= f) := by
  refine Program.Obeys.bind h ?_ ?_
  · rintro phase' result (rfl | rfl)
    · exact hf result
    · exact obeys_absurd fun _ => rfl
  · rintro phase' error (rfl | rfl)
    · exact hphase
    · rfl

end Stays

theorem Stops.assoc {γ : Type} {phase : CancelPhase V} {pass : Pass V α} {f : α → Pass V β}
    {g : β → Pass V γ}
    (h : Stops runId workflowName claimed phase (pass >>= fun result => f result >>= g)) :
    Stops runId workflowName claimed phase ((pass >>= f) >>= g) := by
  rw [bind_assoc]
  exact h

theorem stays_enqueue {phase : CancelPhase V} (hphase : phase.mayStop)
    {command : ContinueRunCommand}
    (hcommand : command.runId = runId → command.workflowName = workflowName)
    (runAt : Option Nat) :
    Stays runId workflowName claimed phase (executor (.enqueue command runAt)) := by
  refine ⟨.inr ⟨hphase, hcommand⟩, fun _ => ?_⟩
  cases phase <;> exact .inl rfl

theorem stays_release {phase : CancelPhase V} (hphase : phase.mayStop)
    (options : CommandReleaseOptions V) :
    Stays runId workflowName claimed phase (executor (.releaseAttempt claimed options)) := by
  refine ⟨.inr ⟨hphase, rfl⟩, fun _ => ?_⟩
  cases phase <;> exact .inl rfl

theorem stays_ackTerminalAttempt {phase : CancelPhase V}
    (hphase : phase = .closed ∨ phase = .replaced) :
    Stays runId workflowName claimed phase (ackTerminalAttempt claimed) := by
  refine Stays.bind ⟨.inr ⟨hphase, rfl⟩, fun _ => ?_⟩ fun _ => .pure _
  obtain rfl | rfl := hphase <;> exact .inl rfl

theorem stays_releaseUnroutable {phase : CancelPhase V} (hphase : phase.mayStop)
    (message : String) :
    Stays runId workflowName claimed phase (releaseUnroutable claimed message) :=
  (stays_release hphase _).bind fun _ => .pure _

theorem stays_completeNode {phase : CancelPhase V} (hphase : phase.mayStop) (run nodeName : String)
    (output : V) :
    Stays runId workflowName claimed phase (workflowStore (.completeNode run nodeName output)) := by
  refine ⟨.inr hphase, fun _ => ?_⟩
  cases phase <;> exact .inl rfl

theorem stays_failNode {phase : CancelPhase V} (hphase : phase.mayStop) (run nodeName : String)
    (error : Thrown V) :
    Stays runId workflowName claimed phase (workflowStore (.failNode run nodeName error)) := by
  refine ⟨.inr hphase, fun _ => ?_⟩
  cases phase <;> exact .inl rfl

/-- What a later read of a run finds: an impossible answer, that the run is gone, or the run. -/
theorem afterReload_cases (phase : CancelPhase V) (loaded : String)
    (snapshot : Option (RunSnapshot V)) :
    let phase' := phase.afterReload runId workflowName loaded snapshot
    phase' = .absurd ∨ phase' = .closed ∧ snapshot = none ∨
      phase' = phase ∧ (loaded = runId → ∃ found, snapshot = some found ∧
        found.run.kind = .task ∧ found.run.workflowName = workflowName) := by
  intro phase'
  change phase.afterReload runId workflowName loaded snapshot = _ ∨
    phase.afterReload runId workflowName loaded snapshot = _ ∧ _ ∨
      phase.afterReload runId workflowName loaded snapshot = _ ∧ _
  unfold CancelPhase.afterReload
  split
  · split
    · exact .inr (.inl ⟨rfl, rfl⟩)
    · next hother => exact .inr (.inr ⟨rfl, fun hown => absurd hown hother⟩)
  · next found =>
    split
    · exact .inl rfl
    · next hown =>
      refine .inr (.inr ⟨rfl, fun hsame => ⟨found, rfl, ?_⟩⟩)
      simpa only [hsame, true_and, not_or, not_not] using hown

/-- A later read of a run. -/
theorem obeys_reload {phase : CancelPhase V} (hphase : phase = .closed ∨ phase = .settled)
    (loaded : String) :
    Program.Obeys (cancelProtocol runId workflowName claimed) phase
      (workflowStore (.loadRunSnapshot loaded)) fun phase' result =>
        phase' = .absurd ∨ phase' = .closed ∧ result = .ok none ∨
          phase' = phase ∧ ∃ snapshot, result = .ok snapshot ∧
            (loaded = runId → ∃ found, snapshot = some found ∧
              found.run.kind = .task ∧ found.run.workflowName = workflowName) := by
  have hstart : phase ≠ .start := by
    rintro rfl
    simp at hphase
  refine ⟨.inr fun h => absurd h hstart, fun answer => ?_⟩
  cases answer with
  | error error =>
    left
    obtain rfl | rfl := hphase <;> rfl
  | ok snapshot =>
    have hcases := @afterReload_cases V runId workflowName phase loaded snapshot
    have hadvance : (cancelProtocol runId workflowName claimed).advance phase
        (.store (.loadRunSnapshot loaded)) (.ok snapshot) =
          phase.afterReload runId workflowName loaded snapshot := by
      obtain rfl | rfl := hphase <;> rfl
    rw [← hadvance] at hcases
    obtain habsurd | ⟨hclosed, rfl⟩ | ⟨hsame, hfound⟩ := hcases
    · exact .inl habsurd
    · exact .inr (.inl ⟨hclosed, rfl⟩)
    · exact .inr (.inr ⟨hsame, snapshot, rfl, hfound⟩)

/-- Waking the parent: if the run is its own parent the wake-up carries its own name. -/
theorem stays_wakeParentRun (run : Option (StoredRun V)) :
    Stays runId workflowName claimed .closed (wakeParentRun run) := by
  unfold wakeParentRun
  split
  · split
    · exact .pure _
    · refine Program.Obeys.bind (obeys_reload (.inl rfl) _) ?_ ?_
      · rintro phase parent (rfl | ⟨rfl, hnone⟩ | ⟨rfl, snapshot, hsnapshot, hfound⟩)
        · exact obeys_absurd fun _ => .inr rfl
        · obtain rfl : parent = none := Except.ok.inj hnone
          exact Stays.pure _
        · obtain rfl : parent = snapshot := Except.ok.inj hsnapshot
          cases parent with
          | none => exact Stays.pure _
          | some parent =>
            refine stays_enqueue rfl (fun hown => ?_) none
            obtain ⟨found, hparent, -, hname⟩ := hfound hown
            obtain rfl := Option.some.inj hparent
            exact hname
      · rintro phase error (rfl | ⟨-, hnone⟩ | ⟨-, _, hsnapshot, -⟩)
        · exact .inr rfl
        · cases hnone
        · cases hsnapshot
  · exact .pure _

/-! ## The completion of a task run -/

theorem stops_closed_ack {pass : Pass V α}
    (h : Stays runId workflowName claimed .closed pass) :
    Stops runId workflowName claimed .closed (pass >>= fun _ => ackTerminalAttempt claimed) :=
  h.bind_stops rfl fun _ => (stays_ackTerminalAttempt (.inl rfl)).stops rfl

/-- Settling the run closes it. -/
theorem stops_settleRun {settle : Pass V (Option (StoredRun V))}
    (hsettle : Program.Obeys (cancelProtocol runId workflowName claimed) .settled settle
      fun phase _ => phase = .closed) :
    Stops runId workflowName claimed .settled (do
      let run ← settle
      wakeParentRun run
      ackTerminalAttempt claimed) := by
  refine Program.Obeys.bind hsettle ?_ ?_
  · rintro _ run rfl
    exact stops_closed_ack (stays_wakeParentRun run)
  · rintro _ _ rfl
    rfl

theorem obeys_completeRun (output : V) :
    Program.Obeys (cancelProtocol runId workflowName claimed) .settled
      (workflowStore (.completeRun runId output)) fun phase _ => phase = .closed :=
  ⟨.inr ⟨rfl, rfl⟩, fun _ => rfl⟩

theorem obeys_failRun (error : Thrown V) :
    Program.Obeys (cancelProtocol runId workflowName claimed) .settled
      (workflowStore (.failRun runId error)) fun phase _ => phase = .closed :=
  ⟨.inr ⟨rfl, rfl⟩, fun _ => rfl⟩

/-- A store operation of the completion path on the child. -/
theorem stays_completeNodeChild (run nodeName key : String) (output : V) :
    Stays runId workflowName claimed .settled
      (workflowStore (.completeNodeChild run nodeName key output)) :=
  ⟨.inr rfl, fun _ => .inl rfl⟩

theorem stays_failNodeChild (run nodeName key : String) (error : Thrown V) :
    Stays runId workflowName claimed .settled
      (workflowStore (.failNodeChild run nodeName key error)) :=
  ⟨.inr rfl, fun _ => .inl rfl⟩

theorem stops_completeTaskRun (hrun : claimed.command.runId = runId) (output : V) :
    Stops runId workflowName claimed .settled (completeTaskRun claimed output) := by
  unfold completeTaskRun
  refine (stays_completeNode rfl _ _ _).bind_stops rfl fun _ => ?_
  rw [hrun]
  exact stops_settleRun (obeys_completeRun output)

/-- The path of a command whose run is gone: whatever it still does, it ends with the command. -/
theorem stops_wakeOwnRun (hname : claimed.command.IsTaskOf workflowName) :
    Stops runId workflowName claimed .closed (do
      enqueueContinueRun claimed.command
      ackTerminalAttempt claimed) :=
  stops_closed_ack (stays_enqueue rfl (fun _ => hname.workflowName) none)

/-- What follows when the command's run turns out to be gone, or to be a task run. -/
theorem stops_reload {next : Option (RunSnapshot V) → Pass V α}
    (hnone : Stops runId workflowName claimed .closed (next none))
    (hsome : ∀ found : RunSnapshot V, found.run.kind = .task →
      Stops runId workflowName claimed .settled (next (some found))) :
    Stops runId workflowName claimed .settled
      (workflowStore (.loadRunSnapshot runId) >>= next) := by
  refine Program.Obeys.bind (obeys_reload (.inr rfl) _) ?_ ?_
  · rintro phase snapshot (rfl | ⟨rfl, hsnapshot⟩ | ⟨rfl, loaded, hsnapshot, hfound⟩)
    · exact obeys_absurd fun _ => rfl
    · obtain rfl : snapshot = none := Except.ok.inj hsnapshot
      exact hnone
    · obtain rfl : snapshot = loaded := Except.ok.inj hsnapshot
      obtain ⟨found, rfl, hkind, -⟩ := hfound rfl
      exact hsome found hkind
  · rintro phase error (rfl | ⟨-, hsnapshot⟩ | ⟨-, _, hsnapshot, -⟩)
    · rfl
    · cases hsnapshot
    · cases hsnapshot

theorem stops_replayCompletedAttempt (hrun : claimed.command.runId = runId)
    (hname : claimed.command.IsTaskOf workflowName) (output : V) :
    Stops runId workflowName claimed .settled (replayCompletedAttempt claimed output) := by
  unfold replayCompletedAttempt
  refine (stays_completeNodeChild _ _ _ output).bind_stops rfl fun _ => ?_
  rw [hrun]
  refine stops_reload ?_ fun found hkind => ?_
  · dsimp only [Option.any_none]
    split
    · next h => cases h
    · split
      · exact (stays_completeNode rfl _ _ _).bind_stops rfl fun _ => stops_wakeOwnRun hname
      · exact stops_wakeOwnRun hname
  · rw [Option.any_some, hkind]
    refine (stays_completeNode rfl _ _ _).bind_stops rfl fun _ => ?_
    exact stops_settleRun (obeys_completeRun output)

theorem stops_replayFailedAttempt (hrun : claimed.command.runId = runId)
    (hname : claimed.command.IsTaskOf workflowName) (error : Thrown V) :
    Stops runId workflowName claimed .settled (replayFailedAttempt claimed error) := by
  unfold replayFailedAttempt
  refine (stays_failNodeChild _ _ _ error).bind_stops rfl fun _ => ?_
  rw [hrun]
  refine stops_reload ?_ fun found hkind => ?_
  · dsimp only [Option.any_none]
    split
    · next h => cases h
    · split
      · exact (stays_failNode rfl _ _ _).bind_stops rfl fun _ => stops_wakeOwnRun hname
      · exact stops_wakeOwnRun hname
  · rw [Option.any_some, hkind]
    refine (stays_failNode rfl _ _ _).bind_stops rfl fun _ => ?_
    exact stops_settleRun (obeys_failRun error)

/-! ## The race of an attempt -/

/-- How the handler of a fresh attempt ends: a heartbeat has observed the cancellation, or the
error, if there is one, is another. -/
def RaceOutcome (phase : CancelPhase V) (result : Except (Thrown V) α) : Prop :=
  phase = .absurd ∨ phase = .closed ∧ result = .error .workflowAttemptCancellationObserved ∨
    phase = .fresh ∧ ∀ error, result = .error error → isAttemptCancellationObserved error = false

def Races (runId workflowName : String) (claimed : Claimed (AttemptCommand V)) (pass : Pass V α) :
    Prop :=
  Program.Obeys (cancelProtocol runId workflowName claimed) .fresh pass RaceOutcome

namespace Races

theorem pure (result : α) : Races runId workflowName claimed (pure result : Pass V α) :=
  Program.obeys_pure (.inr (.inr ⟨rfl, fun _ h => nomatch h⟩))

theorem throw {error : Thrown V} (herror : isAttemptCancellationObserved error = false) :
    Races runId workflowName claimed (throw error : Pass V α) := by
  refine Program.obeys_throw (.inr (.inr ⟨rfl, ?_⟩))
  rintro _ ⟨⟩
  exact herror

theorem bind {pass : Pass V α} {f : α → Pass V β} (h : Races runId workflowName claimed pass)
    (hf : ∀ result, Races runId workflowName claimed (f result)) :
    Races runId workflowName claimed (pass >>= f) := by
  refine Program.Obeys.bind h ?_ ?_
  · rintro phase result (rfl | ⟨-, hresult⟩ | ⟨rfl, -⟩)
    · exact obeys_absurd fun _ => .inl rfl
    · cases hresult
    · exact hf result
  · rintro phase error (rfl | ⟨rfl, hresult⟩ | ⟨rfl, herror⟩)
    · exact .inl rfl
    · obtain rfl := Except.error.inj hresult
      exact .inr (.inl ⟨rfl, rfl⟩)
    · refine .inr (.inr ⟨rfl, ?_⟩)
      rintro _ ⟨⟩
      exact herror error rfl

end Races

theorem races_decodeSchemaValue (schema : Schema) (value : V) (label : String) :
    Races runId workflowName claimed (decodeSchemaValue schema value label) := by
  have hdecode : Program.Obeys (cancelProtocol runId workflowName claimed) .fresh
      (userCode (.decode schema value)) fun phase _ => phase = .fresh :=
    ⟨.inr nofun, fun _ => rfl⟩
  refine Program.Obeys.tryCatch hdecode ?_ ?_
  · rintro _ result rfl
    exact .inr (.inr ⟨rfl, fun _ h => nomatch h⟩)
  · rintro _ error rfl
    exact Races.throw rfl

section

variable [JsRuntime V]

omit [JsRuntime V] in
theorem not_observed_of_leaseLost [JsRuntime V] {error : Thrown V}
    (h : isAttemptHeartbeatLeaseLost error) : isAttemptCancellationObserved error = false := by
  cases error with
  | workflowAttemptCancellationObserved =>
    simp [isAttemptHeartbeatLeaseLost, Thrown.isErrorWith, Thrown.message] at h
  | _ => rfl

/-- A heartbeat that finds the run closed ends the race. -/
theorem races_beat (leaseMs : Nat) :
    Races runId workflowName claimed (beat claimed leaseMs) := by
  have hheartbeat : Program.Obeys (cancelProtocol runId workflowName claimed) .fresh
      (executor (.heartbeat claimed (some leaseMs))) fun phase answer =>
        phase = CancelPhase.fresh.afterHeartbeat answer :=
    ⟨.inr ⟨rfl, rfl⟩, fun _ => rfl⟩
  have hstatus : Program.Obeys (cancelProtocol runId workflowName claimed) .fresh
      (tryCatch (some <$> executor (.heartbeat claimed (some leaseMs))) fun error =>
        if isAttemptHeartbeatLeaseLost error then throw error else pure none)
      fun phase result => match result with
        | .ok (some status) => phase = CancelPhase.fresh.afterHeartbeat (.ok status)
        | .ok none => phase = .fresh
        | .error error => phase = .fresh ∧ isAttemptCancellationObserved error = false := by
    have hsome : Program.Obeys (cancelProtocol runId workflowName claimed) .fresh
        (executor (.heartbeat claimed (some leaseMs)) >>= fun status =>
          (pure (some status) : Pass V (Option RuntimeRunStatus)))
        fun phase result => match result with
          | .ok (some status) => phase = CancelPhase.fresh.afterHeartbeat (.ok status)
          | .ok none => False
          | .error _ => phase = .fresh := by
      refine Program.Obeys.bind hheartbeat ?_ fun _ _ hphase => hphase
      rintro _ status rfl
      exact Program.obeys_pure rfl
    rw [map_eq_pure_bind]
    refine Program.Obeys.tryCatch hsome ?_ ?_
    · rintro phase (_ | status) hphase
      · exact hphase.elim
      · exact hphase
    · rintro _ error rfl
      split
      · next hlost => exact Program.obeys_throw ⟨rfl, not_observed_of_leaseLost hlost⟩
      · exact Program.obeys_pure rfl
  refine Program.Obeys.bind hstatus ?_ ?_
  · rintro phase (_ | status) hphase
    · obtain rfl : phase = .fresh := hphase
      exact Races.pure _
    · obtain rfl : phase = CancelPhase.fresh.afterHeartbeat (.ok status) := hphase
      unfold CancelPhase.afterHeartbeat
      simp only [Option.any_some, decide_eq_true_eq, Bool.or_eq_true]
      split
      · exact Program.obeys_throw (.inr (.inl ⟨rfl, rfl⟩))
      · exact Races.pure _
  · rintro phase error ⟨rfl, herror⟩
    refine .inr (.inr ⟨rfl, ?_⟩)
    rintro _ ⟨⟩
    exact herror

theorem races_beats (leaseMs count : Nat) :
    Races runId workflowName claimed (beats claimed leaseMs count) := by
  induction count with
  | zero => exact .pure _
  | succ count ih => exact (races_beat leaseMs).bind fun _ => ih

omit [JsRuntime V] in
theorem races_raceResult {command : AttemptCommand V} {timeoutMs : Option Binary64.Double}
    {race : Race V timeoutMs.isSome} (hrace : race.throwsObserved = false) :
    Races runId workflowName claimed (raceResult command timeoutMs race.finish) := by
  unfold Race.throwsObserved at hrace
  cases timeoutMs with
  | none =>
    cases hfinish : race.finish with
    | returned output => exact .pure _
    | threw error =>
      rw [hfinish] at hrace
      exact .throw hrace
    | shutdown => exact .throw rfl
  | some timeoutMs =>
    cases hfinish : race.finish with
    | returned output => exact .pure _
    | threw error =>
      rw [hfinish] at hrace
      exact .throw hrace
    | timedOut => exact .throw rfl
    | shutdown => exact .throw rfl

theorem races_runWithAttemptHeartbeat (input : ExecutionWorkerInput)
    (timeoutMs : Option Binary64.Double) : Races runId workflowName claimed
      (runWithAttemptHeartbeat input claimed timeoutMs) := by
  have hhandler : Program.Obeys (cancelProtocol runId workflowName claimed) .fresh
      (userCode (.handler claimed.command timeoutMs.isSome)) fun phase answer =>
        phase = .absurd ∨ phase = .fresh ∧ throwsObserved answer = false := by
    refine ⟨.inr nofun, fun answer => ?_⟩
    change (if throwsObserved answer then CancelPhase.absurd else .fresh) = _ ∨
      (if throwsObserved answer then CancelPhase.absurd else .fresh) = _ ∧ _
    cases throwsObserved answer with
    | true => exact .inl rfl
    | false => exact .inr ⟨rfl, rfl⟩
  refine Program.Obeys.bind hhandler ?_ ?_
  · rintro phase race (rfl | ⟨rfl, hrace⟩)
    · exact obeys_absurd fun _ => .inl rfl
    · exact (races_beats _ _).bind fun _ => races_raceResult hrace
  · rintro phase error (rfl | ⟨rfl, herror⟩)
    · exact .inl rfl
    · refine .inr (.inr ⟨rfl, ?_⟩)
      rintro _ ⟨⟩
      exact herror

theorem races_runTaskHandler (input : ExecutionWorkerInput) (timeout : Option String)
    (task : TaskDefinition) : Races runId workflowName claimed
      (runTaskHandler input claimed timeout task) :=
  (races_runWithAttemptHeartbeat input _).bind fun output => races_decodeSchemaValue _ output _

/-! ## The completion path -/

omit [JsRuntime V] in
theorem obeys_settleFailedAttempt (error : Thrown V) :
    Program.Obeys (cancelProtocol runId workflowName claimed) .fresh
      (settleFailedAttempt claimed.command error) fun phase result =>
        phase = .settled ∧ (∃ attempt, result = .ok (some attempt)) ∨
          phase = .closed ∧ ∀ attempt, result ≠ .ok (some attempt) := by
  have hanswer (answer : Except (Thrown V) (Option (StoredAttempt V))) :
      CancelPhase.afterSettlement answer = .settled ∧ (∃ attempt, answer = .ok (some attempt)) ∨
        CancelPhase.afterSettlement answer = .closed ∧ ∀ attempt, answer ≠ .ok (some attempt) := by
    match answer with
    | .ok (some attempt) => exact .inl ⟨rfl, attempt, rfl⟩
    | .ok none | .error _ => exact .inr ⟨rfl, fun _ h => nomatch h⟩
  unfold settleFailedAttempt
  cases isAttemptTimeout error with
  | true | false => exact ⟨.inr ⟨rfl, rfl, rfl⟩, hanswer⟩

omit [JsRuntime V] in
theorem obeys_createAttempt {params : ChildAttemptParams V}
    (hrun : params.runId = claimed.command.runId)
    (hnode : params.nodeName = claimed.command.nodeName)
    (hkey : params.childKey = claimed.command.childKey) :
    Program.Obeys (cancelProtocol runId workflowName claimed) .settled
      (workflowStore (.createAttempt params)) fun phase result => match result with
        | .ok attempt => phase = .created attempt
        | .error _ => phase = .settled := by
  refine ⟨.inr ⟨rfl, hrun, hnode, hkey⟩, fun answer => ?_⟩
  cases answer <;> rfl

omit [JsRuntime V] in
/-- Between the creation of an attempt and the dispatch of its command nothing throws. -/
theorem obeys_retryDispatchOptions {attempt : StoredAttempt V} (retry : Option RetryPolicy)
    (number : Nat) :
    Program.Obeys (cancelProtocol runId workflowName claimed) (.created attempt)
      (retryDispatchOptions retry number) fun phase result =>
        phase = .created attempt ∧ ∃ runAt, result = .ok runAt := by
  unfold retryDispatchOptions
  split
  · exact Program.obeys_pure ⟨rfl, none, rfl⟩
  · have hnow : Program.Obeys (cancelProtocol runId workflowName claimed) (.created attempt)
        dateNow fun phase result => phase = .created attempt ∧ ∃ now, result = .ok now :=
      ⟨.inr nofun, fun now => ⟨rfl, now, rfl⟩⟩
    refine Program.Obeys.bind hnow ?_ ?_
    · rintro phase now ⟨rfl, -⟩
      exact Program.obeys_pure ⟨rfl, _, rfl⟩
    · rintro phase error ⟨-, now, hnow⟩
      cases hnow

omit [JsRuntime V] in
theorem obeys_dispatch (attempt : StoredAttempt V) (runAt : Option Nat) :
    Program.Obeys (cancelProtocol runId workflowName claimed) (.created attempt)
      (executor (.dispatch (retryCommand claimed.command attempt) runAt)) fun phase result =>
        phase = .absurd ∨ phase = .replaced ∧ result = .ok () := by
  refine ⟨.inr ⟨attempt, rfl, rfl⟩, fun answer => ?_⟩
  cases answer with
  | ok => exact .inr ⟨rfl, rfl⟩
  | error => exact .inl rfl

omit [JsRuntime V] in
/-- A retry leaves the next attempt with its command; without one the attempt is still current. -/
theorem obeys_retryAttemptCore (failed : StoredAttempt V) (retry : Option RetryPolicy) :
    Program.Obeys (cancelProtocol runId workflowName claimed) .settled
      (retryAttemptCore claimed.command failed retry) fun phase result =>
        phase = .absurd ∨ phase = .settled ∧ result ≠ .ok true ∨
          phase = .replaced ∧ result = .ok true := by
  unfold retryAttemptCore
  split
  · exact Program.obeys_pure (.inr (.inl ⟨rfl, fun h => nomatch h⟩))
  · refine Program.Obeys.bind (obeys_createAttempt rfl rfl rfl) ?_ ?_
    · rintro _ attempt rfl
      refine Program.Obeys.bind (obeys_retryDispatchOptions retry _) ?_ ?_
      · rintro _ runAt ⟨rfl, -⟩
        refine Program.Obeys.bind (obeys_dispatch attempt runAt) ?_ ?_
        · rintro phase _ (rfl | ⟨rfl, -⟩)
          · exact Program.obeys_pure (.inl rfl)
          · exact Program.obeys_pure (.inr (.inr ⟨rfl, rfl⟩))
        · rintro phase error (rfl | ⟨-, herror⟩)
          · exact .inl rfl
          · cases herror
      · rintro _ error ⟨-, runAt, hrunAt⟩
        cases hrunAt
    · rintro _ error rfl
      exact .inr (.inl ⟨rfl, fun h => nomatch h⟩)

omit [JsRuntime V] in
/-- Failing the run of a task closes it. -/
theorem stops_failNodeFromAttempt (hrun : claimed.command.runId = runId) (error : Thrown V) :
    Stops runId workflowName claimed .settled (do
      failNodeFromAttempt claimed.command .task error
      ackTerminalAttempt claimed) := by
  have hfail : Stops runId workflowName claimed .settled
      (workflowStore (.failRun claimed.command.runId error) >>= fun failed => do
        wakeParentRun failed
        ackTerminalAttempt claimed) := by
    rw [hrun]
    exact stops_settleRun (obeys_failRun error)
  unfold failNodeFromAttempt
  refine .assoc ((stays_failNodeChild _ _ _ error).bind_stops rfl fun _ => ?_)
  dsimp only
  split
  · exact .assoc ((stays_failNode rfl _ _ _).bind_stops rfl fun _ => .assoc hfail)
  · exact .assoc hfail

omit [JsRuntime V] in
theorem stops_completeFailedAttempt (hrun : claimed.command.runId = runId)
    (retry : Option RetryPolicy) (error : Thrown V) :
    Stops runId workflowName claimed .fresh (completeFailedAttempt claimed .task retry error) := by
  unfold completeFailedAttempt
  refine Program.Obeys.bind (obeys_settleFailedAttempt error) ?_ ?_
  · rintro phase attempt (⟨rfl, failed, hfailed⟩ | ⟨rfl, hnone⟩)
    · obtain rfl : attempt = some failed := Except.ok.inj hfailed
      refine Program.Obeys.bind (obeys_retryAttemptCore failed retry) ?_ ?_
      · rintro phase retried (rfl | ⟨rfl, hretried⟩ | ⟨rfl, hretried⟩)
        · exact obeys_absurd fun _ => rfl
        · obtain rfl : retried = false := by
            cases retried with
            | false => rfl
            | true => exact absurd rfl hretried
          exact stops_failNodeFromAttempt hrun error
        · obtain rfl : retried = true := Except.ok.inj hretried
          exact (stays_ackTerminalAttempt (.inr rfl)).stops rfl
      · rintro phase thrown (rfl | ⟨rfl, -⟩ | ⟨-, hretried⟩)
        · rfl
        · rfl
        · cases hretried
    · cases attempt with
      | none => exact (stays_ackTerminalAttempt (.inl rfl)).stops rfl
      | some attempt => exact absurd rfl (hnone attempt)
  · rintro phase thrown (⟨-, failed, hfailed⟩ | ⟨rfl, -⟩)
    · cases hfailed
    · rfl

omit [JsRuntime V] in
theorem stops_completeAttempt (hrun : claimed.command.runId = runId) (output : V) :
    Stops runId workflowName claimed .fresh
      (completeAttempt claimed output (completeTaskRun claimed output)) := by
  have hcomplete : Program.Obeys (cancelProtocol runId workflowName claimed) .fresh
      (workflowStore (.completeCurrentAttempt claimed.command.attemptId
        claimed.command.leaseToken output))
      fun phase result => phase = CancelPhase.afterSettlement result :=
    ⟨.inr ⟨rfl, rfl, rfl⟩, fun _ => rfl⟩
  unfold completeAttempt
  refine Program.Obeys.bind hcomplete ?_ ?_
  · rintro _ attempt rfl
    cases attempt with
    | none => exact (stays_ackTerminalAttempt (.inl rfl)).stops rfl
    | some attempt => exact stops_completeTaskRun hrun output
  · rintro _ error rfl
    rfl

theorem stops_completeByResult (hrun : claimed.command.runId = runId) {run : Pass V V}
    (hrace : Races runId workflowName claimed run) (retry : Option RetryPolicy) :
    Stops runId workflowName claimed .fresh
      (completeByResult claimed run .task retry fun output => completeTaskRun claimed output) := by
  have hresult : Program.Obeys (cancelProtocol runId workflowName claimed) .fresh
      (tryCatch (Except.ok <$> run) fun error => pure (.error error)) fun phase result =>
        match result with
        | .ok result => RaceOutcome phase result
        | .error _ => False := by
    rw [map_eq_pure_bind]
    have hok : Program.Obeys (cancelProtocol runId workflowName claimed) .fresh
        (run >>= fun output => (pure (.ok output) : Pass V (Except (Thrown V) V)))
        fun phase result => match result with
          | .ok result => RaceOutcome phase result
          | .error error => RaceOutcome phase (.error error : Except (Thrown V) V) :=
      Program.Obeys.bind hrace (fun _ _ hphase => Program.obeys_pure hphase)
        fun _ _ hphase => hphase
    exact Program.Obeys.tryCatch hok (fun _ _ hphase => hphase)
      fun _ _ hphase => Program.obeys_pure hphase
  unfold completeByResult
  refine Program.Obeys.bind hresult ?_ fun _ _ h => h.elim
  rintro phase result (rfl | ⟨rfl, rfl⟩ | ⟨rfl, herror⟩)
  · exact obeys_absurd fun _ => rfl
  · exact (stays_ackTerminalAttempt (.inl rfl)).stops rfl
  · cases result with
    | ok output => exact stops_completeAttempt hrun output
    | error error =>
      dsimp only
      split
      · exact Program.obeys_throw rfl
      · rw [herror error rfl]
        exact stops_completeFailedAttempt hrun retry error

/-! ## The execution -/

omit [JsRuntime V] in
/-- What reconciling starts from, by the records it finds. -/
theorem afterLoad_stale {command : AttemptCommand V} {snapshot : RunSnapshot V}
    (hlive : isTerminalRunStatus snapshot.run.status = false)
    (hstale : isFreshAttempt command (storedChildOf command (some snapshot))
      (storedAttemptOf command (some snapshot)) = false) :
    CancelPhase.afterLoad workflowName command (some snapshot) =
      match storedChildOf command (some snapshot) with
      | none => .closed
      | some child =>
        if child.currentAttemptId ≠ some command.attemptId then .replaced
        else if (storedAttemptOf command (some snapshot)).any fun attempt =>
            attempt.status = .completed || isFailedAttemptStatus attempt.status then .settled
        else .closed := by
  simp only [CancelPhase.afterLoad, hlive, Bool.false_eq_true, if_false]
  cases hchild : storedChildOf command (some snapshot) with
  | none => rfl
  | some child =>
    rw [hchild] at hstale
    simp only [hstale, Bool.false_eq_true, if_false]

omit [JsRuntime V] in
theorem afterLoad_fresh {command : AttemptCommand V} {snapshot : RunSnapshot V}
    (hlive : isTerminalRunStatus snapshot.run.status = false)
    (hfresh : isFreshAttempt command (storedChildOf command (some snapshot))
      (storedAttemptOf command (some snapshot))) :
    CancelPhase.afterLoad workflowName command (some snapshot) =
      if snapshot.run.kind = .task ∧ snapshot.run.workflowName = workflowName then .fresh
      else .absurd := by
  simp only [CancelPhase.afterLoad, hlive, Bool.false_eq_true, if_false]
  cases hchild : storedChildOf command (some snapshot) with
  | none =>
    rw [hchild] at hfresh
    cases hfresh
  | some child =>
    rw [hchild] at hfresh
    simp only [hfresh, if_true]

theorem stops_reconcileStaleAttempt (hrun : claimed.command.runId = runId)
    (hname : claimed.command.IsTaskOf workflowName) {snapshot : RunSnapshot V}
    (hlive : isTerminalRunStatus snapshot.run.status = false)
    (hstale : isFreshAttempt claimed.command (storedChildOf claimed.command (some snapshot))
      (storedAttemptOf claimed.command (some snapshot)) = false) :
    Stops runId workflowName claimed
      (CancelPhase.afterLoad workflowName claimed.command (some snapshot))
      (reconcileStaleAttempt claimed (storedChildOf claimed.command (some snapshot))
        (storedAttemptOf claimed.command (some snapshot))) := by
  rw [afterLoad_stale hlive hstale]
  -- the end of a delivery that has nothing to repair
  have hend {phase : CancelPhase V} (hphase : phase = .closed ∨ phase = .replaced) (wake : Prop)
      [Decidable wake] : Stops runId workflowName claimed phase (do
        if wake then enqueueContinueRun claimed.command
        ackTerminalAttempt claimed) := by
    have hstop : phase.mayStop := by obtain rfl | rfl := hphase <;> rfl
    have hack : Stops runId workflowName claimed phase (ackTerminalAttempt claimed) :=
      (stays_ackTerminalAttempt hphase).stops hstop
    split
    · exact (stays_enqueue hstop (fun _ => hname.workflowName) none).bind_stops hstop fun _ => hack
    · exact hack
  unfold reconcileStaleAttempt
  cases storedChildOf claimed.command (some snapshot) with
  | none => exact (stays_ackTerminalAttempt (.inl rfl)).stops rfl
  | some child =>
    cases storedAttemptOf claimed.command (some snapshot) with
    | none =>
      dsimp only [Option.any_none]
      split
      · exact (stays_ackTerminalAttempt (.inr rfl)).stops rfl
      · exact (stays_ackTerminalAttempt (.inl rfl)).stops rfl
    | some attempt =>
      dsimp only [Option.any_some]
      by_cases hcurrent : child.currentAttemptId = some claimed.command.attemptId
      · rw [if_neg (not_not.mpr hcurrent)]
        by_cases hcompleted : attempt.status = .completed
        · rw [if_pos (by simp [hcompleted]), if_pos (by simp [hcurrent, hcompleted])]
          exact stops_replayCompletedAttempt hrun hname _
        · rw [if_neg (c := (decide _ && decide _) = true) (by simp [hcompleted])]
          by_cases hfailed : isFailedAttemptStatus attempt.status
          · rw [if_pos (by simp [hfailed]), if_pos (by simp [hcurrent, hfailed])]
            exact stops_replayFailedAttempt hrun hname _
          · rw [if_neg (by simp [hcompleted, hfailed]), if_neg (by simp [hfailed])]
            exact hend (.inl rfl) _
      · rw [if_pos hcurrent, if_neg (by simp [hcurrent]), if_neg (by simp [hcurrent])]
        exact hend (.inr rfl) _

/-- The beginning of a delivery, with what follows for a fresh attempt of the task run. -/
theorem stops_withFreshAttempt (hrun : claimed.command.runId = runId)
    (hname : claimed.command.IsTaskOf workflowName)
    {body : RunSnapshot V → Pass V WorkerCommandResult}
    (hbody : ∀ snapshot, snapshot.run.kind = .task →
      Stops runId workflowName claimed .fresh (body snapshot)) :
    Stops runId workflowName claimed .start (withFreshAttempt claimed body) := by
  have hload : Program.Obeys (cancelProtocol runId workflowName claimed) .start
      (workflowStore (.loadRunSnapshot claimed.command.runId)) fun phase result =>
        match result with
        | .ok snapshot => phase = CancelPhase.afterLoad workflowName claimed.command snapshot
        | .error _ => phase = .absurd := by
    refine ⟨.inr fun _ => hrun, fun answer => ?_⟩
    cases answer <;> rfl
  refine Program.Obeys.bind hload ?_ ?_
  · rintro _ (_ | snapshot) rfl
    · exact (stays_ackTerminalAttempt (.inl rfl)).stops rfl
    · dsimp only [Option.any_some]
      by_cases hterminal : isTerminalRunStatus snapshot.run.status
      · have hclosed : CancelPhase.afterLoad workflowName claimed.command (some snapshot) =
            .closed := by
          simp only [CancelPhase.afterLoad, hterminal, if_true]
        rw [hclosed, if_pos hterminal]
        exact (stays_ackTerminalAttempt (.inl rfl)).stops rfl
      · have hlive : isTerminalRunStatus snapshot.run.status = false := by simpa using hterminal
        rw [if_neg hterminal]
        split
        · next hstale =>
          exact stops_reconcileStaleAttempt hrun hname hlive (by simpa using hstale)
        · next hstale =>
          rw [afterLoad_fresh hlive (by simpa using hstale)]
          split
          · next htask =>
            rw [Option.filter_some, if_pos (by simp [htask.2, hname.workflowName])]
            exact hbody snapshot htask.1
          · exact obeys_absurd fun _ => rfl
  · rintro _ error rfl
    rfl

theorem stops_runTaskAttempt (hrun : claimed.command.runId = runId)
    (hname : claimed.command.IsTaskOf workflowName) (input : ExecutionWorkerInput)
    {taskName : String} {timeout : Option String}
    (htarget : claimed.command.target = .task taskName timeout) :
    Stops runId workflowName claimed .start (runTaskAttempt input claimed) := by
  unfold runTaskAttempt
  rw [htarget]
  refine stops_withFreshAttempt hrun hname fun snapshot hkind => ?_
  refine Program.Obeys.bind (createImplementationMap_obeys (P := fun _ _ => True) .empty
    fun _ _ => trivial) ?_ ?_
  · rintro _ tasks ⟨rfl, -⟩
    cases tasks.get? taskName with
    | none => exact (stays_releaseUnroutable rfl _).stops rfl
    | some task =>
      have hrace : Races runId workflowName claimed
          (runTaskHandler input claimed timeout task.task) :=
        races_runTaskHandler input timeout task.task
      have hcomplete := stops_completeByResult hrun hrace task.task.retry
      have hmark : Stays runId workflowName claimed .fresh
          (workflowStore (.markRunRunning claimed.command.runId)) :=
        ⟨.inr rfl, fun _ => .inl rfl⟩
      dsimp only
      rw [hkind, if_pos rfl]
      exact hmark.bind_stops rfl fun _ => hcomplete
  · rintro _ _ ⟨rfl, -⟩
    rfl

/-- An execution of a command of the task run keeps to the protocol from its first phase on. -/
theorem execute_follows (hrun : claimed.command.runId = runId)
    (hname : claimed.command.IsTaskOf workflowName) (input : ExecutionWorkerInput) :
    Stops runId workflowName claimed .start (input.execute claimed) := by
  obtain ⟨taskName, timeout, htarget⟩ :
      ∃ taskName timeout, claimed.command.target = .task taskName timeout := by
    cases htarget : claimed.command.target with
    | task taskName timeout => exact ⟨taskName, timeout, rfl⟩
    | activity activityName =>
      have htask := hname.target
      rw [htarget] at htask
      cases htask
  have hattempt : Stops runId workflowName claimed .start (input.runAttempt claimed) := by
    unfold ExecutionWorkerInput.runAttempt
    rw [htarget]
    exact stops_runTaskAttempt hrun hname input htarget
  have hresult : Stops runId workflowName claimed .start (input.runAttempt claimed >>= fun result =>
      (pure (decide (result = .processed)) : Pass V Bool)) :=
    Program.Obeys.bind hattempt (fun _ _ hphase => Program.obeys_pure hphase) fun _ _ h => h
  refine Program.Obeys.tryCatch hresult (fun _ _ h => h) fun phase error hphase => ?_
  split
  · exact (stays_release hphase _).bind_stops hphase fun _ => Program.obeys_pure hphase
  · exact (stays_release hphase _).bind_stops hphase fun _ => Program.obeys_throw hphase

end

end

end Neemata.Workflows
