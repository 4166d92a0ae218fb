import Neemata.Workflows.JsonText
import Neemata.Workflows.Postgres.Queue

/-!
# The dedup index of continue commands

A continue row is in `workflow_commands_continue_dedup_idx` while its lease token is `NULL`. A
release and a revival bring a row back into the index, and fail exactly when another row of the
run is there already (`releases_succeed_iff`). An enqueue updates the row that is there, and is
lost exactly when that row is dead (`enqueues_wake_iff`).
-/

namespace Neemata.Workflows.Postgres

variable {V : Type}

namespace CommandRow

/-- The row is in the dedup index. -/
def Waiting (row : CommandRow V) : Prop := row.kind = .continueRun ∧ row.leaseToken = none

instance (row : CommandRow V) : Decidable row.Waiting :=
  inferInstanceAs (Decidable (_ ∧ _))

end CommandRow

theorem dedupEntry_eq_some {row : CommandRow V} {runId : String} :
    dedupEntry row = some runId ↔ row.Waiting ∧ row.runId = runId := by
  unfold dedupEntry
  split
  · next h => simp [CommandRow.Waiting, h]
  · next h => simp [CommandRow.Waiting, h]

theorem dedupEntry_eq_none {row : CommandRow V} : dedupEntry row = none ↔ ¬ row.Waiting := by
  unfold dedupEntry
  split
  · next h => simp [CommandRow.Waiting, h]
  · next h => simpa [CommandRow.Waiting] using h

namespace Commands

/-! ## Fresh ids -/

/-- The ids of the rows were given out by the id source. -/
def IdsMinted (s : Commands V) : Prop := ∀ row ∈ s.table.rows, Minted "uuid" s.nextId row.id

theorem execute_eq {ρ : Type} (s : Commands V) (table : Option (CommandTable V)) (result : ρ) :
    (s.execute table result).2 = { s with table := table.getD s.table } := by
  cases table <;> rfl

theorem execute_ok {ρ : Type} (s : Commands V) {table : Option (CommandTable V)} {result : ρ} :
    (s.execute table result).1 = .ok result ↔ ¬ table = none := by
  cases table <;> simp [execute]

namespace IdsMinted

variable {s : Commands V}

theorem mono (h : s.IdsMinted) {n : Nat} (hn : s.nextId ≤ n) :
    IdsMinted { s with nextId := n } := fun row hrow => (h row hrow).mono hn

theorem deleteWhere (h : s.IdsMinted) (p : CommandRow V → Bool) :
    IdsMinted { s with table := s.table.deleteWhere p } := fun row hrow =>
  h row (Table.mem_deleteWhere.mp hrow).1

theorem updateWhere (h : s.IdsMinted) {p : CommandRow V → Bool} {f : CommandRow V → CommandRow V}
    (hid : ∀ row, (f row).id = row.id) {ρ : Type} (result : ρ) :
    IdsMinted (s.execute (s.table.updateWhere p f) result).2 := by
  cases htable : s.table.updateWhere p f with
  | none => exact h
  | some table =>
    intro row hrow
    obtain ⟨before, hbefore, rfl⟩ := (Table.mem_updateWhere htable).mp hrow
    have hsame : (if p before then f before else before).id = before.id := by
      split
      · exact hid before
      · rfl
    exact hsame ▸ h before hbefore

theorem insert (h : s.IdsMinted) {row : CommandRow V} (hrow : Minted "uuid" s.nextId row.id)
    {ρ : Type} (result : ρ) : IdsMinted (s.execute (s.table.insert row) result).2 := by
  cases htable : s.table.insert row with
  | none => exact h
  | some table =>
    intro other hother
    have hother : other ∈ table.rows := hother
    rw [Table.commit_eq_some.mp htable] at hother
    obtain hother | hother := List.mem_append.mp hother
    · exact h other hother
    · exact List.mem_singleton.mp hother ▸ hrow

theorem upsert (h : s.IdsMinted) {row : CommandRow V} (hrow : Minted "uuid" s.nextId row.id)
    {f : CommandRow V → CommandRow V} (hid : ∀ row, (f row).id = row.id) {ρ : Type} (result : ρ) :
    IdsMinted (s.execute (s.table.upsert row f) result).2 := by
  unfold Table.upsert
  dsimp only
  split
  · exact h.updateWhere hid result
  · exact h.insert hrow result

theorem step [JsRuntime V] (h : s.IdsMinted) (op : CommandOp V) : (s.step op).IdsMinted := by
  have hnext : IdsMinted s.randomId.2 := h.mono (Nat.le_succ _)
  have hnew : Minted "uuid" s.randomId.2.nextId s.randomId.1 := minted_freshId (Nat.lt_succ_self _)
  cases op with
  | insertContinueCommand command runAt =>
    refine hnext.upsert ?_ (fun row => ?_) ()
    · exact hnew
    · rfl
  | dispatchAttempt command runAt =>
    simp only [Commands.step, exec, dispatchAttempt]
    split
    · exact hnext
    · exact hnext.insert hnew ()
  | claimOnce conditions workerId leaseMs locked =>
    simp only [Commands.step, exec, claimOnce]
    split
    · exact hnext
    · refine hnext.updateWhere (fun row => ?_) _
      rfl
  | heartbeat commandId leaseToken leaseMs =>
    simp only [Commands.step, exec, heartbeat]
    split
    · refine h.updateWhere (fun row => ?_) ()
      rfl
    · exact h
  | ackCommand commandId leaseToken =>
    simp only [Commands.step, exec, ackCommand]
    split
    · exact h.deleteWhere _
    · exact h
  | releaseCommand commandId leaseToken options =>
    refine h.updateWhere (fun row => ?_) ()
    unfold releasedRow
    split <;> rfl
  | deleteUnclaimed | deleteCommandsOfRuns | sweepDeadCommands => exact h.deleteWhere _
  | markDeadCommandReaped | requeueDeadCommand =>
    refine h.updateWhere (fun row => ?_) ()
    rfl
  | clock time => exact h

end IdsMinted

theorem idsMinted_create (maxDeliveries : Option Int) :
    (create maxDeliveries : Commands V).IdsMinted := fun _ hrow => absurd hrow List.not_mem_nil

/-! ## Rows that come back into the index -/

/-- No continue row of the run but the one with that id is in the index. -/
def IndexFree (s : Commands V) (runId commandId : String) : Prop :=
  ∀ row ∈ s.table.rows, row.id ≠ commandId → row.runId = runId → ¬ row.Waiting

/-- The continue row that a release or a revival writes back, if any, finds the index free. -/
def FindsIndexFree (s : Commands V) : CommandOp V → Prop
  | .releaseCommand commandId leaseToken _ => ∀ row ∈ s.table.rows,
    isLeasedBy commandId leaseToken row → row.kind = .continueRun → s.IndexFree row.runId commandId
  | .requeueDeadCommand commandId => ∀ row ∈ s.table.rows,
    isDeadCommand commandId row → row.kind = .continueRun → s.IndexFree row.runId commandId
  | _ => True

/-- A release or a revival does not fail. -/
def ReleaseSucceeds [JsRuntime V] (s : Commands V) : CommandOp V → Prop
  | .releaseCommand commandId leaseToken options =>
    (s.releaseCommand commandId leaseToken options).1 = .ok ()
  | .requeueDeadCommand commandId => (s.requeueDeadCommand commandId).1 = .ok ()
  | _ => True

/-- An update that clears the lease of the row with an id fails exactly when the row is a continue
row and the index is not free. -/
private theorem updateWhere_clear {s : Commands V} {commandId : String}
    {p : CommandRow V → Bool} {f : CommandRow V → CommandRow V}
    (hp : ∀ row, p row = true → row.id = commandId)
    (hf : ∀ row, (f row).id = row.id ∧ (f row).kind = row.kind ∧ (f row).runId = row.runId ∧
      (f row).leaseToken = none) :
    (s.execute (s.table.updateWhere p f) ()).1 = .ok () ↔
      ∀ row ∈ s.table.rows, p row → row.kind = .continueRun → s.IndexFree row.runId commandId := by
  by_cases hrow : ∃ row ∈ s.table.rows, p row = true
  · obtain ⟨row, hmem, hprow⟩ := hrow
    have hsingle : ∀ other ∈ s.table.rows, p other = true ↔ other = row := by
      refine fun other hother => ⟨fun hpother => ?_, fun h => h ▸ hprow⟩
      exact s.table.eq_of_id_eq hother hmem ((hp other hpother).trans (hp row hprow).symm)
    obtain ⟨-, hkind, hrunId, hlease⟩ := hf row
    have hentry (other : CommandRow V) :
        ((dedupEntry (f row)).isSome ∧ dedupEntry other = dedupEntry (f row)) ↔
          row.kind = .continueRun ∧ other.runId = row.runId ∧ other.Waiting := by
      by_cases hcontinue : row.kind = .continueRun
      · have hmoved : dedupEntry (f row) = some row.runId :=
          dedupEntry_eq_some.mpr ⟨⟨hkind.trans hcontinue, hlease⟩, hrunId⟩
        simp only [hmoved, Option.isSome_some, dedupEntry_eq_some, hcontinue, true_and]
        exact and_comm
      · have hout : dedupEntry (f row) = none :=
          dedupEntry_eq_none.mpr fun hwaiting => hcontinue (hkind.symm.trans hwaiting.1)
        simp [hout, hcontinue]
    refine (s.execute_ok.trans
      (not_congr (Table.updateWhere_eq_none_iff hmem hsingle (hf row).1))).trans ?_
    constructor
    · intro hfree row' hrow' hp' hcontinue other hother hne hrun hwaiting
      obtain rfl := (hsingle row' hrow').mp hp'
      refine hfree ⟨other, hother, fun heq => hne (heq ▸ hp row' hp'), ?_⟩
      exact (hentry other).mpr ⟨hcontinue, hrun, hwaiting⟩
    · rintro hfree ⟨other, hother, hne, hsame⟩
      obtain ⟨hcontinue, hrun, hwaiting⟩ := (hentry other).mp hsame
      refine hfree row hmem hprow hcontinue other hother (fun hid => hne ?_) hrun hwaiting
      exact s.table.eq_of_id_eq hother hmem (hid.trans (hp row hprow).symm)
  · simp only [not_exists, not_and, Bool.not_eq_true] at hrow
    rw [Table.updateWhere_of_forall_false hrow]
    refine iff_of_true rfl fun row hmem hp' => ?_
    rw [hrow row hmem] at hp'
    cases hp'

variable [JsRuntime V]

theorem releaseSucceeds_iff (s : Commands V) (op : CommandOp V) :
    s.ReleaseSucceeds op ↔ s.FindsIndexFree op := by
  cases op with
  | releaseCommand commandId leaseToken options =>
    refine updateWhere_clear (fun row hrow => ?_) fun row => ?_
    · exact of_decide_eq_true ((Bool.and_eq_true _ _).mp hrow).1
    · unfold releasedRow
      split <;> exact ⟨rfl, rfl, rfl, rfl⟩
  | requeueDeadCommand commandId =>
    refine updateWhere_clear (fun row hrow => ?_) fun row => ⟨rfl, rfl, rfl, rfl⟩
    exact of_decide_eq_true ((Bool.and_eq_true _ _).mp hrow).1
  | _ => exact Iff.rfl

/-- Over every history, no release and no revival fails exactly when each one that writes a
continue row back finds no other row of its run in the index. -/
theorem releases_succeed_iff (maxDeliveries : Option Int) (history : List (CommandOp V)) :
    Trace.Admits step ReleaseSucceeds (create maxDeliveries) history ↔
      Trace.Admits step FindsIndexFree (create maxDeliveries) history :=
  Trace.admits_congr step (I := fun _ => True) (fun _ _ _ => trivial)
    (fun s op _ => s.releaseSucceeds_iff op) trivial history

/-- Enqueue, claim, enqueue again for the same run, release the claimed command. -/
def releaseAfterEnqueue : List (CommandOp JsonText) :=
  [.insertContinueCommand ⟨"run", "w"⟩ none,
    .claimOnce [continueCondition ["w"]] "worker" 30000 [],
    .insertContinueCommand ⟨"run", "w"⟩ none,
    .releaseCommand "uuid-1" "uuid-2" {}]

/-- The release of a claimed continue command fails when its run was enqueued again meanwhile. -/
theorem not_releaseSucceeds_after_enqueue :
    ¬ ∀ (history : List (CommandOp JsonText)),
      Trace.Admits step ReleaseSucceeds (create none) history := by
  intro h
  have hfails : (((Trace.run step (create none) (releaseAfterEnqueue.take 3)).releaseCommand
      "uuid-1" "uuid-2" {}).1 = .error .uniqueViolation) := by decide
  have hsucceeds := (h releaseAfterEnqueue).2.2.2.1
  exact absurd (hfails.symm.trans hsucceeds) (by simp)

/-! ## Enqueues -/

/-- The run has a row that a claim will take once its time has come. -/
def HasLiveCommand (s : Commands V) (runId : String) : Prop :=
  ∃ row ∈ s.table.rows, row.Waiting ∧ row.runId = runId ∧ row.deadAt = none ∧
    ∀ clock, row.runAt ≤ clock → isClaimable clock row

/-- An enqueue leaves a live command of its run. -/
def EnqueueWakes (s : Commands V) (op : CommandOp V) : Prop :=
  match op with
  | .insertContinueCommand command _ => (s.step op).HasLiveCommand command.runId
  | _ => True

/-- The row of the run in the index, if there is one, is not dead. -/
def FindsNoDeadRow (s : Commands V) : CommandOp V → Prop
  | .insertContinueCommand command _ => ∀ row ∈ s.table.rows, row.Waiting →
    row.runId = command.runId → row.deadAt = none
  | _ => True

omit [JsRuntime V] in
/-- A waiting row that is not dead can be claimed at its time. -/
theorem isClaimable_of_waiting {row : CommandRow V} (hwaiting : row.Waiting)
    (hlive : row.deadAt = none) {clock : Nat} (hdue : row.runAt ≤ clock) :
    isClaimable clock row = true := by
  simp [isClaimable, hdue, hwaiting.2, hlive]

theorem enqueueWakes_iff {s : Commands V} (hs : s.IdsMinted) (op : CommandOp V) :
    s.EnqueueWakes op ↔ s.FindsNoDeadRow op := by
  cases op with
  | insertContinueCommand command runAt =>
    let row : CommandRow V :=
      { id := s.randomId.1, kind := .continueRun, runId := command.runId
        workflowName := some command.workflowName, payload := .continueRun command
        runAt := runAt.getD s.clock, createdAt := s.clock }
    let merge (existing : CommandRow V) : CommandRow V :=
      { existing with
        runAt := min existing.runAt row.runAt, payload := row.payload,
        workflowName := row.workflowName }
    have hentry : dedupEntry row = some command.runId := dedupEntry_eq_some.mpr ⟨⟨rfl, rfl⟩, rfl⟩
    obtain ⟨table, htable⟩ : ∃ table, s.table.upsert row merge = some table := Table.exists_upsert
      (fun existing hmem hid => by
        have hminted := hs existing hmem
        rw [hid] at hminted
        exact not_minted_freshId "uuid" s.nextId hminted)
      (fun _ => rfl) (fun _ => rfl)
    have hstep : (s.step (.insertContinueCommand command runAt)).table = table := by
      refine (congrArg Commands.table (s.randomId.2.execute_eq (s.table.upsert row merge) ())).trans ?_
      rw [htable]
      rfl
    simp only [EnqueueWakes, HasLiveCommand, FindsNoDeadRow, hstep]
    unfold Table.upsert at htable
    dsimp only at htable
    simp only [hentry, Option.isSome_some, Bool.true_and] at htable
    split at htable
    · next hany =>
      obtain ⟨existing, hmem, hexisting⟩ := List.any_eq_true.mp hany
      have hexisting := of_decide_eq_true hexisting
      have honly {other : CommandRow V} (hother : other ∈ s.table.rows)
          (hsame : dedupEntry other = some command.runId) : other = existing :=
        s.table.eq_of_entry_eq hother hmem (by rw [hsame]; rfl) (hsame.trans hexisting.symm)
      constructor
      · rintro ⟨after, hafter, hwaiting, hrun, hlive, -⟩ other hother hwaiting' hrun'
        obtain rfl := honly hother (dedupEntry_eq_some.mpr ⟨hwaiting', hrun'⟩)
        obtain ⟨before, hbefore, rfl⟩ := (Table.mem_updateWhere htable).mp hafter
        split at hlive
        · next hconflict => rwa [← honly hbefore (of_decide_eq_true hconflict)]
        · next hconflict =>
          -- a row that is not merged is not in the index for the run
          rw [if_neg hconflict] at hwaiting hrun
          exact absurd (decide_eq_true (dedupEntry_eq_some.mpr ⟨hwaiting, hrun⟩)) hconflict
      · intro hlive
        obtain ⟨hwaiting, hrun⟩ := dedupEntry_eq_some.mp hexisting
        have hdead := hlive existing hmem hwaiting hrun
        refine ⟨merge existing, (Table.mem_updateWhere htable).mpr ⟨existing, hmem, ?_⟩, hwaiting,
          hrun, hdead, fun _ hdue =>
            isClaimable_of_waiting (show (merge existing).Waiting from hwaiting) hdead hdue⟩
        rw [if_pos (decide_eq_true hexisting)]
    · next hany =>
      have hrows := Table.commit_eq_some.mp htable
      refine iff_of_true ⟨row, ?_, ⟨rfl, rfl⟩, rfl, rfl, fun clock =>
        isClaimable_of_waiting ⟨rfl, rfl⟩ rfl⟩ fun other hother hwaiting hrun => ?_
      · rw [hrows]
        exact List.mem_append_right _ (List.mem_singleton_self row)
      · refine absurd (List.any_eq_true.mpr ⟨other, hother, ?_⟩) hany
        exact decide_eq_true (dedupEntry_eq_some.mpr ⟨hwaiting, hrun⟩)
  | _ => exact Iff.rfl

/-- Over every history, each enqueue leaves a live command of its run exactly when it does not
find a dead one in the index. -/
theorem enqueues_wake_iff (maxDeliveries : Option Int) (history : List (CommandOp V)) :
    Trace.Admits step EnqueueWakes (create maxDeliveries) history ↔
      Trace.Admits step FindsNoDeadRow (create maxDeliveries) history :=
  Trace.admits_congr step (I := IdsMinted) (fun _ op hs => hs.step op)
    (fun _ op hs => enqueueWakes_iff hs op) (idsMinted_create maxDeliveries) history

/-- A continue command reaches the threshold when it is released, then its run is enqueued. -/
def enqueueAfterDeath : List (CommandOp JsonText) :=
  [.insertContinueCommand ⟨"run", "w"⟩ none,
    .claimOnce [continueCondition ["w"]] "worker" 30000 [],
    .releaseCommand "uuid-1" "uuid-2" { error := some (.error "failed") },
    .insertContinueCommand ⟨"run", "w"⟩ none]

/-- The dead row keeps its place in the index and swallows the enqueue. -/
theorem not_enqueueWakes_after_death :
    ¬ ∀ (maxDeliveries : Option Int) (history : List (CommandOp JsonText)),
      Trace.Admits step EnqueueWakes (create maxDeliveries) history := by
  intro h
  have hrows : ∀ row ∈ (Trace.run step (create (some 1)) enqueueAfterDeath).table.rows,
      row.deadAt ≠ none := by decide
  obtain ⟨row, hrow, -, -, hlive, -⟩ := (h (some 1) enqueueAfterDeath).2.2.2.1
  exact hrows row hrow hlive

end Commands

end Neemata.Workflows.Postgres
