import Neemata.Workflows.JsonText
import Neemata.Workflows.Worker.Execution
import Neemata.Workflows.Worker.RetryProtocol
import Neemata.Workflows.Worker.Succession

/-!
# The retry budget

However many execution workers handle the commands of a child, in whatever order, its attempts stay
within the retry policy, each failed attempt is retried at most once, and a retry repeats the
arguments of the first attempt (`retry_budget`). Every worker follows its protocol, the attempt it
has settled is its licence, and no two workers hold a licence for the same attempt.
-/

namespace Neemata.Workflows

open Binary64 (Double)

variable {V : Type}

/-! ## Phases in a state -/

/-- The attempt of the command, while it is stored, belongs to the child the command names. -/
def OwnAttempt (m : Mem V) (command : AttemptCommand V) : Prop :=
  Minted "attempt" m.nextId command.attemptId ∧
    ∀ attempt, m.attempts.get? command.attemptId = some attempt →
      attempt.runId = command.runId ∧ attempt.nodeName = command.nodeName ∧
        attempt.childKey = command.childKey

/-- What a phase says about the store. -/
def RetryPhase.Holds (m : Mem V) (command : AttemptCommand V) : RetryPhase V → Prop
  | .start | .done => True
  | .fresh => OwnAttempt m command
  | .licensed failed => failed.id = command.attemptId ∧
    failed.retryParams = command.retryParams failed ∧ m.Done command.attemptId ∧
      Licence m.nextId m.records failed

variable [JsRuntime V]

theorem OwnAttempt.step {m : Mem V} (hm : m.Sound) {command : AttemptCommand V}
    (h : OwnAttempt m command) (op : Op V) : OwnAttempt (m.step op) command := by
  have heffect := Mem.step_effect hm.keyed op
  refine ⟨h.1.mono heffect.nextId_le, fun attempt' hget => ?_⟩
  obtain hfresh | ⟨attempt, hbefore, rfl | hchange⟩ := heffect.attempts_back hget
  · exact absurd (hfresh ▸ h.1) (not_minted_freshId _ _)
  · exact h.2 _ hbefore
  · have hsame := hchange.siblings
    have hown := h.2 _ hbefore
    exact ⟨hsame.1.trans hown.1, hsame.2.1.trans hown.2.1, hsame.2.2.trans hown.2.2⟩

/-- A delivery that has read its attempt to be fresh. -/
theorem ownAttempt_of_fresh {m : Mem V} (hm : m.AttemptSound) {command : AttemptCommand V}
    (h : isFreshAttempt command (storedChildOf command (m.loadRunSnapshot command.runId))
      (storedAttemptOf command (m.loadRunSnapshot command.runId))) : OwnAttempt m command := by
  simp only [isFreshAttempt, Bool.and_eq_true, Option.any_eq_true, decide_eq_true_eq] at h
  obtain ⟨⟨child, hchild, hcurrent⟩, attempt, hattempt, -⟩ := h
  obtain ⟨run, hrun⟩ : ∃ run, m.runs.get? command.runId = some run := by
    cases hget : m.runs.get? command.runId with
    | none => simp [storedChildOf, Mem.loadRunSnapshot, hget] at hchild
    | some run => exact ⟨run, rfl⟩
  simp only [storedChildOf, storedAttemptOf, Mem.loadRunSnapshot, hrun, Option.map_some,
    Option.bind_some] at hchild hattempt
  have hchildMem := List.mem_filter.mp (List.mem_of_find?_eq_some hchild)
  have hchildNames := List.find?_some hchild
  obtain ⟨key, hkey⟩ := OrdMap.mem_values_iff.mp hchildMem.1
  have hchildRun : child.runId = command.runId := of_decide_eq_true hchildMem.2
  obtain ⟨hnode, hchildKey⟩ : child.nodeName = command.nodeName ∧
      child.childKey = command.childKey := of_decide_eq_true hchildNames
  obtain ⟨current, hget, hof, -⟩ := hm.attempts.current key child hkey _ hcurrent
  refine ⟨(hm.sound.attempts _ _ hget).2, fun found hfound => ?_⟩
  obtain rfl := Option.some.inj (hget.symm.trans hfound)
  exact ⟨hof.1.trans hchildRun, hof.2.1.trans hnode, hof.2.2.trans hchildKey⟩

/-! ## What the others do -/

/-- The operation creates a further attempt. -/
def Op.isRetry : Op V → Bool
  | .store (.createAttempt _) => true
  | _ => false

/-- The other parties leave retries to the workers; node names hold no `:`, children are created
for stored runs, and child runs are started under the root of their parent. -/
def Execution.Tended (s : Execution V) : ExecutionMove V → Prop
  | .other op => s.mem.Contracted op ∧ op.Housed s.mem.records ∧ op.isRetry = false
  | _ => True

instance (s : Execution V) (move : ExecutionMove V) : Decidable (s.Tended move) :=
  match move with
  | .other op => inferInstanceAs (Decidable (s.mem.Contracted op ∧ op.Housed s.mem.records ∧ _))
  | .claim _ _ | .resume _ _ | .crash _ => isTrue trivial

/-- The operations a worker may perform need no permission beside the licence of a retry. -/
structure Mem.Permits (m : Mem V) (retries : List (String × String)) (op : Op V) : Prop where
  contracted : m.Contracted op
  housed : op.Housed m.records
  licensed : op.Licensed m.nextId m.records retries

omit [JsRuntime V] in
theorem Op.licensed_of_not_retry {op : Op V} (h : op.isRetry = false) {n : Nat} {s : Records V}
    {retries : List (String × String)} : op.Licensed n s retries := by
  rintro params rfl
  cases h

omit [JsRuntime V] in
theorem Mem.permits_executor (m : Mem V) (retries : List (String × String)) (op : ExecutorOp V) :
    m.Permits retries (.executor op) where
  contracted := ⟨nofun, nofun⟩
  housed := nofun
  licensed := Op.licensed_of_not_retry rfl

/-! ## The invariant -/

/-- The invariant of the workers; `phase` says how far each of them has come. -/
structure Execution.Working (s : Execution V) (phase : String → RetryPhase V) : Prop where
  sound : s.mem.AttemptSound
  succession : Succession s.retries s.mem.records
  follows : ∀ worker delivery, s.workers worker = some delivery →
    Begun delivery.command (delivery.input.retryPolicies delivery.command) (phase worker)
      delivery.rest
  holds : ∀ worker delivery, s.workers worker = some delivery →
    (phase worker).Holds s.mem delivery.command
  apart : ∀ worker worker' delivery delivery' failed failed',
    s.workers worker = some delivery → s.workers worker' = some delivery' →
    phase worker = .licensed failed → phase worker' = .licensed failed' →
    failed.id = failed'.id → worker = worker'
  retried : ∀ id ∈ s.retries.map Prod.fst, s.mem.Done id
  once : (s.retries.map Prod.fst).Nodup
  unused : ∀ worker delivery failed, s.workers worker = some delivery →
    phase worker = .licensed failed → failed.id ∉ s.retries.map Prod.fst

/-! ## One step -/

omit [JsRuntime V] in
theorem Succession.mono {retries retries' : List (String × String)} {s : Records V}
    (h : Succession retries s) (hsub : retries ⊆ retries') : Succession retries' s where
  housed := h.housed
  same := h.same
  succeeds := h.succeeds.mono fun _ _ hcase =>
    hcase.imp_right fun ⟨id', failed, hmem, hrest⟩ => ⟨id', failed, hsub hmem, hrest⟩

/-- A phase holds on when the operation is no retry, or one of another licence. -/
theorem RetryPhase.Holds.step {m : Mem V} (hm : m.AttemptSound) {command : AttemptCommand V}
    {phase : RetryPhase V} (h : phase.Holds m command) {op : Op V} (hop : m.Contracted op)
    (hhoused : op.Housed m.records) (hother : ∀ failed, phase = .licensed failed →
      ∀ params, op = .store (.createAttempt params) → ∃ other : StoredAttempt V,
        params = other.retryParams ∧ Licence m.nextId m.records other ∧ other.id ≠ failed.id) :
    phase.Holds (m.step op) command := by
  cases phase with
  | start | done => trivial
  | fresh => exact OwnAttempt.step hm.sound h op
  | licensed failed =>
    obtain ⟨hid, hparams, hdone, hlicence⟩ := h
    exact ⟨hid, hparams, hdone.step hm.sound op,
      hlicence.effect (Mem.step_effect hm.sound.keyed op) hm.sound hm.plain hm.linked hm.attempts
        hop.1 hhoused (hother failed rfl)⟩

namespace Execution

variable {s : Execution V} {phase : String → RetryPhase V}

/-- What the step of a worker leaves of the invariant, apart from the worker itself. -/
structure Turn (s : Execution V) (phase : String → RetryPhase V) (worker : String) (mem : Mem V)
    (added : List (String × String)) : Prop where
  sound : mem.AttemptSound
  succession : Succession (s.retries ++ added) mem.records
  done : ∀ id, s.mem.Done id → mem.Done id
  others : ∀ worker' delivery, worker' ≠ worker → s.workers worker' = some delivery →
    (phase worker').Holds mem delivery.command

theorem Working.turn_same (h : s.Working phase) (worker : String) :
    s.Turn phase worker s.mem [] where
  sound := h.sound
  succession := by
    rw [List.append_nil]
    exact h.succession
  done _ hdone := hdone
  others worker' delivery _ hget := h.holds worker' delivery hget

theorem Working.turn_step (h : s.Working phase) (worker : String) (op : Op V)
    (added : List (String × String)) (hop : s.mem.Permits (s.retries ++ added) op)
    (hother : ∀ params, op = .store (.createAttempt params) → ∃ (delivery : Delivery V)
      (failed : StoredAttempt V), s.workers worker = some delivery ∧
        phase worker = .licensed failed ∧ params = failed.retryParams) :
    s.Turn phase worker (s.mem.step op) added where
  sound := h.sound.step hop.contracted.1 hop.contracted.2
  succession := (h.succession.mono (List.subset_append_left _ _)).effect
    (Mem.step_effect h.sound.sound.keyed op) h.sound.sound h.sound.attempts hop.housed hop.licensed
  done _ hdone := hdone.step h.sound.sound op
  others worker' delivery hne hget := by
    refine (h.holds worker' delivery hget).step h.sound hop.contracted hop.housed ?_
    intro failed' hphase' params hparams
    obtain ⟨delivery', failed, hget', hphase, rfl⟩ := hother params hparams
    have hholds := h.holds worker delivery' hget'
    rw [hphase] at hholds
    refine ⟨failed, rfl, hholds.2.2.2, fun hsame => hne ?_⟩
    exact h.apart worker' worker delivery delivery' failed' failed hget hget' hphase' hphase
      hsame.symm

/-- The worker ends its step in the phase `q` with the delivery `next`. It has kept its licence,
obtained one for an attempt that was not settled before, or used its own. -/
theorem Working.turn (h : s.Working phase) {worker : String} {mem : Mem V}
    {added : List (String × String)} (hturn : s.Turn phase worker mem added)
    (next : Option (Delivery V)) (q : RetryPhase V)
    (hnext : ∀ delivery, next = some delivery →
      Begun delivery.command (delivery.input.retryPolicies delivery.command) q delivery.rest ∧
        q.Holds mem delivery.command)
    (hcases : (added = [] ∧ ∀ failed, q = .licensed failed →
        (∃ delivery, s.workers worker = some delivery ∧ phase worker = .licensed failed) ∨
          ¬ s.mem.Done failed.id) ∨
      ∃ delivery failed newId, added = [(failed.id, newId)] ∧
        s.workers worker = some delivery ∧ phase worker = .licensed failed ∧ q = .done) :
    Working ⟨mem, Function.update s.workers worker next, s.retries ++ added⟩
      (Function.update phase worker q) := by
  -- a licensed attempt is settled
  have hdone {worker' : String} {delivery : Delivery V} {failed : StoredAttempt V}
      (hget : s.workers worker' = some delivery) (hphase : phase worker' = .licensed failed) :
      s.mem.Done failed.id := by
    have hholds := h.holds worker' delivery hget
    rw [hphase] at hholds
    rw [hholds.1]
    exact hholds.2.2.1
  -- the licence of the worker after its step is not one of the others
  have happart {worker' : String} {delivery : Delivery V} {failed failed' : StoredAttempt V}
      (hq : q = .licensed failed) (hne : worker' ≠ worker)
      (hget : s.workers worker' = some delivery) (hphase : phase worker' = .licensed failed') :
      failed.id ≠ failed'.id := by
    intro hsame
    rcases hcases with ⟨-, hlicence⟩ | ⟨_, _, _, -, -, -, hqdone⟩
    · rcases hlicence failed hq with ⟨own, hown, hownPhase⟩ | hnot
      · exact hne (h.apart worker worker' own delivery failed failed' hown hget hownPhase hphase
          hsame).symm
      · exact hnot (hsame ▸ hdone hget hphase)
    · rw [hqdone] at hq
      cases hq
  constructor
  · exact hturn.sound
  · exact hturn.succession
  · intro worker' delivery hget
    by_cases hne : worker' = worker
    · subst hne
      simp only [Function.update_self] at hget ⊢
      exact (hnext delivery hget).1
    · simp only [Function.update_of_ne hne] at hget ⊢
      exact h.follows worker' delivery hget
  · intro worker' delivery hget
    by_cases hne : worker' = worker
    · subst hne
      simp only [Function.update_self] at hget ⊢
      exact (hnext delivery hget).2
    · simp only [Function.update_of_ne hne] at hget ⊢
      exact hturn.others worker' delivery hne hget
  · intro w w' delivery delivery' failed failed' hget hget' hphase hphase' hsame
    by_cases hw : w = worker <;> by_cases hw' : w' = worker
    · exact hw.trans hw'.symm
    · subst hw
      simp only [Function.update_self, Function.update_of_ne hw'] at hphase hget' hphase'
      exact absurd hsame (happart hphase hw' hget' hphase')
    · subst hw'
      simp only [Function.update_self, Function.update_of_ne hw] at hphase' hget hphase
      exact absurd hsame.symm (happart hphase' hw hget hphase)
    · simp only [Function.update_of_ne hw, Function.update_of_ne hw'] at hget hget' hphase hphase'
      exact h.apart w w' delivery delivery' failed failed' hget hget' hphase hphase' hsame
  · intro id hid
    rw [List.map_append, List.mem_append] at hid
    rcases hid with hid | hid
    · exact hturn.done id (h.retried id hid)
    · rcases hcases with ⟨rfl, -⟩ | ⟨delivery, failed, newId, rfl, hget, hphase, -⟩
      · cases hid
      · obtain rfl : id = failed.id := by simpa using hid
        exact hturn.done _ (hdone hget hphase)
  · rcases hcases with ⟨rfl, -⟩ | ⟨delivery, failed, newId, rfl, hget, hphase, -⟩
    · rw [List.append_nil]
      exact h.once
    · have hunused := h.unused worker delivery failed hget hphase
      rw [List.map_append, List.map_singleton]
      refine List.nodup_append.mpr ⟨h.once, List.nodup_singleton _, fun a ha b hb hab => ?_⟩
      obtain rfl : a = failed.id := hab.trans (List.mem_singleton.mp hb)
      exact hunused ha
  · intro w delivery failed hget hphase hmem
    rw [List.map_append, List.mem_append] at hmem
    by_cases hw : w = worker
    · subst hw
      simp only [Function.update_self] at hphase
      rcases hcases with ⟨rfl, hlicence⟩ | ⟨_, _, _, -, -, -, hqdone⟩
      · have hmem : failed.id ∈ s.retries.map Prod.fst := by simpa using hmem
        rcases hlicence failed hphase with ⟨own, hown, hownPhase⟩ | hnot
        · exact h.unused w own failed hown hownPhase hmem
        · exact hnot (h.retried failed.id hmem)
      · rw [hqdone] at hphase
        cases hphase
    · simp only [Function.update_of_ne hw] at hget hphase
      rcases hmem with hmem | hmem
      · exact h.unused w delivery failed hget hphase hmem
      · rcases hcases with ⟨rfl, -⟩ | ⟨own, ownFailed, newId, rfl, hown, hownPhase, -⟩
        · cases hmem
        · have hsame : failed.id = ownFailed.id := by simpa using hmem
          exact hw (h.apart w worker delivery own failed ownFailed hget hown hphase hownPhase hsame)

/-! ## The steps of a worker -/

omit [JsRuntime V] in
theorem createAttempt_cases (m : Mem V) (params : ChildAttemptParams V) :
    (∃ error, m.createAttempt params = (.error error, m)) ∨
      ∃ attempt mem, m.createAttempt params = (.ok attempt, mem) ∧
        attempt.id = freshId "attempt" m.nextId := by
  unfold Mem.createAttempt
  dsimp only
  split
  · exact .inl ⟨_, rfl⟩
  · split
    · exact .inl ⟨_, rfl⟩
    · refine .inr ⟨_, _, rfl, ?_⟩
      unfold Mem.createChildAttempt
      dsimp only
      split
      · rfl
      · split <;> rfl

omit [JsRuntime V] in
theorem permits_harmless (m : Mem V) {retries : List (String × String)} {op : StoreOp V}
    (hop : op.isHarmless) : m.Permits retries (.store op) := by
  cases op with
  | loadRunSnapshot | completeCurrentAttempt | completeNodeChild | failNodeChild | completeNode
  | failNode | markRunRunning | completeRun | failRun =>
    exact ⟨⟨nofun, nofun⟩, nofun, Op.licensed_of_not_retry rfl⟩
  | _ => cases hop

omit [JsRuntime V] in
theorem permits_settlement (m : Mem V) {retries : List (String × String)} {op : StoreOp V}
    {attemptId leaseToken : String} {error : Thrown V}
    (hop : op = .failCurrentAttempt attemptId leaseToken error ∨
      op = .timeoutCurrentAttempt attemptId leaseToken error) : m.Permits retries (.store op) := by
  obtain rfl | rfl := hop
  · exact ⟨⟨nofun, nofun⟩, nofun, Op.licensed_of_not_retry rfl⟩
  · exact ⟨⟨nofun, nofun⟩, nofun, Op.licensed_of_not_retry rfl⟩

/-- A step that is no retry and keeps the phase. -/
private theorem Working.turn_keeping (h : s.Working phase) {worker : String}
    {delivery : Delivery V} (hget : s.workers worker = some delivery) (op : Op V)
    (hop : s.mem.Permits (s.retries ++ []) op) (hretry : op.isRetry = false) :
    s.Turn phase worker (s.mem.step op) [] ∧ (phase worker).Holds (s.mem.step op) delivery.command := by
  refine ⟨h.turn_step worker op [] hop ?_, ?_⟩
  · rintro params rfl
    cases hretry
  · refine (h.holds worker delivery hget).step h.sound hop.contracted hop.housed ?_
    rintro failed - params rfl
    cases hretry

/-- What one await of a worker does: the store takes its turn, the new phase holds, and the licence
is kept, obtained or used. -/
structure Took (s : Execution V) (phase : String → RetryPhase V) (worker : String)
    (delivery : Delivery V) (mem : Mem V) (added : List (String × String)) (q : RetryPhase V) :
    Prop where
  turn : s.Turn phase worker mem added
  holds : q.Holds mem delivery.command
  licence : (added = [] ∧ ∀ failed, q = .licensed failed →
      (∃ delivery, s.workers worker = some delivery ∧ phase worker = .licensed failed) ∨
        ¬ s.mem.Done failed.id) ∨
    ∃ delivery failed newId, added = [(failed.id, newId)] ∧
      s.workers worker = some delivery ∧ phase worker = .licensed failed ∧ q = .done

private theorem Working.took_keeping (h : s.Working phase) {worker : String}
    {delivery : Delivery V} (hget : s.workers worker = some delivery) (op : Op V)
    (hop : s.mem.Permits (s.retries ++ []) op) (hretry : op.isRetry = false) :
    s.Took phase worker delivery (s.mem.step op) [] (phase worker) := by
  obtain ⟨hturn, hholds⟩ := h.turn_keeping hget op hop hretry
  exact ⟨hturn, hholds, .inl ⟨rfl, fun failed hphase => .inl ⟨delivery, hget, hphase⟩⟩⟩

/-- Settling the own attempt as failed. -/
private theorem Working.took_failure (h : s.Working phase) {worker : String}
    {delivery : Delivery V} (hget : s.workers worker = some delivery)
    (hfresh : phase worker = .fresh) (status : RuntimeAttemptStatus)
    (hstatus : isFailedAttemptStatus status) (leaseToken : String) (error : Thrown V) (op : Op V)
    (hop : s.mem.Permits (s.retries ++ []) op) (hretry : op.isRetry = false)
    (hstep : s.mem.step op = (s.mem.failCurrentAttemptAs status delivery.command.attemptId
      leaseToken error).2) :
    s.Took phase worker delivery (s.mem.step op) [] (RetryPhase.afterFailure
      (.ok (s.mem.failCurrentAttemptAs status delivery.command.attemptId leaseToken error).1)) := by
  obtain ⟨hturn, hholds⟩ := h.turn_keeping hget op hop hretry
  rw [hfresh] at hholds
  cases hfailed : (s.mem.failCurrentAttemptAs status delivery.command.attemptId
      leaseToken error).1 with
  | none => exact ⟨hturn, hholds, .inl ⟨rfl, fun _ hphase => nomatch hphase⟩⟩
  | some failed =>
    obtain ⟨hid, hdone, hlicence, attempt, hattempt, hsiblings⟩ :=
      Mem.licence_of_failed h.sound h.succession hstatus hfailed
    have hown := h.holds worker delivery hget
    rw [hfresh] at hown
    obtain ⟨hrun, hnode, hkey⟩ := hown.2 attempt hattempt
    have hparams : failed.retryParams = delivery.command.retryParams failed := by
      simp only [StoredAttempt.retryParams, AttemptCommand.retryParams, hsiblings.1, hsiblings.2.1,
        hsiblings.2.2, hrun, hnode, hkey]
    refine ⟨hturn, ?_, .inl ⟨rfl, ?_⟩⟩
    · rw [hstep]
      exact ⟨hid, hparams, hdone, hlicence⟩
    · rintro _ ⟨⟩
      rw [hid]
      exact .inr (Mem.not_done_of_failed hfailed)

/-- Creating an attempt with the own licence. -/
private theorem Working.took_retry (h : s.Working phase) {worker : String}
    {delivery : Delivery V} (hget : s.workers worker = some delivery) {failed : StoredAttempt V}
    (hphase : phase worker = .licensed failed) :
    let params := delivery.command.retryParams failed
    s.Took phase worker delivery (s.mem.createAttempt params).2
      (Delivery.retryPair delivery.command (s.mem.createAttempt params).1) .done := by
  intro params
  have hholds := h.holds worker delivery hget
  rw [hphase] at hholds
  obtain ⟨hid, hparams, -, hlicence⟩ := hholds
  rcases createAttempt_cases s.mem params with ⟨error, hcreate⟩ | ⟨attempt, mem, hcreate, hnew⟩
  · rw [hcreate]
    exact ⟨h.turn_same worker, trivial, .inl ⟨rfl, fun _ hdone => nomatch hdone⟩⟩
  · have hstep : s.mem.step (.store (.createAttempt params)) = mem := congrArg Prod.snd hcreate
    rw [hcreate, ← hstep]
    refine ⟨h.turn_step worker _ _ ⟨⟨nofun, nofun⟩, nofun, ?_⟩ ?_, trivial, .inr
      ⟨delivery, failed, attempt.id, ?_, hget, hphase, rfl⟩⟩
    · rintro _ ⟨⟩
      refine ⟨failed, hparams.symm, hlicence, ?_⟩
      rw [hid, ← hnew]
      exact List.mem_append_right _ (List.mem_singleton_self _)
    · rintro _ ⟨⟩
      exact ⟨delivery, failed, hget, hphase, hparams.symm⟩
    · rw [hid]
      rfl

/-- Every operation that the protocol allows the worker. -/
private theorem Working.took (h : s.Working phase) {worker : String} {delivery : Delivery V}
    (hget : s.workers worker = some delivery) {policies : List RetryPolicy} {op : PassOp V}
    {next : op.Ret → Program PassOp.Ret (Except (Thrown V) Bool)}
    (hrest : delivery.rest.run = .perform op next)
    (hallowed : (phase worker).mayPerform delivery.command policies op) (user : UserCode V) :
    s.Took phase worker delivery (op.exec user s.mem).2 (delivery.retry s.mem)
      ((phase worker).next delivery.command op (op.exec user s.mem).1) := by
  cases op with
  | callback | dateNow =>
    have hretry : delivery.retry s.mem = [] := by simp only [Delivery.retry, hrest]
    rw [hretry]
    exact ⟨h.turn_same worker, h.holds worker delivery hget,
      .inl ⟨rfl, fun failed hphase => .inl ⟨delivery, hget, hphase⟩⟩⟩
  | executor op =>
    have hretry : delivery.retry s.mem = [] := by simp only [Delivery.retry, hrest]
    rw [hretry]
    exact h.took_keeping hget (.executor op) (s.mem.permits_executor _ op) rfl
  | store op =>
    have hkeep (hretry : delivery.retry s.mem = []) (hop : op.isHarmless)
        (hsame : (phase worker).next delivery.command (.store op)
          ((PassOp.store op).exec user s.mem).1 = phase worker) :
        s.Took phase worker delivery ((PassOp.store op).exec user s.mem).2 (delivery.retry s.mem)
          ((phase worker).next delivery.command (.store op)
            ((PassOp.store op).exec user s.mem).1) := by
      rw [hretry, hsame]
      refine h.took_keeping hget (.store op) (permits_harmless s.mem hop) ?_
      cases op with
      | createAttempt => cases hop
      | _ => rfl
    cases op with
    | createAttempt params =>
      obtain ⟨failed, hphase, rfl, -⟩ := hallowed
      have hretry : delivery.retry s.mem = Delivery.retryPair delivery.command
          (s.mem.createAttempt (delivery.command.retryParams failed)).1 := by
        simp only [Delivery.retry, hrest]
      rw [hretry]
      exact h.took_retry hget hphase
    | failCurrentAttempt attemptId leaseToken error =>
      obtain ⟨hfresh, rfl⟩ := hallowed
      have hretry : delivery.retry s.mem = [] := by simp only [Delivery.retry, hrest]
      rw [hretry]
      exact h.took_failure hget hfresh .failed rfl leaseToken error
        (.store (.failCurrentAttempt delivery.command.attemptId leaseToken error))
        (permits_settlement s.mem (.inl rfl)) rfl rfl
    | timeoutCurrentAttempt attemptId leaseToken error =>
      obtain ⟨hfresh, rfl⟩ := hallowed
      have hretry : delivery.retry s.mem = [] := by simp only [Delivery.retry, hrest]
      rw [hretry]
      exact h.took_failure hget hfresh .timedOut rfl leaseToken error
        (.store (.timeoutCurrentAttempt delivery.command.attemptId leaseToken error))
        (permits_settlement s.mem (.inr rfl)) rfl rfl
    | loadRunSnapshot runId =>
      have hretry : delivery.retry s.mem = [] := by simp only [Delivery.retry, hrest]
      cases hphase : phase worker with
      | start =>
        obtain rfl : runId = delivery.command.runId := hallowed hphase
        rw [hretry]
        refine ⟨h.turn_same worker, ?_, .inl ⟨rfl, fun failed hlicensed => ?_⟩⟩
        · simp only [RetryPhase.next, PassOp.exec, Mem.execStore, Mem.returning,
            RetryPhase.afterLoad]
          split
          · next hfresh => exact ownAttempt_of_fresh h.sound hfresh
          · trivial
        · simp only [RetryPhase.next, PassOp.exec, Mem.execStore, Mem.returning,
            RetryPhase.afterLoad] at hlicensed
          split at hlicensed <;> cases hlicensed
      | fresh | licensed | done =>
        rw [← hphase]
        exact hkeep hretry rfl (by rw [hphase]; rfl)
    | completeCurrentAttempt | completeNodeChild | failNodeChild | completeNode | failNode
    | markRunRunning | completeRun | failRun =>
      exact hkeep (by simp only [Delivery.retry, hrest]) rfl rfl
    | _ => cases hallowed.2

theorem Working.resume (h : s.Working phase) {worker : String} {delivery : Delivery V}
    (hget : s.workers worker = some delivery) (user : UserCode V) :
    ∃ q, (s.resume worker delivery user).Working (Function.update phase worker q) := by
  obtain ⟨op, next, hrest, hstep⟩ | ⟨hleft, hmem, hretry⟩ := delivery.step_cases user s.mem
  · have hfollows := h.follows worker delivery hget
    unfold Begun Program.Obeys at hfollows
    rw [hrest] at hfollows
    obtain ⟨hallowed, hnext⟩ := hfollows
    have htook := h.took hget hrest hallowed user
    refine ⟨(phase worker).next delivery.command op (op.exec user s.mem).1, ?_⟩
    unfold Execution.resume
    rw [hstep]
    refine h.turn htook.turn _ _ (fun left hleft => ?_) htook.licence
    simp only [Delivery.left, hstep] at hleft
    split at hleft
    · cases hleft
    · obtain rfl := Option.some.inj hleft
      exact ⟨hnext _, htook.holds⟩
  · refine ⟨.done, ?_⟩
    unfold Execution.resume
    rw [hleft, hmem, hretry]
    refine h.turn (h.turn_same worker) none .done (fun _ h => ?_) (.inl ⟨rfl, fun _ h => ?_⟩)
    · cases h
    · cases h

theorem Working.step (h : s.Working phase) {move : ExecutionMove V} (hmove : s.Tended move) :
    ∃ phase', (s.step move).Working phase' := by
  cases move with
  | claim worker input =>
    cases hget : s.workers worker with
    | some delivery => exact ⟨phase, by simpa only [Execution.step, hget] using h⟩
    | none =>
      have hturn := h.turn_step worker (.executor (.claimAttempt input.claim)) []
        (s.mem.permits_executor _ _) nofun
      have hworking := h.turn hturn
        ((s.mem.claimAttempt input.claim).1.map fun claimed =>
          ⟨input, claimed, input.execute claimed⟩) .start
        (fun delivery hdelivery => by
          obtain ⟨claimed, -, rfl⟩ := Option.map_eq_some_iff.mp hdelivery
          exact ⟨execute_obeys input claimed, trivial⟩)
        (.inl ⟨rfl, nofun⟩)
      rw [List.append_nil] at hworking
      refine ⟨Function.update phase worker .start, ?_⟩
      simp only [Execution.step, hget, Execution.start]
      exact hworking
  | resume worker user =>
    cases hget : s.workers worker with
    | none => exact ⟨phase, by simpa only [Execution.step, hget] using h⟩
    | some delivery =>
      obtain ⟨q, hworking⟩ := h.resume hget user
      exact ⟨_, by simpa only [Execution.step, hget] using hworking⟩
  | crash worker =>
    have hworking := h.turn (h.turn_same worker) none .done nofun (.inl ⟨rfl, nofun⟩)
    rw [List.append_nil] at hworking
    exact ⟨_, hworking⟩
  | other op =>
    obtain ⟨hcontracted, hhoused, hretry⟩ := hmove
    have hpermits : s.mem.Permits (s.retries ++ []) op :=
      ⟨hcontracted, hhoused, Op.licensed_of_not_retry hretry⟩
    have hturn := h.turn_step "" op [] hpermits (by rintro params rfl; cases hretry)
    have hsuccession := hturn.succession
    rw [List.append_nil] at hsuccession
    exact ⟨phase, hturn.sound, hsuccession, h.follows,
      fun _ _ hget => (h.turn_keeping hget op hpermits hretry).2, h.apart,
      fun id hid => hturn.done id (h.retried id hid), h.once, h.unused⟩

theorem working_create (maxDeliveries : Option Int) :
    (create maxDeliveries : Execution V).Working fun _ => .done where
  sound := Mem.attemptSound_create maxDeliveries
  succession := ⟨.empty, (fun hget => nomatch hget), .empty⟩
  follows _ _ hget := nomatch hget
  holds _ _ hget := nomatch hget
  apart _ _ _ _ _ _ hget := nomatch hget
  retried _ hid := absurd hid List.not_mem_nil
  once := List.nodup_nil
  unused _ _ _ hget := nomatch hget

end Execution

/-! ## The bound -/

/-- The names that make up the key of a child. -/
structure ChildName where
  runId : String
  nodeName : String
  childKey : String
deriving DecidableEq

def StoredNodeChild.fullName (child : StoredNodeChild V) : ChildName :=
  ⟨child.runId, child.nodeName, child.childKey⟩

def AttemptCommand.fullName (command : AttemptCommand V) : ChildName :=
  ⟨command.runId, command.nodeName, command.childKey⟩

def StoredAttempt.fullName (attempt : StoredAttempt V) : ChildName :=
  ⟨attempt.runId, attempt.nodeName, attempt.childKey⟩

omit [JsRuntime V] in
theorem OfChild.fullName_eq {child : StoredNodeChild V} {attempt : StoredAttempt V}
    (h : OfChild child attempt) : child.fullName = attempt.fullName := by
  simp only [StoredNodeChild.fullName, StoredAttempt.fullName, h.1, h.2.1, h.2.2]

namespace Execution

/-- A worker that claims a command of the child has no policy with more than `n` attempts for it. -/
def WithinPolicy (name : ChildName) (n : ℚ) (s : Execution V) : ExecutionMove V → Prop
  | .claim _ input => ∀ claimed ∈ (s.mem.claimAttempt input.claim).1,
    claimed.command.fullName = name →
      ∀ policy ∈ input.retryPolicies claimed.command, (Double.finite n).lt policy.attempts = false
  | _ => True

instance (name : ChildName) (n : ℚ) (s : Execution V) (move : ExecutionMove V) :
    Decidable (s.WithinPolicy name n move) :=
  match move with
  | .claim _ input => inferInstanceAs (Decidable
      (∀ claimed ∈ (s.mem.claimAttempt input.claim).1, _ → ∀ policy ∈ _, _))
  | .other _ | .resume _ _ | .crash _ => isTrue trivial

/-- The invariant behind the bound. -/
structure Bounded (name : ChildName) (n : ℚ) (s : Execution V) : Prop where
  counted : s.mem.children.All fun _ child =>
    child.fullName = name → (child.attemptCount : ℤ) ≤ max 1 ⌈n⌉
  policies : ∀ worker delivery, s.workers worker = some delivery →
    delivery.command.fullName = name →
      ∀ policy ∈ delivery.input.retryPolicies delivery.command,
        (Double.finite n).lt policy.attempts = false

variable {s : Execution V} {phase : String → RetryPhase V} {name : ChildName} {n : ℚ}

/-- A count grows with the first attempt and with a retry within the policy. -/
private theorem Working.counted_step (h : s.Working phase) (hbounded : s.Bounded name n)
    (op : Op V) (hretry : ∀ params, op = .store (.createAttempt params) →
      ∃ failed : StoredAttempt V, params = failed.retryParams ∧
        Licence s.mem.nextId s.mem.records failed ∧
          (failed.fullName = name → (failed.attemptNumber : ℚ) < n)) :
    (s.mem.step op).children.All fun _ child =>
      child.fullName = name → (child.attemptCount : ℤ) ≤ max 1 ⌈n⌉ := by
  intro key child' hget hname
  have hk := h.sound.sound.keyed
  obtain hzero | ⟨child, hchild, hview⟩ | ⟨child, attempt, hchild, hmakes, hof, hof', hcount⟩ :=
    (Mem.step_effect hk op).count_cases hget
  · rw [hzero]
    omega
  · rw [hview.count]
    refine hbounded.counted key child hchild ?_
    rw [← hname]
    simp only [StoredNodeChild.fullName, hview.runId, hview.nodeName, hview.childKey]
  · cases hmakes with
    | first hnone => omega
    | next hkey =>
      obtain ⟨failed, rfl, hlicence, hlimit⟩ := hretry _ rfl
      have howner : failed.ownerKey = key := hkey.trans (hk.children hchild)
      obtain ⟨owner, hlast⟩ | ⟨hnone, -⟩ := hlicence.current
      · have hget' := hlast.owner
        rw [howner] at hget'
        obtain rfl := Option.some.inj (hchild.symm.trans hget')
        obtain ⟨current, hcurrent, hofFailed, -⟩ :=
          h.sound.attempts.current key child hchild _ hlast.current
        obtain rfl := Option.some.inj (hlast.stored.symm.trans hcurrent)
        have hlt := hlimit (by
          rw [← hofFailed.fullName_eq, hof.fullName_eq, ← hof'.fullName_eq, hname])
        have hceil : (failed.attemptNumber : ℤ) < ⌈n⌉ := Int.lt_ceil.mpr (by exact_mod_cast hlt)
        have := hlast.count
        omega
      · rw [howner, hchild] at hnone
        cases hnone

theorem Working.bounded_step (h : s.Working phase) (hbounded : s.Bounded name n)
    {move : ExecutionMove V} (hmove : s.Tended move) (hpolicy : s.WithinPolicy name n move) :
    (s.step move).Bounded name n := by
  cases move with
  | claim worker input =>
    cases hget : s.workers worker with
    | some delivery => simpa only [Execution.step, hget] using hbounded
    | none =>
      have hcounted := h.counted_step hbounded (.executor (.claimAttempt input.claim)) nofun
      simp only [Execution.step, hget, Execution.start]
      refine ⟨hcounted, fun worker' delivery hdelivery hname policy => ?_⟩
      by_cases hne : worker' = worker
      · subst hne
        simp only [Function.update_self] at hdelivery
        obtain ⟨claimed, hclaimed, rfl⟩ := Option.map_eq_some_iff.mp hdelivery
        exact hpolicy claimed hclaimed hname policy
      · simp only [Function.update_of_ne hne] at hdelivery
        exact hbounded.policies worker' delivery hdelivery hname policy
  | resume worker user =>
    cases hget : s.workers worker with
    | none => simpa only [Execution.step, hget] using hbounded
    | some delivery =>
      simp only [Execution.step, hget, Execution.resume]
      constructor
      · obtain ⟨op, next, hrest, hstep⟩ | ⟨-, hmem, -⟩ := delivery.step_cases user s.mem
        · have hfollows := h.follows worker delivery hget
          unfold Begun Program.Obeys at hfollows
          rw [hrest] at hfollows
          rw [hstep]
          cases op with
          | callback | dateNow => exact hbounded.counted
          | executor op => exact h.counted_step hbounded (.executor op) nofun
          | store op =>
            refine h.counted_step hbounded (.store op) ?_
            rintro params ⟨⟩
            obtain ⟨failed, hphase, rfl, policy, hmem, hlt⟩ := hfollows.1
            have hholds := h.holds worker delivery hget
            rw [hphase] at hholds
            obtain ⟨-, hparams, -, hlicence⟩ := hholds
            refine ⟨failed, hparams.symm, hlicence, fun hname => ?_⟩
            have hcommand : delivery.command.fullName = name := by
              rw [← hname]
              simp only [StoredAttempt.retryParams, AttemptCommand.retryParams,
                ChildAttemptParams.mk.injEq] at hparams
              simp only [AttemptCommand.fullName, StoredAttempt.fullName, hparams]
            exact Double.lt_of_lt_of_not_lt hlt
              (hbounded.policies worker delivery hget hcommand policy hmem)
        · rw [hmem]
          exact hbounded.counted
      · intro worker' delivery' hget' hname policy
        by_cases hne : worker' = worker
        · subst hne
          simp only [Function.update_self, Delivery.left] at hget'
          split at hget'
          · cases hget'
          · obtain rfl := Option.some.inj hget'
            exact hbounded.policies worker' delivery hget hname policy
        · simp only [Function.update_of_ne hne] at hget'
          exact hbounded.policies worker' delivery' hget' hname policy
  | crash worker =>
    refine ⟨hbounded.counted, fun worker' delivery hget hname policy => ?_⟩
    by_cases hne : worker' = worker
    · subst hne
      simp only [Execution.step, Function.update_self] at hget
      cases hget
    · simp only [Execution.step, Function.update_of_ne hne] at hget
      exact hbounded.policies worker' delivery hget hname policy
  | other op =>
    refine ⟨h.counted_step hbounded op ?_, hbounded.policies⟩
    rintro params rfl
    cases hmove.2.2

/-! ## Every history -/

/-- The attempts of a child, all that were ever created for it: as many as the policy allows, at
most one created to retry each of them, each but the first created to retry a failed or timed-out
one, and all with the arguments of the first. -/
structure RetryBudget (s : Execution V) (child : StoredNodeChild V) (n : ℚ) : Prop where
  bounded : ((s.mem.attemptsOf child).length : ℤ) ≤ max 1 ⌈n⌉
  successor : ∀ attempt ∈ s.mem.attemptsOf child,
    (s.retries.filter fun pair => pair.1 = attempt.id).length ≤ 1
  retried : ∀ attempt ∈ s.mem.attemptsOf child, attempt.attemptNumber = 1 ∨
    ∃ failed ∈ s.mem.attemptsOf child, isFailedAttemptStatus failed.status ∧
      failed.attemptNumber + 1 = attempt.attemptNumber ∧ (failed.id, attempt.id) ∈ s.retries
  same : ∀ attempt ∈ s.mem.attemptsOf child, ∀ first ∈ s.mem.attemptsOf child,
    first.attemptNumber = 1 → SameArguments first attempt

theorem Working.retryBudget (h : s.Working phase) {child : StoredNodeChild V}
    (hchild : child ∈ s.mem.children.values)
    (hcount : (child.attemptCount : ℤ) ≤ max 1 ⌈n⌉) : s.RetryBudget child n := by
  have hk := h.sound.sound.keyed
  constructor
  · have hlength := (h.sound.numbered hchild).length_eq
    rw [List.length_map, List.length_range'] at hlength
    rwa [hlength]
  · intro attempt _
    have hnodup := h.once
    have hcountLe := List.nodup_iff_count_le_one.mp hnodup attempt.id
    rw [List.count, List.countP_map, List.countP_eq_length_filter] at hcountLe
    have hsame : (fun pair : String × String => decide (pair.1 = attempt.id)) =
        (fun id => id == attempt.id) ∘ Prod.fst := by
      funext pair
      exact (beq_eq_decide _ _).symm
    rwa [hsame]
  · intro attempt hattempt
    obtain ⟨hget, hof⟩ := (Mem.mem_attemptsOf hk).mp hattempt
    obtain hone | ⟨id', failed, hmem, hfailed, hsiblings, hnumber, hstatus⟩ :=
      h.succession.succeeds _ _ hget
    · exact .inl hone
    · have hid : failed.id = id' := hk.attempts hfailed
      refine .inr ⟨failed, (Mem.mem_attemptsOf hk).mpr ⟨?_, hsiblings.ofChild.mp hof⟩, hstatus,
        hnumber, hid ▸ hmem⟩
      rw [hid]
      exact hfailed
  · intro attempt hattempt first hfirst _
    obtain ⟨hget, hof⟩ := (Mem.mem_attemptsOf hk).mp hattempt
    obtain ⟨hget', hof'⟩ := (Mem.mem_attemptsOf hk).mp hfirst
    exact h.succession.same hget' hget (hof'.siblings hof)

/-- After every history in which retries are left to the workers, and in which no worker claims a
command of the child with a policy of more than `n` attempts, the attempts of the child are within
the budget. -/
theorem retry_budget (maxDeliveries : Option Int) {history : List (ExecutionMove V)}
    (h : Trace.Admits step Tended (create maxDeliveries) history) (name : ChildName) (n : ℚ)
    (hpolicy : Trace.Admits step (WithinPolicy name n) (create maxDeliveries) history) :
    ∀ child ∈ (after maxDeliveries history).mem.children.values, child.fullName = name →
      (after maxDeliveries history).RetryBudget child n := by
  have hrun : ∀ (l : List (ExecutionMove V)) (s : Execution V),
      Trace.Admits step Tended s l → Trace.Admits step (WithinPolicy name n) s l →
      (∃ phase, s.Working phase) ∧ s.Bounded name n →
      (∃ phase, (Trace.run step s l).Working phase) ∧ (Trace.run step s l).Bounded name n := by
    intro l
    induction l with
    | nil => exact fun _ _ _ hs => hs
    | cons move l ih =>
      rintro s ⟨hmove, hrest⟩ ⟨hwithin, hrest'⟩ ⟨⟨phase, hworking⟩, hbounded⟩
      exact ih (s.step move) hrest hrest'
        ⟨hworking.step hmove, hworking.bounded_step hbounded hmove hwithin⟩
  have hstart : (create maxDeliveries : Execution V).Bounded name n := ⟨.empty, nofun⟩
  obtain ⟨⟨phase, hworking⟩, hbounded⟩ :=
    hrun history _ h hpolicy ⟨⟨_, working_create maxDeliveries⟩, hstart⟩
  intro child hchild hname
  obtain ⟨key, hkey⟩ := OrdMap.mem_values_iff.mp hchild
  exact hworking.retryBudget hchild (hbounded.counted key child hkey hname)

/-- A handler that throws. -/
def throwingUser : UserCode JsonText
  | .handler _ _ => .ok ⟨0, .threw (.error "failed")⟩
  | _ => .error (.error "No user code")

def retryingWorker (attempts : ℚ) : ExecutionWorkerInput where
  workerId := "worker"
  tasks := [⟨{ name := "t", input := ⟨"in"⟩, output := ⟨"out"⟩,
               retry := some { attempts := .finite attempts } }⟩]

/-- A worker holds the command of the attempt of a task run. -/
def claimedHistory (attempts : ℚ) : List (ExecutionMove JsonText) :=
  Mem.startedTaskHistory.map .other ++ [.claim "a" (retryingWorker attempts)]

/-- Two workers hold the command of one attempt, since the lease of the first has expired. Both find
it fresh and see their handler throw, and one of them retries it. -/
def sharedCommandHistory (attempts : ℚ) : List (ExecutionMove JsonText) :=
  claimedHistory attempts ++
  List.replicate 3 (.resume "a" throwingUser) ++
  [.other (.clock 100000), .claim "b" (retryingWorker attempts)] ++
  List.replicate 3 (.resume "b" throwingUser) ++
  [.resume "b" throwingUser, .resume "a" throwingUser] ++
  List.replicate 3 (.resume "b" throwingUser)

example : (after none (sharedCommandHistory 2)).retries = [("attempt-2", "attempt-7")] := by
  decide +kernel

theorem retry_budget_sharedCommand :
    Trace.Admits step Tended (create none) (sharedCommandHistory 2) ∧
    Trace.Admits step (WithinPolicy ⟨"run-1", "$task", "$self"⟩ 2) (create none)
      (sharedCommandHistory 2) ∧
    ∀ child ∈ (after none (sharedCommandHistory 2)).mem.children.values,
      child.fullName = ⟨"run-1", "$task", "$self"⟩ →
        (after none (sharedCommandHistory 2)).RetryBudget child 2 :=
  have htended : Trace.Admits step Tended (create none) (sharedCommandHistory 2) := by decide +kernel
  have hwithin : Trace.Admits step (WithinPolicy ⟨"run-1", "$task", "$self"⟩ 2) (create none)
      (sharedCommandHistory 2) := by decide +kernel
  ⟨htended, hwithin, retry_budget none htended _ 2 hwithin⟩

/-- Some child has more attempts than `n`, and more than one, or attempts with other inputs. -/
def BreaksBudget (s : Execution V) (n : ℚ) : Prop :=
  ∃ child ∈ s.mem.children.values, max 1 n < (s.mem.attemptsOf child).length ∨
    ∃ attempt ∈ s.mem.attemptsOf child, ∃ attempt' ∈ s.mem.attemptsOf child,
      attempt.input ≠ attempt'.input

instance (s : Execution JsonText) (n : ℚ) : Decidable (s.BreaksBudget n) :=
  inferInstanceAs (Decidable (∃ child ∈ s.mem.children.values, _ ∨ _))

/-- A child whose record was made anew gets an attempt once more. -/
def attemptedAgain (history : List (Op JsonText)) (nodeName childKey : String) :
    List (ExecutionMove JsonText) :=
  (history ++ [Op.store (.ensureChildAttempt
    { runId := "run-1", nodeName, childKey, input := JsonText.null })]).map .other

/-- The run of a failed attempt is deleted, and its child made anew without it, before the attempt
is retried. -/
def strayRetryHistory : List (ExecutionMove JsonText) :=
  claimedHistory 2 ++
  List.replicate 4 (.resume "a" throwingUser) ++
  [.other (.store (.completeRun "run-1" .null)),
    .other (.store (.deleteRun "run-1")),
    .other (.store (.createNode { runId := "run-1", name := "$task", kind := .task })),
    .other (.store (.ensureNodeChildren "run-1" "$task" [{ childKey := "$self", kind := .task }])),
    .other (.store (.ensureChildAttempt
      { runId := "run-1", nodeName := "$task", childKey := "$self", input := ⟨"1"⟩ })),
    .resume "a" throwingUser]

/-- A budget that is no whole number is exceeded; so is one of a single attempt by a child with a
`:` in a node name or a run id, and by one linked to a run under a foreign root; and a child that is
created for no stored run can get a retry of another's attempt. -/
theorem not_retry_budget :
    (after none (sharedCommandHistory (3 / 2))).BreaksBudget (3 / 2) ∧
    (after none (attemptedAgain (Mem.joinedAttemptsHistory "run-1" "a:b" "c" "run-1" "a" "b:c")
      "a:b" "c")).BreaksBudget 1 ∧
    (after none (attemptedAgain (Mem.joinedAttemptsHistory "run-1" "a" "b:c" "run-1:a" "b" "c")
      "a" "b:c")).BreaksBudget 1 ∧
    (after none (attemptedAgain Mem.foreignRootHistory "a" "$self")).BreaksBudget 1 ∧
    (after none strayRetryHistory).BreaksBudget 2 := by
  decide +kernel

end Execution

end Neemata.Workflows
