import Neemata.Workflows.InMemory.Attempts
import Neemata.Workflows.Worker.Attempt

/-!
# Attempts that follow failed attempts

A further attempt of a child succeeds its failed current attempt and repeats its arguments
(`Succession`). Who may create it holds a `Licence`: the failed attempt that it has settled itself.
A licence stays good while others act, since none of them has one for the same attempt.
-/

namespace Neemata.Workflows

variable {V : Type}

/-! ## Succession -/

/-- Two attempts of one child. -/
def Siblings (attempt attempt' : StoredAttempt V) : Prop :=
  attempt'.runId = attempt.runId ∧ attempt'.nodeName = attempt.nodeName ∧
    attempt'.childKey = attempt.childKey

theorem OfChild.siblings {child : StoredNodeChild V} {attempt attempt' : StoredAttempt V}
    (h : OfChild child attempt) (h' : OfChild child attempt') : Siblings attempt attempt' :=
  ⟨h'.1.trans h.1.symm, h'.2.1.trans h.2.1.symm, h'.2.2.trans h.2.2.symm⟩

theorem Siblings.ofChild {child : StoredNodeChild V} {attempt attempt' : StoredAttempt V}
    (h : Siblings attempt attempt') : OfChild child attempt' ↔ OfChild child attempt := by
  simp only [OfChild, h.1, h.2.1, h.2.2]

theorem Siblings.refl (attempt : StoredAttempt V) : Siblings attempt attempt := ⟨rfl, rfl, rfl⟩

theorem Siblings.symm {attempt attempt' : StoredAttempt V} (h : Siblings attempt attempt') :
    Siblings attempt' attempt :=
  ⟨h.1.symm, h.2.1.symm, h.2.2.symm⟩

theorem Siblings.trans {attempt attempt' attempt'' : StoredAttempt V}
    (h : Siblings attempt attempt') (h' : Siblings attempt' attempt'') :
    Siblings attempt attempt'' :=
  ⟨h'.1.trans h.1, h'.2.1.trans h.2.1, h'.2.2.trans h.2.2⟩

/-- Same input and same idempotency key. -/
def SameArguments (attempt attempt' : StoredAttempt V) : Prop :=
  attempt'.input = attempt.input ∧ attempt'.idempotencyKey = attempt.idempotencyKey

/-- The attempts of every child share their arguments, and each but the first succeeds a failed
attempt; `retries` lists the pairs. Every child belongs to a stored run. -/
structure Succession (retries : List (String × String)) (s : Records V) : Prop where
  housed : s.children.All fun _ child => (s.runs.get? child.runId).isSome
  same : ∀ {id id' : String} {attempt attempt' : StoredAttempt V},
    s.attempts.get? id = some attempt → s.attempts.get? id' = some attempt' →
    Siblings attempt attempt' → SameArguments attempt attempt'
  succeeds : s.attempts.All fun id attempt => attempt.attemptNumber = 1 ∨
    ∃ id' failed, (id', id) ∈ retries ∧ s.attempts.get? id' = some failed ∧
      Siblings failed attempt ∧ failed.attemptNumber + 1 = attempt.attemptNumber ∧
      isFailedAttemptStatus failed.status

/-! ## Licences -/

/-- The map key of the child of an attempt. -/
def StoredAttempt.ownerKey (attempt : StoredAttempt V) : String :=
  Workflows.childKey attempt.runId attempt.nodeName attempt.childKey

/-- What a retry of the attempt asks the store for. -/
def StoredAttempt.retryParams (attempt : StoredAttempt V) : ChildAttemptParams V where
  runId := attempt.runId
  nodeName := attempt.nodeName
  childKey := attempt.childKey
  input := attempt.input
  idempotencyKey := attempt.idempotencyKey

/-- The failed attempt is the last one of its child. -/
structure LastOf (s : Records V) (attempt : StoredAttempt V) (child : StoredNodeChild V) :
    Prop where
  stored : s.attempts.get? attempt.id = some attempt
  owner : s.children.get? attempt.ownerKey = some child
  current : child.currentAttemptId = some attempt.id
  count : child.attemptCount = attempt.attemptNumber

/-- The child of the attempt went with its run. -/
def Orphaned (s : Records V) (attempt : StoredAttempt V) : Prop :=
  s.children.get? attempt.ownerKey = none ∧ s.runs.get? attempt.runId = none

/-- The right to retry a failed attempt. -/
structure Licence (n : Nat) (s : Records V) (attempt : StoredAttempt V) : Prop where
  failed : isFailedAttemptStatus attempt.status
  positive : 1 ≤ attempt.attemptNumber
  plain : Separate ':' attempt.runId ∧ Separate ':' attempt.nodeName
  run : Minted "run" n attempt.runId
  minted : Minted "attempt" n attempt.id
  current : (∃ child, LastOf s attempt child) ∨ Orphaned s attempt

theorem Licence.not_started {n : Nat} {s : Records V} {attempt : StoredAttempt V}
    (h : Licence n s attempt) : attempt.status ≠ .started := by
  intro hstatus
  have := h.failed
  simp [hstatus, isFailedAttemptStatus] at this

section

variable [JsRuntime V] {op : Op V} {n n' : Nat} {s s' : Records V}
  {retries : List (String × String)} {attempt : StoredAttempt V}

/-- Node children are created for stored runs. -/
def Op.Housed (s : Records V) (op : Op V) : Prop :=
  ∀ names ∈ op.childrenOf, (s.runs.get? names.1).isSome

instance (s : Records V) : DecidablePred (Op.Housed s) := fun op =>
  inferInstanceAs (Decidable (∀ names ∈ op.childrenOf, _))

/-- An operation that creates a further attempt retries a licensed one. -/
def Op.Licensed (n : Nat) (s : Records V) (retries : List (String × String)) (op : Op V) : Prop :=
  ∀ params, op = .store (.createAttempt params) → ∃ failed : StoredAttempt V,
    params = failed.retryParams ∧ Licence n s failed ∧
      (failed.id, freshId "attempt" n) ∈ retries

omit [JsRuntime V] in
private theorem isSome_get?_set {κ ν : Type} [DecidableEq κ] {m : OrdMap κ ν} {k k' : κ} {v : ν}
    (h : (m.get? k').isSome) : ((m.set k v).get? k').isSome := by
  rw [OrdMap.get?_set]
  split
  · rfl
  · exact h

omit [JsRuntime V] in
private theorem Succession.of_runs (h : Succession retries s) {runs : OrdMap String (StoredRun V)}
    (hruns : ∀ id, (s.runs.get? id).isSome → (runs.get? id).isSome) :
    Succession retries { s with runs } where
  housed := h.housed.mono fun _ child hchild => hruns child.runId hchild
  same := h.same
  succeeds := h.succeeds

omit [JsRuntime V] in
private theorem Succession.of_children (h : Succession retries s)
    {children : OrdMap String (StoredNodeChild V)}
    (hchildren : OrdMap.Swept ChildChange s.children children) :
    Succession retries { s with children } where
  housed := by
    intro key child hget
    obtain ⟨before, hbefore, rfl | hchange⟩ := hchildren.backward hget
    · exact h.housed key child hbefore
    · rw [hchange.runId_eq]
      exact h.housed key before hbefore
  same := h.same
  succeeds := h.succeeds

omit [JsRuntime V] in
theorem AttemptChange.siblings {attempt' : StoredAttempt V} (h : AttemptChange attempt attempt') :
    Siblings attempt attempt' := by
  rw [h.same]
  exact .refl attempt

omit [JsRuntime V] in
/-- Settling an attempt. It was not a failed one, so it has no successor yet. -/
private theorem Succession.settle (h : Succession retries s) {id : String}
    {attempt' : StoredAttempt V} (get : s.attempts.get? id = some attempt)
    (change : AttemptChange attempt attempt') :
    Succession retries { s with attempts := s.attempts.set id attempt' } where
  housed := h.housed
  same := by
    -- whatever is stored now was stored before with the same child and the same arguments
    have back {id₁ a₁} (hget : (s.attempts.set id attempt').get? id₁ = some a₁) :
        ∃ a, s.attempts.get? id₁ = some a ∧ Siblings a a₁ ∧ SameArguments a a₁ := by
      obtain ⟨a, ha, rfl | hchange⟩ := (OrdMap.Swept.set get change).backward hget
      · exact ⟨a₁, ha, .refl a₁, rfl, rfl⟩
      · refine ⟨a, ha, hchange.siblings, ?_⟩
        rw [hchange.same]
        exact ⟨rfl, rfl⟩
    intro id₁ id₂ a₁ a₂ hget₁ hget₂ hsiblings
    obtain ⟨b₁, hb₁, hsib₁, hsame₁⟩ := back hget₁
    obtain ⟨b₂, hb₂, hsib₂, hsame₂⟩ := back hget₂
    have hsame := h.same hb₁ hb₂ ((hsib₁.trans hsiblings).trans hsib₂.symm)
    exact ⟨hsame₂.1.trans (hsame.1.trans hsame₁.1.symm),
      hsame₂.2.trans (hsame.2.trans hsame₁.2.symm)⟩
  succeeds := by
    intro id₁ a₁ hget₁
    have hold : ∃ a, s.attempts.get? id₁ = some a ∧ Siblings a a₁ ∧
        a₁.attemptNumber = a.attemptNumber := by
      obtain ⟨a, ha, rfl | hchange⟩ := (OrdMap.Swept.set get change).backward hget₁
      · exact ⟨a₁, ha, .refl a₁, rfl⟩
      · exact ⟨a, ha, hchange.siblings, by rw [hchange.same]⟩
    obtain ⟨a, ha, hsiblings, hnumber⟩ := hold
    obtain hone | ⟨id', failed, hmem, hfailed, hsib, hsucc, hstatus⟩ := h.succeeds id₁ a ha
    · exact .inl (hnumber.trans hone)
    · refine .inr ⟨id', failed, hmem, ?_, hsib.trans hsiblings, hsucc.trans hnumber.symm, hstatus⟩
      rw [OrdMap.get?_set_of_ne, hfailed]
      rintro rfl
      obtain rfl := Option.some.inj (get.symm.trans hfailed)
      rw [change.live] at hstatus
      cases hstatus

omit [JsRuntime V] in
/-- A further attempt that repeats what a licence is for. -/
private theorem Succession.addAttempt (h : Succession retries s) (hs : Sound n s)
    (hnumbered : Numbered s) (hop : op.Licensed n s retries) {key : String}
    {child child' : StoredNodeChild V} (get : s.children.get? key = some child)
    (owner : OfChild child attempt) (number : attempt.attemptNumber = child.attemptCount + 1)
    (change : ChildChange child child') (source : MakesAttempt child attempt op) :
    Succession retries { s with
      attempts := s.attempts.set (freshId "attempt" n) attempt
      children := s.children.set key child' } := by
  have hold {id a} (hget : s.attempts.get? id = some a) : id ≠ freshId "attempt" n := by
    rintro rfl
    rw [hs.attempt_fresh] at hget
    cases hget
  -- the attempts that the child has already: none, or the ones that the licence speaks for
  have hcases : (∀ {id a}, s.attempts.get? id = some a → ¬ OfChild child a) ∧
        attempt.attemptNumber = 1 ∨
      ∃ failed : StoredAttempt V, (failed.id, freshId "attempt" n) ∈ retries ∧
        s.attempts.get? failed.id = some failed ∧ Siblings failed attempt ∧
        failed.attemptNumber + 1 = attempt.attemptNumber ∧
        isFailedAttemptStatus failed.status ∧ SameArguments failed attempt := by
    cases source with
    | first count =>
      refine .inl ⟨fun {id a} hget hof => ?_, by omega⟩
      obtain ⟨key', owner', hget', hof', hpos, hle⟩ := hnumbered.owned id a hget
      obtain rfl := hs.keyed.key_of_ofChild get hget' hof hof'
      obtain rfl := Option.some.inj (get.symm.trans hget')
      omega
    | next hkey hinput hidem =>
      obtain ⟨failed, rfl, hlicence, hmem⟩ := hop _ rfl
      have hownerKey : failed.ownerKey = key := hkey.trans (hs.keyed.children get)
      obtain ⟨owner', hlast⟩ | ⟨hnone, -⟩ := hlicence.current
      · have hget' := hlast.owner
        rw [hownerKey] at hget'
        obtain rfl := Option.some.inj (get.symm.trans hget')
        obtain ⟨current, hcurrent, hof, -⟩ := hnumbered.current key child get _ hlast.current
        obtain rfl := Option.some.inj (hlast.stored.symm.trans hcurrent)
        refine .inr ⟨failed, hmem, hlast.stored, hof.siblings owner, ?_, hlicence.failed, hinput,
          hidem⟩
        rw [number, hlast.count]
      · rw [hownerKey, get] at hnone
        cases hnone
  constructor
  · refine OrdMap.All.set h.housed ?_
    rw [change.runId_eq]
    exact h.housed key child get
  · intro id₁ id₂ a₁ a₂ hget₁ hget₂ hsiblings
    -- an attempt of the child that was there before repeats the same arguments
    have hnew {id a} (hget : s.attempts.get? id = some a) (hsib : Siblings attempt a) :
        SameArguments attempt a := by
      obtain ⟨hnone, -⟩ | ⟨failed, -, hfailed, hfailedSib, -, -, hargs⟩ := hcases
      · exact absurd (hsib.ofChild.mpr owner) (hnone hget)
      · have hsame := h.same hfailed hget (hfailedSib.trans hsib)
        exact ⟨hsame.1.trans hargs.1.symm, hsame.2.trans hargs.2.symm⟩
    simp only [OrdMap.get?_set] at hget₁ hget₂
    split at hget₁ <;> split at hget₂
    · obtain rfl := Option.some.inj hget₁
      obtain rfl := Option.some.inj hget₂
      exact ⟨rfl, rfl⟩
    · obtain rfl := Option.some.inj hget₁
      exact hnew hget₂ hsiblings
    · obtain rfl := Option.some.inj hget₂
      have hsame := hnew hget₁ hsiblings.symm
      exact ⟨hsame.1.symm, hsame.2.symm⟩
    · exact h.same hget₁ hget₂ hsiblings
  · refine OrdMap.All.set ?_ ?_
    · intro id a hget
      obtain hone | ⟨id', failed, hmem, hfailed, hrest⟩ := h.succeeds id a hget
      · exact .inl hone
      · exact .inr ⟨id', failed, hmem, (OrdMap.get?_set_of_ne (hold hfailed)).trans hfailed, hrest⟩
    · obtain ⟨-, hone⟩ | ⟨failed, hmem, hfailed, hsib, hnumber, hstatus, -⟩ := hcases
      · exact .inl hone
      · exact .inr ⟨failed.id, failed, hmem,
          (OrdMap.get?_set_of_ne (hold hfailed)).trans hfailed, hsib, hnumber, hstatus⟩

/-- Every operation keeps the succession, when further attempts are retries of licensed ones. -/
theorem Succession.effect (heffect : Effect op n s n' s') (hs : Sound n s)
    (hnumbered : Numbered s) (hhoused : op.Housed s) (hop : op.Licensed n s retries)
    (h : Succession retries s) : Succession retries s' := by
  cases heffect with
  | same => exact h
  | addRun | setRun => exact h.of_runs fun _ hid => isSome_get?_set hid
  | addNode | setNode => exact ⟨h.housed, h.same, h.succeeds⟩
  | addChildren _ source absent =>
    subst source
    refine ⟨OrdMap.All.foldl_set h.housed fun child hchild => ?_, h.same, h.succeeds⟩
    obtain ⟨input, -, rfl⟩ := List.mem_map.mp hchild
    exact hhoused _ rfl
  | setChild _ get change => exact h.of_children (.set get change)
  | linkChild _ _ get _ _ _ change => exact h.of_children (.set get change)
  | linkNewChild _ _ get _ _ _ _ change =>
    exact (h.of_children (.set get change)).of_runs fun _ hid => isSome_get?_set hid
  | addAttempt _ get _ owner number _ change _ _ _ _ source =>
    have hadd := h.addAttempt hs hnumbered hop get owner number change source
    exact ⟨hadd.housed, hadd.same, hadd.succeeds⟩
  | setAttempt _ get change _ getChild _ _ settle =>
    obtain rfl | ⟨child', hchange, -, -, rfl⟩ := settle
    · exact h.settle get change
    · exact (h.settle get change).of_children (.set getChild hchange)
  | sweep _ _ sweptChildren =>
    have hchildren := h.of_children (sweptChildren.mono fun _ _ hc => hc.1)
    exact ⟨hchildren.housed, hchildren.same, hchildren.succeeds⟩
  | delete =>
    rename_i ids _ _ _
    have hattempts {id a} : (s.deleteTrees ids).attempts.get? id = some a ↔
        s.attempts.get? id = some a ∧ a.runId ∉ ids := by
      simp only [Records.deleteTrees, OrdMap.get?_filter, Option.filter_eq_some_iff,
        decide_eq_true_eq]
    constructor
    · intro key child hget
      simp only [Records.deleteTrees, OrdMap.get?_filter, Option.filter_eq_some_iff,
        decide_eq_true_eq] at hget
      have hkept := h.housed key child hget.1
      obtain ⟨run, hrun⟩ := Option.isSome_iff_exists.mp hkept
      simp [Records.deleteTrees, OrdMap.get?_filter, hrun, hget.2.1]
    · intro id id' a a' hget hget'
      exact h.same (hattempts.mp hget).1 (hattempts.mp hget').1
    · intro id a hget
      obtain ⟨hget, hkeep⟩ := hattempts.mp hget
      obtain hone | ⟨id', failed, hmem, hfailed, hsib, hrest⟩ := h.succeeds id a hget
      · exact .inl hone
      · exact .inr ⟨id', failed, hmem, hattempts.mpr ⟨hfailed, hsib.1 ▸ hkeep⟩, hsib, hrest⟩

/-! ## Licences while others act -/

omit [JsRuntime V] in
/-- The record of a licensed attempt is settled, so only a deletion touches it. -/
private theorem LastOf.of_attempts {child : StoredNodeChild V} (h : LastOf s attempt child)
    (hstatus : attempt.status ≠ .started) {attempts : OrdMap String (StoredAttempt V)}
    (hswept : OrdMap.Swept AttemptChange s.attempts attempts) :
    LastOf { s with attempts } attempt child := by
  obtain ⟨attempt', hget, rfl | hchange⟩ := hswept.forward h.stored
  · exact ⟨hget, h.owner, h.current, h.count⟩
  · exact absurd hchange.live hstatus

omit [JsRuntime V] in
private theorem LastOf.of_children {child : StoredNodeChild V} (h : LastOf s attempt child)
    {children : OrdMap String (StoredNodeChild V)} (hswept : OrdMap.Swept
      (fun child child' => ChildChange.KeepsAttempts child child') s.children children) :
    ∃ child', LastOf { s with children } attempt child' := by
  obtain ⟨child', hget, rfl | hkeeps⟩ := hswept.forward h.owner
  · exact ⟨child', h.stored, hget, h.current, h.count⟩
  · exact ⟨child', h.stored, hget, hkeeps.current.trans h.current, hkeeps.count.trans h.count⟩

omit [JsRuntime V] in
private theorem Orphaned.of_children (h : Orphaned s attempt)
    {R : StoredNodeChild V → StoredNodeChild V → Prop}
    {children : OrdMap String (StoredNodeChild V)} (hswept : OrdMap.Swept R s.children children) :
    Orphaned { s with children } attempt := by
  refine ⟨Option.eq_none_iff_forall_ne_some.mpr fun child' hget => ?_, h.2⟩
  obtain ⟨child, hchild, -⟩ := hswept.backward hget
  rw [h.1] at hchild
  cases hchild

/-- A licence holds on when nobody else acts on a licence for the same attempt. -/
theorem Licence.effect (heffect : Effect op n s n' s') (hs : Sound n s)
    (hplain : PlainChildren s) (hlinked : Linked s) (hnumbered : Numbered s) (hop : op.Plain)
    (hhoused : op.Housed s) (hother : ∀ params, op = .store (.createAttempt params) →
      ∃ other : StoredAttempt V, params = other.retryParams ∧ Licence n s other ∧
        other.id ≠ attempt.id) (h : Licence n s attempt) : Licence n' s' attempt := by
  refine { h with
    run := h.run.mono heffect.nextId_le, minted := h.minted.mono heffect.nextId_le, current := ?_ }
  have hattempt {id : String} (hid : id = freshId "attempt" n) : attempt.id ≠ id := by
    rintro rfl
    exact not_minted_freshId "attempt" n (hid ▸ h.minted)
  have hrun {id : String} (hid : id = freshId "run" n) : attempt.runId ≠ id := by
    rintro rfl
    exact not_minted_freshId "run" n (hid ▸ h.run)
  have hcurrent := h.current
  cases heffect with
  | same => exact hcurrent
  | addRun =>
    refine hcurrent.imp (fun ⟨child, hlast⟩ => ⟨child, hlast.1, hlast.2, hlast.3, hlast.4⟩)
      fun ⟨hnone, habsent⟩ => ⟨hnone, ?_⟩
    exact (OrdMap.get?_set_of_ne (hrun rfl)).trans habsent
  | setRun _ get =>
    refine hcurrent.imp (fun ⟨child, hlast⟩ => ⟨child, hlast.1, hlast.2, hlast.3, hlast.4⟩)
      fun ⟨hnone, habsent⟩ => ⟨hnone, (OrdMap.get?_set_of_ne ?_).trans habsent⟩
    rintro rfl
    rw [get] at habsent
    cases habsent
  | addNode | setNode =>
    exact hcurrent.imp (fun ⟨child, hlast⟩ => ⟨child, hlast.1, hlast.2, hlast.3, hlast.4⟩) id
  | @addChildren runId nodeName inputs date _ source absent =>
    subst source
    obtain ⟨hrunId, hnode⟩ := hop _ rfl
    obtain ⟨child, hlast⟩ | ⟨hnone, habsent⟩ := hcurrent
    · exact .inl ⟨child, hlast.stored,
        addChildren_get? hs.keyed hplain hrunId hnode absent hlast.owner, hlast.current,
        hlast.count⟩
    · -- a deleted child does not come back, since its run does not
      refine .inr ⟨(OrdMap.get?_foldl_set_of_ne fun child hchild hkey => ?_).trans hnone, habsent⟩
      obtain ⟨input, -, rfl⟩ := List.mem_map.mp hchild
      have hsame : attempt.runId = runId :=
        (childKey_inj h.plain.1 hrunId h.plain.2 hnode hkey).1
      have hstored : (s.runs.get? runId).isSome := hhoused _ rfl
      rw [← hsame, habsent] at hstored
      cases hstored
  | setChild _ get _ _ attempts =>
    have hswept := OrdMap.Swept.set (R := ChildChange.KeepsAttempts) get attempts
    exact hcurrent.imp (fun ⟨child, hlast⟩ => hlast.of_children hswept) (·.of_children hswept)
  | linkChild _ _ get _ _ _ _ _ attempts =>
    have hswept := OrdMap.Swept.set (R := ChildChange.KeepsAttempts) get attempts
    exact hcurrent.imp (fun ⟨child, hlast⟩ => hlast.of_children hswept) (·.of_children hswept)
  | linkNewChild _ _ get _ id _ _ _ _ attempts =>
    have hswept := OrdMap.Swept.set (R := ChildChange.KeepsAttempts) get attempts
    rcases hcurrent with ⟨child, hlast⟩ | horphaned
    · obtain ⟨child', hlast'⟩ := hlast.of_children hswept
      exact .inl ⟨child', hlast'.1, hlast'.2, hlast'.3, hlast'.4⟩
    · exact .inr ⟨(horphaned.of_children hswept).1,
        (OrdMap.get?_set_of_ne (hrun id)).trans horphaned.2⟩
  | @addAttempt key child child' added nodes _ get _ owner number _ change _ current count _ source =>
    by_cases hkey : attempt.ownerKey = key
    · subst hkey
      obtain ⟨_, hlast⟩ | ⟨hnone, -⟩ := hcurrent
      · obtain rfl := Option.some.inj (get.symm.trans hlast.owner)
        cases source with
        | first hzero =>
          have := hlast.count
          have := h.positive
          omega
        | next hparams =>
          obtain ⟨other, rfl, hlicence, hne⟩ := hother _ rfl
          have hownerKey : other.ownerKey = attempt.ownerKey :=
            hparams.trans (hs.keyed.children get)
          obtain ⟨_, hlast'⟩ | ⟨hnone, -⟩ := hlicence.current
          · have howner := hlast'.owner
            rw [hownerKey] at howner
            obtain rfl := Option.some.inj (get.symm.trans howner)
            exact absurd (Option.some.inj (hlast'.current.symm.trans hlast.current)) hne
          · rw [hownerKey, get] at hnone
            cases hnone
      · rw [get] at hnone
        cases hnone
    · refine hcurrent.imp (fun ⟨other, hlast⟩ => ⟨other, ?_, ?_, hlast.current, hlast.count⟩)
        fun horphaned => ⟨(OrdMap.get?_set_of_ne hkey).trans horphaned.1, horphaned.2⟩
      · exact (OrdMap.get?_set_of_ne (hattempt rfl)).trans hlast.stored
      · exact (OrdMap.get?_set_of_ne hkey).trans hlast.owner
  | setAttempt _ get change _ getChild _ _ settle =>
    have hswept := OrdMap.Swept.set (R := AttemptChange) get change
    obtain rfl | ⟨child', -, -, hkeeps, rfl⟩ := settle
    · exact hcurrent.imp (fun ⟨child, hlast⟩ => ⟨child, hlast.of_attempts h.not_started hswept⟩) id
    · have hchildren := OrdMap.Swept.set (R := ChildChange.KeepsAttempts) getChild hkeeps
      exact hcurrent.imp
        (fun ⟨child, hlast⟩ => (hlast.of_attempts h.not_started hswept).of_children hchildren)
        fun horphaned => horphaned.of_children hchildren
  | sweep _ _ sweptChildren =>
    have hswept := sweptChildren.mono fun _ _ hc => hc.2.2
    refine hcurrent.imp (fun ⟨child, hlast⟩ => ?_) fun horphaned => horphaned.of_children hswept
    obtain ⟨child', hlast'⟩ := hlast.of_children hswept
    exact ⟨child', hlast'.1, hlast'.2, hlast'.3, hlast'.4⟩
  | @delete ids _ _ deletion =>
    obtain ⟨child, hlast⟩ | ⟨hnone, habsent⟩ := hcurrent
    · obtain ⟨found, hfound, hof, -⟩ := hnumbered.current _ _ hlast.owner _ hlast.current
      obtain rfl := Option.some.inj (hlast.stored.symm.trans hfound)
      by_cases hids : child.runId ∈ ids
      · refine .inr ⟨?_, ?_⟩
        · simp [Records.deleteTrees, OrdMap.get?_filter, hlast.owner, hids]
        · simp [Records.deleteTrees, OrdMap.get?_filter, hof.1, hids]
      · have hunlinked : ¬ (child.childRunId.any fun childRunId => childRunId ∈ ids) := by
          simp only [Option.any_eq_true, decide_eq_true_eq, not_exists, not_and]
          exact fun childRunId hlink hmem =>
            hids (deletion.mem_of_linked hs.keyed hlinked hlast.owner
              (hplain _ _ hlast.owner).1 hlink hmem)
        refine .inl ⟨child, ?_, ?_, hlast.current, hlast.count⟩
        · simp [Records.deleteTrees, OrdMap.get?_filter, hlast.stored, hof.1, hids]
        · simpa [Records.deleteTrees, OrdMap.get?_filter, hlast.owner, hids] using hunlinked
    · exact .inr ⟨by simp [Records.deleteTrees, OrdMap.get?_filter, hnone],
        by simp [Records.deleteTrees, OrdMap.get?_filter, habsent]⟩

/-! ## Attempt counts -/

omit [JsRuntime V] in
private theorem sameView_backward {child' : StoredNodeChild V}
    {children : OrdMap String (StoredNodeChild V)} {key : String}
    (hswept : OrdMap.Swept SameChildView s.children children)
    (hget : children.get? key = some child') :
    ∃ child, s.children.get? key = some child ∧ SameChildView child child' := by
  obtain ⟨child, hchild, rfl | hview⟩ := hswept.backward hget
  · exact ⟨child', hchild, .refl child'⟩
  · exact ⟨child, hchild, hview⟩

/-- A child counts the attempts it counted before, or none, or one more that the operation made. -/
theorem Effect.count_cases (heffect : Effect op n s n' s') {key : String}
    {child' : StoredNodeChild V} (hget : s'.children.get? key = some child') :
    child'.attemptCount = 0 ∨
    (∃ child, s.children.get? key = some child ∧ SameChildView child child') ∨
    ∃ child attempt, s.children.get? key = some child ∧ MakesAttempt child attempt op ∧
      OfChild child attempt ∧ OfChild child' attempt ∧
      child'.attemptCount = child.attemptCount + 1 := by
  cases heffect with
  | same | addRun | setRun | addNode | setNode => exact .inr (.inl ⟨child', hget, .refl child'⟩)
  | @addChildren runId nodeName inputs date =>
    have hcases : (s.addChildren runId nodeName inputs date).children.All fun key child =>
        child.attemptCount = 0 ∨ s.children.get? key = some child :=
      OrdMap.All.foldl_set (fun _ _ h => .inr h) fun child hchild => by
        obtain ⟨input, -, rfl⟩ := List.mem_map.mp hchild
        exact .inl rfl
    exact (hcases key child' hget).imp_right fun hold => .inl ⟨child', hold, .refl child'⟩
  | setChild _ get change _ attempts =>
    exact .inr (.inl (sameView_backward (.set get (change.sameView attempts)) hget))
  | linkChild _ _ get _ _ _ change _ attempts =>
    exact .inr (.inl (sameView_backward (.set get (change.sameView attempts)) hget))
  | linkNewChild _ _ get _ _ _ _ change _ attempts =>
    exact .inr (.inl (sameView_backward (.set get (change.sameView attempts)) hget))
  | addAttempt _ get _ owner _ _ change _ _ count _ source =>
    rw [OrdMap.get?_set] at hget
    split at hget
    · next hkey =>
      obtain rfl := Option.some.inj hget
      refine .inr (.inr ⟨_, _, hkey ▸ get, source, owner, ?_, count⟩)
      rw [change.same]
      exact owner
    · exact .inr (.inl ⟨child', hget, .refl child'⟩)
  | setAttempt _ _ _ _ getChild _ _ settle =>
    obtain rfl | ⟨_, hchange, -, hattempts, rfl⟩ := settle
    · exact .inr (.inl ⟨child', hget, .refl child'⟩)
    · exact .inr (.inl (sameView_backward (.set getChild (hchange.sameView hattempts)) hget))
  | sweep _ _ sweptChildren =>
    exact .inr (.inl (sameView_backward (sweptChildren.mono fun _ _ hc => hc.1.sameView hc.2.2) hget))
  | delete =>
    rw [Records.deleteTrees, OrdMap.get?_filter, Option.filter_eq_some_iff] at hget
    exact .inr (.inl ⟨child', hget.1, .refl child'⟩)

/-! ## How a licence is obtained -/

namespace Mem

variable {m : Mem V}

omit [JsRuntime V] in
theorem fencedCurrentAttempt_id (hk : Keyed m.records) {attemptId leaseToken : String}
    {child : StoredNodeChild V}
    (h : m.fencedCurrentAttempt attemptId leaseToken = some (attempt, child)) :
    attempt.id = attemptId :=
  hk.attempts (fencedCurrentAttempt_eq_some.mp h).1

/-- An attempt is settled once: it was started before. -/
theorem not_done_of_failed {status : RuntimeAttemptStatus} {attemptId leaseToken : String}
    {error : Thrown V} {failed : StoredAttempt V}
    (h : (m.failCurrentAttemptAs status attemptId leaseToken error).1 = some failed) :
    ¬ m.Done attemptId := by
  unfold failCurrentAttemptAs at h
  cases hfence : m.fencedCurrentAttempt attemptId leaseToken with
  | none =>
    rw [hfence] at h
    cases h
  | some found =>
    obtain ⟨hget, -, hstarted, -⟩ := fencedCurrentAttempt_eq_some.mp hfence
    exact fun hdone => hdone.2 _ hget hstarted

/-- Who settles the current attempt as a failed one has the licence to retry it. -/
theorem licence_of_failed (hm : m.AttemptSound) (hsucc : Succession retries m.records)
    {status : RuntimeAttemptStatus} (hstatus : isFailedAttemptStatus status)
    {attemptId leaseToken : String} {error : Thrown V} {failed : StoredAttempt V}
    (h : (m.failCurrentAttemptAs status attemptId leaseToken error).1 = some failed) :
    let m' := (m.failCurrentAttemptAs status attemptId leaseToken error).2
    failed.id = attemptId ∧ m'.Done attemptId ∧ Licence m'.nextId m'.records failed ∧
      ∃ attempt, m.attempts.get? attemptId = some attempt ∧ Siblings attempt failed := by
  have hk := hm.sound.keyed
  unfold failCurrentAttemptAs at h ⊢
  cases hfence : m.fencedCurrentAttempt attemptId leaseToken with
  | none =>
    rw [hfence] at h
    cases h
  | some found =>
    obtain ⟨attempt, child⟩ := found
    simp only [hfence, updateAttempt, now, Option.some.injEq] at h ⊢
    subst h
    have hid := fencedCurrentAttempt_id hk hfence
    obtain ⟨hget, -, -, hchild, -, hcurrent⟩ := fencedCurrentAttempt_eq_some.mp hfence
    obtain ⟨current, hcurrentGet, hof, hnumber⟩ :=
      hm.attempts.current _ child hchild attemptId hcurrent
    obtain rfl := Option.some.inj (hget.symm.trans hcurrentGet)
    obtain ⟨key, owner, hownerGet, hownerOf, hpos, -⟩ := hm.attempts.owned _ _ hget
    have hplain := hm.plain _ _ hchild
    have hhoused := hsucc.housed _ _ hchild
    obtain ⟨run, hrun⟩ := Option.isSome_iff_exists.mp hhoused
    have hminted : Minted "attempt" m.nextId attemptId := (hm.sound.attempts _ _ hget).2
    have hnotStarted : status ≠ .started := by
      rintro rfl
      cases hstatus
    refine ⟨hid, ⟨hminted, fun found hfound => ?_⟩,
      ⟨hstatus, hpos, ?_, ?_, hid ▸ hminted, .inl ⟨child, ?_, hchild, ?_, hnumber.symm⟩⟩,
      attempt, hget, rfl, rfl, rfl⟩
    · obtain rfl := Option.some.inj ((OrdMap.get?_set_self _ _ _).symm.trans hfound)
      exact hnotStarted
    · rw [hof.1, hof.2.1]
      exact hplain
    · rw [hof.1]
      exact (hm.sound.runs _ _ hrun).2
    · rw [hid]
      exact OrdMap.get?_set_self _ _ _
    · rw [hid]
      exact hcurrent

end Mem

end

end Neemata.Workflows
