import Neemata.Workflows.InMemory.Collect
import Neemata.Workflows.JsonText

/-!
# Attempt numbers and the attempt fence

The attempts of a child are numbered from 1 to its attempt count, its current attempt is the last
one, and the three operations that settle an attempt act on the current, started attempt with the
right token and on nothing else (`attempts_fenced`). So every attempt is settled at most once.

This needs plain names and child runs that are started with the root of their parent: otherwise a
child record can go while its attempts stay, and the child made anew starts numbering again
(`not_attemptsFenced`).
-/

namespace Neemata.Workflows

variable {V : Type}

/-! ## Numbering -/

def OfChild (child : StoredNodeChild V) (attempt : StoredAttempt V) : Prop :=
  attempt.runId = child.runId ∧ attempt.nodeName = child.nodeName ∧
    attempt.childKey = child.childKey

instance (child : StoredNodeChild V) (attempt : StoredAttempt V) :
    Decidable (OfChild child attempt) :=
  inferInstanceAs (Decidable (_ ∧ _ ∧ _))

structure Numbered (s : Records V) : Prop where
  owned : s.attempts.All fun _ attempt => ∃ key child, s.children.get? key = some child ∧
    OfChild child attempt ∧ 1 ≤ attempt.attemptNumber ∧ attempt.attemptNumber ≤ child.attemptCount
  complete : s.children.All fun _ child => ∀ number, 1 ≤ number → number ≤ child.attemptCount →
    ∃ id attempt, s.attempts.get? id = some attempt ∧ OfChild child attempt ∧
      attempt.attemptNumber = number
  unique : ∀ {id id' : String} {child : StoredNodeChild V} {attempt attempt' : StoredAttempt V},
    s.attempts.get? id = some attempt → s.attempts.get? id' = some attempt' →
    OfChild child attempt → OfChild child attempt' →
    attempt.attemptNumber = attempt'.attemptNumber → id = id'
  current : s.children.All fun _ child => ∀ id, child.currentAttemptId = some id →
    ∃ attempt, s.attempts.get? id = some attempt ∧ OfChild child attempt ∧
      attempt.attemptNumber = child.attemptCount

/-- Two child records look the same to their attempts. -/
structure SameChildView (child child' : StoredNodeChild V) : Prop extends
    ChildChange.KeepsAttempts child child' where
  runId : child'.runId = child.runId
  nodeName : child'.nodeName = child.nodeName
  childKey : child'.childKey = child.childKey

structure SameAttemptView (attempt attempt' : StoredAttempt V) : Prop where
  runId : attempt'.runId = attempt.runId
  nodeName : attempt'.nodeName = attempt.nodeName
  childKey : attempt'.childKey = attempt.childKey
  number : attempt'.attemptNumber = attempt.attemptNumber

theorem ChildChange.sameView {child child' : StoredNodeChild V} (h : ChildChange child child')
    (hattempts : ChildChange.KeepsAttempts child child') : SameChildView child child' where
  toKeepsAttempts := hattempts
  runId := h.runId_eq
  nodeName := h.nodeName_eq
  childKey := by rw [h.same]

theorem AttemptChange.sameView {attempt attempt' : StoredAttempt V}
    (h : AttemptChange attempt attempt') : SameAttemptView attempt attempt' := by
  constructor <;> rw [h.same]

theorem SameChildView.refl (child : StoredNodeChild V) : SameChildView child child :=
  ⟨⟨rfl, rfl⟩, rfl, rfl, rfl⟩

theorem SameAttemptView.refl (attempt : StoredAttempt V) : SameAttemptView attempt attempt :=
  ⟨rfl, rfl, rfl, rfl⟩

theorem OfChild.view {child child' : StoredNodeChild V} {attempt attempt' : StoredAttempt V}
    (hchild : SameChildView child child') (hattempt : SameAttemptView attempt attempt') :
    OfChild child' attempt' ↔ OfChild child attempt := by
  simp only [OfChild, hchild.runId, hchild.nodeName, hchild.childKey, hattempt.runId,
    hattempt.nodeName, hattempt.childKey]

variable {s s' : Records V}

theorem Keyed.key_of_ofChild (hk : Keyed s) {key key' : String} {child child' : StoredNodeChild V}
    {attempt : StoredAttempt V} (hget : s.children.get? key = some child)
    (hget' : s.children.get? key' = some child') (h : OfChild child attempt)
    (h' : OfChild child' attempt) : key = key' := by
  rw [← hk.children hget, ← hk.children hget', ← h.1, ← h.2.1, ← h.2.2, ← h'.1, ← h'.2.1,
    ← h'.2.2]

/-- Sweeps that change no view keep the numbering. -/
theorem Numbered.swept (h : Numbered s)
    (hchildren : OrdMap.Swept SameChildView s.children s'.children)
    (hattempts : OrdMap.Swept SameAttemptView s.attempts s'.attempts) : Numbered s' := by
  have childBack {key child'} (hget : s'.children.get? key = some child') :
      ∃ child, s.children.get? key = some child ∧ SameChildView child child' := by
    obtain ⟨child, hchild, rfl | hview⟩ := hchildren.backward hget
    exacts [⟨child', hchild, .refl _⟩, ⟨child, hchild, hview⟩]
  have childForth {key child} (hget : s.children.get? key = some child) :
      ∃ child', s'.children.get? key = some child' ∧ SameChildView child child' := by
    obtain ⟨child', hchild', rfl | hview⟩ := hchildren.forward hget
    exacts [⟨child', hchild', .refl _⟩, ⟨child', hchild', hview⟩]
  have attemptBack {id attempt'} (hget : s'.attempts.get? id = some attempt') :
      ∃ attempt, s.attempts.get? id = some attempt ∧ SameAttemptView attempt attempt' := by
    obtain ⟨attempt, hattempt, rfl | hview⟩ := hattempts.backward hget
    exacts [⟨attempt', hattempt, .refl _⟩, ⟨attempt, hattempt, hview⟩]
  have attemptForth {id attempt} (hget : s.attempts.get? id = some attempt) :
      ∃ attempt', s'.attempts.get? id = some attempt' ∧ SameAttemptView attempt attempt' := by
    obtain ⟨attempt', hattempt', rfl | hview⟩ := hattempts.forward hget
    exacts [⟨attempt', hattempt', .refl _⟩, ⟨attempt', hattempt', hview⟩]
  constructor
  · intro id attempt' hget
    obtain ⟨attempt, hattempt, hview⟩ := attemptBack hget
    obtain ⟨key, child, hchild, hof, hpos, hle⟩ := h.owned id attempt hattempt
    obtain ⟨child', hchild', hchildView⟩ := childForth hchild
    refine ⟨key, child', hchild', (OfChild.view hchildView hview).mpr hof, ?_, ?_⟩
    · rwa [hview.number]
    · rwa [hview.number, hchildView.count]
  · intro key child' hget number hpos hle
    obtain ⟨child, hchild, hview⟩ := childBack hget
    obtain ⟨id, attempt, hattempt, hof, hnumber⟩ :=
      h.complete key child hchild number hpos (hview.count ▸ hle)
    obtain ⟨attempt', hattempt', hattemptView⟩ := attemptForth hattempt
    exact ⟨id, attempt', hattempt', (OfChild.view hview hattemptView).mpr hof,
      hattemptView.number.trans hnumber⟩
  · intro id id' child attempt₁ attempt₂ hget₁ hget₂ hof₁ hof₂ hnumber
    obtain ⟨before₁, hbefore₁, hview₁⟩ := attemptBack hget₁
    obtain ⟨before₂, hbefore₂, hview₂⟩ := attemptBack hget₂
    exact h.unique hbefore₁ hbefore₂ ((OfChild.view (.refl child) hview₁).mp hof₁)
      ((OfChild.view (.refl child) hview₂).mp hof₂)
      (hview₁.number.symm.trans (hnumber.trans hview₂.number))
  · intro key child' hget id hcurrent
    obtain ⟨child, hchild, hview⟩ := childBack hget
    obtain ⟨attempt, hattempt, hof, hnumber⟩ :=
      h.current key child hchild id (hview.current ▸ hcurrent)
    obtain ⟨attempt', hattempt', hattemptView⟩ := attemptForth hattempt
    refine ⟨attempt', hattempt', (OfChild.view hview hattemptView).mpr hof, ?_⟩
    rw [hattemptView.number, hview.count, hnumber]

section

variable [JsRuntime V] {op : Op V} {n n' : Nat}

omit [JsRuntime V] in
theorem Numbered.addChildren (h : Numbered s) (hk : Keyed s) (hplain : PlainChildren s)
    {runId nodeName : String} {inputs : List (EnsureNodeChildInput V)} {date : Nat}
    (hrun : Separate ':' runId) (hnode : Separate ':' nodeName)
    (absent : ∀ child ∈ s.children.values, child.runId = runId → child.nodeName ≠ nodeName) :
    Numbered (s.addChildren runId nodeName inputs date) := by
  have hkept {key child} (hget : s.children.get? key = some child) :
      (s.addChildren runId nodeName inputs date).children.get? key = some child :=
    addChildren_get? hk hplain hrun hnode absent hget
  -- a stored child is an old one or a fresh one without attempts
  have hcases : (s.addChildren runId nodeName inputs date).children.All fun key child =>
      s.children.get? key = some child ∨ (child.attemptCount = 0 ∧ child.currentAttemptId = none) :=
    OrdMap.All.foldl_set (fun _ _ hget => .inl hget) fun child hchild => by
      obtain ⟨input, -, rfl⟩ := List.mem_map.mp hchild
      exact .inr ⟨rfl, rfl⟩
  constructor
  · intro id attempt hget
    obtain ⟨key, child, hchild, hrest⟩ := h.owned id attempt hget
    exact ⟨key, child, hkept hchild, hrest⟩
  · intro key child hget number hpos hle
    obtain hold | ⟨hzero, -⟩ := hcases key child hget
    · exact h.complete key child hold number hpos hle
    · omega
  · exact h.unique
  · intro key child hget id hcurrent
    obtain hold | ⟨-, hnone⟩ := hcases key child hget
    · exact h.current key child hold id hcurrent
    · rw [hnone] at hcurrent
      cases hcurrent

omit [JsRuntime V] in
theorem Numbered.addAttempt (h : Numbered s) (hs : Sound n s) {key : String}
    {child child' : StoredNodeChild V} {attempt : StoredAttempt V}
    {nodes : OrdMap String (StoredNode V)} (get : s.children.get? key = some child)
    (owner : OfChild child attempt) (number : attempt.attemptNumber = child.attemptCount + 1)
    (change : ChildChange child child')
    (current : child'.currentAttemptId = some (freshId "attempt" n))
    (count : child'.attemptCount = child.attemptCount + 1) :
    Numbered { s with
      attempts := s.attempts.set (freshId "attempt" n) attempt
      children := s.children.set key child'
      nodes } := by
  have hkey : child'.childKey = child.childKey := by rw [change.same]
  have howner' {a : StoredAttempt V} : OfChild child' a ↔ OfChild child a := by
    simp only [OfChild, change.runId_eq, change.nodeName_eq, hkey]
  have hold {id a} (hget : s.attempts.get? id = some a) : id ≠ freshId "attempt" n := by
    rintro rfl
    rw [hs.attempt_fresh] at hget
    cases hget
  -- an old attempt of this child has a number up to the old count
  have hle {id a} (hget : s.attempts.get? id = some a) (hof : OfChild child a) :
      a.attemptNumber ≤ child.attemptCount := by
    obtain ⟨key', owner', hget', hof', -, hnumber⟩ := h.owned id a hget
    obtain rfl := hs.keyed.key_of_ofChild get hget' hof hof'
    obtain rfl := Option.some.inj (get.symm.trans hget')
    exact hnumber
  constructor
  · refine OrdMap.All.set ?_ ?_
    · intro id a hget
      obtain ⟨key', owner', hget', hof, hpos, hnumber⟩ := h.owned id a hget
      by_cases hk : key' = key
      · subst hk
        obtain rfl := Option.some.inj (get.symm.trans hget')
        exact ⟨key', child', OrdMap.get?_set_self _ _ _, howner'.mpr hof, hpos, by omega⟩
      · exact ⟨key', owner', (OrdMap.get?_set_of_ne hk).trans hget', hof, hpos, hnumber⟩
    · exact ⟨key, child', OrdMap.get?_set_self _ _ _, howner'.mpr owner, by omega, by omega⟩
  · have hcomplete (a : StoredNodeChild V) (k : Nat) (hfound : ∃ id attempt,
        s.attempts.get? id = some attempt ∧ OfChild a attempt ∧ attempt.attemptNumber = k) :
        ∃ id found, (s.attempts.set (freshId "attempt" n) attempt).get? id = some found ∧
          OfChild a found ∧ found.attemptNumber = k := by
      obtain ⟨id, found, hget, hrest⟩ := hfound
      exact ⟨id, found, (OrdMap.get?_set_of_ne (hold hget)).trans hget, hrest⟩
    refine OrdMap.All.set ?_ fun k hpos hk => ?_
    · intro key' a hget k hpos hk
      exact hcomplete a k (h.complete key' a hget k hpos hk)
    · by_cases hlast : k = child.attemptCount + 1
      · exact ⟨_, attempt, OrdMap.get?_set_self _ _ _, howner'.mpr owner, number.trans hlast.symm⟩
      · obtain ⟨id, found, hget, hof, hnumber⟩ := h.complete key child get k hpos (by omega)
        exact hcomplete child' k ⟨id, found, hget, howner'.mpr hof, hnumber⟩
  · intro id id' a a₁ a₂ hget₁ hget₂ hof₁ hof₂ hnumber
    -- a child that owns the new attempt owns no old attempt with its number
    have hclash {id : String} {a₀ : StoredAttempt V} (hget : s.attempts.get? id = some a₀)
        (hof : OfChild a a₀) (hnew : OfChild a attempt) : a₀.attemptNumber ≠ attempt.attemptNumber := by
      have hof : OfChild child a₀ :=
        ⟨hof.1.trans (hnew.1.symm.trans owner.1), hof.2.1.trans (hnew.2.1.symm.trans owner.2.1),
          hof.2.2.trans (hnew.2.2.symm.trans owner.2.2)⟩
      have := hle hget hof
      omega
    simp only [OrdMap.get?_set] at hget₁ hget₂
    split at hget₁ <;> split at hget₂
    · next h₁ h₂ => rw [h₁, h₂]
    · obtain rfl := Option.some.inj hget₁
      exact absurd hnumber.symm (hclash hget₂ hof₂ hof₁)
    · obtain rfl := Option.some.inj hget₂
      exact absurd hnumber (hclash hget₁ hof₁ hof₂)
    · exact h.unique hget₁ hget₂ hof₁ hof₂ hnumber
  · refine OrdMap.All.set ?_ fun id hid => ?_
    · intro key' a hget id hid
      obtain ⟨found, hfound, hrest⟩ := h.current key' a hget id hid
      exact ⟨found, (OrdMap.get?_set_of_ne (hold hfound)).trans hfound, hrest⟩
    · obtain rfl := Option.some.inj (current.symm.trans hid)
      exact ⟨attempt, OrdMap.get?_set_self _ _ _, howner'.mpr owner, number.trans count.symm⟩

omit [JsRuntime V] in
theorem Numbered.deleteTrees (h : Numbered s) {ids : List String}
    (hlinked : ∀ {key child childRunId}, s.children.get? key = some child →
      child.childRunId = some childRunId → childRunId ∈ ids → child.runId ∈ ids) :
    Numbered (s.deleteTrees ids) := by
  have hchildren {key child} : (s.deleteTrees ids).children.get? key = some child ↔
      s.children.get? key = some child ∧ child.runId ∉ ids := by
    simp only [Records.deleteTrees, OrdMap.get?_filter, Option.filter_eq_some_iff,
      decide_eq_true_eq, Option.any_eq_true, not_exists, not_and]
    refine and_congr_right fun hget => and_iff_left_of_imp fun hkeep childRunId hlink hmem => ?_
    exact hkeep (hlinked hget hlink hmem)
  have hattempts {id attempt} : (s.deleteTrees ids).attempts.get? id = some attempt ↔
      s.attempts.get? id = some attempt ∧ attempt.runId ∉ ids := by
    simp only [Records.deleteTrees, OrdMap.get?_filter, Option.filter_eq_some_iff,
      decide_eq_true_eq]
  constructor
  · intro id attempt hget
    obtain ⟨hget, hkeep⟩ := hattempts.mp hget
    obtain ⟨key, child, hchild, hof, hrest⟩ := h.owned id attempt hget
    exact ⟨key, child, hchildren.mpr ⟨hchild, hof.1 ▸ hkeep⟩, hof, hrest⟩
  · intro key child hget number hpos hle
    obtain ⟨hget, hkeep⟩ := hchildren.mp hget
    obtain ⟨id, attempt, hattempt, hof, hnumber⟩ := h.complete key child hget number hpos hle
    exact ⟨id, attempt, hattempts.mpr ⟨hattempt, hof.1.symm ▸ hkeep⟩, hof, hnumber⟩
  · intro id id' child attempt attempt' hget hget'
    exact h.unique (hattempts.mp hget).1 (hattempts.mp hget').1
  · intro key child hget id hcurrent
    obtain ⟨hget, hkeep⟩ := hchildren.mp hget
    obtain ⟨attempt, hattempt, hof, hnumber⟩ := h.current key child hget id hcurrent
    exact ⟨attempt, hattempts.mpr ⟨hattempt, hof.1.symm ▸ hkeep⟩, hof, hnumber⟩

theorem Numbered.effect (heffect : Effect op n s n' s') (hs : Sound n s)
    (hplain : PlainChildren s) (hlinked : Linked s) (hop : op.Plain) (h : Numbered s) :
    Numbered s' := by
  cases heffect with
  | same | addRun | setRun | addNode | setNode => exact ⟨h.owned, h.complete, h.unique, h.current⟩
  | addChildren _ source absent =>
    subst source
    obtain ⟨hrun, hnode⟩ := hop _ rfl
    exact h.addChildren hs.keyed hplain hrun hnode absent
  | setChild _ get change _ attempts =>
    exact h.swept (.set get (change.sameView attempts)) (.refl _ _)
  | linkChild _ _ get _ _ _ change _ attempts =>
    exact h.swept (.set get (change.sameView attempts)) (.refl _ _)
  | linkNewChild _ _ get _ _ _ _ change _ attempts =>
    exact h.swept (.set get (change.sameView attempts)) (.refl _ _)
  | addAttempt _ get _ owner number _ change _ current count _ _ =>
    exact h.addAttempt hs get owner number change current count
  | setAttempt _ get change _ getChild _ _ settle =>
    obtain rfl | ⟨child', hchange, -, hattempts, rfl⟩ := settle
    · exact h.swept (.refl _ _) (.set get change.sameView)
    · exact h.swept (.set getChild (hchange.sameView hattempts)) (.set get change.sameView)
  | sweep _ _ sweptChildren =>
    exact h.swept (sweptChildren.mono fun _ _ hc => hc.1.sameView hc.2.2) (.refl _ _)
  | delete _ _ deletion =>
    exact h.deleteTrees fun hget => deletion.mem_of_linked hs.keyed hlinked hget (hplain _ _ hget).1

/-- A stored attempt was stored before, or it is the one this step mints. -/
theorem Effect.attempts_back (heffect : Effect op n s n' s') {id : String}
    {attempt' : StoredAttempt V} (hget : s'.attempts.get? id = some attempt') :
    id = freshId "attempt" n ∨
      ∃ attempt, s.attempts.get? id = some attempt ∧
        (attempt' = attempt ∨ AttemptChange attempt attempt') := by
  cases heffect with
  | addAttempt =>
    rw [OrdMap.get?_set] at hget
    split at hget
    · next h => exact .inl h
    · exact .inr ⟨attempt', hget, .inl rfl⟩
  | setAttempt _ get change => exact .inr ((OrdMap.Swept.set get change).backward hget)
  | delete =>
    rw [Records.deleteTrees, OrdMap.get?_filter, Option.filter_eq_some_iff] at hget
    exact .inr ⟨attempt', hget.1, .inl rfl⟩
  | _ => exact .inr ⟨attempt', hget, .inl rfl⟩

end

/-! ## The fence -/

namespace Mem

/-- The attempts of a child. -/
def attemptsOf (m : Mem V) (child : StoredNodeChild V) : List (StoredAttempt V) :=
  m.attempts.values.filter fun attempt => OfChild child attempt

/-- The attempt is the current one of its child, not yet settled, and carries the token. -/
def Settleable (m : Mem V) (attemptId leaseToken : String) : Prop :=
  ∃ attempt child, m.attempts.get? attemptId = some attempt ∧ child ∈ m.children.values ∧
    OfChild child attempt ∧ child.currentAttemptId = some attemptId ∧
    attempt.status = .started ∧ attempt.leaseToken = leaseToken

/-- Numbering, current attempts and the fence around the operations that settle an attempt. -/
structure AttemptsFenced [JsRuntime V] (m : Mem V) : Prop where
  numbered : ∀ child ∈ m.children.values,
    ((m.attemptsOf child).map StoredAttempt.attemptNumber).Perm
      (List.range' 1 child.attemptCount)
  current : ∀ child ∈ m.children.values, ∀ id, child.currentAttemptId = some id →
    ∃ attempt ∈ m.attemptsOf child, attempt.id = id ∧
      attempt.attemptNumber = child.attemptCount
  fence : ∀ attemptId leaseToken, ¬ m.Settleable attemptId leaseToken →
    (∀ output, m.completeCurrentAttempt attemptId leaseToken output = (none, m)) ∧
    (∀ error, m.failCurrentAttempt attemptId leaseToken error = (none, m)) ∧
    ∀ error, m.timeoutCurrentAttempt attemptId leaseToken error = (none, m)
  superseded : ∀ child ∈ m.children.values, ∀ attempt ∈ m.attemptsOf child,
    attempt.attemptNumber < child.attemptCount →
      ∀ leaseToken, ¬ m.Settleable attempt.id leaseToken

/-- The invariant behind the fence. -/
structure AttemptSound [JsRuntime V] (m : Mem V) : Prop extends PlainSound m where
  linked : Linked m.records
  attempts : Numbered m.records

section

variable [JsRuntime V] {m : Mem V}

theorem AttemptSound.step (h : m.AttemptSound) {op : Op V} (hplain : op.Plain)
    (hrooted : op.Rooted m.records) : (m.step op).AttemptSound where
  toPlainSound := h.toPlainSound.step hplain
  linked := h.linked.effect (step_effect h.sound.keyed op) h.sound hrooted
  attempts := h.attempts.effect (step_effect h.sound.keyed op) h.sound h.plain h.linked hplain

/-- Names without `:`, and child runs started with the root of their parent. -/
def Contracted (m : Mem V) (op : Op V) : Prop := op.Plain ∧ op.Rooted m.records

instance (m : Mem V) (op : Op V) : Decidable (m.Contracted op) :=
  inferInstanceAs (Decidable (_ ∧ _))

theorem attemptSound_create (maxDeliveries : Option Int) :
    (createInMemoryWorkflowRuntime maxDeliveries : Mem V).AttemptSound where
  sound := sound_create maxDeliveries
  plain := .empty
  linked := .empty
  attempts.owned := .empty
  attempts.complete := .empty
  attempts.unique hget := by cases hget
  attempts.current := .empty

theorem attemptSound_after (maxDeliveries : Option Int) {history : List (Op V)}
    (h : Trace.Admits Mem.step Contracted (createInMemoryWorkflowRuntime maxDeliveries) history) :
    (after maxDeliveries history).AttemptSound :=
  Trace.run_inv_of_admits Mem.step (fun _ _ hop hm => hm.step hop.1 hop.2) h
    (attemptSound_create maxDeliveries)

omit [JsRuntime V] in
theorem mem_attemptsOf {child : StoredNodeChild V} {attempt : StoredAttempt V}
    (hk : Keyed m.records) : attempt ∈ m.attemptsOf child ↔
      m.attempts.get? attempt.id = some attempt ∧ OfChild child attempt := by
  rw [attemptsOf, List.mem_filter, OrdMap.mem_values_iff, decide_eq_true_eq]
  refine and_congr_left fun _ => ⟨fun ⟨key, hget⟩ => ?_, fun hget => ⟨_, hget⟩⟩
  rw [hk.attempts hget]
  exact hget

theorem AttemptSound.numbered (h : m.AttemptSound) {child : StoredNodeChild V}
    (hchild : child ∈ m.children.values) :
    ((m.attemptsOf child).map StoredAttempt.attemptNumber).Perm
      (List.range' 1 child.attemptCount) := by
  have hk := h.sound.keyed
  obtain ⟨key, hget⟩ := OrdMap.mem_values_iff.mp hchild
  have hids : (m.attempts.values.map StoredAttempt.id).Nodup :=
    OrdMap.nodup_map_values hk.attempts
  refine (List.perm_ext_iff_of_nodup ?_ List.nodup_range').mpr fun number => ?_
  · -- two attempts of the child with one number have one id
    refine List.Nodup.map_on (fun a ha b hb hsame => ?_) ((List.Nodup.of_map _ hids).filter _)
    obtain ⟨hgetA, hofA⟩ := (mem_attemptsOf hk).mp ha
    obtain ⟨hgetB, hofB⟩ := (mem_attemptsOf hk).mp hb
    have hid : a.id = b.id := h.attempts.unique hgetA hgetB hofA hofB hsame
    exact Option.some.inj (hgetA.symm.trans (hid ▸ hgetB))
  · rw [List.mem_range'_1, List.mem_map]
    constructor
    · rintro ⟨attempt, hattempt, rfl⟩
      obtain ⟨hattemptGet, hof⟩ := (mem_attemptsOf hk).mp hattempt
      obtain ⟨key', owner, hownerGet, hownerOf, hpos, hle⟩ := h.attempts.owned _ _ hattemptGet
      obtain rfl := hk.key_of_ofChild hget hownerGet hof hownerOf
      obtain rfl := Option.some.inj (hget.symm.trans hownerGet)
      omega
    · rintro ⟨hpos, hlt⟩
      obtain ⟨id, attempt, hattemptGet, hof, hnumber⟩ :=
        h.attempts.complete key child hget number hpos (by omega)
      refine ⟨attempt, (mem_attemptsOf hk).mpr ⟨?_, hof⟩, hnumber⟩
      rw [hk.attempts hattemptGet]
      exact hattemptGet

theorem AttemptSound.settleable_of_fenced (h : m.AttemptSound) {attemptId leaseToken : String}
    {attempt : StoredAttempt V} {child : StoredNodeChild V}
    (hfence : m.fencedCurrentAttempt attemptId leaseToken = some (attempt, child)) :
    m.Settleable attemptId leaseToken := by
  have hk := h.sound.keyed
  obtain ⟨hget, htoken, hstatus, hchild, -, hcurrent⟩ := fencedCurrentAttempt_eq_some.mp hfence
  obtain ⟨key, owner, hownerGet, hof, -⟩ := h.attempts.owned _ _ hget
  have hkey : childKey attempt.runId attempt.nodeName attempt.childKey = key := by
    rw [← hk.children hownerGet, hof.1, hof.2.1, hof.2.2]
  rw [hkey] at hchild
  obtain rfl := Option.some.inj (hownerGet.symm.trans hchild)
  exact ⟨attempt, owner, hget, OrdMap.mem_values_of_get? hownerGet, hof, hcurrent, hstatus, htoken⟩

theorem AttemptSound.fenced (h : m.AttemptSound) : m.AttemptsFenced where
  numbered _ hchild := h.numbered hchild
  current child hchild id hid := by
    obtain ⟨key, hget⟩ := OrdMap.mem_values_iff.mp hchild
    obtain ⟨attempt, hattempt, hof, hnumber⟩ := h.attempts.current key child hget id hid
    have hattemptId : attempt.id = id := h.sound.keyed.attempts hattempt
    refine ⟨attempt, (mem_attemptsOf h.sound.keyed).mpr ⟨?_, hof⟩, hattemptId, hnumber⟩
    rw [hattemptId]
    exact hattempt
  fence attemptId leaseToken hnot := by
    have hnone : m.fencedCurrentAttempt attemptId leaseToken = none := by
      cases hfence : m.fencedCurrentAttempt attemptId leaseToken with
      | none => rfl
      | some found => exact absurd (h.settleable_of_fenced hfence) hnot
    simp only [completeCurrentAttempt, failCurrentAttempt, timeoutCurrentAttempt,
      failCurrentAttemptAs, hnone, implies_true, and_self]
  superseded child hchild attempt hattempt hlt leaseToken := by
    rintro ⟨found, owner, hfound, howner, hof, hcurrent, -, -⟩
    obtain ⟨hget, hofChild⟩ := (mem_attemptsOf h.sound.keyed).mp hattempt
    obtain rfl := Option.some.inj (hget.symm.trans hfound)
    obtain ⟨key, hkey⟩ := OrdMap.mem_values_iff.mp hchild
    obtain ⟨key', hkey'⟩ := OrdMap.mem_values_iff.mp howner
    obtain rfl := h.sound.keyed.key_of_ofChild hkey hkey' hofChild hof
    obtain rfl := Option.some.inj (hkey.symm.trans hkey')
    obtain ⟨current, hcurrentGet, -, hnumber⟩ := h.attempts.current _ _ hkey _ hcurrent
    obtain rfl := Option.some.inj (hget.symm.trans hcurrentGet)
    omega

/-! ## Settled at most once -/

/-- The step settles the attempt. -/
def settles (m : Mem V) (op : Op V) (attemptId : String) : Bool :=
  ((m.attempts.get? attemptId).any fun attempt => attempt.status = .started) &&
  (((m.step op).attempts.get? attemptId).any fun attempt => attempt.status ≠ .started)

/-- How often a history settles the attempt. -/
def settlements (m : Mem V) (attemptId : String) : List (Op V) → Nat
  | [] => 0
  | op :: history =>
    (if m.settles op attemptId then 1 else 0) + (m.step op).settlements attemptId history

/-- The id was given out, and no started attempt has it. -/
def Done (m : Mem V) (attemptId : String) : Prop :=
  Minted "attempt" m.nextId attemptId ∧
    ∀ attempt, m.attempts.get? attemptId = some attempt → attempt.status ≠ .started

theorem Affects.nextId_le {m m' : Mem V} {op : Op V} (h : Affects op m m') :
    m.nextId ≤ m'.nextId := by
  unfold Affects at h
  generalize m'.records = s' at h
  cases h <;> omega

theorem Done.step (hm : m.Sound) {attemptId : String} (h : m.Done attemptId) (op : Op V) :
    (m.step op).Done attemptId := by
  have heffect := step_effect hm.keyed op
  refine ⟨h.1.mono heffect.nextId_le, fun attempt' hget => ?_⟩
  obtain rfl | ⟨attempt, hbefore, rfl | hchange⟩ := heffect.attempts_back hget
  · exact absurd h.1 (not_minted_freshId _ _)
  · exact h.2 _ hbefore
  · exact absurd hchange.live (h.2 _ hbefore)

theorem done_of_settles (hm : m.Sound) {op : Op V} {attemptId : String}
    (h : m.settles op attemptId) : (m.step op).Done attemptId := by
  simp only [settles, Bool.and_eq_true, Option.any_eq_true, decide_eq_true_eq] at h
  obtain ⟨⟨attempt, hget, -⟩, attempt', hget', hstatus⟩ := h
  refine ⟨((hm.attempts _ _ hget).2).mono (step_effect hm.keyed op).nextId_le, fun found hfound => ?_⟩
  obtain rfl := Option.some.inj (hget'.symm.trans hfound)
  exact hstatus

theorem settlements_eq_zero (hm : m.Sound) {attemptId : String} (h : m.Done attemptId)
    (history : List (Op V)) : m.settlements attemptId history = 0 := by
  induction history generalizing m with
  | nil => rfl
  | cons op history ih =>
    have hnot : m.settles op attemptId = false := by
      cases hget : m.attempts.get? attemptId with
      | none => simp [settles, hget]
      | some attempt => simp [settles, hget, h.2 attempt hget]
    simp only [settlements, hnot, Bool.false_eq_true, if_false, Nat.zero_add]
    exact ih (hm.step op) (h.step hm op)

theorem settlements_le_one (hm : m.Sound) (attemptId : String) (history : List (Op V)) :
    m.settlements attemptId history ≤ 1 := by
  induction history generalizing m with
  | nil => exact Nat.zero_le 1
  | cons op history ih =>
    simp only [settlements]
    split
    · next hsettles =>
      rw [settlements_eq_zero (hm.step op) (done_of_settles hm hsettles)]
    · simpa using ih (hm.step op)

/-! ## Every history -/

/-- After every history with plain names and rooted child runs the attempts are numbered and
fenced, and the history has settled no attempt twice. -/
theorem attempts_fenced (maxDeliveries : Option Int) {history : List (Op V)}
    (h : Trace.Admits Mem.step Contracted (createInMemoryWorkflowRuntime maxDeliveries) history) :
    (after maxDeliveries history).AttemptsFenced ∧
      ∀ attemptId,
        (createInMemoryWorkflowRuntime maxDeliveries).settlements attemptId history ≤ 1 :=
  ⟨(attemptSound_after maxDeliveries h).fenced,
    fun attemptId => settlements_le_one (sound_create maxDeliveries) attemptId history⟩

end

/-- A run with one task node; its child has two attempts, and the second completes it. -/
def retriedChildHistory : List (Op JsonText) :=
  [.store (.createRun { workflowName := "w", input := .null }),
    .store (.createNode { runId := "run-1", name := "a", kind := .task }),
    .store (.ensureNodeChildren "run-1" "a" [{ childKey := "$self", kind := .task }]),
    .store (.ensureChildAttempt
      { runId := "run-1", nodeName := "a", childKey := "$self", input := .null }),
    .store (.failCurrentAttempt "attempt-2" "attempt-lease-3" (.error "failed")),
    .store (.createAttempt
      { runId := "run-1", nodeName := "a", childKey := "$self", input := .null }),
    .store (.completeCurrentAttempt "attempt-4" "attempt-lease-5" .null)]

theorem attempts_fenced_retriedChild :
    Trace.Admits Mem.step Contracted (createInMemoryWorkflowRuntime none) retriedChildHistory ∧
    (after none retriedChildHistory).AttemptsFenced ∧
    ∀ attemptId,
      (createInMemoryWorkflowRuntime none).settlements attemptId retriedChildHistory ≤ 1 :=
  have h : Trace.Admits Mem.step Contracted (createInMemoryWorkflowRuntime none)
      retriedChildHistory := by decide
  ⟨h, attempts_fenced none h⟩

/-- A child with an attempt is replaced by a child with the same joined key, and made anew. -/
def joinedAttemptsHistory (runId nodeName key runId' nodeName' key' : String) :
    List (Op JsonText) :=
  [.store (.createRun { workflowName := "w", input := .null }),
    .store (.createNode { runId, name := nodeName, kind := .task }),
    .store (.createNode { runId := runId', name := nodeName', kind := .task }),
    .store (.ensureNodeChildren runId nodeName [{ childKey := key, kind := .task }]),
    .store (.ensureChildAttempt { runId, nodeName, childKey := key, input := .null }),
    .store (.ensureNodeChildren runId' nodeName' [{ childKey := key', kind := .task }]),
    .store (.ensureNodeChildren runId nodeName [{ childKey := key, kind := .task }])]

/-- A child with an attempt is linked to a run under a foreign root, goes when that root is
deleted, and is made anew. -/
def foreignRootHistory : List (Op JsonText) :=
  [.store (.createRun { workflowName := "w", input := .null }),
    .store (.createRun { workflowName := "w", input := .null }),
    .store (.createNode { runId := "run-1", name := "a", kind := .task }),
    .store (.ensureNodeChildren "run-1" "a" [{ childKey := "$self", kind := .task }]),
    .store (.ensureChildAttempt
      { runId := "run-1", nodeName := "a", childKey := "$self", input := .null }),
    .store (.ensureChildRun { runId := "run-1", nodeName := "a", childKey := "$self",
                              childKind := .task, childName := "t", input := .null,
                              rootRunId := "run-2" }),
    .store (.completeRun "run-5" .null),
    .store (.completeRun "run-2" .null),
    .store (.deleteRun "run-2"),
    .store (.ensureNodeChildren "run-1" "a" [{ childKey := "$self", kind := .task }])]

/-- For each child, how many attempts it has and how many it counts. -/
def attemptCounts (m : Mem V) : List (Nat × Nat) :=
  m.children.values.map fun child => ((m.attemptsOf child).length, child.attemptCount)

theorem AttemptsFenced.attemptCounts_eq [JsRuntime V] {m : Mem V} (h : m.AttemptsFenced)
    {counts : Nat × Nat} (hcounts : counts ∈ m.attemptCounts) : counts.1 = counts.2 := by
  obtain ⟨child, hchild, rfl⟩ := List.mem_map.mp hcounts
  simpa using (h.numbered child hchild).length_eq

/-- With a `:` in a node name or a run id, or with a child run under a foreign root, a child can
have an attempt it does not count. -/
theorem not_attemptsFenced :
    ¬ (after none (joinedAttemptsHistory "run-1" "a:b" "c" "run-1" "a" "b:c")).AttemptsFenced ∧
    ¬ (after none (joinedAttemptsHistory "run-1" "a" "b:c" "run-1:a" "b" "c")).AttemptsFenced ∧
    ¬ (after none foreignRootHistory).AttemptsFenced := by
  have hnot {history : List (Op JsonText)}
      (hcounts : (1, 0) ∈ (after none history).attemptCounts) :
      ¬ (after none history).AttemptsFenced :=
    fun h => absurd (h.attemptCounts_eq hcounts) (by decide)
  exact ⟨hnot (by decide), hnot (by decide), hnot (by decide)⟩

end Mem

end Neemata.Workflows
