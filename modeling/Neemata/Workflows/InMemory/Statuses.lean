import Neemata.Workflows.InMemory.Pruning

/-!
# Statuses move forward and results are final

After every history of plain operations, an operation moves the status of a run, node, child or
attempt along its transition map only, a terminal record keeps its status, output and error until it
is deleted with a run it belongs to, and a run whose status changes gets a higher version
(`statuses_monotone`). Without plain names a settled child can be replaced, and a child goes with
the run it is linked to (`not_keepsStatuses`).
-/

namespace Neemata.Workflows

variable {V : Type}

/-! ## What is kept -/

/-- The status moved along an edge, or not at all; from a terminal status nothing changes. -/
structure StatusKept {σ ρ : Type} [DecidableEq σ] (transitions : σ → List σ)
    (isTerminal : σ → Bool) (status status' : σ) (result result' : ρ) : Prop where
  edge : status' = status ∨ canTransition transitions status status'
  final : isTerminal status → status' = status ∧ result' = result

/-- What is final of a record, and the runs it is deleted with. -/
abbrev Final (V : Type) := (Option V × Option StoredError) × List String

def StoredRun.final (run : StoredRun V) : Final V := ((run.output, run.error), [run.id])

def StoredNode.final (node : StoredNode V) : Final V := ((node.output, node.error), [node.runId])

def StoredNodeChild.final (child : StoredNodeChild V) : Final V :=
  ((child.output, child.error), child.runId :: child.childRunId.toList)

def StoredAttempt.final (attempt : StoredAttempt V) : Final V :=
  ((attempt.output, attempt.error), [attempt.runId])

structure RunKept (run run' : StoredRun V) : Prop extends
    StatusKept runTransitions isTerminalRunStatus run.status run'.status run.final
      run'.final where
  version : run'.status ≠ run.status → run.version < run'.version

def NodeKept (node node' : StoredNode V) : Prop :=
  StatusKept nodeTransitions isTerminalNodeStatus node.status node'.status node.final node'.final

def ChildKept (child child' : StoredNodeChild V) : Prop :=
  StatusKept nodeTransitions isTerminalNodeStatus child.status child'.status child.final
    child'.final

def AttemptKept (attempt attempt' : StoredAttempt V) : Prop :=
  StatusKept attemptTransitions isSettledAttemptStatus attempt.status attempt'.status
    attempt.final attempt'.final

/-- The records of one kind across a step that removes the runs `ids`: the record with the identity
of an old one is related to it, and there is such a record unless it goes with one of these runs. -/
def Persists {ν ι : Type} (identity : ν → ι) (final : ν → Final V) (Kept : ν → ν → Prop)
    (ids : List String) (before after : List ν) : Prop :=
  ∀ v ∈ before, (∀ v' ∈ after, identity v' = identity v → Kept v v') ∧
    ((∀ id ∈ (final v).2, id ∉ ids) → ∃ v' ∈ after, identity v' = identity v)

def nodeIdentity (node : StoredNode V) : String × String := (node.runId, node.name)

def childIdentity (child : StoredNodeChild V) : String × String × String :=
  (child.runId, child.nodeName, child.childKey)

def identityKey (identity : String × String × String) : String :=
  childKey identity.1 identity.2.1 identity.2.2

theorem Keyed.childIdentity {s : Records V} (hk : Keyed s) {key : String}
    {child : StoredNodeChild V} (hget : s.children.get? key = some child) :
    identityKey (childIdentity child) = key := hk.children hget

/-- A step that removes the runs `ids` keeps the statuses of all four kinds of records. -/
structure KeepsStatuses (ids : List String) (s s' : Records V) : Prop where
  runs : Persists StoredRun.id StoredRun.final RunKept ids s.runs.values s'.runs.values
  nodes : Persists nodeIdentity StoredNode.final NodeKept ids s.nodes.values s'.nodes.values
  children : Persists childIdentity StoredNodeChild.final ChildKept ids s.children.values
    s'.children.values
  attempts : Persists StoredAttempt.id StoredAttempt.final AttemptKept ids s.attempts.values
    s'.attempts.values

/-- The runs that an operation can remove: the family of the run that `deleteRun` is given, the
trees under the roots that a prune takes. -/
def Mem.doomed [JsRuntime V] (m : Mem V) : Op V → List String
  | .store (.deleteRun runId) => m.collectRunDescendantIds runId
  | .store (.pruneTerminalRuns params) =>
    m.collectRunTreeIds ((m.pruneRoots params).map StoredRun.id)
  | _ => []

/-! ## Changes keep statuses -/

theorem RunKept.refl (run : StoredRun V) : RunKept run run :=
  ⟨⟨.inl rfl, fun _ => ⟨rfl, rfl⟩⟩, fun h => absurd rfl h⟩

theorem RunChange.kept {run run' : StoredRun V} (h : RunChange run run') : RunKept run run' where
  edge := .inr h.edge
  final hterminal := by simp [h.live] at hterminal
  version _ := by
    rw [h.same]
    exact Nat.lt_succ_self _

theorem NodeKept.refl (node : StoredNode V) : NodeKept node node :=
  ⟨.inl rfl, fun _ => ⟨rfl, rfl⟩⟩

theorem NodeChange.kept {node node' : StoredNode V} (h : NodeChange node node')
    (hc : node.status ≠ .cancelling) : NodeKept node node' where
  edge := h.edge hc
  final hterminal := by simp [h.live] at hterminal

theorem ChildKept.refl (child : StoredNodeChild V) : ChildKept child child :=
  ⟨.inl rfl, fun _ => ⟨rfl, rfl⟩⟩

theorem ChildChange.kept {child child' : StoredNodeChild V} (h : ChildChange child child')
    (hc : child.status ≠ .cancelling) : ChildKept child child' where
  edge := h.edge hc
  final hterminal := by simp [h.live] at hterminal

theorem AttemptKept.refl (attempt : StoredAttempt V) : AttemptKept attempt attempt :=
  ⟨.inl rfl, fun _ => ⟨rfl, rfl⟩⟩

theorem AttemptChange.kept {attempt attempt' : StoredAttempt V} (h : AttemptChange attempt attempt') :
    AttemptKept attempt attempt' where
  edge := .inr (h.live ▸ canTransition_settled_attempt h.settled)
  final hterminal := by simp [h.live, isSettledAttemptStatus] at hterminal

section

variable {ν ι : Type} {R Kept : ν → ν → Prop} {m m' : OrdMap String ν} {identity : ν → ι}
  {final : ν → Final V}

/-- Evolution of a map whose keys are computed from the identity of the entries. -/
theorem persists_of_evolves (key : ι → String) {drop : Prop} (hdrop : ¬ drop)
    (h : m.Evolves R drop m')
    (hkey : ∀ {k v}, m.get? k = some v → key (identity v) = k)
    (hkey' : ∀ {k v}, m'.get? k = some v → key (identity v) = k)
    (hrefl : ∀ v, Kept v v) (hR : ∀ k v v', m.get? k = some v → R v v' → Kept v v')
    (hid : ∀ v v', R v v' → identity v' = identity v) (ids : List String) :
    Persists identity final Kept ids m.values m'.values := by
  intro v hv
  obtain ⟨k, hget⟩ := OrdMap.mem_values_iff.mp hv
  obtain ⟨hdropped, -⟩ | ⟨w, hw, hstep⟩ := h k v hget
  · exact absurd hdropped hdrop
  constructor
  · intro v' hv' hsame
    obtain ⟨k', hget'⟩ := OrdMap.mem_values_iff.mp hv'
    obtain rfl : k' = k := by rw [← hkey' hget', hsame, hkey hget]
    obtain rfl : w = v' := Option.some.inj (hw.symm.trans hget')
    obtain rfl | hstep := hstep
    · exact hrefl w
    · exact hR k' v w hget hstep
  · intro _
    refine ⟨w, OrdMap.mem_values_of_get? hw, ?_⟩
    obtain rfl | hstep := hstep
    · rfl
    · exact hid v w hstep

/-- What a deletion of the runs `ids` drops goes with one of them. -/
theorem persists_filter (key : ι → String)
    (hkey : ∀ {k v}, m.get? k = some v → key (identity v) = k) (hrefl : ∀ v, Kept v v)
    {p : String → ν → Bool} {ids : List String}
    (hp : ∀ {k v}, m.get? k = some v → (∀ id ∈ (final v).2, id ∉ ids) → p k v = true) :
    Persists identity final Kept ids m.values (m.filter p).values := by
  intro v hv
  obtain ⟨k, hget⟩ := OrdMap.mem_values_iff.mp hv
  constructor
  · intro v' hv' hsame
    obtain ⟨k', hget'⟩ := OrdMap.mem_values_iff.mp hv'
    rw [OrdMap.get?_filter, Option.filter_eq_some_iff] at hget'
    obtain rfl : k' = k := by rw [← hkey hget'.1, hsame, hkey hget]
    obtain rfl : v = v' := Option.some.inj (hget.symm.trans hget'.1)
    exact hrefl v
  · intro hkeep
    have hget' : (m.filter p).get? k = some v := by
      rw [OrdMap.get?_filter, hget, Option.filter_eq_some_iff]
      exact ⟨rfl, hp hget hkeep⟩
    exact ⟨v, OrdMap.mem_values_of_get? hget', rfl⟩

end

theorem KeepsStatuses.deleteTrees {s : Records V} (hk : Keyed s) (ids : List String) :
    KeepsStatuses ids s (s.deleteTrees ids) := by
  constructor
  · refine persists_filter id hk.runs RunKept.refl fun hget hkeep => ?_
    rw [← hk.runs hget]
    exact decide_eq_true (hkeep _ List.mem_cons_self)
  · refine persists_filter (fun names => nodeKey names.1 names.2) hk.nodes NodeKept.refl
      fun _ hkeep => ?_
    exact decide_eq_true (hkeep _ List.mem_cons_self)
  · refine persists_filter identityKey hk.childIdentity ChildKept.refl fun _ hkeep => ?_
    refine decide_eq_true ⟨hkeep _ List.mem_cons_self, fun hlink => ?_⟩
    obtain ⟨childRunId, hchildRunId, hmem⟩ := (Option.any_eq_true _ _).mp hlink
    refine hkeep childRunId (List.mem_cons_of_mem _ ?_) (of_decide_eq_true hmem)
    exact Option.mem_toList.mpr hchildRunId
  · refine persists_filter id hk.attempts AttemptKept.refl fun _ hkeep => ?_
    exact decide_eq_true (hkeep _ List.mem_cons_self)

theorem Effect.keepsStatuses [JsRuntime V] {op : Op V} {n n' : Nat} {s s' : Records V}
    (heffect : Effect op n s n' s') (h : Sound n s) (hplain : PlainChildren s) (hop : op.Plain)
    (hkeep : ¬ op.isDeletion) (ids : List String) : KeepsStatuses ids s s' := by
  have hk := h.keyed
  have hk' := (h.effect heffect).keyed
  constructor
  · exact persists_of_evolves id hkeep (heffect.runs_evolve h) hk.runs hk'.runs RunKept.refl
      (fun _ _ _ _ hc => hc.kept) (fun _ _ hc => by rw [hc.same]) ids
  · exact persists_of_evolves (fun names => nodeKey names.1 names.2) hkeep
      heffect.nodes_evolve hk.nodes hk'.nodes NodeKept.refl
      (fun _ _ _ hget hc => hc.kept (h.nodes _ _ hget).2)
      (fun _ _ hc => by rw [hc.same]; rfl) ids
  · exact persists_of_evolves identityKey hkeep (heffect.children_evolve h hplain hop)
      hk.childIdentity hk'.childIdentity ChildKept.refl
      (fun _ _ _ hget hc => hc.kept (h.children _ _ hget).2)
      (fun _ _ hc => by rw [hc.same]; rfl) ids
  · exact persists_of_evolves id hkeep (heffect.attempts_evolve h) hk.attempts hk'.attempts
      AttemptKept.refl (fun _ _ _ _ hc => hc.kept) (fun _ _ hc => by rw [hc.same]) ids

/-! ## Final results along a history -/

/-- A terminal record that goes only with runs that are kept is still there with its status and
its result. -/
def FinalPersists {ν ι σ : Type} (identity : ν → ι) (status : ν → σ) (isTerminal : σ → Bool)
    (final : ν → Final V) (keep : String → Prop) (before after : List ν) : Prop :=
  ∀ v ∈ before, (∀ id ∈ (final v).2, keep id) → isTerminal (status v) →
    ∃ v' ∈ after, identity v' = identity v ∧ status v' = status v ∧ final v' = final v

structure KeepsFinal (keep : String → Prop) (s s' : Records V) : Prop where
  runs : FinalPersists StoredRun.id StoredRun.status isTerminalRunStatus StoredRun.final keep
    s.runs.values s'.runs.values
  nodes : FinalPersists nodeIdentity StoredNode.status isTerminalNodeStatus StoredNode.final keep
    s.nodes.values s'.nodes.values
  children : FinalPersists childIdentity StoredNodeChild.status isTerminalNodeStatus
    StoredNodeChild.final keep s.children.values s'.children.values
  attempts : FinalPersists StoredAttempt.id StoredAttempt.status isSettledAttemptStatus
    StoredAttempt.final keep s.attempts.values s'.attempts.values

section

variable {ν ι σ : Type} {identity : ν → ι} {status : ν → σ} {isTerminal : σ → Bool}
  {final : ν → Final V} {keep : String → Prop} {a b c : List ν}

theorem FinalPersists.refl : FinalPersists identity status isTerminal final keep a a :=
  fun v hv _ _ => ⟨v, hv, rfl, rfl, rfl⟩

theorem FinalPersists.trans (h : FinalPersists identity status isTerminal final keep a b)
    (h' : FinalPersists identity status isTerminal final keep b c) :
    FinalPersists identity status isTerminal final keep a c := by
  intro v hv hkeep hterminal
  obtain ⟨v₁, hv₁, hid₁, hstatus₁, hfinal₁⟩ := h v hv hkeep hterminal
  obtain ⟨v₂, hv₂, hid₂, hstatus₂, hfinal₂⟩ :=
    h' v₁ hv₁ (hfinal₁ ▸ hkeep) (hstatus₁ ▸ hterminal)
  exact ⟨v₂, hv₂, hid₂.trans hid₁, hstatus₂.trans hstatus₁, hfinal₂.trans hfinal₁⟩

theorem Persists.finalPersists [DecidableEq σ] {transitions : σ → List σ} {Kept : ν → ν → Prop}
    {ids : List String} (h : Persists identity final Kept ids a b)
    (hids : ∀ id ∈ ids, ¬ keep id)
    (hkept : ∀ v v', Kept v v' →
      StatusKept transitions isTerminal (status v) (status v') (final v) (final v')) :
    FinalPersists identity status isTerminal final keep a b := by
  intro v hv hkeep hterminal
  obtain ⟨hall, hexists⟩ := h v hv
  obtain ⟨v', hv', hid⟩ := hexists fun id hmem hdoomed => hids id hdoomed (hkeep id hmem)
  exact ⟨v', hv', hid, (hkept v v' (hall v' hv' hid)).final hterminal⟩

end

section

variable {keep : String → Prop} {s s₁ s₂ s₃ : Records V}

theorem KeepsStatuses.final {ids : List String} (h : KeepsStatuses ids s s₁)
    (hids : ∀ id ∈ ids, ¬ keep id) : KeepsFinal keep s s₁ where
  runs := h.runs.finalPersists hids fun _ _ hkept => hkept.toStatusKept
  nodes := h.nodes.finalPersists hids fun _ _ hkept => hkept
  children := h.children.finalPersists hids fun _ _ hkept => hkept
  attempts := h.attempts.finalPersists hids fun _ _ hkept => hkept

theorem KeepsFinal.refl (s : Records V) : KeepsFinal keep s s := ⟨.refl, .refl, .refl, .refl⟩

theorem KeepsFinal.trans (h : KeepsFinal keep s₁ s₂) (h' : KeepsFinal keep s₂ s₃) :
    KeepsFinal keep s₁ s₃ :=
  ⟨h.runs.trans h'.runs, h.nodes.trans h'.nodes, h.children.trans h'.children,
    h.attempts.trans h'.attempts⟩

end

/-! ## Every history -/

open Mem

section

variable [JsRuntime V] {m : Mem V} {op : Op V}

/-- A deletion removes the doomed runs or nothing. -/
theorem Mem.deletion_records (m : Mem V) (hop : op.isDeletion) :
    (m.step op).records = m.records ∨ (m.step op).records = m.records.deleteTrees (m.doomed op) := by
  have hdelete (ids : List String) : (m.deleteRunTrees ids).records = m.records ∨
      (m.deleteRunTrees ids).records = m.records.deleteTrees ids := by
    by_cases hids : ids = []
    · exact .inl (by rw [deleteRunTrees, if_pos hids])
    · exact .inr (deleteRunTrees_records m hids)
  cases op with
  | store op =>
    cases op with
    | pruneTerminalRuns params =>
      simp only [step, exec, execStore, returning, pruneTerminalRuns_snd]
      exact hdelete _
    | deleteRun runId =>
      simp only [step, exec, execStore, deleteRun]
      split
      · exact .inl rfl
      · split
        · exact .inl rfl
        · split
          · exact .inl rfl
          · exact hdelete _
    | _ => cases hop
  | _ => cases hop

theorem Mem.PlainSound.keepsStatuses (h : m.PlainSound) (hop : op.Plain) :
    KeepsStatuses (m.doomed op) m.records (m.step op).records := by
  cases hdelete : op.isDeletion with
  | false =>
    exact (step_effect h.sound.keyed op).keepsStatuses h.sound h.plain hop
      (Bool.eq_false_iff.mp hdelete) _
  | true =>
    obtain hsame | hrecords := m.deletion_records hdelete
    · have hidle : Effect (.clock 0 : Op V) m.nextId m.records m.nextId m.records := .same le_rfl
      rw [hsame]
      exact hidle.keepsStatuses h.sound h.plain (fun _ hnames => by cases hnames)
        Bool.false_ne_true _
    · rw [hrecords]
      exact .deleteTrees h.sound.keyed _

end

/-- After every plain history: the next operation moves statuses along the transition maps, raises
the version of a run it moves and keeps terminal records, but those that go with a run it removes;
and along every later history the terminal records stay as they are whose runs it keeps. -/
theorem statuses_monotone [JsRuntime V] (maxDeliveries : Option Int) {history : List (Op V)}
    (hplain : ∀ op ∈ history, op.Plain) :
    (∀ op : Op V, op.Plain → KeepsStatuses ((after maxDeliveries history).doomed op)
      (after maxDeliveries history).records ((after maxDeliveries history).step op).records) ∧
    ∀ (keep : String → Prop) (later : List (Op V)),
      Trace.Admits Mem.step (fun m op => op.Plain ∧ ∀ id ∈ m.doomed op, ¬ keep id)
        (after maxDeliveries history) later →
      KeepsFinal keep (after maxDeliveries history).records
        (after maxDeliveries (history ++ later)).records := by
  have hm := plainSound_after maxDeliveries hplain
  refine ⟨fun op hop => hm.keepsStatuses hop, fun keep later hlater => ?_⟩
  rw [after_append]
  exact (Trace.run_inv_of_admits Mem.step
    (I := fun m => m.PlainSound ∧ KeepsFinal keep (after maxDeliveries history).records m.records)
    (fun _ _ hop ⟨hm, hfinal⟩ =>
      ⟨hm.step hop.1, hfinal.trans ((hm.keepsStatuses hop.1).final hop.2)⟩)
    hlater ⟨hm, .refl _⟩).2

/-- A run with one activity node whose child is completed. -/
def settledChildHistory (nodeName key : String) : List (Op JsonText) :=
  [.store (.createRun { workflowName := "w", input := .null }),
    .store (.createNode { runId := "run-1", name := nodeName, kind := .activity }),
    .store (.ensureNodeChildren "run-1" nodeName [{ childKey := key, kind := .activity }]),
    .store (.completeNodeChild "run-1" nodeName key .null)]

theorem statuses_monotone_settledChild :
    let history := settledChildHistory "a" "$self"
    let m : Mem JsonText := after none history
    KeepsStatuses (m.doomed (.store (.deleteRun "run-1"))) m.records
      (m.step (.store (.deleteRun "run-1"))).records ∧
    KeepsFinal (· = "run-1") m.records
      (after none (history ++ [.store (.failRun "run-1" (.error "late"))])).records :=
  have hplain : ∀ op ∈ settledChildHistory "a" "$self", op.Plain := by decide
  have h := statuses_monotone none hplain
  ⟨h.1 _ (by decide), h.2 _ _ ⟨⟨by decide, by decide⟩, trivial⟩⟩

/-- The node `a:b` with the completed child `c`, then the node `a`. -/
def joinedNamesHistory : List (Op JsonText) :=
  settledChildHistory "a:b" "c" ++
    [.store (.createNode { runId := "run-1", name := "a", kind := .activity })]

/-- A completed child of a live run that is linked to a run under another root. -/
def settledLinkedHistory : List (Op JsonText) :=
  [.store (.createRun { workflowName := "w", input := .null }),
    .store (.createRun { workflowName := "w", input := .null }),
    .store (.createNode { runId := "run-1", name := "n", kind := .workflow }),
    .store (.ensureNodeChildren "run-1" "n" [{ childKey := "$self", kind := .workflow }]),
    .store (.ensureChildRun { runId := "run-1", nodeName := "n", childKey := "$self",
                              childKind := .workflow, childName := "child", input := .null,
                              rootRunId := "run-2" }),
    .store (.completeNodeChild "run-1" "n" "$self" .null),
    .store (.completeRun "run-3" .null),
    .store (.completeRun "run-2" .null)]

/-- The completed child `c` of the node `a:b` has the joined key of a child `b:c` of the node `a`,
so creating that child replaces its record; and a completed child goes with the run that it is
linked to while its own run stays. -/
theorem not_keepsStatuses :
    (¬ ∀ (history : List (Op JsonText)) (op : Op JsonText), KeepsStatuses
      ((after none history).doomed op) (after none history).records
      ((after none history).step op).records) ∧
    (∀ op ∈ settledLinkedHistory, op.Plain) ∧
    ("run-1", "n", "$self") ∈ (after none settledLinkedHistory).records.children.values.map
      childIdentity ∧
    (∀ child ∈ (after none settledLinkedHistory).records.children.values,
      isTerminalNodeStatus child.status ∧
        child.runId ∉ (after none settledLinkedHistory).doomed (.store (.deleteRun "run-2"))) ∧
    ("run-1", "n", "$self") ∉ ((after none settledLinkedHistory).step
      (.store (.deleteRun "run-2"))).records.children.values.map childIdentity := by
  refine ⟨fun h => ?_, by decide, by decide, by decide, by decide⟩
  let op : Op JsonText :=
    .store (.ensureNodeChildren "run-1" "a" [{ childKey := "b:c", kind := .activity }])
  have hchildren := (h joinedNamesHistory op).children
  have hbefore : ((after none joinedNamesHistory).records.children.values.map childIdentity) =
      [("run-1", "a:b", "c")] := by decide
  have hafter : (((after none joinedNamesHistory).step op).records.children.values.map
      childIdentity) = [("run-1", "a", "b:c")] := by decide
  obtain ⟨child, hchild, hidentity⟩ := List.mem_map.mp (hbefore ▸ List.mem_singleton_self _)
  obtain ⟨child', hchild', hsame⟩ := (hchildren child hchild).2 fun _ _ hmem => by cases hmem
  have hmem := List.mem_map_of_mem (f := childIdentity) hchild'
  rw [hafter, List.mem_singleton, hsame, hidentity] at hmem
  exact absurd hmem (by decide)

end Neemata.Workflows
