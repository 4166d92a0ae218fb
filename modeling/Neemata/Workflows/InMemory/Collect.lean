import Neemata.Workflows.InMemory.Evolution

/-!
# The runs a deletion takes

`collectRounds` stops at a set of runs that is closed: a run that belongs to the set is in it. The
run linked to a child of a stored run has that run as parent and its root (`Linked`, given that
`ensureChildRun` is called for a stored run with that root), so a deletion that takes the linked run
takes the child's own run too (`Deletion.mem_of_linked`).
-/

namespace Neemata.Workflows

variable {V : Type}

namespace Mem

variable {runs : List (StoredRun V)} {belongs : List String → StoredRun V → Bool}

/-- The runs that are not collected yet. -/
def pending (runs : List (StoredRun V)) (ids : List String) : List (StoredRun V) :=
  runs.filter fun run => run.id ∉ ids

theorem pending_length_lt {ids ids' : List String} (h : ids ⊆ ids') {run : StoredRun V}
    (hrun : run ∈ runs) (hnew : run.id ∈ ids') (hold : run.id ∉ ids) :
    (pending runs ids').length < (pending runs ids).length := by
  have hsub : (pending runs ids').Sublist (pending runs ids) := by
    refine List.monotone_filter_right runs fun run hrun => ?_
    simp only [decide_eq_true_eq] at hrun ⊢
    exact fun hmem => hrun (h hmem)
  refine lt_of_le_of_ne hsub.length_le fun hlen => ?_
  have hmem : run ∈ pending runs ids := List.mem_filter.mpr ⟨hrun, by simpa using hold⟩
  rw [← hsub.eq_of_length hlen] at hmem
  simp only [pending, List.mem_filter, decide_eq_true_eq] at hmem
  exact hmem.2 hnew

/-- What one round adds, and that it adds nothing only to a closed set. -/
theorem collectRound_cases (runs : List (StoredRun V))
    (belongs : List String → StoredRun V → Bool) (ids : List String) :
    (collectRound runs belongs ids = ids ∧ ∀ run ∈ runs, belongs ids run → run.id ∈ ids) ∨
    (∃ run ∈ runs, run.id ∈ collectRound runs belongs ids ∧ run.id ∉ ids) ∧
      ids.length < (collectRound runs belongs ids).length := by
  induction runs generalizing ids with
  | nil => exact .inl ⟨rfl, fun run hrun => absurd hrun List.not_mem_nil⟩
  | cons run runs ih =>
    have hfold : collectRound (run :: runs) belongs ids = collectRound runs belongs
        (if belongs ids run ∧ run.id ∉ ids then ids ++ [run.id] else ids) := rfl
    rw [hfold]
    split
    · next hadd =>
      have hsub := collectRound_subset runs belongs (ids ++ [run.id])
      refine .inr ⟨⟨run, List.mem_cons_self, hsub (by simp), hadd.2⟩, ?_⟩
      obtain ⟨hsame, -⟩ | ⟨-, hlen⟩ := ih (ids ++ [run.id])
      · rw [hsame]
        simp
      · simp only [List.length_append, List.length_singleton] at hlen
        omega
    · next hskip =>
      obtain ⟨hsame, hclosed⟩ | ⟨⟨added, hadded, hnew⟩, hlen⟩ := ih ids
      · refine .inl ⟨hsame, fun other hother hbelongs => ?_⟩
        obtain rfl | hother := List.mem_cons.mp hother
        · by_contra hmem
          exact hskip ⟨hbelongs, hmem⟩
        · exact hclosed other hother hbelongs
      · exact .inr ⟨⟨added, List.mem_cons_of_mem _ hadded, hnew⟩, hlen⟩

/-- With a round for every run that may still be added, the result is closed. -/
theorem collectRounds_closed (rounds : Nat) (ids : List String)
    (hrounds : (pending runs ids).length < rounds) {run : StoredRun V} (hrun : run ∈ runs)
    (hbelongs : belongs (collectRounds runs belongs rounds ids) run) :
    run.id ∈ collectRounds runs belongs rounds ids := by
  induction rounds generalizing ids with
  | zero => cases hrounds
  | succ rounds ih =>
    simp only [collectRounds] at hbelongs ⊢
    obtain ⟨hsame, hclosed⟩ | ⟨⟨added, hadded, hnew, hold⟩, hlen⟩ :=
      collectRound_cases runs belongs ids
    · rw [hsame, if_pos rfl] at hbelongs ⊢
      exact hclosed run hrun hbelongs
    · rw [if_neg hlen.ne'] at hbelongs ⊢
      have hless := pending_length_lt (collectRound_subset runs belongs ids) hadded hnew hold
      exact ih _ (by omega) hbelongs

/-- A run is collected because it was given or because it belongs to the result. -/
theorem mem_collectRound {ids : List String}
    (hmono : ∀ ids ids' run, ids ⊆ ids' → belongs ids run → belongs ids' run) {id : String}
    (hid : id ∈ collectRound runs belongs ids) :
    id ∈ ids ∨ ∃ run ∈ runs, run.id = id ∧ belongs (collectRound runs belongs ids) run := by
  induction runs generalizing ids with
  | nil => exact .inl hid
  | cons run runs ih =>
    have hfold : collectRound (run :: runs) belongs ids = collectRound runs belongs
        (if belongs ids run ∧ run.id ∉ ids then ids ++ [run.id] else ids) := rfl
    rw [hfold] at hid ⊢
    obtain hmem | ⟨found, hfound, hsame, hbelongs⟩ := ih hid
    · split at hmem
      · next hadd =>
        obtain hmem | hmem := List.mem_append.mp hmem
        · exact .inl hmem
        · refine .inr ⟨run, List.mem_cons_self, (List.mem_singleton.mp hmem).symm, ?_⟩
          rw [if_pos hadd]
          refine hmono ids _ run ?_ hadd.1
          exact List.Subset.trans (List.subset_append_left ids _) (collectRound_subset _ _ _)
      · exact .inl hmem
    · exact .inr ⟨found, List.mem_cons_of_mem _ hfound, hsame, hbelongs⟩

theorem mem_collectRounds {rounds : Nat} {ids : List String}
    (hmono : ∀ ids ids' run, ids ⊆ ids' → belongs ids run → belongs ids' run) {id : String}
    (hid : id ∈ collectRounds runs belongs rounds ids) :
    id ∈ ids ∨ ∃ run ∈ runs, run.id = id ∧
      belongs (collectRounds runs belongs rounds ids) run := by
  induction rounds generalizing ids with
  | zero => exact .inl hid
  | succ rounds ih =>
    have hround : id ∈ collectRound runs belongs ids →
        id ∈ ids ∨ ∃ run ∈ runs, run.id = id ∧
          belongs (collectRounds runs belongs (rounds + 1) ids) run := by
      intro hmem
      obtain hmem | ⟨run, hrun, hsame, hbelongs⟩ := mem_collectRound hmono hmem
      · exact .inl hmem
      · refine .inr ⟨run, hrun, hsame, hmono _ _ run ?_ hbelongs⟩
        simp only [collectRounds]
        split
        · exact List.Subset.refl _
        · exact collectRounds_subset _ _ _ _
    by_cases hlen : (collectRound runs belongs ids).length = ids.length
    · simp only [collectRounds, if_pos hlen] at hid
      exact hround hid
    · simp only [collectRounds, if_neg hlen] at hid ⊢
      obtain hmem | hfound := ih hid
      · simpa only [collectRounds, if_neg hlen] using hround hmem
      · exact .inr hfound

theorem belongsToTree_mono (ids ids' : List String) (run : StoredRun V) (h : ids ⊆ ids')
    (hbelongs : belongsToTree ids run) : belongsToTree ids' run := by
  simp only [belongsToTree, Option.any_eq_true, Bool.and_eq_true, decide_eq_true_eq] at hbelongs ⊢
  obtain ⟨parent, hparent, hne, hmem⟩ := hbelongs
  exact ⟨parent, hparent, hne, h hmem⟩

theorem belongsToFamily_mono (ids ids' : List String) (run : StoredRun V) (h : ids ⊆ ids')
    (hbelongs : belongsToFamily ids run) : belongsToFamily ids' run := by
  simp only [belongsToFamily, Option.any_eq_true, Bool.or_eq_true, decide_eq_true_eq]
    at hbelongs ⊢
  refine hbelongs.imp (fun ⟨parent, hparent, hmem⟩ => ⟨parent, hparent, h hmem⟩) fun hmem => h hmem

end Mem

/-! ## Linked runs -/

section

variable [JsRuntime V]

def Op.childRunParams : Op V → Option (EnsureChildRunParams V)
  | .store (.ensureChildRun params) => some params
  | _ => none

/-- A child run is started for a stored run, with the root of that run. -/
def Op.Rooted (s : Records V) (op : Op V) : Prop :=
  ∀ params ∈ op.childRunParams,
    (s.runs.get? params.runId).any fun run => run.rootRunId = params.rootRunId

instance (s : Records V) : DecidablePred (Op.Rooted s) := fun op =>
  inferInstanceAs (Decidable (∀ params ∈ op.childRunParams, _))

/-- The run linked to the child is stored, and its parent and root are the child's run and that
run's root. -/
def LinkedIn (runs : OrdMap String (StoredRun V)) (child : StoredNodeChild V) : Prop :=
  ∀ childRunId, child.childRunId = some childRunId →
    ∃ run target, runs.get? child.runId = some run ∧ runs.get? childRunId = some target ∧
      target.parentRunId = some child.runId ∧ target.rootRunId = run.rootRunId

/-- The children of runs with an id that the store can have minted are linked so. -/
def Linked (s : Records V) : Prop :=
  s.children.All fun _ child => Separate ':' child.runId → LinkedIn s.runs child

variable {op : Op V} {n n' : Nat} {s s' : Records V}

omit [JsRuntime V] in
private theorem run_unique (hk : Keyed s) {run target : StoredRun V} (hrun : run ∈ s.runs.values)
    (htarget : s.runs.get? run.id = some target) : run = target := by
  obtain ⟨key, hget⟩ := OrdMap.mem_values_iff.mp hrun
  rw [← hk.runs hget] at hget
  exact Option.some.inj (hget.symm.trans htarget)

omit [JsRuntime V] in
/-- A deletion that takes a run takes its parent too, when both have one root. -/
theorem Deletion.mem_of_parent (hk : Keyed s) {ids : List String} (hdeletion : Deletion s ids)
    {runId childRunId : String} {run target : StoredRun V} (hrun : s.runs.get? runId = some run)
    (htarget : s.runs.get? childRunId = some target) (hparent : target.parentRunId = some runId)
    (hroot : target.rootRunId = run.rootRunId) (hmem : childRunId ∈ ids) : runId ∈ ids := by
  cases hdeletion with
  | @family rootId root hrootGet noParent _ =>
    obtain hmem | ⟨found, hfound, hsame, hbelongs⟩ :=
      Mem.mem_collectRounds Mem.belongsToFamily_mono hmem
    · rw [List.mem_singleton.mp hmem, hrootGet] at htarget
      obtain rfl := Option.some.inj htarget
      rw [noParent] at hparent
      cases hparent
    · subst hsame
      obtain rfl := run_unique hk hfound htarget
      simp only [Mem.belongsToFamily, hparent, Option.any_some, Bool.or_eq_true,
        decide_eq_true_eq] at hbelongs
      obtain hbelongs | hbelongs := hbelongs
      · exact hbelongs
      · -- the child's run has the same root, so the closed family holds it
        rw [← hk.runs hrun]
        refine Mem.collectRounds_closed _ _ (Nat.lt_succ_of_le (List.length_filter_le _ _))
          (OrdMap.mem_values_of_get? hrun) ?_
        simp only [Mem.belongsToFamily, Bool.or_eq_true, decide_eq_true_eq]
        exact .inr (hroot ▸ hbelongs)
  | @trees roots isRoot =>
    obtain hmem | ⟨found, hfound, hsame, hbelongs⟩ :=
      Mem.mem_collectRounds Mem.belongsToTree_mono hmem
    · rw [List.mem_eraseDups, List.mem_map] at hmem
      obtain ⟨found, hfound, rfl⟩ := hmem
      obtain ⟨hstored, noParent, -⟩ := isRoot found hfound
      obtain rfl := run_unique hk hstored htarget
      rw [noParent] at hparent
      cases hparent
    · subst hsame
      obtain rfl := run_unique hk hfound htarget
      simp only [Mem.belongsToTree, hparent, Option.any_some, Bool.and_eq_true,
        decide_eq_true_eq] at hbelongs
      exact hbelongs.2

omit [JsRuntime V] in
theorem Deletion.mem_of_linked (hk : Keyed s) (hlinked : Linked s) {ids : List String}
    (hdeletion : Deletion s ids) {key childRunId : String} {child : StoredNodeChild V}
    (hget : s.children.get? key = some child) (hrunId : Separate ':' child.runId)
    (hlink : child.childRunId = some childRunId) (hmem : childRunId ∈ ids) : child.runId ∈ ids := by
  obtain ⟨run, target, hrun, htarget, hparent, hroot⟩ :=
    hlinked key child hget hrunId childRunId hlink
  exact hdeletion.mem_of_parent hk hrun htarget hparent hroot hmem

omit [JsRuntime V] in
/-- A link survives changes of the runs that drop none. -/
theorem LinkedIn.evolve {runs runs' : OrdMap String (StoredRun V)} {child : StoredNodeChild V}
    (h : LinkedIn runs child) (hruns : runs.Evolves RunChange False runs') :
    LinkedIn runs' child := by
  have hstep : ∀ id run, runs.get? id = some run → ∃ run', runs'.get? id = some run' ∧
      run'.parentRunId = run.parentRunId ∧ run'.rootRunId = run.rootRunId := by
    intro id run hget
    obtain ⟨hfalse, -⟩ | ⟨run', hget', rfl | hchange⟩ := hruns id run hget
    · exact hfalse.elim
    · exact ⟨run', hget', rfl, rfl⟩
    · exact ⟨run', hget', by rw [hchange.same], by rw [hchange.same]⟩
  intro childRunId hlink
  obtain ⟨run, target, hrun, htarget, hparent, hroot⟩ := h childRunId hlink
  obtain ⟨run', hrun', -, hrunRoot⟩ := hstep _ _ hrun
  obtain ⟨target', htarget', htargetParent, htargetRoot⟩ := hstep _ _ htarget
  exact ⟨run', target', hrun', htarget', htargetParent.trans hparent,
    htargetRoot.trans (hroot.trans hrunRoot.symm)⟩

omit [JsRuntime V] in
theorem LinkedIn.change {runs : OrdMap String (StoredRun V)} {child child' : StoredNodeChild V}
    (h : LinkedIn runs child) (hchange : ChildChange child child')
    (hlink : ChildChange.KeepsLink child child') : LinkedIn runs child' := by
  intro childRunId hchildRunId
  rw [hchange.runId_eq]
  exact h childRunId (hlink ▸ hchildRunId)

theorem separate_freshId {c : Char} (hc : c.isDigit = false) {label : String}
    (hlabel : Separate c (label ++ "-")) (i : Nat) : Separate c (freshId label i) :=
  hlabel.append (separate_toString hc i)

omit [JsRuntime V] in
/-- The id of a stored run was minted, so it holds no `:`. -/
theorem Sound.separate_runId (h : Sound n s) {runId : String} {run : StoredRun V}
    (hget : s.runs.get? runId = some run) : Separate ':' runId := by
  obtain ⟨i, -, hi⟩ := (h.runs _ _ hget).2
  rw [hi]
  exact separate_freshId rfl (by decide) i

/-- A child that is found under the joined key of a stored run is the run's own. -/
theorem linkedIn_started (h : Sound n s) {runs : OrdMap String _}
    (hruns : s.runs.Evolves RunChange False runs) {params : EnsureChildRunParams V}
    (hrooted : (Op.store (.ensureChildRun params)).Rooted s) {run : StoredRun V}
    {child child' : StoredNodeChild V}
    (hget : s.children.get? (childKey params.runId params.nodeName params.childKey) = some child)
    (hstored : runs.get? run.id = some run) (hstarted : StartedFor params run)
    (hchange : ChildChange child child') (hlink : child'.childRunId = some run.id)
    (hchild : Separate ':' child'.runId) : LinkedIn runs child' := by
  obtain ⟨parent, hparent, hroot⟩ := (Option.any_eq_true _ _).mp (hrooted params rfl)
  have hrunId : child'.runId = params.runId := by
    rw [hchange.runId_eq] at hchild ⊢
    exact (childKey_inj_run hchild (h.separate_runId hparent) (h.children _ _ hget).1).1
  intro childRunId hchildRunId
  obtain rfl : run.id = childRunId := Option.some.inj (hlink.symm.trans hchildRunId)
  rw [hrunId]
  obtain ⟨hfalse, -⟩ | ⟨parent', hparent', hsame⟩ := hruns _ _ hparent
  · exact hfalse.elim
  · have hparentRoot : parent'.rootRunId = parent.rootRunId := by
      obtain rfl | hc := hsame
      · rfl
      · rw [hc.same]
    refine ⟨parent', run, hparent', hstored, hstarted.parentRunId, ?_⟩
    rw [hstarted.rootRunId, hparentRoot]
    exact (of_decide_eq_true hroot).symm

theorem Linked.effect (heffect : Effect op n s n' s') (h : Sound n s) (hrooted : op.Rooted s)
    (hlinked : Linked s) : Linked s' := by
  have hchange {runs : OrdMap String (StoredRun V)} {child child' : StoredNodeChild V}
      (hlinked : Separate ':' child.runId → LinkedIn runs child) (change : ChildChange child child')
      (link : ChildChange.KeepsLink child child') (hrunId : Separate ':' child'.runId) :
      LinkedIn runs child' :=
    (hlinked (change.runId_eq ▸ hrunId)).change change link
  cases heffect with
  | same | addNode | setNode => exact hlinked
  | addRun =>
    exact hlinked.mono fun _ _ hchild hrunId => (hchild hrunId).evolve (.set_fresh h.run_fresh)
  | setRun _ get change =>
    exact hlinked.mono fun _ _ hchild hrunId => (hchild hrunId).evolve (.set get change)
  | addChildren =>
    refine OrdMap.All.foldl_set hlinked fun child hchild _ => ?_
    obtain ⟨input, -, rfl⟩ := List.mem_map.mp hchild
    intro childRunId hchildRunId
    cases hchildRunId
  | setChild _ get change link _ => exact hlinked.set (hchange (hlinked _ _ get) change link)
  | linkChild _ source get _ stored started change link _ =>
    subst source
    exact hlinked.set (linkedIn_started h (.refl _ _ _) hrooted get stored started change link)
  | @linkNewChild params run _ _ _ source get _ id _ started change link _ =>
    subst source
    have hruns : s.runs.Evolves RunChange False (s.runs.set run.id run) :=
      .set_fresh (id ▸ h.run_fresh)
    exact OrdMap.All.set (hlinked.mono fun _ _ hchild hrunId => (hchild hrunId).evolve hruns)
      (linkedIn_started h hruns hrooted get (OrdMap.get?_set_self _ _ _) started change link)
  | addAttempt _ get _ _ _ _ change link _ _ _ _ =>
    exact hlinked.set (hchange (hlinked _ _ get) change link)
  | setAttempt _ _ _ _ getChild _ _ settle =>
    obtain rfl | ⟨child', hsettle, hlink, -, rfl⟩ := settle
    · exact hlinked
    · exact hlinked.set (hchange (hlinked _ _ getChild) hsettle hlink)
  | sweep _ _ sweptChildren =>
    exact hlinked.swept sweptChildren fun _ _ _ hchild hsweep => hchange hchild hsweep.1 hsweep.2.1
  | @delete ids _ _ deletion =>
    intro key child hget hrunId childRunId hchildRunId
    simp only [Records.deleteTrees, OrdMap.get?_filter, Option.filter_eq_some_iff,
      decide_eq_true_eq] at hget
    obtain ⟨hget, hkeep, hlinkKeep⟩ := hget
    obtain ⟨run, target, hrun, htarget, hrest⟩ :=
      hlinked key child hget hrunId childRunId hchildRunId
    simp only [hchildRunId, Option.any_some, decide_eq_true_eq] at hlinkKeep
    refine ⟨run, target, ?_, ?_, hrest⟩
    · simp [Records.deleteTrees, OrdMap.get?_filter, hrun, hkeep]
    · simp [Records.deleteTrees, OrdMap.get?_filter, htarget, hlinkKeep]

end

end Neemata.Workflows
