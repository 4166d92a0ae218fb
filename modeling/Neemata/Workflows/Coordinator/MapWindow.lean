import Neemata.Workflows.Coordinator.MapItems
import Neemata.Workflows.JsonText

/-!
# The window of a map node

Whatever coordinators are at work on a run, in any interleaving: a map node that waits for its items
with the concurrency `limit` never has more than `limit` of them at work, and they are started in
the order of their positions (`Coordinators.window_kept`). A pass counts what it has read; what it
has read stays true, as items are linked once and ended runs stay ended.
-/

namespace Neemata.Workflows

variable {V : Type}

/-! ## Sorted children -/

section

variable [JsRuntime V]

/-- Children with distinct ordinals come in the order of their ordinals. -/
theorem sortedChildren_pairwise {rows : List (StoredNodeChild V)}
    (h : (rows.map StoredNodeChild.ordinal).Nodup) :
    (sortedChildren rows).Pairwise fun left right => left.ordinal < right.ordinal := by
  have hinsert {r : StoredNodeChild V → StoredNodeChild V → Prop} [DecidableRel r]
      (hr : ∀ left right, left.ordinal < right.ordinal → r left right)
      (hr' : ∀ left right, right.ordinal < left.ordinal → ¬ r left right)
      (child : StoredNodeChild V) (rows : List (StoredNodeChild V))
      (hfresh : ∀ other ∈ rows, other.ordinal ≠ child.ordinal)
      (hrows : rows.Pairwise fun left right => left.ordinal < right.ordinal) :
      (rows.orderedInsert r child).Pairwise fun left right => left.ordinal < right.ordinal := by
    induction rows with
    | nil => exact List.pairwise_singleton _ _
    | cons other rows ih =>
      obtain ⟨hother, hrows⟩ := List.pairwise_cons.mp hrows
      have hne := hfresh other List.mem_cons_self
      rw [List.orderedInsert_cons]
      split
      · next hle =>
        have hlt : child.ordinal < other.ordinal := by
          refine lt_of_le_of_ne (Nat.le_of_not_lt fun hlt => hr' child other hlt hle) hne.symm
        refine List.pairwise_cons.mpr ⟨?_, List.pairwise_cons.mpr ⟨hother, hrows⟩⟩
        exact List.forall_mem_cons.mpr ⟨hlt, fun later hlater => hlt.trans (hother later hlater)⟩
      · next hle =>
        have hlt : other.ordinal < child.ordinal := by
          refine lt_of_le_of_ne (Nat.le_of_not_lt fun hlt => hle (hr child other hlt)) hne
        refine List.pairwise_cons.mpr ⟨fun later hlater => ?_,
          ih (fun later hlater => hfresh later (List.mem_cons_of_mem _ hlater)) hrows⟩
        obtain rfl | hlater := (List.mem_orderedInsert r).mp hlater
        · exact hlt
        · exact hother later hlater
  induction rows with
  | nil => exact .nil
  | cons child rows ih =>
    rw [List.map_cons, List.nodup_cons] at h
    refine hinsert (fun _ _ => .inl) (fun left right hlt => ?_) child _ (fun other hother heq => ?_)
      (ih h.2)
    · rintro (hlt' | ⟨heq, -⟩) <;> omega
    · exact h.1 (heq ▸ List.mem_map_of_mem ((List.perm_insertionSort _ _).mem_iff.mp hother))

theorem mem_sortedChildren {rows : List (StoredNodeChild V)} {child : StoredNodeChild V} :
    child ∈ sortedChildren rows ↔ child ∈ rows :=
  (List.perm_insertionSort _ _).mem_iff

end

/-! ## What a pass has read -/

section

variable {m : Mem V} {workflow : WorkflowImplementation} {runId nodeName : String} {limit : Nat}

/-- These are the children of the map node. -/
structure Mem.Lists (m : Mem V) (runId nodeName : String) (children : List (StoredNodeChild V)) :
    Prop where
  item : ∀ child ∈ children, child.childKey = itemChildKey child.ordinal ∧
    m.item? runId nodeName child.ordinal = some child
  complete : ∀ index child, m.item? runId nodeName index = some child →
    ∃ seen ∈ children, seen.ordinal = index

/-- What a pass has read of the children of a map node and has done to them is true. -/
structure Mem.Shows (m : Mem V) (runId : String) (view : ChildView V) : Prop where
  item : ∀ child ∈ view.children, child.childKey = itemChildKey child.ordinal ∧
    ∃ stored, m.item? runId view.nodeName child.ordinal = some stored ∧
      (child.childRunId.isSome → stored.childRunId = child.childRunId) ∧
      (child.childKey ∈ view.started → stored.childRunId.isSome)
  sorted : view.children.Pairwise fun left right => left.ordinal < right.ordinal
  complete : view.children ≠ [] → ∀ index child, m.item? runId view.nodeName index = some child →
    ∃ seen ∈ view.children, seen.ordinal = index
  runs : ∀ run ∈ view.runs, Minted "run" m.nextId run.id ∧ (isTerminalRunStatus run.status →
    ∀ run', m.runs.get? run.id = some run' → isTerminalRunStatus run'.status)

variable {view : ChildView V}

theorem Mem.Shows.distinct (h : m.Shows runId view) : view.Distinct := by
  refine List.pairwise_map.mpr (h.sorted.imp_of_mem fun hleft hright hlt hkey => ?_)
  rw [(h.item _ hleft).1, (h.item _ hright).1] at hkey
  exact hlt.ne (itemChildKey_injective hkey)

variable [JsRuntime V]

omit [JsRuntime V] in
theorem Mem.Lists.distinct {children : List (StoredNodeChild V)}
    (h : m.Lists runId nodeName children) (hnodup : children.Nodup) :
    (children.map StoredNodeChild.ordinal).Nodup := by
  refine hnodup.map_on fun child hchild other hother heq => ?_
  have hget := (h.item child hchild).2
  rw [heq, (h.item other hother).2] at hget
  exact (Option.some.inj hget).symm

/-- The children of a map node, in order. -/
theorem Mem.Lists.shows {children : List (StoredNodeChild V)} (h : m.Lists runId nodeName children)
    (hnodup : children.Nodup) :
    m.Shows runId { nodeName, children := sortedChildren children } where
  item child hchild := by
    obtain ⟨hkey, hget⟩ := h.item child (mem_sortedChildren.mp hchild)
    exact ⟨hkey, child, hget, fun _ => rfl, fun hstarted => absurd hstarted List.not_mem_nil⟩
  sorted := sortedChildren_pairwise (h.distinct hnodup)
  complete _ index child hget := by
    obtain ⟨seen, hseen, hindex⟩ := h.complete index child hget
    exact ⟨seen, mem_sortedChildren.mpr hseen, hindex⟩
  runs _ hrun := absurd hrun List.not_mem_nil

namespace ItemsKept

variable (h : ItemsKept workflow m) (hwindow : m.HasWindow workflow runId nodeName limit)

include h hwindow

omit [JsRuntime V] in
theorem separate : Separate ':' runId ∧ Separate ':' nodeName := by
  obtain ⟨run, hrun, -⟩ := hwindow.run
  obtain ⟨node, hnode, rfl, -⟩ := hwindow.node
  exact ⟨(h.sound.runs _ _ hrun).2.separate, workflow.name_separate hnode⟩

omit [JsRuntime V] in
theorem lists_nodeChildren : m.Lists runId nodeName (m.nodeChildren runId nodeName) ∧
    (m.nodeChildren runId nodeName).Nodup := by
  obtain ⟨hrun, hnode⟩ := h.separate hwindow
  refine ⟨⟨fun child hchild => ?_, fun index child hget => ?_⟩, ?_⟩
  · obtain ⟨hmem, hfields⟩ := List.mem_filter.mp hchild
    obtain ⟨rfl, rfl⟩ := of_decide_eq_true hfields
    obtain ⟨key, hget⟩ := OrdMap.mem_values_iff.mp hmem
    have hkey := h.items _ _ _ hwindow key child hget rfl rfl
    have howner := h.sound.keyed.children hget
    rw [hkey] at howner
    exact ⟨hkey, (congrArg m.children.get? howner).trans hget⟩
  · obtain ⟨-, hrunId, hnodeName, hkey⟩ := h.placed_item hrun hnode hget
    have hmem : child ∈ m.nodeChildren runId nodeName :=
      List.mem_filter.mpr ⟨OrdMap.mem_values_of_get? hget, decide_eq_true ⟨hrunId, hnodeName⟩⟩
    have hordinal := h.items _ _ _ hwindow _ child hget hrunId hnodeName
    exact ⟨child, hmem, itemChildKey_injective (hordinal.symm.trans hkey)⟩
  · exact ((OrdMap.nodup_map_values h.sound.keyed.children).of_map).filter _

omit [JsRuntime V] in
/-- What a pass has read allows what the contract allows. -/
theorem mayOpen (hshows : m.Shows runId view) (hname : view.nodeName = nodeName)
    {childKey : String} (hmay : view.MayStart childKey limit) : ∃ index,
      childKey = itemChildKey index ∧ ∀ child, m.item? runId nodeName index = some child →
        child.childRunId = none → m.MayOpen runId nodeName index limit := by
  subst hname
  obtain ⟨before, child, after, hchildren, rfl, hstarted, hcount⟩ := hmay
  have hmem : child ∈ view.children := by simp [hchildren]
  refine ⟨child.ordinal, (hshows.item child hmem).1, fun stored hget hunlinked => ?_⟩
  -- the stored items before this one have been read before it
  have hbefore {index : Nat} {earlier : StoredNodeChild V} (hlt : index < child.ordinal)
      (hget : m.item? runId view.nodeName index = some earlier) :
      ∃ seen ∈ before, seen.ordinal = index := by
    obtain ⟨seen, hseen, rfl⟩ := hshows.complete (List.ne_nil_of_mem hmem) index earlier hget
    have hsorted := hshows.sorted
    rw [hchildren] at hseen hsorted
    obtain hseen | hseen := List.mem_append.mp hseen
    · exact ⟨seen, hseen, rfl⟩
    · obtain rfl | hseen := List.mem_cons.mp hseen
      · exact absurd hlt (lt_irrefl _)
      · have hafter := (List.pairwise_cons.mp (List.pairwise_append.mp hsorted).2.1).1 seen hseen
        exact absurd hlt hafter.asymm
  have hlinked {seen earlier : StoredNodeChild V} (hseen : seen ∈ before)
      (hget : m.item? runId view.nodeName seen.ordinal = some earlier) :
      earlier.childRunId.isSome := by
    obtain ⟨-, stored, hstored, hlink, hstart⟩ :=
      hshows.item seen (by rw [hchildren]; exact List.mem_append_left _ hseen)
    obtain rfl := Option.some.inj (hstored.symm.trans hget)
    have hisStarted := hstarted seen hseen
    rw [ChildView.isStarted, Bool.or_eq_true, decide_eq_true_eq] at hisStarted
    obtain hsome | hkey := hisStarted
    · rw [hlink hsome]
      exact hsome
    · exact hstart hkey
  refine ⟨fun index earlier hlt hget => ?_, fun indices hnodup hfresh hwork => ?_⟩
  · obtain ⟨seen, hseen, rfl⟩ := hbefore hlt hget
    exact hlinked hseen hget
  · have hsubset : indices ⊆ (before.filter view.isActive).map StoredNodeChild.ordinal := by
      intro index hindex
      obtain ⟨working, hworking, hatWork⟩ := hwork index hindex
      obtain ⟨childRunId, run', hlink', hrun', hlive⟩ := Mem.isAtWork_iff.mp hatWork
      have hlt : index < child.ordinal := by
        by_contra hge
        have hne : index ≠ child.ordinal := fun heq => hfresh (heq ▸ hindex)
        have hsome := (h.windows _ _ _ hwindow).inOrder child.ordinal index stored working
          (by omega) hget hworking (by rw [hlink']; rfl)
        rw [hunlinked] at hsome
        cases hsome
      obtain ⟨seen, hseen, rfl⟩ := hbefore hlt hworking
      refine List.mem_map.mpr ⟨seen, List.mem_filter.mpr ⟨hseen, ?_⟩, rfl⟩
      by_contra hidle
      obtain ⟨-, found, hfound, hlink, -⟩ :=
        hshows.item seen (by rw [hchildren]; exact List.mem_append_left _ hseen)
      obtain rfl := Option.some.inj (hfound.symm.trans hworking)
      have hisStarted := hstarted seen hseen
      rw [ChildView.isStarted, Bool.or_eq_true] at hisStarted
      rw [ChildView.isActive, Bool.or_eq_true, not_or] at hidle
      have hsome := hisStarted.resolve_right hidle.1
      have hseenLink : seen.childRunId = some childRunId := (hlink hsome).symm.trans hlink'
      have hended := hidle.2
      rw [hseenLink, Option.any_some, Bool.not_eq_true', Bool.not_eq_false] at hended
      obtain ⟨run, hrun, hended⟩ := List.any_eq_true.mp hended
      rw [Bool.and_eq_true, decide_eq_true_eq] at hended
      obtain ⟨rfl, hterminal⟩ := hended
      have := (hshows.runs run hrun).2 hterminal run' hrun'
      rw [hlive] at this
      cases this
    have hle := (List.subperm_of_subset hnodup hsubset).length_le
    rw [List.length_map] at hle
    exact hle.trans_lt hcount

/-- It stays true whatever anyone does, as long as the run is stored. -/
theorem shows_step (hname : view.nodeName = nodeName) (hshows : m.Shows runId view) {op : Op V}
    (hop : m.MayFan workflow op) {run' : StoredRun V}
    (hstored : (m.step op).runs.get? runId = some run') : (m.step op).Shows runId view := by
  subst hname
  obtain ⟨hrun, hnode⟩ := h.separate hwindow
  have hstep := h.item_step hop hrun hnode hstored
  refine ⟨fun child hchild => ?_, hshows.sorted, fun hne index child' hget => ?_,
    fun run hrun => ?_⟩
  · obtain ⟨hkey, stored, hget, hlink, hstarted⟩ := hshows.item child hchild
    refine ⟨hkey, ?_⟩
    cases hstep child.ordinal with
    | absent before _ => cases before.symm.trans hget
    | kept get get' link =>
      obtain rfl := Option.some.inj (get.symm.trans hget)
      exact ⟨_, get', fun hsome => link.trans (hlink hsome), fun hkey => link ▸ hstarted hkey⟩
    | linked _ _ get get' unlinked link _ _ =>
      obtain rfl := Option.some.inj (get.symm.trans hget)
      refine ⟨_, get', fun hsome => ?_, fun _ => by rw [link]; rfl⟩
      rw [← hlink hsome, unlinked] at hsome
      cases hsome
    | added _ _ absent _ _ => cases (absent _).symm.trans hget
  · obtain ⟨child, hchild⟩ := List.exists_mem_of_ne_nil _ hne
    obtain ⟨-, stored, hstored, -⟩ := hshows.item child hchild
    cases hstep index with
    | absent _ after => cases after.symm.trans hget
    | kept get _ _ => exact hshows.complete hne index _ get
    | linked _ _ get _ _ _ _ _ => exact hshows.complete hne index _ get
    | added _ _ absent _ _ => cases (absent _).symm.trans hstored
  · obtain ⟨hminted, hended⟩ := hshows.runs run hrun
    refine ⟨hminted.mono (Mem.step_effect h.sound.keyed op).nextId_le, fun hterminal => ?_⟩
    intro run' hrun'
    obtain hfresh | ⟨before, hbefore, -, -, hstays⟩ := h.sound.run_back op hrun'
    · exact absurd (hfresh ▸ hminted) (not_minted_freshId "run" m.nextId)
    · exact hstays (hended hterminal before hbefore)

end ItemsKept

/-! ## What the operations of a pass return -/

/-- The children that `ensureNodeChildren` returns are those of the node. -/
theorem ItemsKept.lists_ensureNodeChildren (h : ItemsKept workflow m)
    (hwindow : m.HasWindow workflow runId nodeName limit) {inputs : List (EnsureNodeChildInput V)}
    (hop : m.MayFan workflow (.store (.ensureNodeChildren runId nodeName inputs)))
    {children : List (StoredNodeChild V)} {created : Bool}
    (hanswer : (m.ensureNodeChildren runId nodeName inputs).1 = .ok (children, created)) :
    ∃ rows, children = sortedChildren rows ∧ rows.Nodup ∧
      (m.ensureNodeChildren runId nodeName inputs).2.Lists runId nodeName rows := by
  obtain ⟨hrun, hnode⟩ := h.separate hwindow
  obtain ⟨hlists, hnodup⟩ := h.lists_nodeChildren hwindow
  unfold Mem.ensureNodeChildren at hanswer ⊢
  split at hanswer
  · cases hanswer
  · dsimp only at hanswer ⊢
    split at hanswer
    · split at hanswer
      · next hexisting hmatch =>
        cases hanswer
        rw [if_pos hexisting, if_pos hmatch]
        exact ⟨_, rfl, hnodup, hlists⟩
      · cases hanswer
    · next hexisting =>
      cases hanswer
      rw [if_neg hexisting]
      have hnone (index : Nat) : m.item? runId nodeName index = none := by
        refine Option.eq_none_iff_forall_ne_some.mpr fun child hget => hexisting fun hnil => ?_
        obtain ⟨seen, hseen, -⟩ := hlists.complete index child hget
        rw [hnil] at hseen
        cases hseen
      have hitems : AreItems inputs := by
        obtain ⟨htask, -⟩ | ⟨-, -, hitems⟩ := hop
        · exact absurd htask hwindow.name
        · exact hitems limit hwindow
      have hcreated := addChildren_cases m.records runId nodeName inputs m.now.1
      refine ⟨_, rfl, ?_, fun child hchild => ?_, fun index child hget => ?_⟩
      · refine List.Nodup.of_map StoredNodeChild.childKey ?_
        rw [List.map_map]
        exact hitems.distinct
      · obtain ⟨input, hinput, rfl⟩ := List.mem_map.mp hchild
        obtain ⟨index, hkey, hordinal⟩ := hitems.key input hinput
        have hindex : (Mem.newChild runId nodeName input m.now.1).ordinal = index := by
          simp only [Mem.newChild, hordinal, Option.getD_some]
        refine ⟨by rw [hindex]; exact hkey, ?_⟩
        rw [hindex]
        obtain ⟨-, hfresh⟩ | ⟨input', hinput', howner, hget⟩ :=
          hcreated (childKey runId nodeName (itemChildKey index))
        · exact absurd (by rw [hkey]) (hfresh input hinput)
        · obtain ⟨-, -, hsame⟩ := childKey_inj hrun hrun hnode hnode howner
          obtain rfl := List.inj_on_of_nodup_map hitems.distinct hinput hinput' (hkey.trans hsame)
          exact hget
      · obtain ⟨hsame, -⟩ | ⟨input, hinput, howner, hget'⟩ :=
          hcreated (childKey runId nodeName (itemChildKey index))
        · cases (hnone index).symm.trans (hsame.symm.trans hget)
        · refine ⟨_, List.mem_map_of_mem hinput, ?_⟩
          obtain ⟨index', hkey, hordinal⟩ := hitems.key input hinput
          obtain ⟨-, -, hsame⟩ := childKey_inj hrun hrun hnode hnode howner
          obtain rfl := itemChildKey_injective (hsame.trans hkey)
          simp only [Mem.newChild, hordinal, Option.getD_some]

/-- A child whose run is ensured is linked. -/
theorem linked_ensureChildRun (m : Mem V) {params : EnsureChildRunParams V}
    {result : StoredNodeChild V × StoredRun V × Bool}
    (hanswer : (m.ensureChildRun params).1 = .ok result) :
    ∃ child, (m.ensureChildRun params).2.children.get?
      (childKey params.runId params.nodeName params.childKey) = some child ∧
        child.childRunId.isSome := by
  unfold Mem.ensureChildRun at hanswer ⊢
  dsimp only at hanswer ⊢
  split at hanswer
  · cases hanswer
  · next child hget =>
    split at hanswer
    · next childRunId hlink =>
      split at hanswer
      · cases hanswer
      · split at hanswer
        · next hmatch =>
          rw [if_pos hmatch]
          exact ⟨child, hget, by rw [hlink]; rfl⟩
        · cases hanswer
    · split at hanswer
      · cases hanswer
      · next hlive =>
        rw [if_neg hlive]
        split at hanswer
        · cases hanswer
        · exact ⟨_, OrdMap.get?_set_self _ _ _, rfl⟩

/-! ## What a pass knows -/

omit [JsRuntime V] in
/-- What a pass with this implementation knows of its run and of the items of a map node is true as
long as the run is stored. -/
def KnowsItems (workflow own : WorkflowImplementation) (m : Mem V) :
    Option (String × Knowledge V) → Prop
  | none => True
  | some (runId, known) => Minted "run" m.nextId runId ∧
    (∀ run, m.runs.get? runId = some run →
      run.workflowName = own.workflow.name ∧ run.rootRunId = known.rootRunId) ∧
    ∀ view ∈ known.view, ∀ limit, m.HasWindow workflow runId view.nodeName limit →
      m.Shows runId view

variable {own : WorkflowImplementation} {phase : Option (String × Knowledge V)}
  {known : Knowledge V}

namespace KnowsItems

/-- It stays true whatever anyone does. -/
theorem step (h : KnowsItems workflow own m phase) (hm : ItemsKept workflow m) {op : Op V}
    (hop : m.MayFan workflow op) : KnowsItems workflow own (m.step op) phase := by
  cases phase with
  | none => trivial
  | some phase =>
    obtain ⟨runId, known⟩ := phase
    obtain ⟨hminted, hrun, hshows⟩ := h
    have hfresh : runId ≠ freshId "run" m.nextId := by
      rintro rfl
      exact not_minted_freshId "run" m.nextId hminted
    have hnext := (Mem.step_effect hm.sound.keyed op).nextId_le
    refine ⟨hminted.mono hnext, fun run' hrun' => ?_, fun view hview limit hwindow => ?_⟩
    · obtain ⟨run, hbefore, hworkflow, hroot, -⟩ :=
        (hm.sound.run_back op hrun').resolve_left hfresh
      obtain ⟨hown, hknown⟩ := hrun run hbefore
      exact ⟨hworkflow.trans hown, hroot.trans hknown⟩
    · have hbefore := (hm.hasWindow_back op hwindow).resolve_left hfresh
      obtain ⟨run', hstored, -⟩ := hwindow.run
      exact hm.shows_step hbefore rfl (hshows view hview limit hbefore) hop hstored

omit [JsRuntime V] in
/-- A map node of a run that a pass continues is one of its own implementation. -/
theorem window_own (h : KnowsItems workflow own m (some (runId, known)))
    (hown : own.DeployedAs workflow) {node : WorkflowNodeImplementation} (hnode : node ∈ own.nodes)
    (hwindow : m.HasWindow workflow runId node.name limit) : node.window? = some limit := by
  obtain ⟨run, hrun, hworkflow⟩ := hwindow.run
  obtain rfl := hown ((h.2.1 run hrun).1.symm.trans hworkflow)
  obtain ⟨node', hnode', hname, hlimit⟩ := hwindow.node
  have hnodup : (own.nodes.map WorkflowNodeImplementation.name).Nodup :=
    own.names ▸ own.workflow.distinct
  rw [List.inj_on_of_nodup_map hnodup hnode hnode' hname.symm]
  exact hlimit

omit [JsRuntime V] in
theorem mayFan (h : KnowsItems workflow own m phase) (hm : ItemsKept workflow m)
    (hown : own.DeployedAs workflow) {op : StoreOp V}
    (hallowed : (passContract own).allowed phase (.store op)) : m.MayFan workflow (.store op) := by
  cases op with
  | ensureNodeChildren runId nodeName inputs =>
    cases phase with
    | none =>
      obtain hhouse | hlease := hallowed
      · exact .inl hhouse
      · cases hlease
    | some phase =>
      obtain ⟨runId, known⟩ := phase
      obtain (hhouse | ⟨rfl, node, hnode, rfl, hitems⟩) | hlease := hallowed
      · exact .inl hhouse
      · refine .inr ⟨h.1, own.name_separate hnode, fun limit hwindow => hitems ?_⟩
        rw [h.window_own hown hnode hwindow]
        rfl
      · cases hlease
  | ensureChildRun params =>
    cases phase with
    | none =>
      obtain hhouse | hlease := hallowed
      · exact hhouse.elim
      · cases hlease
    | some phase =>
      obtain ⟨runId, known⟩ := phase
      obtain ⟨rfl, hroot, node, hnode, hname, hstart⟩ | hlease := hallowed
      · refine ⟨h.1, hname ▸ own.name_separate hnode, fun run hrun => ?_, fun limit hwindow => ?_⟩
        · exact hroot.trans (h.2.1 run hrun).2.symm
        · rw [← hname] at hwindow ⊢
          obtain ⟨view, hview, hviewName, hmay⟩ :=
            hstart limit (h.window_own hown hnode hwindow) hwindow.name
          have hshows := h.2.2 view hview limit (hviewName.symm ▸ hwindow)
          exact hm.mayOpen hwindow hshows hviewName (hmay hshows.distinct)
      · cases hlease
  | _ => trivial

omit [JsRuntime V] in
theorem congr (h : KnowsItems workflow own m (some (runId, known))) {known' : Knowledge V}
    (hroot : known'.rootRunId = known.rootRunId) (hview : known'.view = known.view) :
    KnowsItems workflow own m (some (runId, known')) := by
  refine ⟨h.1, fun run hrun => ?_, fun view hmem => h.2.2 view (hview ▸ hmem)⟩
  rw [hroot]
  exact h.2.1 run hrun

omit [JsRuntime V] in
/-- With another view. -/
theorem withView (h : KnowsItems workflow own m (some (runId, known))) {view : ChildView V}
    (hshows : ∀ limit, m.HasWindow workflow runId view.nodeName limit → m.Shows runId view) :
    KnowsItems workflow own m (some (runId, { known with view := some view })) := by
  refine ⟨h.1, h.2.1, ?_⟩
  rintro _ ⟨⟩
  exact hshows

omit [JsRuntime V] in
theorem look (h : KnowsItems workflow own m (some (runId, known))) {nodeName : String}
    {children : List (StoredNodeChild V)} (hshows : ∀ limit,
      m.HasWindow workflow runId nodeName limit → m.Shows runId { nodeName, children }) :
    KnowsItems workflow own m (some (runId, known.look nodeName children)) := by
  unfold Knowledge.look
  split
  · exact h
  · exact h.withView hshows

/-- What an operation teaches is true after it. -/
theorem learn (h : KnowsItems workflow own m phase) (hm : ItemsKept workflow m)
    (hown : own.DeployedAs workflow) {op : StoreOp V}
    (hallowed : (passContract own).allowed phase (.store op)) :
    KnowsItems workflow own (m.execStore op).2
      ((passContract own).advance phase (.store op) (m.execStore op).1) := by
  have hmay := h.mayFan hm hown hallowed
  have hstep : KnowsItems workflow own (m.execStore op).2 phase := h.step hm hmay
  have hm' : ItemsKept workflow (m.execStore op).2 := hm.step hmay
  cases phase with
  | none =>
    cases op with
    | loadRunSnapshot runId =>
      simp only [Mem.execStore, Mem.returning]
      cases hload : m.loadRunSnapshot runId with
      | none => trivial
      | some snapshot =>
        by_cases hworkflow : snapshot.run.workflowName = own.workflow.name
        · have hadvance : (passContract own).advance none (.store (.loadRunSnapshot runId))
              (.ok (some snapshot)) = some (snapshot.run.id, .ofSnapshot snapshot) :=
            if_pos hworkflow
          rw [hadvance]
          obtain ⟨run, hrun, rfl⟩ := Option.map_eq_some_iff.mp hload
          obtain ⟨rfl, hminted⟩ := hm.sound.runs _ _ hrun
          refine ⟨hminted, fun run' hrun' => ?_, fun _ hview => by cases hview⟩
          obtain rfl := Option.some.inj (hrun.symm.trans hrun')
          exact ⟨hworkflow, rfl⟩
        · have hadvance : (passContract own).advance none (.store (.loadRunSnapshot runId))
              (.ok (some snapshot)) = none := if_neg hworkflow
          rw [hadvance]
          trivial
    | _ => trivial
  | some phase =>
    obtain ⟨runId, known⟩ := phase
    change KnowsItems workflow own _ (some (runId, known.next runId (.store op) (m.execStore op).1))
    cases hanswer : (m.execStore op).1 with
    | error error =>
      rw [known.next_error]
      exact hstep
    | ok answer =>
      cases op with
      | createNode input =>
        change KnowsItems workflow own _
          (some (runId, if input.runId = runId then known.store input.name else known))
        split
        · exact hstep.congr rfl rfl
        · exact hstep
      | completeNode id nodeName output =>
        change KnowsItems workflow own _
          (some (runId, if id = runId then known.close nodeName else known))
        split
        · unfold Knowledge.close
          split
          · exact hstep.congr rfl rfl
          · exact hstep
        · exact hstep
      | ensureNodeChildren id nodeName inputs =>
        change KnowsItems workflow own _
          (some (runId, if id = runId then known.look nodeName answer.1 else known))
        split
        · next hrun =>
          subst hrun
          refine hstep.look fun limit hwindow => ?_
          have hbefore := (hm.hasWindow_back (.store _) hwindow).resolve_left fun hfresh =>
            not_minted_freshId "run" m.nextId (hfresh ▸ h.1)
          obtain ⟨rows, hrows, hnodup, hlists⟩ := hm.lists_ensureNodeChildren hbefore hmay hanswer
          rw [hrows]
          exact hlists.shows hnodup
        · exact hstep
      | loadNodeChildren id nodeName =>
        cases hanswer
        change KnowsItems workflow own _
          (some (runId, if id = runId then known.look nodeName _ else known))
        split
        · next hrun =>
          subst hrun
          refine hstep.look fun limit hwindow => ?_
          obtain ⟨hlists, hnodup⟩ := hm.lists_nodeChildren hwindow
          exact hlists.shows hnodup
        · exact hstep
      | loadRuns runIds =>
        cases hanswer
        refine ⟨h.1, h.2.1, fun view hview limit hwindow => ?_⟩
        obtain ⟨before, hbefore, rfl⟩ := Option.mem_map.mp hview
        have hshows := h.2.2 before hbefore limit hwindow
        refine ⟨hshows.item, hshows.sorted, hshows.complete, fun run hrun => ?_⟩
        obtain ⟨id, -, hget⟩ := List.mem_filterMap.mp hrun
        obtain ⟨rfl, hminted⟩ := hm.sound.runs _ _ hget
        refine ⟨hminted, fun hterminal run' hrun' => ?_⟩
        obtain rfl := Option.some.inj (hget.symm.trans hrun')
        exact hterminal
      | ensureChildRun params =>
        obtain ⟨rfl, -⟩ | hlease := hallowed
        · refine ⟨hstep.1, hstep.2.1, fun view hview limit hwindow => ?_⟩
          obtain ⟨before, hbefore, rfl⟩ := Option.mem_map.mp hview
          by_cases hname : before.nodeName = params.nodeName
          · rw [if_pos hname] at hwindow ⊢
            have hshows := hstep.2.2 before hbefore limit hwindow
            refine ⟨fun child hchild => ?_, hshows.sorted, hshows.complete, hshows.runs⟩
            obtain ⟨hkey, stored, hget, hlink, hstarted⟩ := hshows.item child hchild
            refine ⟨hkey, stored, hget, hlink, fun hmem => ?_⟩
            obtain heq | hmem := List.mem_cons.mp hmem
            · obtain ⟨linked, hlinked, hsome⟩ := linked_ensureChildRun m hanswer
              rw [← hname, ← heq, hkey] at hlinked
              obtain rfl := Option.some.inj (hget.symm.trans hlinked)
              exact hsome
            · exact hstarted hmem
          · rw [if_neg hname] at hwindow ⊢
            exact hstep.2.2 before hbefore limit hwindow
        · cases hlease
      | _ => exact hstep

end KnowsItems

end

/-! ## Every interleaving -/

/-- The operation adds no children but those of task runs, and starts no child runs. -/
def Op.LeavesChildren : Op V → Prop
  | .store (.ensureNodeChildren _ nodeName inputs) =>
    nodeName = TASK_RUN_NODE_NAME ∧ inputs = [{ childKey := SELF_CHILD_KEY, kind := .task }]
  | .store (.ensureChildRun _) => False
  | _ => True

variable [JsRuntime V]

/-- The items of the map nodes of a workflow start in their windows. -/
def itemsInWindows (workflow : WorkflowImplementation) : Discipline V workflow where
  Inv := ItemsKept workflow
  May m op := m.MayFan workflow op
  Knows := KnowsItems workflow
  create maxDeliveries := by
    refine ⟨Mem.sound_create maxDeliveries, .empty, ?_, ?_, fun runId nodeName limit hwindow => ?_⟩
    · rintro runId run _ _ _ _ ⟨⟩
    · rintro runId nodeName limit _ key child ⟨⟩
    · obtain ⟨run, hrun, -⟩ := hwindow.run
      cases hrun
  step h hop := h.step hop
  knowsNothing _ _ := trivial
  stillKnows _ hm hop h := h.step hm hop
  allows hown hm h hallowed := h.mayFan hm hown hallowed
  learns hown hm h hallowed := h.learn hm hown hallowed
  executor _ _ := trivial

namespace Coordinators

/-- In every state that any number of coordinators reach in any interleaving, whoever dies, loses
its lease or acts beside them: of the children of a map node that waits for them at most `limit`
have runs that have not ended, and a child is started only after the ones before it. -/
theorem window_kept (maxDeliveries : Option Int) {workflow : WorkflowImplementation}
    {history : List (CoordinatorMove V)}
    (hhistory : ∀ move ∈ history, move.Deploys workflow ∧ move.Besides Op.LeavesChildren)
    {runId : String} {run : StoredRun V}
    (hrun : (after maxDeliveries history).mem.runs.get? runId = some run)
    (hworkflow : run.workflowName = workflow.workflow.name)
    {node : WorkflowNodeImplementation} (hnode : node ∈ workflow.nodes) {limit : Nat}
    (hlimit : node.window? = some limit) (hname : node.name ≠ TASK_RUN_NODE_NAME) :
    let m := (after maxDeliveries history).mem
    ((m.nodeChildren runId node.name).filter m.isAtWork).length ≤ limit ∧
      ∀ earlier ∈ m.nodeChildren runId node.name, ∀ child ∈ m.nodeChildren runId node.name,
        earlier.ordinal < child.ordinal → child.childRunId.isSome → earlier.childRunId.isSome := by
  have hkept : ItemsKept workflow (after maxDeliveries history).mem := by
    refine (itemsInWindows workflow).holds_after maxDeliveries fun move hmove => ?_
    refine (hhistory move hmove).imp_right fun hbesides => ?_
    cases move with
    | other op =>
      rintro m -
      cases op with
      | store op =>
        cases op with
        | ensureNodeChildren => exact .inl hbesides
        | ensureChildRun => exact hbesides.elim
        | _ => trivial
      | executor | clock => trivial
    | start | resume | crash => trivial
  have hwindow : (after maxDeliveries history).mem.HasWindow workflow runId node.name limit :=
    ⟨⟨run, hrun, hworkflow⟩, ⟨node, hnode, rfl, hlimit⟩, hname⟩
  obtain ⟨hlists, hnodup⟩ := hkept.lists_nodeChildren hwindow
  have hinWindow := hkept.windows _ _ _ hwindow
  refine ⟨?_, fun earlier hearlier child hchild hlt hlinked => ?_⟩
  · rw [← List.length_map StoredNodeChild.ordinal]
    refine hinWindow.bound _ ?_ fun index hindex => ?_
    · exact (hlists.distinct hnodup).sublist (List.filter_sublist.map _)
    · obtain ⟨child, hchild, rfl⟩ := List.mem_map.mp hindex
      obtain ⟨hmem, hwork⟩ := List.mem_filter.mp hchild
      exact ⟨child, (hlists.item child hmem).2, hwork⟩
  · exact hinWindow.inOrder _ _ _ _ hlt (hlists.item earlier hearlier).2
      (hlists.item child hchild).2 hlinked

/-! ## A run of two items -/

def oneAtATime : MapNodeImplementation where
  name := "each"
  target := { name := "child", input := ⟨"in"⟩ }
  mode := .waitAll
  concurrency := some 1
  items := ⟨"items"⟩
  input := ⟨"input"⟩

def oneMapNode : WorkflowImplementation where
  workflow := { name := "w", nodes := [⟨"each", .mapWorkflow ⟨"item"⟩ .waitAll⟩] }
  nodes := [.mapWorkflow oneAtATime]
  finish := ⟨"finish"⟩

/-- User code with two items. -/
def twoItemsUser : UserCode JsonText
  | .createContext => .ok ()
  | .decode _ value => .ok value
  | .items _ _ => .ok [.null, .null]
  | .call _ _ => .ok .null
  | _ => .error (.error "No user code")

/-- The first item is started, its run completes, and the second is started. -/
def twoMapPasses : List (CoordinatorMove JsonText) :=
  .other (.store (.createRun { workflowName := "w", input := .null })) ::
    CoordinatorMove.pass oneMapNode "run-1" twoItemsUser 30 ++
    .other (.store (.markRunRunning "run-3")) :: .other (.store (.completeRun "run-3" .null)) ::
    CoordinatorMove.pass oneMapNode "run-1" twoItemsUser 30

theorem window_kept_twoMapPasses :
    let m := (after none twoMapPasses).mem
    ((m.nodeChildren "run-1" "each").map fun child => child.childRunId.isSome) = [true, true] ∧
      ((m.nodeChildren "run-1" "each").filter m.isAtWork).length ≤ 1 := by
  have hname : ((after none twoMapPasses).mem.runs.get? "run-1").map StoredRun.workflowName =
      some "w" := by decide +kernel
  obtain ⟨run, hrun, hworkflow⟩ := Option.map_eq_some_iff.mp hname
  have hhistory : ∀ move ∈ twoMapPasses,
      move.Deploys oneMapNode ∧ move.Besides Op.LeavesChildren := by
    refine List.forall_mem_append.mpr ⟨?_, ?_⟩
    · exact List.forall_mem_cons.mpr ⟨⟨trivial, trivial⟩, CoordinatorMove.deploys_pass⟩
    · refine List.forall_mem_cons.mpr ⟨⟨trivial, trivial⟩, ?_⟩
      exact List.forall_mem_cons.mpr ⟨⟨trivial, trivial⟩, CoordinatorMove.deploys_pass⟩
  exact ⟨by decide +kernel, (window_kept none hhistory hrun hworkflow
    (List.mem_singleton_self (WorkflowNodeImplementation.mapWorkflow oneAtATime)) rfl
    (by decide)).1⟩

end Coordinators

end Neemata.Workflows
