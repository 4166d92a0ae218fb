import Neemata.Workflows.Coordinator.Interleaving
import Neemata.Workflows.InMemory.ChildOrigin
import Neemata.Workflows.InMemory.NodeOrigin

/-!
# The items of a map node

The child of an item is found under a key that no other child of the store takes. An operation adds
all items of a node at once and links one of them at a time; nothing unlinks them while their run is
stored.
-/

namespace Neemata.Workflows

variable {V : Type}

/-! ## Items -/

section

variable (m : Mem V) (runId nodeName : String) (index : Nat)

/-- The child of the item at this position. -/
def Mem.item? : Option (StoredNodeChild V) :=
  m.children.get? (childKey runId nodeName (itemChildKey index))

/-- The run of the child has not ended. -/
def Mem.isAtWork (child : StoredNodeChild V) : Bool :=
  child.childRunId.any fun childRunId =>
    (m.runs.get? childRunId).any fun run => !isTerminalRunStatus run.status

def Mem.ItemAtWork : Prop := ∃ child, m.item? runId nodeName index = some child ∧ m.isAtWork child

end

theorem Mem.isAtWork_iff {m : Mem V} {child : StoredNodeChild V} :
    m.isAtWork child ↔ ∃ childRunId run, child.childRunId = some childRunId ∧
      m.runs.get? childRunId = some run ∧ isTerminalRunStatus run.status = false := by
  simp [isAtWork, Option.any_eq_true]

/-- A stored child is one of a minted run, or the one of a task run. -/
def Placed (n : Nat) (child : StoredNodeChild V) : Prop :=
  Minted "run" n child.runId ∧ Separate ':' child.nodeName ∨
    child.nodeName = TASK_RUN_NODE_NAME ∧ child.childKey = SELF_CHILD_KEY

theorem Placed.mono {n n' : Nat} {child : StoredNodeChild V} (h : Placed n child) (hn : n ≤ n') :
    Placed n' child :=
  h.imp_left fun h => h.imp_left fun hminted => hminted.mono hn

theorem Placed.change {n : Nat} {child child' : StoredNodeChild V} (h : Placed n child)
    (hchange : ChildChange child child') : Placed n child' := by
  rw [hchange.same]
  exact h

theorem Minted.separate {n : Nat} {runId : String} (h : Minted "run" n runId) :
    Separate ':' runId := by
  obtain ⟨i, -, rfl⟩ := h
  exact separate_freshId rfl (by decide) i

theorem childKey_task_ne {runId taskRunId nodeName : String} {index : Nat} :
    childKey taskRunId TASK_RUN_NODE_NAME SELF_CHILD_KEY ≠
      childKey runId nodeName (itemChildKey index) := by
  intro hkey
  have hitem : childKey runId nodeName (itemChildKey index) =
      runId ++ ":" ++ nodeName ++ ":" ++ "item" ++ ":" ++ toString index := by
    simp only [childKey, itemChildKey, String.append_assoc]
    rfl
  have hself : SELF_CHILD_KEY = toString index :=
    (join_inj_right (c := ':') (by decide) (separate_toString rfl index) (hkey.trans hitem)).2
  have hdollar : Separate '$' SELF_CHILD_KEY := hself ▸ separate_toString rfl index
  exact absurd hdollar (by decide)

/-- The child under the key of an item is the child of this item. -/
theorem Placed.item {n : Nat} {child : StoredNodeChild V} (h : Placed n child)
    {runId nodeName : String} {index : Nat} (hrun : Separate ':' runId)
    (hnode : Separate ':' nodeName) (hkey : childKey child.runId child.nodeName child.childKey =
      childKey runId nodeName (itemChildKey index)) :
    Minted "run" n runId ∧ child.runId = runId ∧ child.nodeName = nodeName ∧
      child.childKey = itemChildKey index := by
  obtain ⟨hminted, hchildNode⟩ | ⟨hnodeName, hchildKey⟩ := h
  · obtain ⟨rfl, rfl, hindex⟩ := childKey_inj hminted.separate hrun hchildNode hnode hkey
    exact ⟨hminted, rfl, rfl, hindex⟩
  · rw [hnodeName, hchildKey] at hkey
    exact absurd hkey childKey_task_ne

/-! ## What an operation does to an item -/

/-- The map node with this limit is a node of the stored run. -/
structure Mem.HasWindow (m : Mem V) (workflow : WorkflowImplementation) (runId nodeName : String)
    (limit : Nat) : Prop where
  run : ∃ run, m.runs.get? runId = some run ∧ run.workflowName = workflow.workflow.name
  node : ∃ node ∈ workflow.nodes, node.name = nodeName ∧ node.window? = some limit
  name : nodeName ≠ TASK_RUN_NODE_NAME

/-- At most `limit` items are at work, and they are started in the order of their positions. -/
structure Mem.WindowKept (m : Mem V) (runId nodeName : String) (limit : Nat) : Prop where
  inOrder : ∀ i j earlier child, i < j → m.item? runId nodeName i = some earlier →
    m.item? runId nodeName j = some child → child.childRunId.isSome → earlier.childRunId.isSome
  bound : ∀ indices : List Nat, indices.Nodup →
    (∀ index ∈ indices, m.ItemAtWork runId nodeName index) → indices.length ≤ limit

/-- If the item is not started, the ones before it are, and fewer than `limit` are at work. -/
structure Mem.MayOpen (m : Mem V) (runId nodeName : String) (index limit : Nat) : Prop where
  inOrder : ∀ i earlier, i < index → m.item? runId nodeName i = some earlier →
    earlier.childRunId.isSome
  bound : ∀ indices : List Nat, indices.Nodup → index ∉ indices →
    (∀ i ∈ indices, m.ItemAtWork runId nodeName i) → indices.length < limit

/-- If the operation adds children or starts a child run, it is for the task of a run, or for a node
of a minted run, with the children of a map node its items, one of which may be started. -/
def Mem.MayFan (m : Mem V) (workflow : WorkflowImplementation) : Op V → Prop
  | .store (.ensureNodeChildren runId nodeName inputs) =>
    nodeName = TASK_RUN_NODE_NAME ∧ inputs = [{ childKey := SELF_CHILD_KEY, kind := .task }] ∨
      Minted "run" m.nextId runId ∧ Separate ':' nodeName ∧
        ∀ limit, m.HasWindow workflow runId nodeName limit → AreItems inputs
  | .store (.ensureChildRun params) =>
    Minted "run" m.nextId params.runId ∧ Separate ':' params.nodeName ∧
      (∀ run, m.runs.get? params.runId = some run → params.rootRunId = run.rootRunId) ∧
      ∀ limit, m.HasWindow workflow params.runId params.nodeName limit →
        ∃ index, params.childKey = itemChildKey index ∧ ∀ child,
          m.item? params.runId params.nodeName index = some child → child.childRunId = none →
            m.MayOpen params.runId params.nodeName index limit
  | _ => True

variable [JsRuntime V]

/-- What an operation does to an item of a stored run. -/
inductive ItemStep (op : Op V) (m m' : Mem V) (runId nodeName : String) (index : Nat) : Prop
  | absent (before : m.item? runId nodeName index = none)
      (after : m'.item? runId nodeName index = none)
  | kept {child child' : StoredNodeChild V} (get : m.item? runId nodeName index = some child)
      (get' : m'.item? runId nodeName index = some child')
      (link : child'.childRunId = child.childRunId)
  | linked {params : EnsureChildRunParams V} {run : StoredRun V} {child child' : StoredNodeChild V}
      (source : op = .store (.ensureChildRun params))
      (owner : params.runId = runId ∧ params.nodeName = nodeName ∧
        params.childKey = itemChildKey index)
      (get : m.item? runId nodeName index = some child)
      (get' : m'.item? runId nodeName index = some child') (unlinked : child.childRunId = none)
      (link : child'.childRunId = some run.id) (stored : m'.runs.get? run.id = some run)
      (started : StartedFor params run)
  | added {inputs : List (EnsureNodeChildInput V)} {child' : StoredNodeChild V}
      (source : op = .store (.ensureNodeChildren runId nodeName inputs))
      (minted : Minted "run" m.nextId runId)
      (absent : ∀ index, m.item? runId nodeName index = none)
      (get' : m'.item? runId nodeName index = some child') (unlinked : child'.childRunId = none)

/-- What holds of the items of all runs of the workflow. -/
structure ItemsKept (workflow : WorkflowImplementation) (m : Mem V) : Prop where
  sound : m.Sound
  placed : m.children.All fun _ child => Placed m.nextId child
  linked : ∀ runId run nodeName index child childRunId, m.runs.get? runId = some run →
    Separate ':' nodeName → m.item? runId nodeName index = some child →
    child.childRunId = some childRunId → ∃ target, m.runs.get? childRunId = some target ∧
      target.parentRunId = some runId ∧ target.rootRunId = run.rootRunId
  items : ∀ runId nodeName limit, m.HasWindow workflow runId nodeName limit →
    ∀ key child, m.children.get? key = some child → child.runId = runId →
      child.nodeName = nodeName → child.childKey = itemChildKey child.ordinal
  windows : ∀ runId nodeName limit, m.HasWindow workflow runId nodeName limit →
    m.WindowKept runId nodeName limit

namespace ItemsKept

variable {workflow : WorkflowImplementation} {m : Mem V} {op : Op V} {runId nodeName : String}
  {index : Nat} {child : StoredNodeChild V}

omit [JsRuntime V] in
theorem placed_item (h : ItemsKept workflow m) (hrun : Separate ':' runId)
    (hnode : Separate ':' nodeName) (hget : m.item? runId nodeName index = some child) :
    Minted "run" m.nextId runId ∧ child.runId = runId ∧ child.nodeName = nodeName ∧
      child.childKey = itemChildKey index :=
  (h.placed _ child hget).item hrun hnode (h.sound.keyed.children hget)

theorem item_step (h : ItemsKept workflow m) (hop : m.MayFan workflow op)
    (hrun : Separate ':' runId) (hnode : Separate ':' nodeName) {run' : StoredRun V}
    (hstored : (m.step op).runs.get? runId = some run') (index : Nat) :
    ItemStep op m (m.step op) runId nodeName index := by
  have hchild : ChildStep op m.records (m.step op).records
      (childKey runId nodeName (itemChildKey index)) :=
    (Mem.step_effect h.sound.keyed op).child_step _
  cases hchild with
  | kept same =>
    have same : (m.step op).item? runId nodeName index = m.item? runId nodeName index := same
    cases hget : m.item? runId nodeName index with
    | none => exact .absent hget (same.trans hget)
    | some child => exact .kept hget (same.trans hget) rfl
  | changed get get' _ link => exact .kept get get' link
  | linked source owner get get' unlinked _ link stored started =>
    subst source
    obtain ⟨hminted, hname, -⟩ := hop
    obtain ⟨hrunId, hnodeName, hchildKey⟩ := childKey_inj hrun hminted.separate hnode hname owner
    exact .linked rfl ⟨hrunId.symm, hnodeName.symm, hchildKey.symm⟩ get get' unlinked link stored
      started
  | added source absent mem owner get' _ =>
    subst source
    obtain ⟨rfl, rfl⟩ | ⟨hminted, hname, -⟩ := hop
    · obtain rfl := List.mem_singleton.mp mem
      exact absurd owner.symm childKey_task_ne
    · obtain ⟨rfl, rfl, -⟩ := childKey_inj hrun hminted.separate hnode hname owner
      refine .added rfl hminted (fun i => ?_) get' rfl
      refine Option.eq_none_iff_forall_ne_some.mpr fun child hget => ?_
      obtain ⟨-, hchildRun, hchildNode, -⟩ := h.placed_item hrun hnode hget
      exact absent child (OrdMap.mem_values_of_get? hget) hchildRun hchildNode
  | @deleted ids child deletion runs get _ gone =>
    have hrunId : runId ∉ ids ∧ m.runs.get? runId = some run' := by
      have hstored : (m.records.runs.filter fun runId _ => runId ∉ ids).get? runId = some run' :=
        runs ▸ hstored
      rw [OrdMap.get?_filter, Option.filter_eq_some_iff, decide_eq_true_eq] at hstored
      exact ⟨hstored.2, hstored.1⟩
    have get : m.item? runId nodeName index = some child := get
    obtain hgone | hgone := gone
    · exact absurd ((h.placed_item hrun hnode get).2.1 ▸ hgone) hrunId.1
    · obtain ⟨childRunId, hlink, hmem⟩ := (Option.any_eq_true _ _).mp hgone
      obtain ⟨target, htarget, hparent, hroot⟩ :=
        h.linked _ _ _ _ _ _ hrunId.2 hnode get hlink
      exact absurd (deletion.mem_of_parent h.sound.keyed hrunId.2 htarget hparent hroot
        (of_decide_eq_true hmem)) hrunId.1

/-- An item that is at work after the operation was so before, if its link is kept. -/
theorem atWork_back (h : ItemsKept workflow m) (op : Op V) {run : StoredRun V}
    (hrun : m.runs.get? runId = some run) (hnode : Separate ':' nodeName)
    (hget : m.item? runId nodeName index = some child) {child' : StoredNodeChild V}
    (hlink : child'.childRunId = child.childRunId) (hwork : (m.step op).isAtWork child') :
    m.isAtWork child := by
  obtain ⟨childRunId, target', hlink', htarget', hlive⟩ := Mem.isAtWork_iff.mp hwork
  have hchildRunId := hlink.symm.trans hlink'
  obtain ⟨target, htarget, -⟩ := h.linked _ _ _ _ _ _ hrun hnode hget hchildRunId
  obtain hfresh | ⟨before, hbefore, -, -, hterminal⟩ := h.sound.run_back op htarget'
  · have hminted := (h.sound.runs _ _ htarget).2
    exact absurd (hfresh ▸ hminted) (not_minted_freshId "run" m.nextId)
  · refine Mem.isAtWork_iff.mpr ⟨childRunId, before, hchildRunId, hbefore, ?_⟩
    exact Bool.eq_false_iff.mpr fun h => by rw [hterminal h] at hlive; cases hlive

/-- Under a fresh run id there are no items. -/
theorem item_fresh (h : ItemsKept workflow m) (hop : m.MayFan workflow op)
    (hfresh : runId = freshId "run" m.nextId) (hnode : Separate ':' nodeName) {run' : StoredRun V}
    (hstored : (m.step op).runs.get? runId = some run') (index : Nat) :
    (m.step op).item? runId nodeName index = none := by
  have hrun : Separate ':' runId := hfresh ▸ separate_freshId rfl (by decide) _
  have hminted : ¬ Minted "run" m.nextId runId := hfresh ▸ not_minted_freshId "run" m.nextId
  cases h.item_step hop hrun hnode hstored index with
  | absent _ after => exact after
  | kept get _ _ => exact absurd (h.placed_item hrun hnode get).1 hminted
  | linked _ _ get _ _ _ _ _ => exact absurd (h.placed_item hrun hnode get).1 hminted
  | added _ minted _ _ _ => exact absurd minted hminted

theorem placed_step (h : ItemsKept workflow m) (hop : m.MayFan workflow op) :
    (m.step op).children.All fun _ child => Placed (m.step op).nextId child := by
  have heffect := Mem.step_effect h.sound.keyed op
  have hnext : m.nextId ≤ (m.step op).nextId := heffect.nextId_le
  intro key child' hget
  cases heffect.child_step key with
  | kept same => exact (h.placed key child' (same.symm.trans hget)).mono hnext
  | changed get get' change _ =>
    obtain rfl := Option.some.inj (get'.symm.trans hget)
    exact ((h.placed _ _ get).change change).mono hnext
  | linked _ _ get get' _ change _ _ _ =>
    obtain rfl := Option.some.inj (get'.symm.trans hget)
    exact ((h.placed _ _ get).change change).mono hnext
  | added source _ mem _ get' _ =>
    subst source
    obtain rfl := Option.some.inj (get'.symm.trans hget)
    obtain ⟨hname, hinputs⟩ | ⟨hminted, hname, -⟩ := hop
    · subst hinputs
      exact .inr ⟨hname, congrArg EnsureNodeChildInput.childKey (List.mem_singleton.mp mem)⟩
    · exact .inl ⟨hminted.mono hnext, hname⟩
  | deleted _ _ _ get' _ => cases get'.symm.trans hget

theorem linked_step (h : ItemsKept workflow m) (hop : m.MayFan workflow op) {run' : StoredRun V}
    (hrun' : (m.step op).runs.get? runId = some run') (hnode : Separate ':' nodeName)
    {child' : StoredNodeChild V} (hget : (m.step op).item? runId nodeName index = some child')
    {childRunId : String} (hlink : child'.childRunId = some childRunId) :
    ∃ target, (m.step op).runs.get? childRunId = some target ∧
      target.parentRunId = some runId ∧ target.rootRunId = run'.rootRunId := by
  obtain hfresh | ⟨run, hrun, -, hroot, -⟩ := h.sound.run_back op hrun'
  · cases (h.item_fresh hop hfresh hnode hrun' index).symm.trans hget
  · have hseparate : Separate ':' runId := (h.sound.runs _ _ hrun).2.separate
    cases h.item_step hop hseparate hnode hrun' index with
    | absent _ after => cases after.symm.trans hget
    | kept get get' link =>
      obtain rfl := Option.some.inj (get'.symm.trans hget)
      obtain ⟨target, htarget, hparent, htargetRoot⟩ :=
        h.linked _ _ _ _ _ _ hrun hnode get (link.symm.trans hlink)
      obtain ⟨target', htarget', hsame⟩ := (Mem.step_effect h.sound.keyed op).run_kept h.sound hrun
        hrun' htarget hparent htargetRoot
      have hkept : target'.parentRunId = target.parentRunId ∧
          target'.rootRunId = target.rootRunId := by
        obtain rfl | hchange := hsame
        · exact ⟨rfl, rfl⟩
        · exact ⟨(congrArg StoredRun.parentRunId hchange.same :),
            (congrArg StoredRun.rootRunId hchange.same :)⟩
      exact ⟨target', htarget', hkept.1.trans hparent,
        (hkept.2.trans htargetRoot).trans hroot.symm⟩
    | linked source owner _ get' _ link stored started =>
      subst source
      obtain rfl := Option.some.inj (get'.symm.trans hget)
      obtain rfl := Option.some.inj (link.symm.trans hlink)
      obtain ⟨rfl, -, -⟩ := owner
      refine ⟨_, stored, started.parentRunId, ?_⟩
      exact (started.rootRunId.trans (hop.2.2.1 run hrun)).trans hroot.symm
    | added _ _ _ get' unlinked =>
      obtain rfl := Option.some.inj (get'.symm.trans hget)
      cases unlinked.symm.trans hlink

theorem hasWindow_back (h : ItemsKept workflow m) (op : Op V) {limit : Nat}
    (hwindow : (m.step op).HasWindow workflow runId nodeName limit) :
    runId = freshId "run" m.nextId ∨ m.HasWindow workflow runId nodeName limit := by
  obtain ⟨run', hrun', hworkflow⟩ := hwindow.run
  refine (h.sound.run_back op hrun').imp_right ?_
  rintro ⟨run, hrun, hsame, -⟩
  exact ⟨⟨run, hrun, hsame.symm.trans hworkflow⟩, hwindow.node, hwindow.name⟩

theorem items_step (h : ItemsKept workflow m) (hop : m.MayFan workflow op) {limit : Nat}
    (hwindow : (m.step op).HasWindow workflow runId nodeName limit) {key : String}
    {child' : StoredNodeChild V} (hget : (m.step op).children.get? key = some child')
    (hrunId : child'.runId = runId) (hnodeName : child'.nodeName = nodeName) :
    child'.childKey = itemChildKey child'.ordinal := by
  have hminted (hminted : Minted "run" m.nextId runId) :
      m.HasWindow workflow runId nodeName limit := by
    obtain rfl | hbefore := h.hasWindow_back op hwindow
    · exact absurd hminted (not_minted_freshId "run" m.nextId)
    · exact hbefore
  have hbefore {child : StoredNodeChild V} (hget : m.children.get? key = some child)
      (hrunId : child.runId = runId) (hnodeName : child.nodeName = nodeName) :
      child.childKey = itemChildKey child.ordinal := by
    refine h.items _ _ _ (hminted ?_) key child hget hrunId hnodeName
    obtain ⟨hchildRun, -⟩ | ⟨htask, -⟩ := h.placed key child hget
    · exact hrunId ▸ hchildRun
    · exact absurd (hnodeName.symm.trans htask) hwindow.name
  have hchanged {child : StoredNodeChild V} (hget : m.children.get? key = some child)
      (hchange : ChildChange child child') :
      child'.childKey = itemChildKey child'.ordinal := by
    have hkey := hbefore hget (hchange.runId_eq.symm.trans hrunId)
      (hchange.nodeName_eq.symm.trans hnodeName)
    rw [hchange.same]
    exact hkey
  cases (Mem.step_effect h.sound.keyed op).child_step key with
  | kept same => exact hbefore (same.symm.trans hget) hrunId hnodeName
  | changed get get' change _ =>
    obtain rfl := Option.some.inj (get'.symm.trans hget)
    exact hchanged get change
  | linked _ _ get get' _ change _ _ _ =>
    obtain rfl := Option.some.inj (get'.symm.trans hget)
    exact hchanged get change
  | added source _ mem _ get' _ =>
    subst source
    obtain rfl := Option.some.inj (get'.symm.trans hget)
    obtain ⟨htask, -⟩ | ⟨hrun, -, hitems⟩ := hop
    · exact absurd (hnodeName.symm.trans htask) hwindow.name
    · subst hrunId hnodeName
      obtain ⟨index, hkey, hordinal⟩ := (hitems limit (hminted hrun)).key _ mem
      simp only [Mem.newChild, hkey, hordinal, Option.getD_some]
  | deleted _ _ _ get' _ => cases get'.symm.trans hget

/-- A start at its turn keeps the window. -/
theorem windows_step (h : ItemsKept workflow m) (hop : m.MayFan workflow op) {limit : Nat}
    (hwindow : (m.step op).HasWindow workflow runId nodeName limit) :
    (m.step op).WindowKept runId nodeName limit := by
  obtain ⟨run', hrun', -⟩ := hwindow.run
  have hnode : Separate ':' nodeName := by
    obtain ⟨node, hmem, rfl, -⟩ := hwindow.node
    exact workflow.name_separate hmem
  obtain hfresh | hbefore := h.hasWindow_back op hwindow
  · have hnone := h.item_fresh hop hfresh hnode hrun'
    refine ⟨fun i _ earlier _ _ hget _ _ => ?_, fun indices _ hindices => ?_⟩
    · cases (hnone i).symm.trans hget
    · cases indices with
      | nil => exact Nat.zero_le _
      | cons index _ =>
        obtain ⟨child, hget, -⟩ := hindices index List.mem_cons_self
        cases (hnone index).symm.trans hget
  · obtain ⟨run, hrun, -⟩ := hbefore.run
    have hseparate : Separate ':' runId := (h.sound.runs _ _ hrun).2.separate
    have hkept := h.windows _ _ _ hbefore
    have hstep := h.item_step hop hseparate hnode hrun'
    -- what the start of an item asks for
    have hopens {index : Nat} {params : EnsureChildRunParams V} {child : StoredNodeChild V}
        (source : op = .store (.ensureChildRun params)) (owner : params.runId = runId ∧
          params.nodeName = nodeName ∧ params.childKey = itemChildKey index)
        (get : m.item? runId nodeName index = some child) (unlinked : child.childRunId = none) :
        m.MayOpen runId nodeName index limit := by
      subst source
      obtain ⟨rfl, rfl, hkey⟩ := owner
      obtain ⟨index', hkey', hopen⟩ := hop.2.2.2 limit hbefore
      obtain rfl := itemChildKey_injective (hkey.symm.trans hkey')
      exact hopen child get unlinked
    refine ⟨fun i j earlier' child' hij hget hget' hlinked => ?_, fun indices hnodup hwork => ?_⟩
    · have hearlier {earlier : StoredNodeChild V} (hget : m.item? runId nodeName i = some earlier) :
          earlier.childRunId.isSome := by
        cases hstep j with
        | absent _ after => cases after.symm.trans hget'
        | kept get get' link =>
          obtain rfl := Option.some.inj (get'.symm.trans hget')
          exact hkept.inOrder i j _ _ hij hget get (link ▸ hlinked)
        | linked source owner get _ unlinked _ _ _ =>
          exact (hopens source owner get unlinked).inOrder i _ hij hget
        | added _ _ absent _ _ => cases (absent i).symm.trans hget
      cases hstep i with
      | absent _ after => cases after.symm.trans hget
      | kept get get' link =>
        obtain rfl := Option.some.inj (get'.symm.trans hget)
        exact link ▸ hearlier get
      | linked _ _ _ get' _ link _ _ =>
        obtain rfl := Option.some.inj (get'.symm.trans hget)
        rw [link]
        rfl
      | added source _ absent _ _ =>
        cases hstep j with
        | absent _ after => cases after.symm.trans hget'
        | kept get _ _ => cases (absent j).symm.trans get
        | linked _ _ get _ _ _ _ _ => cases (absent j).symm.trans get
        | added _ _ _ get' unlinked =>
          obtain rfl := Option.some.inj (get'.symm.trans hget')
          rw [unlinked] at hlinked
          cases hlinked
    · by_cases hall : ∀ index ∈ indices, m.ItemAtWork runId nodeName index
      · exact hkept.bound indices hnodup hall
      · rw [not_forall] at hall
        obtain ⟨index, hall⟩ := hall
        obtain ⟨hmem, hidle⟩ := Classical.not_imp.mp hall
        have hback (i : Nat) (hi : i ∈ indices) : m.ItemAtWork runId nodeName i ∨
            ∃ params child, op = .store (.ensureChildRun params) ∧ (params.runId = runId ∧
              params.nodeName = nodeName ∧ params.childKey = itemChildKey i) ∧
              m.item? runId nodeName i = some child ∧ child.childRunId = none := by
          obtain ⟨child', hget, hchild'⟩ := hwork i hi
          cases hstep i with
          | absent _ after => cases after.symm.trans hget
          | kept get get' link =>
            obtain rfl := Option.some.inj (get'.symm.trans hget)
            exact .inl ⟨_, get, h.atWork_back op hrun hnode get link hchild'⟩
          | linked source owner get _ unlinked _ _ _ =>
            exact .inr ⟨_, _, source, owner, get, unlinked⟩
          | added _ _ _ get' unlinked =>
            obtain rfl := Option.some.inj (get'.symm.trans hget)
            obtain ⟨_, _, hlink, -⟩ := Mem.isAtWork_iff.mp hchild'
            cases unlinked.symm.trans hlink
        obtain ⟨params, child, hsource, howner, hget, hunlinked⟩ :=
          (hback index hmem).resolve_left hidle
        have hlt : (indices.erase index).length < limit := by
          refine (hopens hsource howner hget hunlinked).bound _ (hnodup.erase index)
            (List.Nodup.not_mem_erase hnodup) fun i hi => ?_
          have hne : i ≠ index := fun heq => List.Nodup.not_mem_erase hnodup (heq ▸ hi)
          refine (hback i (List.mem_of_mem_erase hi)).resolve_right ?_
          rintro ⟨params', -, hsource', ⟨-, -, hkey⟩, -⟩
          obtain rfl : params = params' := by
            injection hsource.symm.trans hsource' with hsame
            injection hsame
          exact hne (itemChildKey_injective (hkey.symm.trans howner.2.2))
        rw [List.length_erase_of_mem hmem] at hlt
        omega

theorem step (h : ItemsKept workflow m) (hop : m.MayFan workflow op) :
    ItemsKept workflow (m.step op) where
  sound := h.sound.step op
  placed := h.placed_step hop
  linked _ _ _ _ _ _ hrun hnode hget hlink := h.linked_step hop hrun hnode hget hlink
  items _ _ _ hwindow _ _ hget hrunId hnodeName := h.items_step hop hwindow hget hrunId hnodeName
  windows _ _ _ hwindow := h.windows_step hop hwindow

end ItemsKept

end Neemata.Workflows
