import Neemata.Workflows.Coordinator.Housekeeping

/-!
# The contract of a pass

What a pass over a run does to the nodes and the child runs depends on what it has read and done
before. The contract tracks this as knowledge of the pass: it creates a node only when it knows all
earlier nodes to be closed, and in a map node with a limit it starts a child only when it knows the
children before to be started and fewer than the limit of them to be possibly at work. Other
coordinators can be at work on the same run at any time; what is known must stay true among them.
-/

namespace Neemata.Workflows

variable {V : Type}

/-! ## Knowledge -/

/-- The children of a node as a pass has read them, the child runs it has read, and the children it
has started itself. -/
structure ChildView (V : Type) where
  nodeName : String
  children : List (StoredNodeChild V)
  runs : List (StoredRun V) := []
  started : List String := []

namespace ChildView

def isStarted (view : ChildView V) (child : StoredNodeChild V) : Bool :=
  child.childRunId.isSome || child.childKey ∈ view.started

/-- A child with a run that was not seen to have ended. -/
def isActive (view : ChildView V) (child : StoredNodeChild V) : Bool :=
  child.childKey ∈ view.started || child.childRunId.any fun childRunId =>
    !view.runs.any fun run => run.id = childRunId && isTerminalRunStatus run.status

def Distinct (view : ChildView V) : Prop := (view.children.map StoredNodeChild.childKey).Nodup

/-- The children before this one are started, and fewer than `limit` of them can be at work. -/
def MayStart (view : ChildView V) (childKey : String) (limit : Nat) : Prop :=
  ∃ before child after, view.children = before ++ child :: after ∧ child.childKey = childKey ∧
    (∀ earlier ∈ before, view.isStarted earlier) ∧ (before.filter view.isActive).length < limit

def start (view : ChildView V) (childKey : String) : ChildView V :=
  { view with started := childKey :: view.started }

/-- These children are started, and at most `active` of them can be at work. -/
structure Opened (view : ChildView V) (children : List (StoredNodeChild V)) (active : Nat) :
    Prop where
  started : ∀ child ∈ children, view.isStarted child
  active : (children.filter view.isActive).length ≤ active

section

variable {view : ChildView V} {children : List (StoredNodeChild V)} {child : StoredNodeChild V}
  {active : Nat}

theorem opened_nil : view.Opened [] active :=
  ⟨fun _ hchild => absurd hchild List.not_mem_nil, Nat.zero_le _⟩

/-- One more child that is started. -/
theorem Opened.snoc (h : view.Opened children active) (hchild : view.isStarted child) :
    view.Opened (children ++ [child]) (active + 1) := by
  refine ⟨fun other hother => ?_, ?_⟩
  · obtain hother | hother := List.mem_append.mp hother
    · exact h.started other hother
    · exact List.mem_singleton.mp hother ▸ hchild
  · rw [List.filter_append, List.length_append]
    exact Nat.add_le_add h.active (List.length_filter_le _ _)

/-- And has ended. -/
theorem Opened.snoc_ended (h : view.Opened children active) (hchild : view.isStarted child)
    (hended : view.isActive child = false) : view.Opened (children ++ [child]) active := by
  refine ⟨(h.snoc hchild).started, ?_⟩
  rw [List.filter_append, List.length_append, List.filter_singleton, hended]
  exact h.active

/-- A start changes nothing for the children under other keys. -/
theorem Opened.start (h : view.Opened children active)
    (hfresh : child.childKey ∉ children.map StoredNodeChild.childKey) :
    (view.start child.childKey).Opened (children ++ [child]) (active + 1) := by
  have hold : (view.start child.childKey).Opened children active := by
    refine ⟨fun other hother => ?_, ?_⟩
    · have hstarted := h.started other hother
      simp only [isStarted, ChildView.start, Bool.or_eq_true, decide_eq_true_eq,
        List.mem_cons] at hstarted ⊢
      exact hstarted.imp_right .inr
    · have hsame : ∀ other ∈ children,
          (view.start child.childKey).isActive other = view.isActive other := by
        intro other hother
        have hne : other.childKey ≠ child.childKey := fun heq =>
          hfresh (heq ▸ List.mem_map_of_mem hother)
        simp only [isActive, ChildView.start, List.mem_cons, hne, false_or]
      rw [List.filter_congr hsame]
      exact h.active
  refine hold.snoc ?_
  simp only [isStarted, ChildView.start, List.mem_cons, true_or, decide_true, Bool.or_true]

theorem Opened.mayStart (h : view.Opened children active) {rest : List (StoredNodeChild V)}
    (hchildren : view.children = children ++ child :: rest) {limit : Nat}
    (hlimit : active < limit) : view.MayStart child.childKey limit :=
  ⟨children, child, rest, hchildren, rfl, h.started, h.active.trans_lt hlimit⟩

end

end ChildView

/-- The root of the run, its nodes known to be stored, those known to be terminal, and the children
that were read last. -/
structure Knowledge (V : Type) where
  rootRunId : String
  stored : List String := []
  closed : List String := []
  view : Option (ChildView V) := none

namespace Knowledge

/-- More is known, of the same children. -/
structure Extends (known known' : Knowledge V) : Prop where
  rootRunId : known'.rootRunId = known.rootRunId
  stored : known.stored ⊆ known'.stored
  closed : known.closed ⊆ known'.closed
  view : known'.view = known.view

/-- Of the nodes more is known. -/
structure Grows (known known' : Knowledge V) : Prop where
  rootRunId : known'.rootRunId = known.rootRunId
  stored : known.stored ⊆ known'.stored
  closed : known.closed ⊆ known'.closed

theorem Extends.refl (known : Knowledge V) : known.Extends known :=
  ⟨rfl, List.Subset.refl _, List.Subset.refl _, rfl⟩

theorem Grows.refl (known : Knowledge V) : known.Grows known :=
  ⟨rfl, List.Subset.refl _, List.Subset.refl _⟩

theorem Extends.grows {known known' : Knowledge V} (h : known.Extends known') :
    known.Grows known' :=
  ⟨h.rootRunId, h.stored, h.closed⟩

theorem Grows.trans {known known' known'' : Knowledge V} (h : known.Grows known')
    (h' : known'.Grows known'') : known.Grows known'' :=
  ⟨h'.rootRunId.trans h.rootRunId, List.Subset.trans h.stored h'.stored,
    List.Subset.trans h.closed h'.closed⟩

theorem Extends.trans {known known' known'' : Knowledge V} (h : known.Extends known')
    (h' : known'.Extends known'') : known.Extends known'' :=
  ⟨h'.rootRunId.trans h.rootRunId, List.Subset.trans h.stored h'.stored,
    List.Subset.trans h.closed h'.closed, h'.view.trans h.view⟩

def ofSnapshot (snapshot : RunSnapshot V) : Knowledge V :=
  let completed := (snapshot.nodes.filter fun node => node.status = .completed).map StoredNode.name
  { rootRunId := snapshot.run.rootRunId, stored := completed, closed := completed }

def store (known : Knowledge V) (nodeName : String) : Knowledge V :=
  { known with stored := nodeName :: known.stored }

/-- Only a stored node is closed by its completion. -/
def close (known : Knowledge V) (nodeName : String) : Knowledge V :=
  if nodeName ∈ known.stored then { known with closed := nodeName :: known.closed } else known

/-- The child of a task run is not looked at. -/
def look (known : Knowledge V) (nodeName : String) (children : List (StoredNodeChild V)) :
    Knowledge V :=
  if nodeName = TASK_RUN_NODE_NAME then known
  else { known with view := some { nodeName, children } }

def read (known : Knowledge V) (runs : List (StoredRun V)) : Knowledge V :=
  { known with view := known.view.map ({ · with runs }) }

def start (known : Knowledge V) (nodeName childKey : String) : Knowledge V :=
  { known with view := known.view.map fun view =>
      if view.nodeName = nodeName then view.start childKey else view }

theorem close_grows (known : Knowledge V) (nodeName : String) :
    known.Grows (known.close nodeName) := by
  unfold close
  split
  · exact ⟨rfl, List.Subset.refl _, List.subset_cons_self _ _⟩
  · exact .refl known

theorem look_task (known : Knowledge V) (children : List (StoredNodeChild V)) :
    known.look TASK_RUN_NODE_NAME children = known := if_pos rfl

theorem look_of_ne {nodeName : String} (h : nodeName ≠ TASK_RUN_NODE_NAME) (known : Knowledge V)
    (children : List (StoredNodeChild V)) :
    known.look nodeName children = { known with view := some { nodeName, children } } := if_neg h

theorem look_grows (known : Knowledge V) (nodeName : String) (children : List (StoredNodeChild V)) :
    known.Grows (known.look nodeName children) := by
  unfold look
  split
  · exact .refl known
  · exact ⟨rfl, List.Subset.refl _, List.Subset.refl _⟩

end Knowledge

/-! ## The contract -/

/-- The number of children that a map node which waits for its children lets work at a time. -/
def MapNodeImplementation.window? (node : MapNodeImplementation) : Option Nat :=
  if node.mode = .startOnly then none else node.concurrency.map Int.toNat

def WorkflowNodeImplementation.window? : WorkflowNodeImplementation → Option Nat
  | .mapTask node | .mapWorkflow node => node.window?
  | _ => none

/-- The children of a map node stand under the keys of their positions. -/
structure AreItems (inputs : List (EnsureNodeChildInput V)) : Prop where
  key : ∀ input ∈ inputs, ∃ index, input.childKey = itemChildKey index ∧ input.ordinal = some index
  distinct : (inputs.map EnsureNodeChildInput.childKey).Nodup

section

variable (runId : String) (workflow : WorkflowImplementation)

/-- All nodes before this one are known to be closed. -/
def Knowledge.MayCreate (known : Knowledge V) (nodeName : String) : Prop :=
  ∃ before node after, workflow.nodes = before ++ node :: after ∧ node.name = nodeName ∧
    ∀ earlier ∈ before, earlier.name ∈ known.closed

def Knowledge.mayStore (known : Knowledge V) : StoreOp V → Prop
  | .createNode input =>
    (StoreOp.createNode input : StoreOp V).KeepsHouse ∨
      input.runId = runId ∧ known.MayCreate workflow input.name
  | .ensureNodeChildren id nodeName children =>
    (StoreOp.ensureNodeChildren id nodeName children).KeepsHouse ∨
      id = runId ∧ ∃ node ∈ workflow.nodes, node.name = nodeName ∧
        (node.window?.isSome → AreItems children)
  | .ensureChildRun params =>
    params.runId = runId ∧ params.rootRunId = known.rootRunId ∧
      ∃ node ∈ workflow.nodes, node.name = params.nodeName ∧
        ∀ limit ∈ node.window?, node.name ≠ TASK_RUN_NODE_NAME →
          ∃ view ∈ known.view, view.nodeName = node.name ∧
            (view.Distinct → view.MayStart params.childKey limit)
  | .completeNode _ _ _ => True
  | op => op.KeepsHouse

def Knowledge.mayPerform (known : Knowledge V) : PassOp V → Prop
  | .store op => known.mayStore runId workflow op
  | _ => True

def Knowledge.next (known : Knowledge V) : (op : PassOp V) → op.Ret → Knowledge V
  | .store (.createNode input), .ok _ =>
    if input.runId = runId then known.store input.name else known
  | .store (.completeNode id nodeName _), .ok _ =>
    if id = runId then known.close nodeName else known
  | .store (.ensureNodeChildren id nodeName _), .ok (children, _) =>
    if id = runId then known.look nodeName children else known
  | .store (.loadNodeChildren id nodeName), .ok (children, _) =>
    if id = runId then known.look nodeName children else known
  | .store (.loadRuns _), .ok runs => known.read runs
  | .store (.ensureChildRun params), .ok _ => known.start params.nodeName params.childKey
  | _, _ => known

/-- The contract of a pass over the run once it has read it. -/
def contract : Program.Protocol (PassOp.Ret (V := V)) (Knowledge V) where
  allowed := Knowledge.mayPerform runId workflow
  advance := Knowledge.next runId
  mayHalt _ := True

end

/-! ## Passes that keep to it -/

section

variable {runId : String} {workflow : WorkflowImplementation} {known : Knowledge V} {α β : Type}

theorem PassOp.KeepsHouse.mayPerform {op : PassOp V} (h : op.KeepsHouse) (known : Knowledge V) :
    known.mayPerform runId workflow op := by
  cases op with
  | executor | callback | dateNow => trivial
  | store op =>
    cases op with
    | createNode | ensureNodeChildren => exact .inl h
    | ensureChildRun | completeNode => exact h.elim
    | _ => exact h

theorem Knowledge.next_quiet (known : Knowledge V) {op : PassOp V} (h : op.IsQuiet)
    (answer : op.Ret) : known.Extends (known.next runId op answer) := by
  cases op with
  | executor | callback | dateNow => exact .refl known
  | store op =>
    cases op with
    | createNode input =>
      cases answer with
      | error error => exact .refl known
      | ok node =>
        change known.Extends (if input.runId = runId then known.store input.name else known)
        split
        · exact ⟨rfl, List.subset_cons_self _ _, List.Subset.refl _, rfl⟩
        · exact .refl known
    | ensureNodeChildren id nodeName children =>
      cases answer with
      | error error => exact .refl known
      | ok ensured =>
        change known.Extends (if id = runId then known.look nodeName ensured.1 else known)
        rw [h.1, Knowledge.look_task, ite_self]
        exact .refl known
    | loadNodeChildren | loadRuns | completeNode | ensureChildRun => exact h.elim
    | _ => exact .refl known

theorem Knowledge.next_keepsHouse (known : Knowledge V) {op : PassOp V} (h : op.KeepsHouse)
    (answer : op.Ret) : known.Grows (known.next runId op answer) := by
  have hgrows (hquiet : op.IsQuiet) : known.Grows (known.next runId op answer) :=
    (known.next_quiet hquiet answer).grows
  cases op with
  | executor | callback | dateNow => exact .refl known
  | store op =>
    cases op with
    | loadNodeChildren id nodeName =>
      cases answer with
      | error error => exact .refl known
      | ok loaded =>
        change known.Grows (if id = runId then known.look nodeName loaded.1 else known)
        split
        · exact known.look_grows nodeName _
        · exact .refl known
    | loadRuns runIds =>
      cases answer with
      | error error => exact .refl known
      | ok runs => exact ⟨rfl, List.Subset.refl _, List.Subset.refl _⟩
    | _ => exact hgrows h

/-- Only `createNode` and `completeNode` teach something of the nodes. -/
theorem Knowledge.next_nodes (known : Knowledge V) (runId : String) {op : StoreOp V}
    (hcreate : ∀ input, op ≠ .createNode input)
    (hcomplete : ∀ runId nodeName output, op ≠ .completeNode runId nodeName output)
    (answer : (PassOp.store op).Ret) :
    (known.next runId (.store op) answer).stored = known.stored ∧
      (known.next runId (.store op) answer).closed = known.closed := by
  have hlook (id nodeName : String) (children : List (StoredNodeChild V)) :
      (if id = runId then known.look nodeName children else known).stored = known.stored ∧
        (if id = runId then known.look nodeName children else known).closed = known.closed := by
    unfold Knowledge.look
    split
    · split <;> exact ⟨rfl, rfl⟩
    · exact ⟨rfl, rfl⟩
  cases op with
  | createNode input => exact absurd rfl (hcreate input)
  | completeNode runId nodeName output => exact absurd rfl (hcomplete runId nodeName output)
  | ensureNodeChildren id nodeName children =>
    cases answer with
    | error error => exact ⟨rfl, rfl⟩
    | ok ensured => exact hlook id nodeName ensured.1
  | loadNodeChildren id nodeName =>
    cases answer with
    | error error => exact ⟨rfl, rfl⟩
    | ok loaded => exact hlook id nodeName loaded.1
  | loadRuns | ensureChildRun => cases answer <;> exact ⟨rfl, rfl⟩
  | _ => exact ⟨rfl, rfl⟩

theorem Knowledge.next_error (known : Knowledge V) (op : StoreOp V) (error : Thrown V) :
    known.next runId (.store op) (.error error) = known := by
  cases op <;> rfl

/-- From what is known on, the pass keeps to the contract, and with its result it knows `R`. -/
def Does (runId : String) (workflow : WorkflowImplementation) (known : Knowledge V)
    (pass : Pass V α) (R : Knowledge V → α → Prop) : Prop :=
  Program.Obeys (contract runId workflow) known pass fun known' result =>
    ∀ value, result = .ok value → R known' value

variable {R : Knowledge V → α → Prop} {R' : Knowledge V → β → Prop}

namespace Does

theorem pure {value : α} (h : R known value) :
    Does runId workflow known (Pure.pure value : Pass V α) R := by
  refine Program.obeys_pure ?_
  rintro _ ⟨⟩
  exact h

theorem throw (error : Thrown V) : Does runId workflow known (throw error : Pass V α) R :=
  Program.obeys_throw nofun

theorem mono {pass : Pass V α} {Q : Knowledge V → α → Prop} (h : Does runId workflow known pass Q)
    (hmono : ∀ known' value, Q known' value → R known' value) :
    Does runId workflow known pass R :=
  Program.Obeys.mono h fun known' _ hresult value hvalue =>
    hmono known' value (hresult value hvalue)

theorem bind {pass : Pass V α} {f : α → Pass V β} (h : Does runId workflow known pass R)
    (hf : ∀ known' value, R known' value → Does runId workflow known' (f value) R') :
    Does runId workflow known (pass >>= f) R' :=
  Program.Obeys.bind h (fun known' value hvalue => hf known' value (hvalue value rfl))
    fun _ _ _ => nofun

theorem quiet {pass : Pass V α} (h : Quiet pass) :
    Does runId workflow known pass fun known' _ => known.Extends known' := by
  refine Program.Obeys.mono (Program.Only.keeps (P := contract runId workflow)
    (I := fun known' => known.Extends known') h ?_ (fun _ _ => trivial) (.refl known))
    fun _ _ hextends _ _ => hextends
  exact fun known' op hextends hop => ⟨hop.keepsHouse.mayPerform _, fun answer =>
    hextends.trans (known'.next_quiet hop answer)⟩

theorem keepsHouse {pass : Pass V α} (h : KeepsHouse pass) :
    Does runId workflow known pass fun known' _ => known.Grows known' := by
  refine Program.Obeys.mono (Program.Only.keeps (P := contract runId workflow)
    (I := fun known' => known.Grows known') h ?_ (fun _ _ => trivial) (.refl known))
    fun _ _ hgrows _ _ => hgrows
  exact fun known' op hgrows hop => ⟨hop.mayPerform _, fun answer =>
    hgrows.trans (known'.next_keepsHouse hop answer)⟩

/-- Whatever a pass does after its housekeeping, of the nodes nothing is forgotten. -/
theorem house {pass : Pass V α} {f : α → Pass V β} (h : KeepsHouse pass)
    (hf : ∀ known' value, known.Grows known' → Does runId workflow known' (f value) R') :
    Does runId workflow known (pass >>= f) R' :=
  (keepsHouse h).bind hf

theorem quietly {pass : Pass V α} {f : α → Pass V β} (h : Quiet pass)
    (hf : ∀ known' value, known.Extends known' → Does runId workflow known' (f value) R') :
    Does runId workflow known (pass >>= f) R' :=
  (quiet h).bind hf

/-- Housekeeping ends a pass from which nothing more is asked. -/
theorem ends {pass : Pass V α} (h : KeepsHouse pass) :
    Does runId workflow known pass fun _ _ => True :=
  (keepsHouse h).mono fun _ _ _ => trivial

end Does

/-- An operation of the fenced store: the renewal before it teaches nothing. -/
theorem BehindLease.does {store : WorkflowStore V} (h : BehindLease store) {op : StoreOp V}
    {R : Knowledge V → op.Ret → Prop} (hallowed : known.mayStore runId workflow op)
    (hanswer : ∀ answer, R (known.next runId (.store op) (.ok answer)) answer) :
    Does runId workflow known (store op) R := by
  have hperform : Does runId workflow known (workflowStore op) R := by
    refine ⟨hallowed, ?_⟩
    rintro _ answer rfl
    exact hanswer answer
  obtain ⟨lease, leaseMs, rfl⟩ := h
  unfold createRunLeaseFencedStore
  split
  · have hrenew : Does runId workflow known (workflowStore (.renewRunLease lease leaseMs))
        fun known' _ => known' = known :=
      ⟨trivial, fun _ _ _ => rfl⟩
    refine hrenew.bind ?_
    rintro _ renewedLease rfl
    cases renewedLease with
    | none => exact .throw _
    | some _ => exact hperform
  · exact hperform

end

end Neemata.Workflows
