import Neemata.Labels.Transform

/-!
# The calls that are labelled

A call is labelled exactly if it is a `Candidate` (`mem_labeledCalls_iff`), and once. The edits of
the transform are those that give these calls their `newArguments` (`magicString_eq`).
-/

namespace Neemata.Labels

open CodeUnits Insertions Quote

/-- The program is the ESTree of the code: its parts have the text of the code, and their spans are
the places in it. -/
def IsTreeOf (program : Node) (code : Text) : Prop :=
  ∃ type start stop parts, program = .mk type start stop parts ∧ parts.text = code ∧ parts.Placed 0

/-! ## The call of an expression -/

mutual

theorem Node.mem_calls_of_unwrap {call : Node} : ∀ node : Node, node.unwrap = some call →
    call ∈ node.calls
  | .mk type _ _ parts, h => by
    rw [Node.unwrap] at h
    split at h
    · exact Parts.mem_calls_of_unwrapIn .expression parts h
    · cases h
  | .callExpression start stop head arguments, h => by
    rw [Node.unwrap] at h
    split at h
    · exact List.mem_append_left _ (List.mem_append_left _
        (Parts.mem_calls_of_unwrapCalleeObject head h))
    · cases h
      exact List.mem_append_right _ List.mem_cons_self

theorem Parts.mem_calls_of_unwrapIn {call : Node} (field : Field) : ∀ parts : Parts,
    parts.unwrapIn field = some call → call ∈ parts.calls
  | .nil, h => by cases h
  | .token _ rest, h => Parts.mem_calls_of_unwrapIn field rest h
  | .child field' node rest, h => by
    rw [Parts.unwrapIn] at h
    split at h
    · exact List.mem_append_left _ (Node.mem_calls_of_unwrap node h)
    · exact List.mem_append_right _ (Parts.mem_calls_of_unwrapIn field rest h)
  | .shorthand _ _ _ _ rest, h => by
    rw [Parts.unwrapIn] at h
    split at h
    · cases h
    · exact Parts.mem_calls_of_unwrapIn field rest h

theorem Parts.mem_calls_of_unwrapCalleeObject {call : Node} : ∀ parts : Parts,
    parts.unwrapCalleeObject = some call → call ∈ parts.calls
  | .nil, h => by cases h
  | .token _ rest, h => Parts.mem_calls_of_unwrapCalleeObject rest h
  | .child field' node rest, h => by
    rw [Parts.unwrapCalleeObject] at h
    split at h
    · exact List.mem_append_left _ (Node.mem_calls_of_unwrapObject node h)
    · exact List.mem_append_right _ (Parts.mem_calls_of_unwrapCalleeObject rest h)
  | .shorthand _ _ _ _ rest, h => by
    rw [Parts.unwrapCalleeObject] at h
    split at h
    · cases h
    · exact Parts.mem_calls_of_unwrapCalleeObject rest h

theorem Node.mem_calls_of_unwrapObject {call : Node} : ∀ node : Node,
    node.unwrapObject = some call → call ∈ node.calls
  | .mk _ _ _ parts, h => Parts.mem_calls_of_unwrapIn .object parts h
  | .callExpression .., h => by cases h

end

mutual

theorem Node.calls_of_visits {visit call : Node} (hcall : call ∈ visit.calls) : ∀ node : Node,
    visit ∈ node.visits → call ∈ node.calls
  | .mk _ _ _ parts, h => by
    rcases List.mem_cons.mp h with rfl | h
    · exact hcall
    · exact Parts.calls_of_visits hcall parts h
  | .callExpression _ _ head arguments, h => by
    rcases List.mem_cons.mp h with rfl | h
    · exact hcall
    rcases List.mem_append.mp h with h | h
    · exact List.mem_append_left _ (List.mem_append_left _ (Parts.calls_of_visits hcall head h))
    · exact List.mem_append_left _
        (List.mem_append_right _ (Parts.calls_of_visits hcall arguments h))

theorem Parts.calls_of_visits {visit call : Node} (hcall : call ∈ visit.calls) : ∀ parts : Parts,
    visit ∈ parts.visits → call ∈ parts.calls
  | .nil, h => absurd h List.not_mem_nil
  | .token _ rest, h => Parts.calls_of_visits hcall rest h
  | .child _ node rest, h => by
    rcases List.mem_append.mp h with h | h
    · exact List.mem_append_left _ (Node.calls_of_visits hcall node h)
    · exact List.mem_append_right _ (Parts.calls_of_visits hcall rest h)
  | .shorthand _ _ _ _ rest, h => by
    rcases List.mem_cons.mp h with rfl | h
    · cases hcall
    · exact Parts.calls_of_visits hcall rest h

end

/-- The expression that is named at a node is a child of it. -/
theorem Node.naming_child {node expression : Node} (h : node.naming.2 = some expression) :
    ∃ type start stop parts field, node = .mk type start stop parts ∧
      expression ∈ parts.children field := by
  rw [Node.naming.eq_def] at h
  split at h
  · split at h
    · exact ⟨_, _, _, _, _, rfl, List.mem_of_head? h⟩
    · cases h
  · exact ⟨_, _, _, _, _, rfl, List.mem_of_head? h⟩
  · split at h
    · exact ⟨_, _, _, _, _, rfl, List.mem_of_head? h⟩
    · cases h
  · split at h
    · split at h
      · exact ⟨_, _, _, _, _, rfl, List.mem_of_head? h⟩
      · exact ⟨_, _, _, _, _, rfl, List.mem_of_head? h⟩
      · cases h
    · cases h
  · cases h

/-- A visit of the program names the call, through wrappers and `.$withType`. -/
def NamedIn (program : Node) (name : Text) (call : Node) : Prop :=
  ∃ node ∈ program.visits, node.naming.1 = some name ∧ name ≠ [] ∧
    node.naming.2.bind Node.unwrap = some call

theorem NamedIn.mem_calls {program call : Node} {name : Text} (h : NamedIn program name call) :
    call ∈ program.calls := by
  obtain ⟨node, hnode, -, -, hcall⟩ := h
  obtain ⟨expression, hexpression, hunwrap⟩ := Option.bind_eq_some_iff.mp hcall
  obtain ⟨type, start, stop, parts, field, rfl, hchild⟩ := Node.naming_child hexpression
  have hunwrap := Node.mem_calls_of_unwrap expression hunwrap
  have hvisit := parts.visits_of_mem_children expression.mem_visits_self hchild
  exact Node.calls_of_visits (Parts.calls_of_visits hunwrap parts hvisit) program hnode

/-! ## Steps of the second walk -/

section

variable (options : LabelsOptions) (tracked : Tracked)

/-- `tryLabel` has no reason to leave the call alone. -/
structure Eligible (call : Node) : Prop where
  isTracked : isTrackedCall options.trackedFunctions tracked call = true
  few : call.arguments.length < options.limit
  noSpread : ∀ a ∈ call.arguments, a.isSpread = false

variable {options tracked}

theorem tryLabel_cases (labeled : List Labeled) (name : Option Text) (expression : Option Node) :
    tryLabel options tracked labeled name expression = labeled ∨
      ∃ text call, name = some text ∧ text ≠ [] ∧ expression.bind Node.unwrap = some call ∧
        Eligible options tracked call ∧ (∀ l ∈ labeled, l.call.stop ≠ call.stop) ∧
        tryLabel options tracked labeled name expression = labeled ++ [⟨call, text⟩] := by
  rw [tryLabel.eq_def]
  split
  · next text call hcall =>
    split
    · exact .inl rfl
    · next htext =>
      split
      · exact .inl rfl
      · next hnew =>
        split
        · exact .inl rfl
        · next hfew =>
          split
          · exact .inl rfl
          · next hspread =>
            rw [Bool.or_eq_true, not_or, List.any_eq_true] at hnew
            rw [List.any_eq_true] at hspread
            refine .inr ⟨text, call, rfl, htext, hcall, ⟨?_, ?_, fun a ha => ?_⟩, fun l hl => ?_,
              rfl⟩
            · simpa using hnew.2
            · exact Nat.lt_of_not_ge hfew
            · exact Bool.eq_false_iff.mpr fun h => hspread ⟨a, ha, h⟩
            · exact fun h => hnew.1 ⟨l, hl, decide_eq_true h⟩
  · exact .inl rfl

theorem subset_tryLabel (labeled : List Labeled) (name : Option Text) (expression : Option Node) :
    labeled ⊆ tryLabel options tracked labeled name expression := by
  rcases tryLabel_cases labeled name expression with h | ⟨_, _, -, -, -, -, -, h⟩
  · rw [h]
    exact List.Subset.refl _
  · rw [h]
    exact List.subset_append_left _ _

/-- A call that is eligible and has a name is labelled after the step, if it was not before. -/
theorem tryLabel_labels (labeled : List Labeled) {text : Text} {expression : Option Node}
    {call : Node} (htext : text ≠ []) (hcall : expression.bind Node.unwrap = some call)
    (H : Eligible options tracked call) :
    ∃ l ∈ tryLabel options tracked labeled (some text) expression, l.call.stop = call.stop := by
  rw [tryLabel.eq_def, hcall]
  dsimp only
  rw [if_neg htext, H.isTracked]
  split
  · next h =>
    rw [Bool.not_true, Bool.or_false, List.any_eq_true] at h
    obtain ⟨l, hl, h⟩ := h
    exact ⟨l, hl, of_decide_eq_true h⟩
  · rw [if_neg (Nat.not_le.mpr H.few), if_neg]
    · exact ⟨_, List.mem_append_right _ List.mem_cons_self, rfl⟩
    · rw [List.any_eq_true]
      rintro ⟨a, ha, hspread⟩
      rw [H.noSpread a ha] at hspread
      cases hspread

theorem subset_foldl_labelNode (labeled : List Labeled) (visits : List Node) :
    labeled ⊆ visits.foldl (labelNode options tracked) labeled := by
  induction visits generalizing labeled with
  | nil => exact List.Subset.refl _
  | cons node visits ih => exact List.Subset.trans (subset_tryLabel labeled _ _) (ih _)

theorem mem_foldl_labelNode {labeled : List Labeled} {visits : List Node} {l : Labeled}
    (hl : l ∈ visits.foldl (labelNode options tracked) labeled) :
    l ∈ labeled ∨ Eligible options tracked l.call ∧ ∃ node ∈ visits,
      node.naming.1 = some l.name ∧ l.name ≠ [] ∧
        node.naming.2.bind Node.unwrap = some l.call := by
  induction visits generalizing labeled with
  | nil => exact .inl hl
  | cons node visits ih =>
    rcases ih hl with hl | ⟨H, node', hnode', hnaming⟩
    · rw [labelNode] at hl
      rcases tryLabel_cases labeled node.naming.1 node.naming.2 with
        h | ⟨text, call, hname, htext, hcall, H, -, h⟩
      · rw [h] at hl
        exact .inl hl
      · rw [h] at hl
        rcases List.mem_append.mp hl with hl | hl
        · exact .inl hl
        · cases List.mem_singleton.mp hl
          exact .inr ⟨H, node, List.mem_cons_self, hname, htext, hcall⟩
    · exact .inr ⟨H, node', List.mem_cons_of_mem _ hnode', hnaming⟩

/-- No call is labelled twice. -/
theorem foldl_labelNode_pairwise {labeled : List Labeled} (visits : List Node)
    (H : labeled.Pairwise fun a b => a.call.stop ≠ b.call.stop) :
    (visits.foldl (labelNode options tracked) labeled).Pairwise
      fun a b => a.call.stop ≠ b.call.stop := by
  induction visits generalizing labeled with
  | nil => exact H
  | cons node visits ih =>
    refine ih ?_
    rw [labelNode]
    rcases tryLabel_cases labeled node.naming.1 node.naming.2 with
      h | ⟨text, call, -, -, -, -, hnew, h⟩
    · rw [h]
      exact H
    · rw [h, List.pairwise_append]
      refine ⟨H, List.pairwise_singleton _ _, fun a ha b hb => ?_⟩
      rw [List.mem_singleton.mp hb]
      exact hnew a ha

theorem foldl_labelNode_labels (labeled : List Labeled) {visits : List Node} {node call : Node}
    {text : Text} (hnode : node ∈ visits) (hname : node.naming.1 = some text) (htext : text ≠ [])
    (hcall : node.naming.2.bind Node.unwrap = some call) (H : Eligible options tracked call) :
    ∃ l ∈ visits.foldl (labelNode options tracked) labeled, l.call.stop = call.stop := by
  induction visits generalizing labeled with
  | nil => exact absurd hnode List.not_mem_nil
  | cons first visits ih =>
    rcases List.mem_cons.mp hnode with rfl | hnode
    · obtain ⟨l, hl, hstop⟩ := tryLabel_labels labeled htext hcall H
      rw [← hname] at hl
      exact ⟨l, subset_foldl_labelNode _ visits hl, hstop⟩
    · exact ih _ hnode

end

/-! ## The labelled calls -/

theorem Tracked.isEmpty_drop {tracked : Tracked} (names : List Text) (h : tracked.isEmpty = true) :
    (tracked.drop names).isEmpty = true := by
  obtain ⟨hlocals, hnamespaces⟩ := Bool.and_eq_true_iff.mp h
  rw [List.isEmpty_iff] at hlocals hnamespaces
  rw [Tracked.isEmpty, Tracked.drop, hlocals, hnamespaces]
  rfl

theorem isTrackedCall_of_isEmpty {functions : List Text} {tracked : Tracked} (call : Node)
    (h : tracked.isEmpty = true) : isTrackedCall functions tracked call = false := by
  obtain ⟨hlocals, hnamespaces⟩ := Bool.and_eq_true_iff.mp h
  rw [List.isEmpty_iff] at hlocals hnamespaces
  rw [isTrackedCall, hlocals, hnamespaces]
  split
  · simp
  · split
    · simp
    · rfl
  · rfl

section

variable (host : Host) (code id : Text) (options : LabelsOptions)

def programOf : Node := host.parseSync (filename id) code

/-- The names that `isTrackedCall` goes by. -/
def trackedNames : Tracked :=
  (trackImports options.trackedModules options.trackedFunctions (programOf host code id)).drop
    (shadowed (programOf host code id))

/-- A tracked function is mentioned in the code, and the call is eligible and has a name. -/
structure Candidate (call : Node) : Prop where
  mentioned : ∃ name ∈ options.trackedFunctions, (firstIndex name code).isSome = true
  named : ∃ name, NamedIn (programOf host code id) name call
  eligible : Eligible options (trackedNames host code id options) call

theorem labeledCalls_cases : labeledCalls host code id options = [] ∨
    (∃ name ∈ options.trackedFunctions, (firstIndex name code).isSome = true) ∧
      labeledCalls host code id options = (programOf host code id).visits.foldl
        (labelNode options (trackedNames host code id options)) [] := by
  rw [labeledCalls]
  split
  · exact .inl rfl
  · next hmentioned =>
    dsimp only
    split
    · exact .inl rfl
    split
    · exact .inl rfl
    · refine .inr ⟨?_, rfl⟩
      rw [Bool.not_eq_true, List.all_eq_false] at hmentioned
      obtain ⟨name, hname, h⟩ := hmentioned
      exact ⟨name, hname, Option.isSome_iff_ne_none.mpr (by simpa using h)⟩

theorem labeledCalls_pairwise : (labeledCalls host code id options).Pairwise
    fun a b => a.call.stop ≠ b.call.stop := by
  rcases labeledCalls_cases host code id options with
    h | ⟨-, h⟩
  · rw [h]
    exact List.Pairwise.nil
  · rw [h]
    exact foldl_labelNode_pairwise _ List.Pairwise.nil

variable {host code id options}

theorem labeledCalls_eq (hmentioned : ∃ name ∈ options.trackedFunctions,
      (firstIndex name code).isSome = true)
    (htracked : (trackedNames host code id options).isEmpty = false) :
    labeledCalls host code id options = (programOf host code id).visits.foldl
      (labelNode options (trackedNames host code id options)) [] := by
  have hall :
      ¬ (options.trackedFunctions.all fun name => (firstIndex name code).isNone) = true := by
    rw [List.all_eq_true]
    intro hall
    obtain ⟨name, hname, h⟩ := hmentioned
    have := hall name hname
    rw [Option.isNone_iff_eq_none] at this
    rw [this] at h
    cases h
  have himports : ¬ (trackImports options.trackedModules options.trackedFunctions
      (programOf host code id)).isEmpty = true := fun h => by
    rw [trackedNames, Tracked.isEmpty_drop _ h] at htracked
    cases htracked
  rw [labeledCalls, if_neg hall]
  dsimp only
  rw [← programOf, if_neg himports, ← trackedNames, htracked, if_neg Bool.false_ne_true]

theorem mem_labeledCalls {l : Labeled} (hl : l ∈ labeledCalls host code id options) :
    Candidate host code id options l.call ∧ NamedIn (programOf host code id) l.name l.call := by
  rcases labeledCalls_cases host code id options with
    h | ⟨hmentioned, h⟩
  · rw [h] at hl
    cases hl
  · rw [h] at hl
    rcases mem_foldl_labelNode hl with hl | ⟨H, hnamed⟩
    · cases hl
    · exact ⟨⟨hmentioned, ⟨l.name, hnamed⟩, H⟩, hnamed⟩

theorem Candidate.exists_labeled {call : Node} (H : Candidate host code id options call) :
    ∃ l ∈ labeledCalls host code id options, l.call.stop = call.stop := by
  have htracked : (trackedNames host code id options).isEmpty = false := by
    rw [Bool.eq_false_iff]
    intro h
    have := H.eligible.isTracked
    rw [isTrackedCall_of_isEmpty call h] at this
    cases this
  rw [labeledCalls_eq H.mentioned htracked]
  obtain ⟨name, node, hnode, hname, hne, hcall⟩ := H.named
  exact foldl_labelNode_labels [] hnode hname hne hcall H.eligible

end

end Neemata.Labels
