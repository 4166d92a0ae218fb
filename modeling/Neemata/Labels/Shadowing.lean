import Neemata.Labels.Transform
import Neemata.Labels.Scoping

/-!
# What the shadowing walk drops

The walk looks at some of the forms that bind a name (`Form.isWalked`). The names that these bind
around a node are dropped (`Node.scoped_dropped`), and with them further ones: it drops every
identifier of a pattern, also those in defaults and property keys, and in the whole module.
-/

namespace Neemata.Labels

open CodeUnits

/-- The forms whose names the walk drops. -/
def Form.isWalked : Form → Bool
  | .variable | .function | .class_ | .expressionParameter => true
  | .declarationParameter | .catchParameter | .functionExpression | .classExpression
  | .typeScript => false

theorem Parts.mem_children_of_child? {field : Field} {parts : Parts} {node : Node}
    (h : parts.child? field = some node) : node ∈ parts.children field :=
  List.mem_of_head? h

theorem Node.mem_identifiers {name : Text} {start stop : Nat} {parts : Parts} {node : Node}
    (h : .mk (.identifier name) start stop parts ∈ node.visits) : name ∈ node.identifiers :=
  List.mem_filterMap.mpr ⟨_, h, rfl⟩

/-! ## Declared names are dropped -/

mutual

theorem Node.patternNames_identifiers {name : Text} : ∀ node : Node, name ∈ node.patternNames →
    ∃ start stop parts, .mk (.identifier name) start stop parts ∈ node.visits
  | .callExpression .., h => by cases h
  | .mk type start stop parts, h => by
    have hparts : ∀ field, name ∈ parts.patternNamesIn field →
        ∃ start' stop' parts', .mk (.identifier name) start' stop' parts' ∈
          (Node.mk type start stop parts).visits := fun field h => by
      obtain ⟨start', stop', parts', h⟩ := Parts.patternNames_identifiers field parts h
      exact ⟨start', stop', parts', List.mem_cons_of_mem _ h⟩
    rw [Node.patternNames.eq_def] at h
    dsimp only at h
    split at h
    · rw [List.mem_singleton.mp h]
      exact ⟨start, stop, parts, List.mem_cons_self⟩
    · exact hparts _ h
    · exact hparts _ h
    · exact hparts _ h
    · exact hparts _ h
    · exact hparts _ h
    · exact hparts _ h
    · cases h

theorem Parts.patternNames_identifiers {name : Text} (field : Field) : ∀ parts : Parts,
    name ∈ parts.patternNamesIn field →
    ∃ start stop parts', .mk (.identifier name) start stop parts' ∈ parts.visits
  | .nil, h => by cases h
  | .token _ rest, h => Parts.patternNames_identifiers field rest h
  | .child field' node rest, h => by
    have hrest : name ∈ rest.patternNamesIn field →
        ∃ start stop parts', .mk (.identifier name) start stop parts' ∈
          (Parts.child field' node rest).visits := fun h => by
      obtain ⟨start, stop, parts', h⟩ := Parts.patternNames_identifiers field rest h
      exact ⟨start, stop, parts', List.mem_append_right _ h⟩
    rw [Parts.patternNamesIn] at h
    split at h
    · rcases List.mem_append.mp h with h | h
      · obtain ⟨start, stop, parts', h⟩ := Node.patternNames_identifiers node h
        exact ⟨start, stop, parts', List.mem_append_left _ h⟩
      · exact hrest h
    · exact hrest h
  | .shorthand field' start stop name' rest, h => by
    have hrest : name ∈ rest.patternNamesIn field →
        ∃ start' stop' parts', .mk (.identifier name) start' stop' parts' ∈
          (Parts.shorthand field' start stop name' rest).visits := fun h => by
      obtain ⟨start', stop', parts', h⟩ := Parts.patternNames_identifiers field rest h
      exact ⟨start', stop', parts', List.mem_cons_of_mem _ h⟩
    rw [Parts.patternNamesIn] at h
    split at h
    · rcases List.mem_cons.mp h with rfl | h
      · exact ⟨start, stop, .nil, List.mem_cons_self⟩
      · exact hrest h
    · exact hrest h

end

theorem Node.mem_identifiers_of_patternNames {name : Text} {node : Node}
    (h : name ∈ node.patternNames) : name ∈ node.identifiers := by
  obtain ⟨start, stop, parts, h⟩ := node.patternNames_identifiers h
  exact Node.mem_identifiers h

/-- The names that the walk drops at the nodes of a part of the module. -/
def Parts.shadowed (parts : Parts) : List Text := parts.visits.flatMap Node.dropped

theorem mem_shadowed_of_child {field : Field} {parts : Parts} {node : Node} {name : Text}
    (hnode : node ∈ parts.children field) (h : name ∈ shadowed node) : name ∈ parts.shadowed := by
  obtain ⟨visit, hvisit, h⟩ := List.mem_flatMap.mp h
  exact List.mem_flatMap.mpr ⟨visit, parts.visits_of_mem_children hvisit hnode, h⟩

theorem mem_shadowed_self {node : Node} {name : Text} (h : name ∈ node.dropped) :
    name ∈ shadowed node :=
  List.mem_flatMap.mpr ⟨node, node.mem_visits_self, h⟩

theorem mem_shadowed_mk {type : NodeType} {start stop : Nat} {parts : Parts} {name : Text} :
    name ∈ shadowed (.mk type start stop parts) ↔
      name ∈ (Node.mk type start stop parts).dropped ∨ name ∈ parts.shadowed := by
  rw [shadowed, Node.visits, List.flatMap_cons, List.mem_append]
  rfl

theorem shadowed_callExpression (start stop : Nat) (head arguments : Parts) :
    shadowed (.callExpression start stop head arguments) =
      head.shadowed ++ arguments.shadowed := by
  rw [shadowed, Node.visits, List.flatMap_cons, List.flatMap_append]
  rfl

theorem Parts.shadowed_child (field : Field) (node : Node) (rest : Parts) :
    (Parts.child field node rest).shadowed = Labels.shadowed node ++ rest.shadowed :=
  List.flatMap_append

theorem Node.declaratorNames_dropped {node : Node} {name : Text}
    (h : name ∈ node.declaratorNames) : name ∈ node.dropped := by
  unfold Node.declaratorNames at h
  split at h
  · obtain ⟨id, hid, h⟩ := List.mem_flatMap.mp h
    exact List.mem_flatMap.mpr ⟨id, hid, Node.mem_identifiers_of_patternNames h⟩
  · cases h

theorem declarations_shadowed {parts : Parts} {name : Text}
    (h : name ∈ (parts.children .declarations).flatMap Node.declaratorNames) :
    name ∈ parts.shadowed := by
  obtain ⟨declarator, hdeclarator, h⟩ := List.mem_flatMap.mp h
  exact mem_shadowed_of_child hdeclarator (mem_shadowed_self (Node.declaratorNames_dropped h))

mutual

theorem Node.varNames_shadowed {name : Text} : ∀ node : Node, name ∈ node.varNames →
    name ∈ shadowed node
  | .callExpression start stop head arguments, h => by
    rw [shadowed_callExpression, List.mem_append]
    rcases List.mem_append.mp h with h | h
    · exact .inl (Parts.varNames_shadowed head h)
    · exact .inr (Parts.varNames_shadowed arguments h)
  | .mk type start stop parts, h => by
    rw [mem_shadowed_mk]
    rw [Node.varNames.eq_def] at h
    dsimp only at h
    split at h
    · cases h
    · cases h
    · cases h
    · cases h
    · cases h
    · rcases List.mem_append.mp h with h | h
      · exact .inr (declarations_shadowed h)
      · exact .inr (Parts.varNames_shadowed parts h)
    · exact .inr (Parts.varNames_shadowed parts h)

theorem Parts.varNames_shadowed {name : Text} : ∀ parts : Parts, name ∈ parts.varNames →
    name ∈ parts.shadowed
  | .nil, h => by cases h
  | .token _ rest, h => Parts.varNames_shadowed rest h
  | .child field node rest, h => by
    rw [Parts.shadowed_child, List.mem_append]
    rcases List.mem_append.mp h with h | h
    · exact .inl (Node.varNames_shadowed node h)
    · exact .inr (Parts.varNames_shadowed rest h)
  | .shorthand _ _ _ _ rest, h =>
    List.mem_append_right _ (Parts.varNames_shadowed rest h)

end

/-! ## Bindings in sight -/

theorem mem_bindings {form : Form} {names : List Text} {b : Binding} :
    b ∈ bindings form names ↔ b.form = form ∧ b.name ∈ names := by
  rw [bindings, List.mem_map]
  constructor
  · rintro ⟨name, hname, rfl⟩
    exact ⟨rfl, hname⟩
  · rintro ⟨rfl, h⟩
    exact ⟨b.name, h, rfl⟩

theorem Node.lexicalBindings_shadowed {node : Node} {b : Binding} (hb : b ∈ node.lexicalBindings)
    (hwalked : b.form.isWalked = true) : b.name ∈ shadowed node := by
  have hid : ∀ {form : Form} {type : NodeType} {start stop : Nat} {parts : Parts},
      b ∈ bindings form (idNames parts) →
      (Node.mk type start stop parts).dropped = idNames parts →
      b.name ∈ shadowed (.mk type start stop parts) := fun hb hdropped =>
    mem_shadowed_self (hdropped ▸ (mem_bindings.mp hb).2)
  rw [Node.lexicalBindings.eq_def] at hb
  split at hb
  · split at hb
    · cases hb
    · exact mem_shadowed_mk.mpr (.inr (declarations_shadowed (mem_bindings.mp hb).2))
  · exact hid hb rfl
  · exact hid hb rfl
  · rw [(mem_bindings.mp hb).1] at hwalked
    cases hwalked
  · rw [(mem_bindings.mp hb).1] at hwalked
    cases hwalked
  · rw [(mem_bindings.mp hb).1] at hwalked
    cases hwalked
  · rw [(mem_bindings.mp hb).1] at hwalked
    cases hwalked
  · cases hb

theorem lexicalBindings_shadowed_of_children {parts : Parts} {field : Field} {b : Binding}
    (hb : b ∈ (parts.children field).flatMap Node.lexicalBindings)
    (hwalked : b.form.isWalked = true) : b.name ∈ parts.shadowed := by
  obtain ⟨node, hnode, hb⟩ := List.mem_flatMap.mp hb
  exact mem_shadowed_of_child hnode (Node.lexicalBindings_shadowed hb hwalked)

theorem Node.statementBindings_shadowed {node : Node} {b : Binding}
    (hb : b ∈ node.statementBindings) (hwalked : b.form.isWalked = true) :
    b.name ∈ shadowed node := by
  rw [Node.statementBindings.eq_def] at hb
  split at hb
  · next parts =>
    obtain ⟨declaration, hdeclaration, hb⟩ := List.mem_flatMap.mp hb
    have hchild : parts.child? .declaration = some declaration :=
      Option.mem_toList.mp hdeclaration
    exact mem_shadowed_mk.mpr (.inr (mem_shadowed_of_child (Parts.mem_children_of_child? hchild)
      (Node.lexicalBindings_shadowed hb hwalked)))
  · exact Node.lexicalBindings_shadowed hb hwalked

theorem statementBindings_shadowed_of_children {parts : Parts} {field : Field} {b : Binding}
    (hb : b ∈ (parts.children field).flatMap Node.statementBindings)
    (hwalked : b.form.isWalked = true) : b.name ∈ parts.shadowed := by
  obtain ⟨node, hnode, hb⟩ := List.mem_flatMap.mp hb
  exact mem_shadowed_of_child hnode (Node.statementBindings_shadowed hb hwalked)

theorem caseBindings_shadowed {parts : Parts} {b : Binding}
    (hb : b ∈ (parts.children .cases).flatMap Node.caseBindings)
    (hwalked : b.form.isWalked = true) : b.name ∈ parts.shadowed := by
  obtain ⟨node, hnode, hb⟩ := List.mem_flatMap.mp hb
  refine mem_shadowed_of_child hnode ?_
  cases node with
  | mk type start stop parts =>
    exact mem_shadowed_mk.mpr (.inr (statementBindings_shadowed_of_children hb hwalked))
  | callExpression start stop head arguments => cases hb

theorem hoisted_shadowed {parts : Parts} {b : Binding} (hb : b ∈ hoisted parts) :
    b.name ∈ parts.shadowed := by
  obtain ⟨-, hb⟩ := mem_bindings.mp hb
  obtain ⟨node, hnode, hb⟩ := List.mem_flatMap.mp hb
  exact mem_shadowed_of_child hnode (Node.varNames_shadowed node hb)

theorem functionBindings_shadowed {form : Form} {parts : Parts} {field : Field} {b : Binding}
    (hb : b ∈ functionBindings form parts field) :
    b.form = form ∧ b.name ∈ (parts.children .params).flatMap Node.identifiers ∨
      b.name ∈ parts.shadowed := by
  rcases List.mem_append.mp hb with hb | hb
  · obtain ⟨hform, hb⟩ := mem_bindings.mp hb
    obtain ⟨param, hparam, hb⟩ := List.mem_flatMap.mp hb
    exact .inl ⟨hform,
      List.mem_flatMap.mpr ⟨param, hparam, Node.mem_identifiers_of_patternNames hb⟩⟩
  · split at hb
    · exact .inr (hoisted_shadowed hb)
    · cases hb

/-- What the walk drops of the names that a node binds for its parts: those of the forms it looks
at. -/
theorem NodeType.binds_shadowed {type : NodeType} {start stop : Nat} {parts : Parts}
    {field : Field} {b : Binding} (hb : b ∈ type.binds parts field)
    (hwalked : b.form.isWalked = true) : b.name ∈ shadowed (.mk type start stop parts) := by
  have hmissed : ∀ {form : Form} {names : List Text}, form.isWalked = false →
      b ∉ bindings form names := fun hform hb => by
    rw [(mem_bindings.mp hb).1, hform] at hwalked
    cases hwalked
  rw [mem_shadowed_mk]
  rw [NodeType.binds.eq_def] at hb
  split at hb
  -- the parameters of a declaration are not looked at, but the variables of its body are
  · rcases functionBindings_shadowed hb with ⟨hform, -⟩ | hb
    · rw [hform] at hwalked
      cases hwalked
    · exact .inr hb
  · rcases List.mem_append.mp hb with hb | hb
    · exact absurd hb (hmissed rfl)
    rcases functionBindings_shadowed hb with ⟨-, hb⟩ | hb
    · exact .inl hb
    · exact .inr hb
  · rcases functionBindings_shadowed hb with ⟨-, hb⟩ | hb
    · exact .inl hb
    · exact .inr hb
  · split at hb
    · exact .inl (mem_bindings.mp hb).2
    · cases hb
  · split at hb
    · exact absurd hb (hmissed rfl)
    · cases hb
  · rcases List.mem_append.mp hb with hb | hb
    · exact .inr (hoisted_shadowed hb)
    · exact .inr (statementBindings_shadowed_of_children hb hwalked)
  · rcases List.mem_append.mp hb with hb | hb
    · exact .inr (hoisted_shadowed hb)
    · exact .inr (statementBindings_shadowed_of_children hb hwalked)
  · exact .inr (statementBindings_shadowed_of_children hb hwalked)
  · exact .inr (lexicalBindings_shadowed_of_children hb hwalked)
  · exact .inr (lexicalBindings_shadowed_of_children hb hwalked)
  · exact .inr (lexicalBindings_shadowed_of_children hb hwalked)
  · split at hb
    · exact .inr (caseBindings_shadowed hb hwalked)
    · cases hb
  · exact absurd hb (hmissed rfl)
  · cases hb

mutual

/-- A name that a form the walk looks at binds around a node is dropped. -/
theorem Node.scoped_shadowed {scope' : Scope} {visit : Node} {b : Binding} (hb : b ∈ scope')
    (hwalked : b.form.isWalked = true) : ∀ (node : Node) (scope : Scope),
    (scope', visit) ∈ node.scoped scope → b ∈ scope ∨ b.name ∈ shadowed node
  | .callExpression start stop head arguments, scope, h => by
    rw [shadowed_callExpression, List.mem_append]
    rcases List.mem_cons.mp h with h | h
    · cases h
      exact .inl hb
    rcases List.mem_append.mp h with h | h
    · rcases Parts.scopedBy_shadowed hb hwalked head _ h with ⟨-, hscope⟩ | h
      · exact .inl hscope
      · exact .inr (.inl h)
    · rcases Parts.scopedBy_shadowed hb hwalked arguments _ h with ⟨-, hscope⟩ | h
      · exact .inl hscope
      · exact .inr (.inr h)
  | .mk type start stop parts, scope, h => by
    rcases List.mem_cons.mp h with h | h
    · cases h
      exact .inl hb
    · rcases Parts.scopedBy_shadowed hb hwalked parts _ h with ⟨field, hscope⟩ | h
      · rcases List.mem_append.mp hscope with hscope | hscope
        · exact .inr (NodeType.binds_shadowed hscope hwalked)
        · exact .inl hscope
      · exact .inr (mem_shadowed_mk.mpr (.inr h))

theorem Parts.scopedBy_shadowed {scope' : Scope} {visit : Node} {b : Binding} (hb : b ∈ scope')
    (hwalked : b.form.isWalked = true) : ∀ (parts : Parts) (scopeOf : Field → Scope),
    (scope', visit) ∈ parts.scopedBy scopeOf →
      (∃ field, b ∈ scopeOf field) ∨ b.name ∈ parts.shadowed
  | .nil, _, h => absurd h List.not_mem_nil
  | .token _ rest, scopeOf, h => Parts.scopedBy_shadowed hb hwalked rest scopeOf h
  | .child field node rest, scopeOf, h => by
    rw [Parts.shadowed_child, List.mem_append]
    rcases List.mem_append.mp h with h | h
    · rcases Node.scoped_shadowed hb hwalked node _ h with hscope | h
      · exact .inl ⟨field, hscope⟩
      · exact .inr (.inl h)
    · rcases Parts.scopedBy_shadowed hb hwalked rest scopeOf h with hscope | h
      · exact .inl hscope
      · exact .inr (.inr h)
  | .shorthand field _ _ _ rest, scopeOf, h => by
    rcases List.mem_cons.mp h with h | h
    · cases h
      exact .inl ⟨field, hb⟩
    · rcases Parts.scopedBy_shadowed hb hwalked rest scopeOf h with hscope | h
      · exact .inl hscope
      · exact .inr (List.mem_append_right _ h)

end

/-! ## Every call has a scope -/

mutual

theorem Node.mem_visits_of_calls {call : Node} : ∀ node : Node, call ∈ node.calls →
    call ∈ node.visits
  | .mk _ _ _ parts, h => List.mem_cons_of_mem _ (Parts.mem_visits_of_calls parts h)
  | .callExpression _ _ head arguments, h => by
    rcases List.mem_append.mp h with h | h
    · rcases List.mem_append.mp h with h | h
      · exact List.mem_cons_of_mem _
          (List.mem_append_left _ (Parts.mem_visits_of_calls head h))
      · exact List.mem_cons_of_mem _
          (List.mem_append_right _ (Parts.mem_visits_of_calls arguments h))
    · rw [List.mem_singleton.mp h]
      exact List.mem_cons_self

theorem Parts.mem_visits_of_calls {call : Node} : ∀ parts : Parts, call ∈ parts.calls →
    call ∈ parts.visits
  | .nil, h => absurd h List.not_mem_nil
  | .token _ rest, h => Parts.mem_visits_of_calls rest h
  | .child _ node rest, h => by
    rcases List.mem_append.mp h with h | h
    · exact List.mem_append_left _ (Node.mem_visits_of_calls node h)
    · exact List.mem_append_right _ (Parts.mem_visits_of_calls rest h)
  | .shorthand _ _ _ _ rest, h => List.mem_cons_of_mem _ (Parts.mem_visits_of_calls rest h)

end

mutual

theorem Node.exists_scope {visit : Node} : ∀ (node : Node) (scope : Scope),
    visit ∈ node.visits → ∃ scope', (scope', visit) ∈ node.scoped scope
  | .callExpression start stop head arguments, scope, h => by
    rcases List.mem_cons.mp h with rfl | h
    · exact ⟨scope, List.mem_cons_self⟩
    rcases List.mem_append.mp h with h | h
    · obtain ⟨scope', h⟩ := Parts.exists_scope head (fun _ => scope) h
      exact ⟨scope', List.mem_cons_of_mem _ (List.mem_append_left _ h)⟩
    · obtain ⟨scope', h⟩ := Parts.exists_scope arguments (fun _ => scope) h
      exact ⟨scope', List.mem_cons_of_mem _ (List.mem_append_right _ h)⟩
  | .mk type start stop parts, scope, h => by
    rcases List.mem_cons.mp h with rfl | h
    · exact ⟨scope, List.mem_cons_self⟩
    · obtain ⟨scope', h⟩ :=
        Parts.exists_scope parts (fun field => type.binds parts field ++ scope) h
      exact ⟨scope', List.mem_cons_of_mem _ h⟩

theorem Parts.exists_scope {visit : Node} : ∀ (parts : Parts) (scopeOf : Field → Scope),
    visit ∈ parts.visits → ∃ scope', (scope', visit) ∈ parts.scopedBy scopeOf
  | .nil, _, h => absurd h List.not_mem_nil
  | .token _ rest, scopeOf, h => Parts.exists_scope rest scopeOf h
  | .child field node rest, scopeOf, h => by
    rcases List.mem_append.mp h with h | h
    · obtain ⟨scope', h⟩ := Node.exists_scope node (scopeOf field) h
      exact ⟨scope', List.mem_append_left _ h⟩
    · obtain ⟨scope', h⟩ := Parts.exists_scope rest scopeOf h
      exact ⟨scope', List.mem_append_right _ h⟩
  | .shorthand field _ _ _ rest, scopeOf, h => by
    rcases List.mem_cons.mp h with rfl | h
    · exact ⟨scopeOf field, List.mem_cons_self⟩
    · obtain ⟨scope', h⟩ := Parts.exists_scope rest scopeOf h
      exact ⟨scope', List.mem_cons_of_mem _ h⟩

end

end Neemata.Labels
