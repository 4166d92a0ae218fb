import Neemata.Labels.Estree
import Neemata.Lib.Insertions
import Mathlib.Data.List.Pairwise

/-!
# Calls with more arguments

`extend` gives the calls of a tree further arguments and leaves the rest of it as it is. The text of
the extended tree is the text of the tree with one edit for each of these calls, at its
`insertionPoint` (`Node.weave_text`); the calls of a tree have different such points
(`Node.calls_ordered`).
-/

namespace Neemata.Labels

open CodeUnits Insertions

namespace Parts

def append : Parts → Parts → Parts
  | .nil, more => more
  | .token text rest, more => .token text (rest.append more)
  | .child field node rest, more => .child field node (rest.append more)
  | .shorthand field start stop name rest, more =>
    .shorthand field start stop name (rest.append more)

/-- The arguments of a list, with commas between them. -/
def separated : List Node → Parts
  | [] => .nil
  | [node] => .child .arguments node .nil
  | node :: nodes => .child .arguments node (.token (units ", ") (separated nodes))

/-- The parts with others after their last node, and after all of them if there is none. -/
def insertAfterLast : Parts → Parts → Parts
  | .nil, more => more
  | .token text rest, more => .token text (rest.insertAfterLast more)
  | .child field node rest, more =>
    if rest.nodes.isEmpty then .child field node (more.append rest)
    else .child field node (rest.insertAfterLast more)
  | .shorthand field start stop name rest, more =>
    .shorthand field start stop name (rest.insertAfterLast more)

/-- The arguments of a call with the new ones after its own. -/
def addArguments (parts : Parts) : List Node → Parts
  | [] => parts
  | nodes =>
    if parts.nodes.isEmpty then parts.insertAfterLast (separated nodes)
    else parts.insertAfterLast (.token (units ", ") (separated nodes))

end Parts

mutual

/-- The tree in which the call that ends at `stop` has the arguments `added stop` after its own. -/
def Node.extend (added : Nat → List Node) : Node → Node
  | .mk type start stop parts => .mk type start stop (parts.extend added)
  | .callExpression start stop head arguments =>
    .callExpression start stop (head.extend added)
      ((arguments.extend added).addArguments (added stop))

def Parts.extend (added : Nat → List Node) : Parts → Parts
  | .nil => .nil
  | .token text rest => .token text (rest.extend added)
  | .child field node rest => .child field (node.extend added) (rest.extend added)
  | .shorthand field start stop name rest =>
    .shorthand field start stop name (rest.extend added)

end

/-! ## The arguments of an extended call -/

namespace Parts

@[simp] theorem text_append (more : Parts) :
    ∀ parts : Parts, (parts.append more).text = parts.text ++ more.text
  | .nil => rfl
  | .token text rest => by
    rw [append, Parts.text, Parts.text, text_append more rest, List.append_assoc]
  | .child _ node rest => by
    rw [append, Parts.text, Parts.text, text_append more rest, List.append_assoc]
  | .shorthand _ _ _ _ rest => text_append more rest

@[simp] theorem nodes_append (more : Parts) :
    ∀ parts : Parts, (parts.append more).nodes = parts.nodes ++ more.nodes
  | .nil => rfl
  | .token _ rest => nodes_append more rest
  | .child _ node rest => congrArg (node :: ·) (nodes_append more rest)
  | .shorthand _ _ _ _ rest => nodes_append more rest

theorem text_separated : ∀ nodes : List Node,
    (separated nodes).text = (units ", ").intercalate (nodes.map Node.text)
  | [] => rfl
  | [node] => by
    rw [separated, Parts.text, Parts.text, List.map_singleton, List.intercalate_singleton,
      List.append_nil]
  | node :: node' :: nodes => by
    rw [separated, Parts.text, Parts.text, text_separated (node' :: nodes), List.map_cons,
      List.map_cons, List.map_cons, List.intercalate_cons_cons, List.append_assoc]
    exact List.cons_ne_nil _ _

@[simp] theorem nodes_separated : ∀ nodes : List Node, (separated nodes).nodes = nodes
  | [] => rfl
  | [_] => rfl
  | node :: node' :: nodes => congrArg (node :: ·) (nodes_separated (node' :: nodes))

theorem nodes_insertAfterLast (more : Parts) :
    ∀ parts : Parts, (parts.insertAfterLast more).nodes = parts.nodes ++ more.nodes
  | .nil => rfl
  | .token _ rest => nodes_insertAfterLast more rest
  | .child _ node rest => by
    rw [insertAfterLast]
    split
    · next hlast =>
      have hnil : rest.nodes = [] := List.isEmpty_iff.mp hlast
      rw [nodes, nodes, nodes_append, hnil, List.append_nil, List.singleton_append]
    · exact congrArg (node :: ·) (nodes_insertAfterLast more rest)
  | .shorthand _ _ _ _ rest => nodes_insertAfterLast more rest

@[simp] theorem nodes_addArguments (parts : Parts) (nodes : List Node) :
    (parts.addArguments nodes).nodes = parts.nodes ++ nodes := by
  cases nodes with
  | nil => exact (List.append_nil _).symm
  | cons node nodes =>
    rw [addArguments]
    split
    · rw [nodes_insertAfterLast, nodes_separated]
    · rw [nodes_insertAfterLast, Parts.nodes, nodes_separated]
    · exact List.cons_ne_nil node nodes

@[simp] theorem nodes_extend (added : Nat → List Node) :
    ∀ parts : Parts, (parts.extend added).nodes = parts.nodes.map (Node.extend added)
  | .nil => by rw [Parts.extend, nodes]; rfl
  | .token _ rest => by rw [Parts.extend, nodes, nodes, nodes_extend added rest]
  | .child _ node rest => by
    rw [Parts.extend, nodes, nodes, nodes_extend added rest, List.map_cons]
  | .shorthand _ _ _ _ rest => by rw [Parts.extend, nodes, nodes, nodes_extend added rest]

end Parts

/-- The own arguments of a call stay where they are, and the new ones follow them. -/
theorem Node.arguments_extend (added : Nat → List Node) {start stop : Nat}
    {head arguments : Parts} :
    (Node.extend added (.callExpression start stop head arguments)).arguments =
      arguments.nodes.map (Node.extend added) ++ added stop := by
  rw [Node.extend, Node.arguments, Parts.nodes_addArguments, Parts.nodes_extend]

/-! ## Where the new arguments go -/

namespace Node

/-- Behind the last argument of a call, or before its closing parenthesis. -/
def insertionPoint (call : Node) : Nat :=
  match call.arguments.getLast? with
  | none => call.stop - 1
  | some last => last.stop

theorem insertionPoint_of_empty {start stop : Nat} {head arguments : Parts}
    (h : arguments.nodes = []) :
    (callExpression start stop head arguments).insertionPoint = stop - 1 := by
  rw [insertionPoint, Node.arguments, h]
  rfl

theorem insertionPoint_of_last {start stop : Nat} {head arguments : Parts} {last : Node}
    (h : arguments.nodes.getLast? = some last) :
    (callExpression start stop head arguments).insertionPoint = last.stop := by
  rw [insertionPoint, Node.arguments, h]

theorem Placed.stop_eq {node : Node} {i : Nat} (H : node.Placed i) :
    node.stop = i + node.text.length := by
  cases node with
  | mk type start stop parts => exact H.2.1
  | callExpression start stop head arguments =>
    refine H.2.1.trans ?_
    simp only [text, List.length_append, List.length_cons, List.length_nil]
    omega

end Node

namespace Parts

theorem nodes_within : ∀ (parts : Parts) (i : Nat), parts.Placed i →
    ∀ node ∈ parts.nodes, i ≤ node.stop ∧ node.stop ≤ i + parts.text.length
  | .nil, _, _, _, hnode => absurd hnode List.not_mem_nil
  | .token text rest, i, H, node, hnode => by
    have := nodes_within rest (i + text.length) H node hnode
    rw [Parts.text, List.length_append]
    omega
  | .child _ first rest, i, ⟨hfirst, hrest⟩, node, hnode => by
    rw [Parts.text, List.length_append]
    rcases List.mem_cons.mp hnode with rfl | hnode
    · have := hfirst.stop_eq
      omega
    · have := nodes_within rest (i + first.text.length) hrest node hnode
      omega
  | .shorthand _ _ _ _ rest, i, H, node, hnode => nodes_within rest i H node hnode

/-- The last of the nodes is the first one, if no other follows, or the last of the others. -/
theorem getLast?_nodes_child {field : Field} {node last : Node} {rest : Parts}
    (h : (Parts.child field node rest).nodes.getLast? = some last) :
    rest.nodes = [] ∧ last = node ∨ rest.nodes.getLast? = some last := by
  rw [nodes, List.getLast?_cons] at h
  cases hrest : rest.nodes.getLast? with
  | none =>
    rw [hrest] at h
    cases h
    exact .inl ⟨List.getLast?_eq_none_iff.mp hrest, rfl⟩
  | some last' =>
    rw [hrest] at h
    cases h
    exact .inr rfl

theorem calls_eq_nil : ∀ (parts : Parts), parts.nodes = [] → parts.calls = []
  | .nil, _ => rfl
  | .token _ rest, h => calls_eq_nil rest h
  | .child _ _ _, h => absurd h (List.cons_ne_nil _ _)
  | .shorthand _ _ _ _ rest, h => calls_eq_nil rest h

end Parts

/-- The arguments of a call begin before its insertion point. -/
theorem Parts.lt_insertionPoint {start stop i : Nat} {head arguments : Parts}
    (harguments : arguments.Placed (i + 1))
    (hstop : stop = i + arguments.text.length + 2) :
    i < (Node.callExpression start stop head arguments).insertionPoint := by
  cases hlast : arguments.nodes.getLast? with
  | none =>
    rw [Node.insertionPoint_of_empty (List.getLast?_eq_none_iff.mp hlast)]
    omega
  | some last =>
    have := Parts.nodes_within arguments _ harguments last (List.mem_of_getLast? hlast)
    rw [Node.insertionPoint_of_last hlast]
    omega

mutual

/-- A call begins before its insertion point, which is in it. -/
theorem Node.calls_within : ∀ (node : Node) (i : Nat), node.Placed i → ∀ call ∈ node.calls,
    i < call.insertionPoint ∧ call.insertionPoint < call.stop ∧
      call.stop ≤ i + node.text.length
  | .mk _ _ _ parts, i, H, call, hcall => Parts.calls_within parts i H.2.2 call hcall
  | .callExpression start stop head arguments, i, H, call, hcall => by
    have hself := Node.Placed.stop_eq H
    obtain ⟨-, -, hhead, harguments⟩ := H
    rw [Node.text, List.length_append, List.length_cons, List.length_append,
      List.length_singleton] at hself ⊢
    rw [Node.calls, List.mem_append, List.mem_append, List.mem_singleton] at hcall
    obtain (hcall | hcall) | rfl := hcall
    · have := Parts.calls_within head i hhead call hcall
      omega
    · have := Parts.calls_within arguments _ harguments call hcall
      omega
    · cases hlast : arguments.nodes.getLast? with
      | none =>
        have hnil : arguments.nodes = [] := List.getLast?_eq_none_iff.mp hlast
        rw [Node.insertionPoint_of_empty hnil]
        simp only [Node.stop] at hself ⊢
        omega
      | some last =>
        have := Parts.nodes_within arguments _ harguments last (List.mem_of_getLast? hlast)
        rw [Node.insertionPoint_of_last hlast]
        omega

theorem Parts.calls_within : ∀ (parts : Parts) (i : Nat), parts.Placed i → ∀ call ∈ parts.calls,
    i < call.insertionPoint ∧ call.insertionPoint < call.stop ∧
      call.stop ≤ i + parts.text.length
  | .nil, _, _, _, hcall => absurd hcall List.not_mem_nil
  | .token text rest, i, H, call, hcall => by
    have := Parts.calls_within rest (i + text.length) H call hcall
    rw [Parts.text, List.length_append]
    omega
  | .child _ node rest, i, ⟨hnode, hrest⟩, call, hcall => by
    rw [Parts.text, List.length_append]
    rcases List.mem_append.mp hcall with hcall | hcall
    · have := Node.calls_within node i hnode call hcall
      omega
    · have := Parts.calls_within rest (i + node.text.length) hrest call hcall
      omega
  | .shorthand _ _ _ _ rest, i, H, call, hcall => Parts.calls_within rest i H call hcall

end

theorem Parts.calls_before_last : ∀ (parts : Parts) (i : Nat), parts.Placed i →
    ∀ call ∈ parts.calls, ∀ last, parts.nodes.getLast? = some last → call.stop ≤ last.stop
  | .nil, _, _, _, hcall, _, _ => absurd hcall List.not_mem_nil
  | .token text rest, i, H, call, hcall, last, hlast =>
    Parts.calls_before_last rest (i + text.length) H call hcall last hlast
  | .child _ node rest, i, ⟨hnode, hrest⟩, call, hcall, last, hlast => by
    rcases List.mem_append.mp hcall with hcall | hcall
    · have hcall := (Node.calls_within node i hnode call hcall).2.2
      rw [← hnode.stop_eq] at hcall
      rcases Parts.getLast?_nodes_child hlast with ⟨-, rfl⟩ | hlast
      · exact hcall
      · have := Parts.nodes_within rest _ hrest last (List.mem_of_getLast? hlast)
        have := hnode.stop_eq
        omega
    · rcases Parts.getLast?_nodes_child hlast with ⟨hnil, -⟩ | hlast
      · rw [Parts.calls_eq_nil rest hnil] at hcall
        exact absurd hcall List.not_mem_nil
      · exact Parts.calls_before_last rest _ hrest call hcall last hlast
  | .shorthand _ _ _ _ rest, i, H, call, hcall, last, hlast =>
    Parts.calls_before_last rest i H call hcall last hlast

mutual

/-- Of two calls the one that comes first in `calls` ends before the insertion point of the
other. -/
theorem Node.calls_ordered : ∀ (node : Node) (i : Nat), node.Placed i →
    node.calls.Pairwise (·.stop ≤ ·.insertionPoint)
  | .mk _ _ _ parts, i, H => Parts.calls_ordered parts i H.2.2
  | .callExpression start stop head arguments, i, H => by
    obtain ⟨hstart, hstop, hhead, harguments⟩ := H
    rw [Node.calls, List.pairwise_append, List.pairwise_append]
    refine ⟨⟨Parts.calls_ordered head i hhead, Parts.calls_ordered arguments _ harguments,
      fun a ha b hb => ?_⟩, List.pairwise_singleton _ _, fun a ha b hb => ?_⟩
    · have := Parts.calls_within head i hhead a ha
      have := Parts.calls_within arguments _ harguments b hb
      omega
    · rw [List.mem_singleton] at hb
      subst hb
      cases hlast : arguments.nodes.getLast? with
      | none =>
        have hnil : arguments.nodes = [] := List.getLast?_eq_none_iff.mp hlast
        rw [Parts.calls_eq_nil arguments hnil, List.append_nil] at ha
        have := Parts.calls_within head i hhead a ha
        rw [Node.insertionPoint_of_empty hnil]
        omega
      | some last =>
        rw [Node.insertionPoint_of_last hlast]
        rcases List.mem_append.mp ha with ha | ha
        · have := Parts.calls_within head i hhead a ha
          have := Parts.nodes_within arguments _ harguments last (List.mem_of_getLast? hlast)
          omega
        · exact Parts.calls_before_last arguments _ harguments a ha last hlast

theorem Parts.calls_ordered : ∀ (parts : Parts) (i : Nat), parts.Placed i →
    parts.calls.Pairwise (·.stop ≤ ·.insertionPoint)
  | .nil, _, _ => List.Pairwise.nil
  | .token text rest, i, H => Parts.calls_ordered rest (i + text.length) H
  | .child _ node rest, i, ⟨hnode, hrest⟩ => by
    rw [Parts.calls, List.pairwise_append]
    refine ⟨Node.calls_ordered node i hnode, Parts.calls_ordered rest _ hrest,
      fun a ha b hb => ?_⟩
    have := Node.calls_within node i hnode a ha
    have := Parts.calls_within rest _ hrest b hb
    omega
  | .shorthand _ _ _ _ rest, i, H => Parts.calls_ordered rest i H

end

/-- Two calls have different insertion points and ends. -/
theorem Parts.calls_apart {parts : Parts} {i : Nat} (H : parts.Placed i) {a b : Node}
    (ha : a ∈ parts.calls) (hb : b ∈ parts.calls) (hne : a ≠ b) :
    a.insertionPoint ≠ b.insertionPoint ∧ a.stop ≠ b.stop := by
  have hordered : parts.calls.Pairwise fun a b =>
      a.stop ≤ b.insertionPoint ∨ b.stop ≤ a.insertionPoint :=
    (Parts.calls_ordered parts i H).imp fun h => .inl h
  have hsymm : Std.Symm fun a b : Node =>
      a.stop ≤ b.insertionPoint ∨ b.stop ≤ a.insertionPoint := ⟨fun _ _ h => h.symm⟩
  have := hordered.forall ha hb hne
  have := Parts.calls_within parts i H a ha
  have := Parts.calls_within parts i H b hb
  omega

/-! ## The text of an extended tree -/

/-- The edit that gives a call its new arguments. -/
def Node.edit (added : Nat → List Node) (call : Node) : List (Edit UInt16) :=
  if (added call.stop).isEmpty then []
  else if call.arguments.isEmpty then
    [⟨call.insertionPoint, (Parts.separated (added call.stop)).text⟩]
  else [⟨call.insertionPoint, units ", " ++ (Parts.separated (added call.stop)).text⟩]

section

variable (added : Nat → List Node)

theorem Node.edit_of_nil {start stop : Nat} {head arguments : Parts} (h : added stop = []) :
    Node.edit added (.callExpression start stop head arguments) = [] := by
  rw [Node.edit, Node.stop, h, if_pos List.isEmpty_nil]

theorem Node.edit_of_empty {start stop : Nat} {head arguments : Parts}
    (hnil : arguments.nodes = []) (h : added stop ≠ []) :
    Node.edit added (.callExpression start stop head arguments) =
      [⟨stop - 1, (Parts.separated (added stop)).text⟩] := by
  rw [Node.edit, Node.stop, if_neg fun hadded => h (List.isEmpty_iff.mp hadded),
    Node.insertionPoint_of_empty hnil, Node.arguments, if_pos (List.isEmpty_iff.mpr hnil)]

theorem Node.edit_of_last {start stop : Nat} {head arguments : Parts} {last : Node}
    (hlast : arguments.nodes.getLast? = some last) (h : added stop ≠ []) :
    Node.edit added (.callExpression start stop head arguments) =
      [⟨last.stop, (Parts.token (units ", ") (Parts.separated (added stop))).text⟩] := by
  have hne : ¬ arguments.nodes.isEmpty = true := by
    rw [List.isEmpty_iff]
    rintro hnil
    rw [hnil] at hlast
    cases hlast
  rw [Node.edit, Node.stop, if_neg fun hadded => h (List.isEmpty_iff.mp hadded),
    Node.insertionPoint_of_last hlast, Node.arguments, if_neg hne, Parts.text]

theorem Parts.addArguments_of_empty {parts : Parts} {nodes : List Node} (hnil : parts.nodes = [])
    (h : nodes ≠ []) : parts.addArguments nodes = parts.insertAfterLast (separated nodes) := by
  rw [Parts.addArguments, if_pos (List.isEmpty_iff.mpr hnil)]
  exact h

theorem Parts.addArguments_of_ne_nil {parts : Parts} {nodes : List Node} (hne : parts.nodes ≠ [])
    (h : nodes ≠ []) :
    parts.addArguments nodes = parts.insertAfterLast (.token (units ", ") (separated nodes)) := by
  rw [Parts.addArguments, if_neg fun hnil => hne (List.isEmpty_iff.mp hnil)]
  exact h

def Node.edits (node : Node) : List (Edit UInt16) := node.calls.flatMap (Node.edit added)

def Parts.edits (parts : Parts) : List (Edit UInt16) := parts.calls.flatMap (Node.edit added)

theorem offset_of_mem_edit {call : Node} {e : Edit UInt16} (he : e ∈ Node.edit added call) :
    e.offset = call.insertionPoint := by
  rw [Node.edit] at he
  split at he
  · exact absurd he List.not_mem_nil
  split at he
  · rw [List.mem_singleton.mp he]
  · rw [List.mem_singleton.mp he]

theorem Node.edit_pairwise (call : Node) {R : Edit UInt16 → Edit UInt16 → Prop} :
    (Node.edit added call).Pairwise R := by
  rw [Node.edit]
  split
  · exact List.Pairwise.nil
  split
  · exact List.pairwise_singleton _ _
  · exact List.pairwise_singleton _ _

/-- The edits for the calls of a tree have different offsets. -/
theorem Parts.edits_pairwise {parts : Parts} {i : Nat} (H : parts.Placed i) :
    (parts.edits added).Pairwise (·.offset ≠ ·.offset) := by
  rw [Parts.edits, List.pairwise_flatMap]
  refine ⟨fun call _ => Node.edit_pairwise added call, ?_⟩
  refine (Parts.calls_ordered parts i H).imp_of_mem fun {a b} ha hb h e he e' he' => ?_
  rw [offset_of_mem_edit added he, offset_of_mem_edit added he']
  have := Parts.calls_within parts i H a ha
  omega

theorem Node.edits_within (node : Node) {i : Nat} (H : node.Placed i) {e : Edit UInt16}
    (he : e ∈ node.edits added) : i < e.offset ∧ e.offset < i + node.text.length := by
  obtain ⟨call, hcall, he⟩ := List.mem_flatMap.mp he
  rw [offset_of_mem_edit added he]
  have := node.calls_within i H call hcall
  omega

theorem Parts.edits_within (parts : Parts) {i : Nat} (H : parts.Placed i) {e : Edit UInt16}
    (he : e ∈ parts.edits added) : i < e.offset ∧ e.offset < i + parts.text.length := by
  obtain ⟨call, hcall, he⟩ := List.mem_flatMap.mp he
  rw [offset_of_mem_edit added he]
  have := parts.calls_within i H call hcall
  omega

theorem Parts.edits_child (field : Field) (node : Node) (rest : Parts) :
    (Parts.child field node rest).edits added = node.edits added ++ rest.edits added :=
  List.flatMap_append

theorem Parts.text_extend_of_nodes_nil : ∀ parts : Parts, parts.nodes = [] →
    (parts.extend added).text = parts.text
  | .nil, _ => by rw [Parts.extend]
  | .token _ rest, h => by
    rw [Parts.extend, Parts.text, Parts.text, Parts.text_extend_of_nodes_nil rest h]
  | .child _ _ _, h => absurd h (List.cons_ne_nil _ _)
  | .shorthand _ _ _ _ rest, h => by
    rw [Parts.extend, Parts.text, Parts.text, Parts.text_extend_of_nodes_nil rest h]

theorem Parts.text_insertAfterLast_of_nodes_nil (more : Parts) : ∀ parts : Parts,
    parts.nodes = [] → (parts.insertAfterLast more).text = parts.text ++ more.text
  | .nil, _ => rfl
  | .token _ rest, h => by
    rw [Parts.insertAfterLast, Parts.text, Parts.text,
      Parts.text_insertAfterLast_of_nodes_nil more rest h, List.append_assoc]
  | .child _ _ _, h => absurd h (List.cons_ne_nil _ _)
  | .shorthand _ _ _ _ rest, h => Parts.text_insertAfterLast_of_nodes_nil more rest h

variable (f : Nat → Text)

/-- The arguments of a call and its closing parenthesis, from what the edits make of arguments
without and with further ones. -/
theorem weave_addArguments {arguments head : Parts} {start stop i : Nat}
    (hstop : stop = i + arguments.text.length + 1)
    (hf : ∀ j, i ≤ j → j ≤ i + arguments.text.length →
      f j = contents (arguments.edits added ++
        Node.edit added (.callExpression start stop head arguments)) j)
    (H : arguments.Placed i)
    (hplain : (∀ j, i ≤ j → j < i + arguments.text.length →
        f j = contents (arguments.edits added) j) →
      weave f i arguments.text = (arguments.extend added).text)
    (hmore : ∀ more last, arguments.nodes.getLast? = some last →
      (∀ j, i ≤ j → j ≤ i + arguments.text.length →
        f j = contents (arguments.edits added ++ [⟨last.stop, more.text⟩]) j) →
      weave f i (arguments.text ++ [rightParen]) =
        ((arguments.extend added).insertAfterLast more).text ++ [rightParen]) :
    weave f i (arguments.text ++ [rightParen]) =
      ((arguments.extend added).addArguments (added stop)).text ++ [rightParen] := by
  by_cases hadded : added stop = []
  · rw [Node.edit_of_nil added hadded, List.append_nil] at hf
    have hparen : f (i + arguments.text.length) = [] := by
      rw [hf _ (by omega) (Nat.le_refl _)]
      refine contents_eq_nil fun e he => ?_
      have := Parts.edits_within added arguments H he
      omega
    rw [hadded, Parts.addArguments, weave_append, hplain fun j hj hlt => hf j hj (by omega),
      weave_cons, hparen]
    rfl
  cases hlast : arguments.nodes.getLast? with
  | none =>
    have hnil : arguments.nodes = [] := List.getLast?_eq_none_iff.mp hlast
    have hedits : arguments.edits added = [] := by
      rw [Parts.edits, Parts.calls_eq_nil arguments hnil]
      rfl
    have hextended : (arguments.extend added).nodes = [] := by
      rw [Parts.nodes_extend, hnil]
      rfl
    rw [hedits, Node.edit_of_empty added hnil hadded, List.nil_append] at hf
    have hat : f (i + arguments.text.length) = (Parts.separated (added stop)).text := by
      rw [hf _ (by omega) (Nat.le_refl _), show i + arguments.text.length = stop - 1 by omega]
      exact contents_singleton _
    rw [Parts.addArguments_of_empty hextended hadded, weave_append, weave_eq_self, weave_cons, hat,
      Parts.text_insertAfterLast_of_nodes_nil _ _ hextended,
      Parts.text_extend_of_nodes_nil added arguments hnil, weave_nil, List.append_assoc]
    intro j hj hlt
    rw [hf j hj (by omega)]
    refine contents_eq_nil fun e he => ?_
    rw [List.mem_singleton.mp he]
    dsimp only
    omega
  | some last =>
    have hne : (arguments.extend added).nodes ≠ [] := by
      rw [Parts.nodes_extend]
      rintro hnil
      rw [List.map_eq_nil_iff.mp hnil] at hlast
      cases hlast
    rw [Node.edit_of_last added hlast hadded] at hf
    rw [Parts.addArguments_of_ne_nil hne hadded]
    exact hmore _ last hlast hf

mutual

/-- What the edits of a node make of its text is the text of the extended node. -/
theorem Node.weave_text : ∀ (node : Node) (i : Nat), node.Placed i →
    (∀ j, i ≤ j → j < i + node.text.length → f j = contents (node.edits added) j) →
    weave f i node.text = (node.extend added).text
  | .mk type start stop parts, i, H, hf => by
    rw [Node.extend]
    exact Parts.weave_text parts i H.2.2 hf
  | .callExpression start stop head arguments, i, H, hf => by
    have hstop := H.2.1
    obtain ⟨-, -, hhead, harguments⟩ := H
    have hedits : Node.edits added (.callExpression start stop head arguments) =
        head.edits added ++ (arguments.edits added ++
          Node.edit added (.callExpression start stop head arguments)) := by
      rw [Node.edits, Node.calls, List.flatMap_append, List.flatMap_append, List.append_assoc,
        List.flatMap_singleton]
      rfl
    have hself : ∀ e ∈ Node.edit added (.callExpression start stop head arguments),
        i + head.text.length < e.offset := fun e he => by
      rw [offset_of_mem_edit added he]
      exact Parts.lt_insertionPoint harguments hstop
    rw [Node.text, List.length_append, List.length_cons, List.length_append,
      List.length_singleton, hedits] at hf
    have hfirst := Parts.weave_text head i hhead fun j hj hlt => by
      rw [hf j hj (by omega), contents_append_left]
      intro e he
      rcases List.mem_append.mp he with he | he
      · have := Parts.edits_within added arguments harguments he
        omega
      · have := hself e he
        omega
    have hparen : f (i + head.text.length) = [] := by
      rw [hf _ (by omega) (by omega)]
      refine contents_eq_nil fun e he => ?_
      rcases List.mem_append.mp he with he | he
      · have := Parts.edits_within added head hhead he
        omega
      rcases List.mem_append.mp he with he | he
      · have := Parts.edits_within added arguments harguments he
        omega
      · have := hself e he
        omega
    have hsecond : weave f (i + head.text.length + 1) (arguments.text ++ [rightParen]) =
        ((arguments.extend added).addArguments (added stop)).text ++ [rightParen] := by
      have hafter : ∀ j, i + head.text.length + 1 ≤ j →
          j ≤ i + head.text.length + 1 + arguments.text.length →
          f j = contents (arguments.edits added ++
            Node.edit added (.callExpression start stop head arguments)) j := fun j hj hle => by
        rw [hf j (by omega) (by omega), contents_append_right]
        intro e he
        have := Parts.edits_within added head hhead he
        omega
      exact weave_addArguments added f (by omega) hafter harguments
        (Parts.weave_text arguments _ harguments)
        fun more => Parts.weave_insertAfterLast more arguments _ harguments
    rw [Node.text, weave_append, weave_cons, hfirst, hparen, hsecond, Node.extend, Node.text]
    rfl

theorem Parts.weave_text : ∀ (parts : Parts) (i : Nat), parts.Placed i →
    (∀ j, i ≤ j → j < i + parts.text.length → f j = contents (parts.edits added) j) →
    weave f i parts.text = (parts.extend added).text
  | .nil, _, _, _ => by rw [Parts.extend]; rfl
  | .token text rest, i, H, hf => by
    rw [Parts.text, List.length_append] at hf
    have hrest := Parts.weave_text rest (i + text.length) H fun j hj hlt =>
      hf j (by omega) (by omega)
    have htext : weave f i text = text := weave_eq_self fun j hj hlt => by
      rw [hf j hj (by omega)]
      refine contents_eq_nil fun e he => ?_
      have := Parts.edits_within added rest H he
      omega
    rw [Parts.text, Parts.extend, Parts.text, weave_append, htext, hrest]
  | .child field node rest, i, ⟨hnode, hrest⟩, hf => by
    rw [Parts.text, List.length_append, Parts.edits_child] at hf
    have hfirst := Node.weave_text node i hnode fun j hj hlt => by
      rw [hf j hj (by omega), contents_append_left]
      intro e he
      have := Parts.edits_within added rest hrest he
      omega
    have hsecond := Parts.weave_text rest (i + node.text.length) hrest fun j hj hlt => by
      rw [hf j (by omega) (by omega), contents_append_right]
      intro e he
      have := Node.edits_within added node hnode he
      omega
    rw [Parts.text, Parts.extend, Parts.text, weave_append, hfirst, hsecond]
  | .shorthand _ _ _ _ rest, i, H, hf => by
    rw [Parts.extend]
    exact Parts.weave_text rest i H hf

/-- The same where further text goes in after the last of the nodes. -/
theorem Parts.weave_insertAfterLast (more : Parts) : ∀ (parts : Parts) (i : Nat),
    parts.Placed i → ∀ last, parts.nodes.getLast? = some last →
    (∀ j, i ≤ j → j ≤ i + parts.text.length →
      f j = contents (parts.edits added ++ [⟨last.stop, more.text⟩]) j) →
    weave f i (parts.text ++ [rightParen]) =
      ((parts.extend added).insertAfterLast more).text ++ [rightParen]
  | .nil, _, _, _, hlast, _ => by cases hlast
  | .token text rest, i, H, last, hlast, hf => by
    rw [Parts.text, List.length_append] at hf
    have hrest := Parts.weave_insertAfterLast more rest (i + text.length) H last hlast
      fun j hj hle => hf j (by omega) (by omega)
    have htext : weave f i text = text := weave_eq_self fun j hj hlt => by
      rw [hf j hj (by omega)]
      refine contents_eq_nil fun e he => ?_
      rcases List.mem_append.mp he with he | he
      · have := Parts.edits_within added rest H he
        omega
      · rw [List.mem_singleton.mp he]
        have := Parts.nodes_within rest _ H last (List.mem_of_getLast? hlast)
        dsimp only
        omega
    rw [Parts.text, Parts.extend, Parts.insertAfterLast, Parts.text, List.append_assoc,
      List.append_assoc, weave_append, htext, hrest]
  | .child field node rest, i, ⟨hnode, hrest⟩, last, hlast, hf => by
    rw [Parts.text, List.length_append, Parts.edits_child, List.append_assoc] at hf
    have hle : i + node.text.length ≤ last.stop := by
      rcases Parts.getLast?_nodes_child hlast with ⟨-, rfl⟩ | hlast
      · exact hnode.stop_eq.ge
      · exact (Parts.nodes_within rest _ hrest last (List.mem_of_getLast? hlast)).1
    have hfirst := Node.weave_text node i hnode fun j hj hlt => by
      rw [hf j hj (by omega), contents_append_left]
      intro e he
      rcases List.mem_append.mp he with he | he
      · have := Parts.edits_within added rest hrest he
        omega
      · rw [List.mem_singleton.mp he]
        dsimp only
        omega
    have hafter : ∀ j, i + node.text.length ≤ j → j ≤ i + node.text.length + rest.text.length →
        f j = contents (rest.edits added ++ [⟨last.stop, more.text⟩]) j := fun j hj hle => by
      rw [hf j (by omega) (by omega), contents_append_right]
      intro e he
      have := Node.edits_within added node hnode he
      omega
    rw [Parts.text, List.append_assoc, weave_append, hfirst, Parts.extend, Parts.insertAfterLast,
      Parts.nodes_extend, List.isEmpty_map]
    split
    · next hempty =>
      have hnil : rest.nodes = [] := List.isEmpty_iff.mp hempty
      have hcalls : rest.edits added = [] := by rw [Parts.edits, Parts.calls_eq_nil rest hnil]; rfl
      have hstop : last.stop = i + node.text.length := by
        rw [Parts.nodes, hnil] at hlast
        cases hlast
        exact hnode.stop_eq
      rw [hcalls, List.nil_append] at hafter
      have hsecond : weave f (i + node.text.length) (rest.text ++ [rightParen]) =
          more.text ++ (rest.text ++ [rightParen]) := by
        have hat : f (i + node.text.length) = more.text := by
          rw [hafter _ (Nat.le_refl _) (by omega), ← hstop]
          exact contents_singleton _
        rw [weave_eq_append (by simp), hat]
        intro j hj hlt
        rw [List.length_append, List.length_singleton] at hlt
        rw [hafter j (by omega) (by omega)]
        refine contents_eq_nil fun e he => ?_
        rw [List.mem_singleton.mp he]
        dsimp only
        omega
      rw [hsecond, Parts.text, Parts.text_append, Parts.text_extend_of_nodes_nil added rest hnil]
      simp only [List.append_assoc]
    · next hempty =>
      have hrestlast : rest.nodes.getLast? = some last :=
        (Parts.getLast?_nodes_child hlast).resolve_left fun hfirst =>
          hempty (List.isEmpty_iff.mpr hfirst.1)
      rw [Parts.weave_insertAfterLast more rest _ hrest last hrestlast hafter, Parts.text,
        List.append_assoc]
  | .shorthand _ _ _ _ rest, i, H, last, hlast, hf => by
    rw [Parts.extend]
    exact Parts.weave_insertAfterLast more rest i H last hlast hf

end

end

end Neemata.Labels
